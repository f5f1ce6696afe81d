import StackComputer.Proofs.Operations

/-! # The computers of a store are independent

Every change writes the whole file, but it is decided by one record and replaces one record. Two
operations on different computers can therefore change places: each gives the result it gave, and
memory and disk end as they did.
-/

namespace StackComputer

namespace Store

namespace Operation

variable {α β : Type}

def Wrote (op : Operation α) (result : Except StoreFault α) : Prop :=
  op.isMutating = true ∧ ∃ value, result = .ok value

namespace Plan

variable {p : Plan α} {q : Plan β} {a b : String} {s s₁ s' : Store} {d d₁ d' : Disk}
  {x : Except StoreFault α} {y : Except StoreFault β}

theorem carryOut_of_flush {value : α} {r? : Option Record}
    (h : (s.assign a r?).flush d = (.ok (), d')) :
    (assign value r?).carryOut a s d = (.ok value, s.assign a r?, d') := by
  rw [carryOut, h]
  rfl

theorem flush_of_carryOut {value : α} {r? : Option Record}
    (h : (assign value r?).carryOut a s d = (x, s', d')) (hx : ∀ f, x ≠ .error (.file f)) :
    x = .ok value ∧ s' = s.assign a r? ∧ (s.assign a r?).flush d = (.ok (), d') := by
  rw [carryOut] at h
  cases hf : (s.assign a r?).flush d with
  | mk writing e =>
    rw [hf] at h
    cases writing with
    | error f =>
      cases h
      exact absurd rfl (hx f)
    | ok _ =>
      cases h
      exact ⟨rfl, rfl, rfl⟩

theorem record_of_carryOut (h : p.carryOut a s d = (x, s', d')) (hne : b ≠ a) :
    s'.record b = s.record b := by
  cases p with
  | answer result =>
    cases h
    rfl
  | assign value r? =>
    cases h
    exact s.record_assign_of_ne hne r?

theorem carryOut_comm (hne : a ≠ b) (hp : p.carryOut a s d = (x, s₁, d₁))
    (hq : q.carryOut b s₁ d₁ = (y, s', d')) (hx : ∀ f, x ≠ .error (.file f))
    (hy : ∀ f, y ≠ .error (.file f)) :
    ∃ s₂ d₂ d₃, q.carryOut b s d = (y, s₂, d₂) ∧ p.carryOut a s₂ d₂ = (x, s', d₃) ∧
      ∀ place, d₃.node? place = d'.node? place := by
  cases p with
  | answer result =>
    cases hp
    exact ⟨s', d', d', hq, rfl, fun _ => rfl⟩
  | assign value x? =>
    cases q with
    | answer result =>
      cases hq
      exact ⟨s, d, _, rfl, hp, fun _ => rfl⟩
    | assign value' y? =>
      obtain ⟨rfl, rfl, hflush₁⟩ := flush_of_carryOut hp hx
      obtain ⟨rfl, rfl, hflush⟩ := flush_of_carryOut hq hy
      -- the disk can take the other store as well, and then the last one
      have hpath : (s.assign b y?).path = (s.assign a x?).path := rfl
      obtain ⟨d₂, hflush₂, halike⟩ := flush_of_alike hpath (.refl d) hflush₁
      obtain ⟨d₃, hflush₃, -⟩ := flush_of_alike rfl halike hflush
      have hfiled := (filed_of_flush hflush₁).trans (by rfl) (filed_of_flush hflush)
      have hfiled' := (filed_of_flush hflush₂).trans (by rfl) (filed_of_flush hflush₃)
      refine ⟨s.assign b y?, d₂, d₃, ?_, ?_, hfiled'.node?_eq hfiled⟩
      · exact carryOut_of_flush hflush₂
      · rw [s.assign_comm hne] at hflush₃ ⊢
        exact carryOut_of_flush hflush₃

end Plan

/-- As long as the disk does not fail in the one order, it does not in the other. -/
theorem perform_comm {x : Operation α} {y : Operation β} {s s₁ s' : Store} {d d₁ d' : Disk}
    {rx : Except StoreFault α} {ry : Except StoreFault β} (hne : x.id ≠ y.id)
    (hx : x.perform s d = (rx, s₁, d₁)) (hy : y.perform s₁ d₁ = (ry, s', d'))
    (hrx : ∀ f, rx ≠ .error (.file f)) (hry : ∀ f, ry ≠ .error (.file f)) :
    ∃ s₂ d₂ d₃, y.perform s d = (ry, s₂, d₂) ∧ x.perform s₂ d₂ = (rx, s', d₃) ∧
      ∀ place, d₃.node? place = d'.node? place := by
  rw [perform_eq_carryOut] at hx hy
  rw [Plan.record_of_carryOut hx hne.symm] at hy
  obtain ⟨s₂, d₂, d₃, hy', hx', hdisk⟩ := Plan.carryOut_comm hne hx hy hrx hry
  refine ⟨s₂, d₂, d₃, ?_, ?_, hdisk⟩
  · rw [perform_eq_carryOut, hy']
  · rw [perform_eq_carryOut, Plan.record_of_carryOut hy' hne, hx']

variable {op : Operation α} {s s' : Store} {d d' : Disk} {result : Except StoreFault α}

theorem path_of_perform (h : op.perform s d = (result, s', d')) : s'.path = s.path := by
  rw [perform_eq_carryOut] at h
  cases hp : op.plan (s.record op.id) with
  | answer _ =>
    rw [hp] at h
    cases h
    rfl
  | assign value r? =>
    rw [hp] at h
    cases h
    rfl

theorem not_wrote_of_answer (h : op.plan (s.record op.id) = .answer result) :
    ¬ op.Wrote result := by
  rintro ⟨hmutating, value, rfl⟩
  rcases cases_of_answer h with ⟨hlooks, -⟩ | ⟨fault, hfault, -⟩
  · rw [hmutating] at hlooks
    cases hlooks
  · cases hfault

/-- After an operation that does not fail at the disk, the file holds the store if the operation has
written it or if it held the store before. -/
theorem content?_of_perform (h : op.perform s d = (result, s', d'))
    (hr : ∀ f, result ≠ .error (.file f))
    (hheld : op.Wrote result ∨ d.content? s.path = some (.text s.catalogue.text)) :
    d'.content? s'.path = some (.text s'.catalogue.text) := by
  rw [perform_eq_carryOut] at h
  cases hp : op.plan (s.record op.id) with
  | answer answer =>
    rw [hp] at h
    cases h
    exact hheld.resolve_left (not_wrote_of_answer hp)
  | assign value r? =>
    rw [hp] at h
    obtain ⟨-, rfl, hflush⟩ := Plan.flush_of_carryOut h hr
    exact content?_of_flush hflush

end Operation

end Store

open Store (Operation)

/-- Two operations on different computers of a store can change places, unless the disk fails in the
one order. In the other order each gives the same result, the store in memory is the same, and so is
the whole disk. If one of the two has written, the file holds that store after either order. -/
theorem operations_on_different_computers_commute {α β : Type} (x : Operation α) (y : Operation β)
    (hne : x.id ≠ y.id) {s s₁ s' : Store} {d d₁ d' : Disk} {rx : Except StoreFault α}
    {ry : Except StoreFault β} (hx : x.perform s d = (rx, s₁, d₁))
    (hy : y.perform s₁ d₁ = (ry, s', d')) (hrx : ∀ f, rx ≠ .error (.file f))
    (hry : ∀ f, ry ≠ .error (.file f)) :
    ∃ s₂ d₂ d₃, y.perform s d = (ry, s₂, d₂) ∧ x.perform s₂ d₂ = (rx, s', d₃) ∧
      (∀ place, d₃.node? place = d'.node? place) ∧
      (x.Wrote rx ∨ y.Wrote ry →
        d'.content? s.path = some (.text s'.catalogue.text) ∧
        d₃.content? s.path = some (.text s'.catalogue.text)) := by
  obtain ⟨s₂, d₂, d₃, hy', hx', hdisk⟩ := Operation.perform_comm hne hx hy hrx hry
  refine ⟨s₂, d₂, d₃, hy', hx', hdisk, ?_⟩
  have hpath : s'.path = s.path :=
    (Operation.path_of_perform hy).trans (Operation.path_of_perform hx)
  rw [← hpath]
  rintro (hwrote | hwrote)
  · have hheld := Operation.content?_of_perform hx hrx (.inl hwrote)
    exact ⟨Operation.content?_of_perform hy hry (.inr hheld),
      Operation.content?_of_perform hx' hrx (.inl hwrote)⟩
  · have hheld := Operation.content?_of_perform hy' hry (.inl hwrote)
    exact ⟨Operation.content?_of_perform hy hry (.inl hwrote),
      Operation.content?_of_perform hx' hrx (.inr hheld)⟩

/-- A computer is changed and another one removed. The one that is left is in the file, changed. -/
theorem operations_on_different_computers_commute_update_remove :
    let path := "computers.json"
    let s : Store := { path, catalogue := ((({} : Catalogue).create 5).2.create 9).2 }
    let x : Operation (Unit × Computer) := .update "0000001" (·.setAddress 3)
    let y : Operation Unit := .remove "0000002"
    let first := x.perform s .fresh
    let both := y.perform first.2.1 first.2.2
    both.2.1.ids = ["0000001"] ∧ ∃ s₂ d₂ d₃, y.perform s .fresh = (.ok (), s₂, d₂) ∧
      x.perform s₂ d₂ = (first.1, both.2.1, d₃) ∧
      both.2.2.content? path = some (.text both.2.1.catalogue.text) ∧
      d₃.content? path = some (.text both.2.1.catalogue.text) := by
  intro path s x y first both
  have hids : both.2.1.ids = ["0000001"] := by decide +kernel
  have hx : first.1.isOk = true := by decide +kernel
  have hy : both.1 = .ok () := by decide +kernel
  have hfirst : x.perform s .fresh = first := rfl
  have hboth : y.perform first.2.1 first.2.2 = both := rfl
  clear_value both first
  obtain ⟨s₂, d₂, d₃, hy', hx', -, hfile⟩ :=
    operations_on_different_computers_commute x y (show "0000001" ≠ "0000002" by decide) hfirst
      hboth (fun f h => by rw [h] at hx; cases hx) (fun f h => by rw [h] at hy; cases hy)
  rw [hy] at hy' hfile
  exact ⟨hids, s₂, d₂, d₃, hy', hx', hfile (.inr ⟨rfl, (), rfl⟩)⟩

end StackComputer
