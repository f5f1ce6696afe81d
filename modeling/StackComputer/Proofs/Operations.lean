import StackComputer.Proofs.StoreFile

/-! # Operations on a store

A creation binds an identifier of its own. Every other operation is about one computer: the record
of that computer decides it, and it leaves another record in its place or none. What is refused in
memory changes nothing; what is not is written.
-/

namespace StackComputer

namespace Store

def assign (s : Store) (id : String) (r? : Option Record) : Store :=
  { s with catalogue.records := match r? with
      | some r => s.catalogue.records.insert id r
      | none => s.catalogue.records.erase id }

theorem get?_assign (s : Store) (id : String) (r? : Option Record) (key : String) :
    (s.assign id r?).catalogue.records.get? key =
      if key = id then r? else s.catalogue.records.get? key := by
  cases r? with
  | some r => exact KeyMap.get?_insert _ _ _ _
  | none => exact KeyMap.get?_erase _ _ _

theorem record_assign_of_ne (s : Store) {id key : String} (h : key ≠ id) (r? : Option Record) :
    (s.assign id r?).record key = s.record key := by
  rw [record, record, get?_assign, if_neg h]

theorem load_assign (s : Store) (id : String) (r : Record) :
    (s.assign id (some r)).load id = r.toComputer := by
  rw [load, record, get?_assign, if_pos rfl]
  rfl

theorem load_assign_self (s : Store) (id : String) {c : Computer} (hc : c.Storable) :
    (s.assign id (some (.ofComputer id c))).load id = .ok (c.setPolicy .lenient) := by
  rw [load_assign]
  exact Record.toComputer_ofComputer hc.toSettled hc.capacity_le id

/-- A map has one representation, so the order of the two assignments cannot be seen in it. -/
theorem assign_comm (s : Store) {a b : String} (h : a ≠ b) (x? y? : Option Record) :
    (s.assign a x?).assign b y? = (s.assign b y?).assign a x? := by
  have hrecords : ((s.assign a x?).assign b y?).catalogue.records =
      ((s.assign b y?).assign a x?).catalogue.records := by
    apply KeyMap.ext_get?
    intro key
    rw [get?_assign, get?_assign, get?_assign, get?_assign]
    by_cases ha : key = a
    · rw [if_neg (ha ▸ h), if_pos ha, if_pos ha]
    · rw [if_neg ha, if_neg ha]
  exact congrArg (fun records => { s with catalogue.records := records }) hrecords

theorem inRange_assign {s : Store} (hs : s.catalogue.InRange) (id : String) {r? : Option Record}
    (hr : ∀ r, r? = some r → r.InRange) : (s.assign id r?).catalogue.InRange := by
  cases r? with
  | some r => exact hs.insert id (hr r rfl)
  | none => exact hs.erase id

theorem create_eq_ok {s : Store} {capacity : Nat} (hcap : capacity ≤ maxCapacity)
    (hid : s.catalogue.lastId + 1 < addressLimit) :
    s.create capacity = .ok (Catalogue.identifier (s.catalogue.lastId + 1))
      { s with catalogue := (s.catalogue.create capacity).2 } := by
  rw [create, if_neg (Nat.not_lt.mpr hcap), if_neg (Nat.not_le.mpr hid)]
  rfl

theorem create_cases (s : Store) (capacity : Nat) :
    (∃ fault, s.create capacity = .fail fault s ∧ ∀ f, fault ≠ .file f) ∨
      capacity ≤ maxCapacity ∧ s.catalogue.lastId + 1 < addressLimit ∧
        s.create capacity = .ok (Catalogue.identifier (s.catalogue.lastId + 1))
          { s with catalogue := (s.catalogue.create capacity).2 } := by
  unfold create
  split_ifs with hcap hid
  · exact .inl ⟨_, rfl, nofun⟩
  · exact .inl ⟨_, rfl, nofun⟩
  · exact .inr ⟨Nat.not_lt.mp hcap, Nat.not_le.mp hid, rfl⟩

theorem mem_entries_of_record {s : Store} {id : String} {r : Record} (h : s.record id = .ok r) :
    (id, r) ∈ s.catalogue.records.entries := by
  unfold record at h
  split at h
  · rename_i hr
    cases h
    exact KeyMap.get?_eq_some_iff.mp hr
  · cases h

theorem mem_ids_of_record {s : Store} {id : String} {r : Record} (h : s.record id = .ok r) :
    id ∈ s.ids :=
  List.mem_map.mpr ⟨(id, r), mem_entries_of_record h, rfl⟩

theorem ne_file_of_record {s : Store} {id : String} {fault : StoreFault}
    (h : s.record id = .error fault) (f : FileFault) : fault ≠ .file f := by
  unfold record at h
  split at h <;> cases h
  exact nofun

theorem exists_record_of_load {s : Store} {id : String} {c : Computer} (h : s.load id = .ok c) :
    ∃ r, s.record id = .ok r ∧ r.toComputer = .ok c := by
  cases hr : s.record id with
  | error fault =>
    rw [load, hr] at h
    cases h
  | ok r =>
    rw [load, hr] at h
    exact ⟨r, rfl, h⟩

theorem storable_of_load {s : Store} (hs : s.catalogue.InRange) {id : String} {c : Computer}
    (h : s.load id = .ok c) : c.Storable := by
  obtain ⟨r, hr, hc⟩ := exists_record_of_load h
  obtain ⟨hsettled, hcap, hpc, -⟩ := Record.toComputer_inv hc
  have hrange := hs.records _ (mem_entries_of_record hr)
  exact ⟨hsettled, hcap, hpc ▸ hrange.programCounter_lt⟩

theorem load_of_record_eq {s t : Store} {id : String} (h : t.record id = s.record id) :
    t.load id = s.load id := by
  rw [load, h]
  rfl

theorem save_of_not_found {s : Store} {id : String} {fault : StoreFault}
    (h : s.record id = .error fault) (c : Computer) : s.save id c = .fail fault s := by
  simp [save, h]

theorem save_of_record {s : Store} {id : String} {r : Record} (h : s.record id = .ok r)
    (c : Computer) : s.save id c = .ok () (s.assign id (some (.ofComputer id c))) := by
  rw [save, h]
  rfl

theorem remove_of_not_found {s : Store} {id : String} {fault : StoreFault}
    (h : s.record id = .error fault) : s.remove id = .fail fault s := by
  simp [remove, h]

theorem remove_of_record {s : Store} {id : String} {r : Record} (h : s.record id = .ok r) :
    s.remove id = .ok () (s.assign id none) := by
  rw [remove, h]
  rfl

section Update

variable {α : Type} {s : Store} {id : String} {c : Computer}
  {change : Computer → Outcome Computer Fault α}

theorem update_of_not_loaded {fault : StoreFault} (h : s.load id = .error fault) :
    s.update id change = .fail fault s := by
  simp [update, h]

theorem update_of_error {fault : Fault} (h : s.load id = .ok c)
    (hf : (change c).result = .error fault) :
    s.update id change = .fail (.machine fault) s (change c).events := by
  simp [update, h, hf]

theorem update_of_ok {value : α} (h : s.load id = .ok c) (hv : (change c).result = .ok value) :
    s.update id change = .ok (value, (change c).state)
      (s.assign id (some (.ofComputer id (change c).state))) (change c).events := by
  obtain ⟨r, hr, -⟩ := exists_record_of_load h
  simp [update, h, hv, save_of_record hr, Outcome.ok, Except.map]

end Update

theorem state_update {α : Type} (s : Store) (id : String)
    (change : Computer → Outcome Computer Fault α) :
    (s.update id change).state = s ∨ ∃ r, (s.update id change).state = s.assign id (some r) := by
  cases hl : s.load id with
  | error fault => exact .inl (by rw [update_of_not_loaded hl]; rfl)
  | ok c =>
    cases hr : (change c).result with
    | error fault => exact .inl (by rw [update_of_error hl hr]; rfl)
    | ok value => exact .inr ⟨.ofComputer id (change c).state, by rw [update_of_ok hl hr]; rfl⟩

theorem path_update {α : Type} (s : Store) (id : String)
    (change : Computer → Outcome Computer Fault α) : (s.update id change).state.path = s.path := by
  rcases s.state_update id change with hs | ⟨r, hs⟩
  · rw [hs]
  · rw [hs]
    rfl

theorem record_create_of_ne (s : Store) (capacity : Nat) {id : String}
    (h : id ≠ Catalogue.identifier (s.catalogue.lastId + 1)) :
    (s.create capacity).state.record id = s.record id ∧
      s.catalogue.lastId ≤ (s.create capacity).state.catalogue.lastId := by
  rcases s.create_cases capacity with ⟨fault, hs, -⟩ | ⟨-, -, hs⟩
  · rw [hs]
    exact ⟨rfl, Nat.le_refl _⟩
  · rw [hs]
    exact ⟨s.record_assign_of_ne h (some _), Nat.le_succ _⟩

theorem record_update_of_ne {α : Type} (s : Store) {id key : String} (h : id ≠ key)
    (change : Computer → Outcome Computer Fault α) :
    (s.update key change).state.record id = s.record id ∧
      s.catalogue.lastId ≤ (s.update key change).state.catalogue.lastId := by
  rcases s.state_update key change with hs | ⟨r, hs⟩
  · rw [hs]
    exact ⟨rfl, Nat.le_refl _⟩
  · rw [hs]
    exact ⟨s.record_assign_of_ne h (some r), Nat.le_refl _⟩

structure Orderly {α : Type} (s : Store) (o : Outcome Store StoreFault α) : Prop where
  path : o.state.path = s.path
  inRange : s.catalogue.InRange → o.state.catalogue.InRange

theorem orderly_create (s : Store) (capacity : Nat) : Orderly s (s.create capacity) := by
  rcases s.create_cases capacity with ⟨fault, hs, -⟩ | ⟨hcap, hid, hs⟩
  · rw [hs]
    exact ⟨rfl, fun hrange => hrange⟩
  · rw [hs]
    exact ⟨rfl, fun hrange => hrange.create hcap hid⟩

theorem orderly_update {α : Type} (s : Store) (id : String)
    {change : Computer → Outcome Computer Fault α}
    (hchange : ∀ c, c.Storable → (change c).state.InRange) : Orderly s (s.update id change) := by
  refine ⟨s.path_update id change, fun hs => ?_⟩
  cases hl : s.load id with
  | error fault =>
    rw [update_of_not_loaded hl]
    exact hs
  | ok c =>
    cases hr : (change c).result with
    | error fault =>
      rw [update_of_error hl hr]
      exact hs
    | ok value =>
      rw [update_of_ok hl hr]
      exact hs.insert id ((hchange c (storable_of_load hs hl)).record id)

def ended {α : Type} (o : Outcome (Store × Disk) StoreFault α) : Except StoreFault α × Store × Disk :=
  (o.result, o.state)

section Commit

variable {α : Type} {o : Outcome Store StoreFault α}

theorem commit_of_error {fault : StoreFault} (h : o.result = .error fault)
    (announce : α → List Event) (d : Disk) :
    (commit o announce d).result = .error fault ∧ (commit o announce d).state = (o.state, d) := by
  simp [commit, conclude, h, Outcome.fail]

theorem commit_of_ok {d d' : Disk} {value : α} {writing : Except FileFault Unit}
    (h : o.result = .ok value) (hf : o.state.flush d = (writing, d')) (announce : α → List Event) :
    (commit o announce d).result = (writing.map fun _ => value).mapError .file ∧
      (commit o announce d).state = (o.state, d') := by
  simp only [commit, h, hf, conclude]
  cases writing <;> exact ⟨rfl, rfl⟩

theorem state_commit (o : Outcome Store StoreFault α) (announce : α → List Event) (d : Disk) :
    (commit o announce d).state.1 = o.state := by
  cases hr : o.result with
  | error fault => rw [(commit_of_error hr announce d).2]
  | ok value => rw [(commit_of_ok hr rfl announce).2]

theorem ended_commit_of_error {fault : StoreFault} (h : o.result = .error fault)
    (announce : α → List Event) (d : Disk) :
    ended (commit o announce d) = (.error fault, o.state, d) := by
  obtain ⟨hresult, hstate⟩ := commit_of_error h announce d
  rw [ended, hresult, hstate]

theorem ended_commit_of_ok {d d' : Disk} {value : α} {writing : Except FileFault Unit}
    (h : o.result = .ok value) (hf : o.state.flush d = (writing, d')) (announce : α → List Event) :
    ended (commit o announce d) = ((writing.map fun _ => value).mapError .file, o.state, d') := by
  obtain ⟨hresult, hstate⟩ := commit_of_ok h hf announce
  rw [ended, hresult, hstate]

end Commit

/-- An operation on one computer of a store, by what it returns. The change of an update is any
function at all. -/
inductive Operation : Type → Type 1 where
  | load (id : String) : Operation Computer
  | save (id : String) (c : Computer) : Operation Unit
  | update {α : Type} (id : String) (change : Computer → Outcome Computer Fault α) :
      Operation (α × Computer)
  | remove (id : String) : Operation Unit

namespace Operation

variable {α : Type}

def id : Operation α → String
  | load id | save id _ | update id _ | remove id => id

def isMutating : Operation α → Bool
  | load _ => false
  | _ => true

def isRemoval : Operation α → Bool
  | remove _ => true
  | _ => false

/-- The numbers that an operation brings have 64 bits. The change of an update is made to computers
as the machine has them, and may leave changes behind where it fails. -/
def InRange : Operation α → Prop
  | load _ | remove _ => True
  | save _ c => c.InRange
  | update _ change => ∀ c, c.Storable → (change c).state.InRange

def perform (op : Operation α) (s : Store) (d : Disk) : Except StoreFault α × Store × Disk :=
  match op with
  | load id => (s.load id, s, d)
  | save id c => ended (s.saveOn d id c)
  | update id change => ended (s.updateOn d id change)
  | remove id => ended (s.removeOn d id)

inductive Plan (α : Type) where
  | answer (result : Except StoreFault α)
  | assign (value : α) (r? : Option Record)

def plan : Operation α → Except StoreFault Record → Plan α
  | load _, found => .answer (found.bind Record.toComputer)
  | save id c, .ok _ => .assign () (some (.ofComputer id c))
  | save _ _, .error fault => .answer (.error fault)
  | update id change, found =>
    match found.bind Record.toComputer with
    | .error fault => .answer (.error fault)
    | .ok c =>
      match (change c).result with
      | .error fault => .answer (.error (.machine fault))
      | .ok value => .assign (value, (change c).state) (some (.ofComputer id (change c).state))
  | remove _, .ok _ => .assign () none
  | remove _, .error fault => .answer (.error fault)

/-- An answer touches nothing; an assignment is made in memory, and then the whole store is
written. -/
def Plan.carryOut (p : Plan α) (id : String) (s : Store) (d : Disk) :
    Except StoreFault α × Store × Disk :=
  match p with
  | answer result => (result, s, d)
  | assign value r? =>
    let (writing, d') := (s.assign id r?).flush d
    ((writing.map fun _ => value).mapError .file, s.assign id r?, d')

theorem ended_commit_eq_carryOut {o : Outcome Store StoreFault α} {s : Store} {id : String}
    {value : α} {r? : Option Record} (h : o.result = .ok value) (hs : o.state = s.assign id r?)
    (announce : α → List Event) (d : Disk) :
    ended (commit o announce d) = (Plan.assign value r?).carryOut id s d := by
  rw [Plan.carryOut, ← hs]
  exact ended_commit_of_ok h rfl announce

/-- An operation is decided by the record of its computer, and touches no other. -/
theorem perform_eq_carryOut (op : Operation α) (s : Store) (d : Disk) :
    op.perform s d = (op.plan (s.record op.id)).carryOut op.id s d := by
  cases op with
  | load id => rfl
  | save id c =>
    change ended (commit (s.save id c) _ d) = _
    simp only [Operation.id]
    cases hr : s.record id with
    | error fault =>
      rw [save_of_not_found hr]
      exact ended_commit_of_error rfl _ d
    | ok r =>
      rw [save_of_record hr]
      exact ended_commit_eq_carryOut rfl rfl _ d
  | update id change =>
    change ended (commit (s.update id change) _ d) = _
    simp only [Operation.id, plan]
    cases hl : s.load id with
    | error fault =>
      rw [update_of_not_loaded hl, show (s.record id).bind Record.toComputer = _ from hl]
      exact ended_commit_of_error rfl _ d
    | ok c =>
      rw [show (s.record id).bind Record.toComputer = _ from hl]
      cases hc : (change c).result with
      | error fault =>
        rw [update_of_error hl hc]
        simp only [hc]
        exact ended_commit_of_error rfl _ d
      | ok value =>
        rw [update_of_ok hl hc]
        simp only [hc]
        exact ended_commit_eq_carryOut rfl rfl _ d
  | remove id =>
    change ended (commit (s.remove id) _ d) = _
    simp only [Operation.id]
    cases hr : s.record id with
    | error fault =>
      rw [remove_of_not_found hr]
      exact ended_commit_of_error rfl _ d
    | ok r =>
      rw [remove_of_record hr]
      exact ended_commit_eq_carryOut rfl rfl _ d

/-- An operation that touches nothing either looks only or has met a fault, and not the disk's. -/
theorem cases_of_answer {op : Operation α} {s : Store} {result : Except StoreFault α}
    (h : op.plan (s.record op.id) = .answer result) :
    op.isMutating = false ∧ (∃ value, result = .ok value) ∨
      ∃ fault, result = .error fault ∧ ∀ f, fault ≠ .file f := by
  cases hr : s.record op.id with
  | error fault =>
    rw [hr] at h
    have hresult : result = .error fault := by
      cases op <;> exact (Plan.answer.inj h).symm
    exact .inr ⟨fault, hresult, ne_file_of_record hr⟩
  | ok r =>
    rw [hr] at h
    cases op with
    | load id =>
      obtain rfl : r.toComputer = result := Plan.answer.inj h
      cases hc : r.toComputer with
      | error fault => exact .inr ⟨fault, rfl, fun f hf => r.toComputer_ne_file f (hf ▸ hc)⟩
      | ok c => exact .inl ⟨rfl, c, rfl⟩
    | save id c => cases h
    | update id change =>
      simp only [plan] at h
      split at h
      · rename_i fault hc
        cases h
        exact .inr ⟨fault, rfl, fun f hf => r.toComputer_ne_file f (hf ▸ hc)⟩
      · -- the record denotes a computer, so only the change can have failed
        split at h
        · cases h
          exact .inr ⟨_, rfl, nofun⟩
        · cases h
    | remove id => cases h

/-- An operation that touches its record has found one, and leaves none or that of a computer. -/
theorem cases_of_assign {op : Operation α} {found : Except StoreFault Record} {value : α}
    {r? : Option Record} (h : op.plan found = .assign value r?) :
    ∃ r, found = .ok r ∧
      (op.isRemoval = true ∧ r? = none ∨
        op.isRemoval = false ∧ ∃ c, r? = some (.ofComputer op.id c) ∧
          (op.InRange → (∀ c₀, r.toComputer = .ok c₀ → c₀.Storable) → c.InRange)) := by
  cases found with
  | error fault => cases op <;> cases h
  | ok r =>
    refine ⟨r, rfl, ?_⟩
    cases op with
    | load id => cases h
    | save id c =>
      cases h
      exact .inr ⟨rfl, c, rfl, fun hop _ => hop⟩
    | update id change =>
      simp only [plan] at h
      split at h
      · cases h
      · rename_i c hc
        split at h
        · cases h
        · cases h
          exact .inr ⟨rfl, (change c).state, rfl, fun hop hr => hop c (hr c hc)⟩
    | remove id =>
      cases h
      exact .inl ⟨rfl, rfl⟩

theorem inRange_of_assign {op : Operation α} (hop : op.InRange) {s : Store}
    (hs : s.catalogue.InRange) {value : α} {r? : Option Record}
    (h : op.plan (s.record op.id) = .assign value r?) :
    (s.assign op.id r?).catalogue.InRange := by
  apply inRange_assign hs
  rintro r' rfl
  obtain ⟨r, hr, ⟨-, hnone⟩ | ⟨-, c, hsome, hc⟩⟩ := cases_of_assign h
  · cases hnone
  · cases hsome
    have hfound : ∀ c₀, r.toComputer = .ok c₀ → c₀.Storable := by
      intro c₀ hc₀
      have hload : s.load op.id = .ok c₀ := by
        rw [Store.load, hr]
        exact hc₀
      exact storable_of_load hs hload
    exact (hc hop hfound).record _

end Operation

end Store

end StackComputer
