import StackComputer.Proofs.Operations

/-! # A store in memory and on disk

A store takes calls one after another. After a change that succeeds its file holds what memory
holds; a refused call changes nothing at all; and where writing fails, the file is as it was.
-/

namespace StackComputer

/-- A call on an open store: a creation, or an operation on one computer that brings numbers of 64
bits only. -/
inductive Call : Type 1 where
  | create (capacity : Nat)
  | on {α : Type} (op : Store.Operation α) (inRange : op.InRange)

namespace Call

def isMutating : Call → Bool
  | create _ => true
  | on op _ => op.isMutating

def perform (call : Call) (s : Store) (d : Disk) : Except StoreFault Unit × Store × Disk :=
  match call with
  | create capacity => done (Store.ended (s.createOn d capacity))
  | on op _ => done (op.perform s d)
where
  done {α : Type} (after : Except StoreFault α × Store × Disk) :
      Except StoreFault Unit × Store × Disk :=
    (after.1.map fun _ => (), after.2)

def run (s : Store) (d : Disk) : List Call → Store × Disk
  | [] => (s, d)
  | call :: rest => run (call.perform s d).2.1 (call.perform s d).2.2 rest

inductive Changes (s : Store) : Call → Store → Prop where
  | create {capacity : Nat} : capacity ≤ maxCapacity → s.catalogue.lastId + 1 < addressLimit →
      Changes s (create capacity) { s with catalogue := (s.catalogue.create capacity).2 }
  | assign {α : Type} {op : Store.Operation α} {inRange : op.InRange} {value : α}
      {r? : Option Record} : op.plan (s.record op.id) = .assign value r? →
      Changes s (on op inRange) (s.assign op.id r?)

/-- How a call can end: it answers, it is refused, or it changes memory and then writes all of the
store or fails to. -/
inductive Ends (call : Call) (s : Store) (d : Disk) :
    Except StoreFault Unit × Store × Disk → Prop where
  | answered : call.isMutating = false → Ends call s d (.ok (), s, d)
  | refused {fault : StoreFault} : (∀ f, fault ≠ .file f) → Ends call s d (.error fault, s, d)
  | changed {s' : Store} {d' : Disk} {writing : Except FileFault Unit} : Changes s call s' →
      s'.flush d = (writing, d') → Ends call s d (writing.mapError .file, s', d')

theorem Changes.path {s s' : Store} {call : Call} (h : Changes s call s') : s'.path = s.path := by
  cases h with
  | create _ _ => rfl
  | assign _ => rfl

theorem Changes.inRange {s s' : Store} {call : Call} (h : Changes s call s')
    (hs : s.catalogue.InRange) : s'.catalogue.InRange := by
  cases h with
  | create hcap hid => exact hs.create hcap hid
  | @assign _ op hop _ _ hplan => exact op.inRange_of_assign hop hs hplan

theorem ends_create (capacity : Nat) (s : Store) (d : Disk) :
    (create capacity).Ends s d ((create capacity).perform s d) := by
  rw [perform, Store.createOn]
  rcases s.create_cases capacity with ⟨fault, hs, hfault⟩ | ⟨hcap, hid, hs⟩
  · rw [hs, Store.ended_commit_of_error rfl]
    exact .refused hfault
  · rw [hs]
    cases hf : Store.flush { s with catalogue := (s.catalogue.create capacity).2 } d with
    | mk writing d' =>
      rw [Store.ended_commit_of_ok (o := .ok _ _) rfl hf]
      have hends := Ends.changed (.create hcap hid) hf
      cases writing <;> exact hends

theorem ends_on {α : Type} (op : Store.Operation α) (hop : op.InRange) (s : Store) (d : Disk) :
    (on op hop).Ends s d ((on op hop).perform s d) := by
  rw [perform, op.perform_eq_carryOut]
  cases hplan : op.plan (s.record op.id) with
  | answer result =>
    rcases Store.Operation.cases_of_answer hplan with ⟨hlooks, _, rfl⟩ | ⟨fault, rfl, hfault⟩
    · exact .answered hlooks
    · exact .refused hfault
  | assign value r? =>
    cases hf : (s.assign op.id r?).flush d with
    | mk writing d' =>
      have hchanges : Changes s (on op hop) (s.assign op.id r?) := .assign hplan
      have hends := Ends.changed hchanges hf
      rw [Store.Operation.Plan.carryOut, hf]
      cases writing <;> exact hends

theorem ends_perform (call : Call) (s : Store) (d : Disk) : call.Ends s d (call.perform s d) := by
  cases call with
  | create capacity => exact ends_create capacity s d
  | on op hop => exact ends_on op hop s d

end Call

structure Store.Kept (path : String) (s : Store) : Prop where
  path_eq : s.path = path
  inRange : s.catalogue.InRange

namespace Store.Kept

theorem of_ofFile {path : String} {reading : Except FileFault String} {s : Store}
    (h : ofFile path reading = .ok s) : s.Kept path :=
  ⟨(inRange_of_ofFile h).1, (inRange_of_ofFile h).2⟩

theorem perform {path : String} {s : Store} (h : s.Kept path) (call : Call) (d : Disk) :
    (call.perform s d).2.1.Kept path := by
  have hends := call.ends_perform s d
  generalize call.perform s d = after at hends
  cases hends with
  | answered _ => exact h
  | refused _ => exact h
  | changed hchanges _ => exact ⟨hchanges.path.trans h.path_eq, hchanges.inRange h.inRange⟩

theorem run {path : String} {s : Store} (h : s.Kept path) (d : Disk) (calls : List Call) :
    (Call.run s d calls).1.Kept path := by
  induction calls generalizing s d with
  | nil => exact h
  | cons call rest ih => exact ih (h.perform call d) _

end Store.Kept

/-- On any disk, after any calls on a store that was opened there, the next call ends in one of
three ways. A change that succeeds is what the file holds when it is opened again. A fault that is
not the disk's leaves memory and disk as they were. A fault of the disk leaves the file as it was,
unless the file is its own temporary sibling. -/
theorem memory_matches_disk {path : String} {d₀ : Disk} {s₀ : Store}
    (hopen : Store.ofFile path (d₀.read path) = .ok s₀) (calls : List Call) (call : Call)
    {s s' : Store} {d d' : Disk} {result : Except StoreFault Unit}
    (hrun : Call.run s₀ d₀ calls = (s, d)) (hcall : call.perform s d = (result, s', d')) :
    (call.isMutating = true → result = .ok () → Store.ofFile path (d'.read path) = .ok s') ∧
    (∀ fault, result = .error fault → (∀ f, fault ≠ .file f) → s' = s ∧ d' = d) ∧
    (∀ f, result = .error (.file f) → Path.temporary path ≠ path →
      d'.content? path = d.content? path ∧
        Store.ofFile path (d'.read path) = Store.ofFile path (d.read path)) := by
  have hkept : s.Kept path := by
    have := (Store.Kept.of_ofFile hopen).run d₀ calls
    rwa [hrun] at this
  have hkept' : s'.Kept path := by
    have := hkept.perform call d
    rwa [hcall] at this
  have hpath : s'.path = path := hkept'.path_eq
  have hends := call.ends_perform s d
  rw [hcall] at hends
  cases hends with
  | answered hlooks => simp [hlooks]
  | refused _ =>
    refine ⟨fun _ h => (nomatch h), fun _ _ _ => ⟨rfl, rfl⟩, fun _ _ _ => ⟨rfl, rfl⟩⟩
  | @changed _ _ writing _ hflush =>
    cases writing with
    | ok _ =>
      refine ⟨fun _ _ => ?_, fun _ h => (nomatch h), fun _ h => (nomatch h)⟩
      rw [← hpath]
      exact Store.ofFile_read_of_flush hflush hkept'.inRange
    | error fault =>
      refine ⟨fun _ h => (nomatch h), fun fault h hfault => ?_, fun f h hne => ?_⟩
      · cases h
        exact absurd rfl (hfault _)
      · rw [← hpath] at hne ⊢
        obtain ⟨hsame, hnode⟩ := Store.sameDirectories_of_flush hflush hne
        exact ⟨Disk.content?_of_sameDirectories hsame hnode,
          Store.ofFile_read_of_failed_flush hflush hne⟩

def moveTwice (first second : Nat) (c : Computer) : Outcome Computer Fault Unit :=
  (c.setAddress first).andThen fun _ c => c.setAddress second

theorem inRange_moveTwice (first second : Nat) (c : Computer) (h : c.Storable) :
    (moveTwice first second c).state.InRange := by
  have hfirst := Edits.setAddress c first
  unfold moveTwice Outcome.andThen
  split
  · exact (h.of_edits hfirst).inRange
  · exact (h.of_edits (hfirst.trans (.setAddress _ second))).inRange

/-- A change is written; the next one fails at the renaming; an update then fails although it has
moved the write pointer before. -/
theorem memory_matches_disk_three_ways :
    let path := "computers.json"
    let full := FileFault.other "No space left on device (os error 28)"
    let d₀ : Disk := { Disk.fresh with outages := [none, none, none, some full] }
    let create : Call := .create 5
    let move : Call := .on (.update "0000001" (moveTwice 3 9)) (inRange_moveTwice 3 9)
    let run := Call.run { path } d₀
    let after := fun calls (call : Call) => call.perform (run calls).1 (run calls).2
    Store.ofFile path (d₀.read path) = .ok { path } ∧
    ((after [] create).1 = .ok () ∧
      Store.ofFile path ((after [] create).2.2.read path) = .ok (after [] create).2.1) ∧
    ((after [create] create).1 = .error (.file full) ∧
      (after [create] create).2.2.content? path = (run [create]).2.content? path) ∧
    ((after [create, create] move).1 = .error (.machine (.invalidAddress 9 5)) ∧
      (after [create, create] move).2.1 = (run [create, create]).1 ∧
      (after [create, create] move).2.2 = (run [create, create]).2) := by
  intro path full d₀ create move run after
  have hopen : Store.ofFile path (d₀.read path) = .ok { path } := by decide +kernel
  have hends := fun calls call => memory_matches_disk hopen calls call
    (show _ = ((run calls).1, (run calls).2) from rfl)
    (show _ = ((after calls call).1, (after calls call).2.1, (after calls call).2.2) from rfl)
  have hne : Path.temporary path ≠ path := by decide +kernel
  have h₁ : (after [] create).1 = .ok () := by decide +kernel
  have h₂ : (after [create] create).1 = .error (.file full) := by decide +kernel
  have h₃ : (after [create, create] move).1 = .error (.machine (.invalidAddress 9 5)) := by
    decide +kernel
  exact ⟨hopen, ⟨h₁, (hends [] create).1 rfl h₁⟩,
    ⟨h₂, ((hends [create] create).2.2 full h₂ hne).1⟩,
    ⟨h₃, (hends [create, create] move).2.1 _ h₃ fun f h => (nomatch h)⟩⟩

end StackComputer
