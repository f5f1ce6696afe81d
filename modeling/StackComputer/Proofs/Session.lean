import StackComputer.Command
import StackComputer.Proofs.Durability
import StackComputer.Proofs.Identifiers

/-! # Sessions

A computer that is built by commands, each of which opens the store, changes it and writes it again,
is the computer that is built in memory by the same changes. Commands for other computers, commands
that fail and commands that only look do not matter to it.
-/

namespace StackComputer

namespace Computer

theorem setPolicy_setPolicy (c : Computer) (first second : Policy) :
    (c.setPolicy first).setPolicy second = c.setPolicy second := rfl

theorem Storable.setPolicy {c : Computer} (h : c.Storable) (policy : Policy) :
    (c.setPolicy policy).Storable :=
  ⟨⟨h.wellFormed, h.returnRegister⟩, h.capacity_le, h.programCounter_lt⟩

/-! The changes that commands make. -/

theorem Storable.setAddress {c : Computer} (h : c.Storable) (address : Nat) :
    (c.setAddress address).state.Storable :=
  h.of_edits (.setAddress c address)

theorem Storable.insertWithPolicy {c : Computer} (h : c.Storable) (policy : Policy) (name : String)
    (operand : Option Word) :
    ((c.setPolicy policy).insertWithPolicy name operand).state.Storable :=
  (h.setPolicy policy).of_edits (.insertWithPolicy _ name operand)

/-- The policy has no part in an insertion that may fail. -/
theorem tryInsert_setPolicy (c : Computer) (policy : Policy) (name : String)
    (operand : Option Word) :
    ((c.setPolicy policy).tryInsert name operand).result = (c.tryInsert name operand).result ∧
      ((c.setPolicy policy).tryInsert name operand).state
        = (c.tryInsert name operand).state.setPolicy policy := by
  cases hd : Instruction.decode name operand with
  | error fault => simp [tryInsert, hd, Outcome.fail]
  | ok i =>
    cases hi : c.program.insert i with
    | error fault => simp [tryInsert, hd, insertInstruction, hi, setPolicy, Outcome.fail]
    | ok p => simp [tryInsert, hd, insertInstruction, hi, setPolicy, Outcome.ok]

/-! The policy is set for one insertion and is lenient again when the computer is loaded. -/

theorem insertWithPolicy_lenient {c : Computer} (h : c.policy = .lenient) (name : String)
    (operand : Option Word) :
    ((c.setPolicy .lenient).insertWithPolicy name operand).result = (c.insert name operand).result ∧
      ((c.setPolicy .lenient).insertWithPolicy name operand).state.setPolicy .lenient
        = (c.insert name operand).state := by
  have hinsert : (c.setPolicy .lenient).insertWithPolicy name operand = c.insert name operand := by
    rw [setPolicy_of_policy_eq h, insertWithPolicy, h]
  rw [hinsert]
  refine ⟨rfl, setPolicy_of_policy_eq ?_⟩
  rw [(Edits.insert c name operand).policy, h]

theorem insertWithPolicy_strict {c : Computer} (h : c.policy = .lenient) (name : String)
    (operand : Option Word) :
    ((c.setPolicy .strict).insertWithPolicy name operand).result
        = (c.tryInsert name operand).result ∧
      ((c.setPolicy .strict).insertWithPolicy name operand).state.setPolicy .lenient
        = (c.tryInsert name operand).state := by
  obtain ⟨hresult, hstate⟩ := c.tryInsert_setPolicy .strict name operand
  have hstrict : (c.setPolicy .strict).insertWithPolicy name operand
      = (c.setPolicy .strict).tryInsert name operand := rfl
  rw [hstrict, hstate, setPolicy_setPolicy]
  refine ⟨hresult, setPolicy_of_policy_eq ?_⟩
  rw [(Edits.tryInsert c name operand).policy, h]

end Computer

def Response.EndsAt (path : String) : Response → Prop
  | .finish _ => True
  | .write s _ => s.path = path
  | .unfinished => False

theorem Response.EndsAt.ofChange {α : Type} {path : String} {s : Store}
    {o : Outcome Store StoreFault α} {announce : α → List Event} {lines : α → List String}
    (h : o.state.path = path) : (Response.ofChange s o announce lines).EndsAt path := by
  unfold Response.ofChange
  split
  · trivial
  · exact h

namespace Invocation

def edit? (i : Invocation) (id : String) : Option (Computer → Outcome Computer Fault Unit) :=
  match i.request with
  | .pointer key address => if key = id then some (·.setAddress address) else none
  | .insert key name operand =>
    if key = id then
      match i.policy with
      | .lenient => some (·.insert name operand)
      | .strict => some (·.tryInsert name operand)
    else none
  | _ => none

/-- The computer after the command. A change that fails is skipped. -/
def applied (i : Invocation) (id : String) (c : Computer) : Computer :=
  match i.edit? id with
  | none => c
  | some edit =>
    match (edit c).result with
    | .ok () => (edit c).state
    | .error _ => c

def runReport (i : Invocation) (s : Store) (o : Outcome Computer Fault (List Word)) : Report :=
  match o.result with
  | .ok output => .done (outputLines output i.format) (s.opened :: o.events)
  | .error fault =>
    .failed ("unexpected error when executing the program: " ++ fault.message)
      (s.opened :: o.events)

/-- Whether the command can write what it has to write, if anything. -/
def writes (i : Invocation) (fuel : Nat) (d : Disk) : Bool :=
  match i.respond fuel (d.read i.source) with
  | .write s _ => (s.flush d).1.isOk
  | _ => true

inductive EndsChange {α : Type} (o : Outcome Store StoreFault α) (lines : α → List String)
    (d : Disk) : Report → Disk → Prop where
  | refused {r : Report} {fault : StoreFault} : o.result = .error fault →
      r.status = fault.status → EndsChange o lines d r d
  | unwritten {r : Report} {d' : Disk} {value : α} {fault : FileFault} : o.result = .ok value →
      o.state.flush d = (.error fault, d') → r.status = 1 → EndsChange o lines d r d'
  | written {r : Report} {d' : Disk} {value : α} : o.result = .ok value →
      o.state.flush d = (.ok (), d') → r.status = 0 → r.output = lines value →
      EndsChange o lines d r d'

section OfChange

variable {α : Type} {i : Invocation} {fuel : Nat} {d : Disk} {s : Store}
  {o : Outcome Store StoreFault α} {announce : α → List Event} {lines : α → List String}
  (h : i.respond fuel (d.read i.source) = .ofChange s o announce lines)

include h

theorem perform_ofChange : ∃ r d', i.perform fuel d = some (r, d') ∧ EndsChange o lines d r d' := by
  cases hr : o.result with
  | error fault =>
    have hp : i.perform fuel d = some ({ Report.failed fault.message (s.opened :: o.events) with
        status := fault.status }, d) := by
      simp [perform, h, Response.ofChange, hr, Store.conclude, Outcome.fail]
    exact ⟨_, d, hp, .refused hr rfl⟩
  | ok value =>
    cases hf : o.state.flush d with
    | mk writing d' =>
      cases writing with
      | error fault =>
        have hp : i.perform fuel d = some (Report.failed (StoreFault.file fault).message
            (s.opened :: o.events), d') := by
          simp [perform, h, Response.ofChange, hr, hf, Store.conclude, Outcome.fail,
            StoreFault.status, Report.failed]
        exact ⟨_, d', hp, .unwritten hr hf rfl⟩
      | ok u =>
        have hp : i.perform fuel d = some (Report.done (lines value)
            (s.opened :: (o.events ++ .storeWritten o.state.path :: announce value)), d') := by
          simp [perform, h, Response.ofChange, hr, hf, Store.conclude, Outcome.ok]
        exact ⟨_, d', hp, .written hr hf rfl rfl⟩

theorem perform_of_writes (hw : i.writes fuel d = true) :
    ∃ r d', i.perform fuel d = some (r, d') ∧
      ((∃ fault, o.result = .error fault ∧ r.status = fault.status ∧ d' = d) ∨
        ∃ value, o.result = .ok value ∧ r.status = 0 ∧ r.output = lines value ∧
          o.state.flush d = (.ok (), d')) := by
  obtain ⟨r, d', hp, hends⟩ := perform_ofChange h
  refine ⟨r, d', hp, ?_⟩
  cases hends with
  | refused hr hstatus => exact .inl ⟨_, hr, hstatus, rfl⟩
  | unwritten hr hf _ =>
    simp [writes, h, Response.ofChange, hr, hf, Except.isOk, Except.toBool] at hw
  | written hr hf hstatus houtput => exact .inr ⟨_, hr, hstatus, houtput, hf⟩

end OfChange

theorem withStore_of_ofFile {i : Invocation} {reading : Except FileFault String} {s : Store}
    (h : Store.ofFile i.store reading = .ok s) (next : Store → Response) :
    i.withStore reading next = next s := by
  rw [withStore, h]

theorem source_eq_store {i : Invocation} (h : ∀ file capacity, i.request ≠ .run file capacity) :
    i.source = i.store := by
  unfold source
  split
  · rename_i hr
    exact absurd hr (h _ _)
  · rfl

section Opened

variable {i : Invocation} {d : Disk} {s : Store}
  (hopen : Store.ofFile i.store (d.read i.store) = .ok s) (fuel : Nat)

include hopen

theorem respond_create {capacity : Option Nat} (hreq : i.request = .create capacity) :
    i.respond fuel (d.read i.source) = .ofChange s
      (s.create (capacity.getD ({} : Config).capacity))
      (fun id => [.computerCreated id (capacity.getD ({} : Config).capacity)]) fun id => [id] := by
  rw [source_eq_store (by simp [hreq]), respond, hreq]
  exact withStore_of_ofFile hopen _

theorem respond_pointer {id : String} {address : Nat} (hreq : i.request = .pointer id address) :
    ∃ lines, i.respond fuel (d.read i.source)
      = .ofChange s (s.update id (·.setAddress address)) (fun _ => []) lines := by
  rw [source_eq_store (by simp [hreq]), respond, hreq]
  exact ⟨_, withStore_of_ofFile hopen _⟩

theorem respond_insert {id name : String} {operand : Option Word}
    (hreq : i.request = .insert id name operand) :
    ∃ lines, i.respond fuel (d.read i.source) = .ofChange s
      (s.update id fun c => (c.setPolicy i.policy).insertWithPolicy name operand)
      (fun _ => []) lines := by
  rw [source_eq_store (by simp [hreq]), respond, hreq]
  exact ⟨_, withStore_of_ofFile hopen _⟩

theorem respond_exec {id : String} {c : Computer} (hload : s.load id = .ok c)
    (hreq : i.request = .exec id) :
    i.respond fuel (d.read i.source) = i.runComputer fuel c [s.opened] := by
  rw [source_eq_store (by simp [hreq]), respond, hreq]
  simp only [withComputer, withStore_of_ofFile hopen, hload]

end Opened

theorem runComputer_ne_write (i : Invocation) (fuel : Nat) (c : Computer) (events : List Event)
    (s : Store) (report : Except FileFault Unit → Report) :
    i.runComputer fuel c events ≠ .write s report := by
  intro h
  unfold runComputer at h
  split at h
  · cases h
  · split at h
    · cases h
    · cases h

theorem withComputer_ne_write {i : Invocation} {reading : Except FileFault String} {id : String}
    {next : Store → Computer → Response} (hnext : ∀ s c s' report, next s c ≠ .write s' report)
    (s : Store) (report : Except FileFault Unit → Report) :
    i.withComputer reading id next ≠ .write s report := by
  intro h
  unfold withComputer withStore at h
  split at h
  · simp only at h
    split at h
    · exact hnext _ _ _ _ h
    · cases h
  · cases h

theorem runListing_ne_write (i : Invocation) (fuel : Nat) (file : String) (capacity : Nat)
    (reading : Except FileFault String) (s : Store) (report : Except FileFault Unit → Report) :
    i.runListing fuel file capacity reading ≠ .write s report := by
  intro h
  unfold runListing at h
  split at h
  · cases h
  · simp only at h
    split at h
    · cases h
    · exact runComputer_ne_write _ _ _ _ _ _ h

def looksOnly (i : Invocation) : Bool :=
  match i.request with
  | .exec _ | .debug _ | .run _ _ => true
  | .create _ | .pointer _ _ | .insert _ _ _ => false

theorem respond_ne_write {i : Invocation} (hi : i.looksOnly = true) (fuel : Nat)
    (reading : Except FileFault String) (s : Store) (report : Except FileFault Unit → Report) :
    i.respond fuel reading ≠ .write s report := by
  cases hreq : i.request with
  | create capacity => simp [looksOnly, hreq] at hi
  | pointer id address => simp [looksOnly, hreq] at hi
  | insert id name operand => simp [looksOnly, hreq] at hi
  | exec id =>
    rw [respond, hreq]
    exact withComputer_ne_write (fun _ _ => runComputer_ne_write _ _ _ _) _ _
  | debug id =>
    rw [respond, hreq]
    exact withComputer_ne_write (fun _ _ _ _ hf => by cases hf) _ _
  | run file capacity =>
    rw [respond, hreq]
    exact runListing_ne_write _ _ _ _ _ _ _

theorem disk_of_perform {i : Invocation} (hi : i.looksOnly = true) {fuel : Nat} {d d' : Disk}
    {r : Report} (hp : i.perform fuel d = some (r, d')) : d' = d := by
  unfold perform at hp
  split at hp
  · cases hp
    rfl
  · rename_i hw
    exact absurd hw (respond_ne_write hi _ _ _ _)
  · cases hp

/-! On a disk where nothing fails, a command that runs no program ends and can write. -/

def isRun (i : Invocation) : Bool :=
  match i.request with
  | .exec _ | .run _ _ => true
  | _ => false

theorem endsAt_withStore {i : Invocation} {reading : Except FileFault String}
    {next : Store → Response} (hnext : ∀ s, s.path = i.store → (next s).EndsAt i.store) :
    (i.withStore reading next).EndsAt i.store := by
  unfold withStore
  split
  · rename_i s hopen
    exact hnext s (Store.inRange_of_ofFile hopen).1
  · trivial

theorem endsAt_respond {i : Invocation} (hi : i.isRun = false) (fuel : Nat)
    (reading : Except FileFault String) : (i.respond fuel reading).EndsAt i.store := by
  cases hreq : i.request with
  | create capacity =>
    rw [respond, hreq]
    exact endsAt_withStore fun s hs => .ofChange ((s.orderly_create _).path.trans hs)
  | pointer id address =>
    rw [respond, hreq]
    exact endsAt_withStore fun s hs => .ofChange ((s.path_update id _).trans hs)
  | insert id name operand =>
    rw [respond, hreq]
    exact endsAt_withStore fun s hs => .ofChange ((s.path_update id _).trans hs)
  | debug id =>
    rw [respond, hreq]
    apply endsAt_withStore
    intro s hs
    cases s.load id with
    | error fault => trivial
    | ok c => trivial
  | exec id => simp [isRun, hreq] at hi
  | run file capacity => simp [isRun, hreq] at hi

theorem perform_of_writable {i : Invocation} (hi : i.isRun = false) {d : Disk}
    (h : d.Writable i.store) (fuel : Nat) :
    i.writes fuel d = true ∧ ∃ r d', i.perform fuel d = some (r, d') ∧ d'.Writable i.store := by
  have hends := i.endsAt_respond hi fuel (d.read i.source)
  cases hr : i.respond fuel (d.read i.source) with
  | finish report => exact ⟨by rw [writes, hr], report, d, by rw [perform, hr], h⟩
  | write s report =>
    rw [hr] at hends
    obtain ⟨d', hf, hd'⟩ := Store.flush_of_writable (s := s) (hends ▸ h)
    refine ⟨?_, report (.ok ()), d', ?_, hends ▸ hd'⟩
    · simp only [writes, hr, hf]
      rfl
    · simp only [perform, hr, hf]
  | unfinished =>
    rw [hr] at hends
    exact hends.elim

end Invocation

structure Holds (path id : String) (d : Disk) (s : Store) (c : Computer) : Prop where
  opened : Store.ofFile path (d.read path) = .ok s
  load : s.load id = .ok c
  handedOut : ∃ k ≤ s.catalogue.lastId, id = Catalogue.identifier k

namespace Holds

variable {path id : String} {d : Disk} {s : Store} {c : Computer}

theorem openedBy (h : Holds path id d s c) {i : Invocation} (hstore : i.store = path) :
    Store.ofFile i.store (d.read i.store) = .ok s := by
  rw [hstore, h.opened]

theorem kept (h : Holds path id d s c) : s.Kept path := .of_ofFile h.opened

theorem storable (h : Holds path id d s c) : c.Storable :=
  Store.storable_of_load h.kept.inRange h.load

theorem policy (h : Holds path id d s c) : c.policy = .lenient := by
  obtain ⟨r, -, hc⟩ := Store.exists_record_of_load h.load
  exact (Record.toComputer_inv hc).2.2.2

theorem of_flush {s' : Store} {d' : Disk} {c' : Computer} (hpath : s'.path = path)
    (hrange : s'.catalogue.InRange) (hf : s'.flush d = (.ok (), d')) (hload : s'.load id = .ok c')
    (hid : ∃ k ≤ s'.catalogue.lastId, id = Catalogue.identifier k) : Holds path id d' s' c' := by
  refine ⟨?_, hload, hid⟩
  rw [← hpath]
  exact Store.ofFile_read_of_flush hf hrange

theorem of_change {α : Type} {o : Outcome Store StoreFault α} {d' : Disk} {c' : Computer}
    (h : Holds path id d s c) (ho : s.Orderly o) (hf : o.state.flush d = (.ok (), d'))
    (hload : o.state.load id = .ok c') (hle : s.catalogue.lastId ≤ o.state.catalogue.lastId) :
    Holds path id d' o.state c' := by
  obtain ⟨k, hk, hid⟩ := h.handedOut
  exact of_flush (ho.path.trans h.kept.path_eq) (ho.inRange h.kept.inRange) hf hload
    ⟨k, Nat.le_trans hk hle, hid⟩

/-- A computer that is created gets an identifier of its own. -/
theorem create {i : Invocation} {fuel : Nat} {r : Report} {d' : Disk} {capacity : Option Nat}
    (h : Holds path id d s c) (hstore : i.store = path) (hreq : i.request = .create capacity)
    (hw : i.writes fuel d = true) (hp : i.perform fuel d = some (r, d')) :
    ∃ s', Holds path id d' s' c := by
  have hresp := Invocation.respond_create (h.openedBy hstore) fuel hreq
  obtain ⟨r', d'', hp', hends⟩ := Invocation.perform_of_writes hresp hw
  obtain ⟨rfl, rfl⟩ : r' = r ∧ d'' = d' := by simpa [hp] using hp'.symm
  rcases hends with ⟨fault, -, -, rfl⟩ | ⟨value, -, -, -, hf⟩
  · exact ⟨s, h⟩
  · have hne : id ≠ Catalogue.identifier (s.catalogue.lastId + 1) := by
      intro heq
      obtain ⟨k, hk, hid⟩ := h.handedOut
      have := Catalogue.identifier_injective (hid.symm.trans heq)
      omega
    obtain ⟨hrecord, hle⟩ := s.record_create_of_ne (capacity.getD ({} : Config).capacity) hne
    have hload := Store.load_of_record_eq hrecord
    exact ⟨_, h.of_change (s.orderly_create _) hf (hload.trans h.load) hle⟩

section Update

variable {α : Type} {i : Invocation} {fuel : Nat} {key : String}
  {change : Computer → Outcome Computer Fault α} {lines : α × Computer → List String}
  (h : Holds path id d s c)
  (hresp : i.respond fuel (d.read i.source)
    = .ofChange s (s.update key change) (fun _ => []) lines)
  (hchange : ∀ c, c.Storable → (change c).state.Storable) (hw : i.writes fuel d = true)

include h hresp hchange hw

theorem update_other (hkey : id ≠ key) :
    ∃ r d' s', i.perform fuel d = some (r, d') ∧ Holds path id d' s' c := by
  obtain ⟨r, d', hp, hends⟩ := Invocation.perform_of_writes hresp hw
  rcases hends with ⟨fault, -, -, rfl⟩ | ⟨value, -, -, -, hf⟩
  · exact ⟨r, d', s, hp, h⟩
  · obtain ⟨hrecord, hle⟩ := s.record_update_of_ne hkey change
    have hload := Store.load_of_record_eq hrecord
    have horderly := s.orderly_update key fun c hc => (hchange c hc).inRange
    exact ⟨r, d', _, hp, h.of_change horderly hf (hload.trans h.load) hle⟩

theorem update_self (hkey : id = key) :
    ∃ r d' s', i.perform fuel d = some (r, d') ∧
      ((∃ fault, (change c).result = .error fault ∧ r.status = 1 ∧ Holds path id d' s' c) ∨
        ∃ value, (change c).result = .ok value ∧ r.status = 0 ∧
          Holds path id d' s' ((change c).state.setPolicy .lenient)) := by
  subst key
  obtain ⟨r, d', hp, hends⟩ := Invocation.perform_of_writes hresp hw
  cases hr : (change c).result with
  | error fault =>
    rw [Store.update_of_error h.load hr] at hends
    rcases hends with ⟨fault', hres, hstatus, rfl⟩ | ⟨value, hres, -⟩
    · cases hres
      exact ⟨r, d', s, hp, .inl ⟨fault, rfl, hstatus, h⟩⟩
    · cases hres
  | ok value =>
    have horderly := s.orderly_update id fun c hc => (hchange c hc).inRange
    rw [Store.update_of_ok h.load hr] at hends horderly
    rcases hends with ⟨fault', hres, -⟩ | ⟨value', -, hstatus, -, hf⟩
    · cases hres
    · exact ⟨r, d', _, hp, .inr ⟨value, rfl, hstatus, h.of_change horderly hf
        (s.load_assign_self id (hchange c h.storable)) (Nat.le_refl _)⟩⟩

end Update

/-- A command to change the computer updates its record by a change that goes as in memory. -/
theorem respond_edit (h : Holds path id d s c) {i : Invocation} (hstore : i.store = path)
    {edit : Computer → Outcome Computer Fault Unit} (he : i.edit? id = some edit) (fuel : Nat) :
    ∃ change lines, i.respond fuel (d.read i.source)
        = .ofChange s (s.update id change) (fun _ => []) lines ∧
      (∀ c, c.Storable → (change c).state.Storable) ∧ (change c).result = (edit c).result ∧
      (change c).state.setPolicy .lenient = (edit c).state := by
  have hopened := h.openedBy hstore
  unfold Invocation.edit? at he
  split at he
  · rename_i key address hreq
    split at he
    · rename_i hkey
      cases he
      subst key
      obtain ⟨lines, hresp⟩ := Invocation.respond_pointer hopened fuel hreq
      refine ⟨_, lines, hresp, fun c hc => hc.setAddress address, rfl, ?_⟩
      apply Computer.setPolicy_of_policy_eq
      rw [(Edits.setAddress c address).policy, h.policy]
    · cases he
  · rename_i key name operand hreq
    split at he
    · rename_i hkey
      subst key
      obtain ⟨lines, hresp⟩ := Invocation.respond_insert hopened fuel hreq
      refine ⟨_, lines, hresp, fun c hc => hc.insertWithPolicy i.policy name operand, ?_⟩
      split at he
      · rename_i hpolicy
        cases he
        rw [hpolicy]
        exact Computer.insertWithPolicy_lenient h.policy name operand
      · rename_i hpolicy
        cases he
        rw [hpolicy]
        exact Computer.insertWithPolicy_strict h.policy name operand
    · cases he
  · cases he

/-- A command to change the computer ends, and fails where the change fails in memory. -/
theorem perform_edit (h : Holds path id d s c) {i : Invocation} (hstore : i.store = path)
    {edit : Computer → Outcome Computer Fault Unit} (he : i.edit? id = some edit) {fuel : Nat}
    (hw : i.writes fuel d = true) :
    ∃ r d' s', i.perform fuel d = some (r, d') ∧ Holds path id d' s' (i.applied id c) ∧
      ((∃ fault, (edit c).result = .error fault ∧ r.status = 1) ∨
        (edit c).result = .ok () ∧ r.status = 0) := by
  obtain ⟨change, lines, hresp, hchange, hresult, hstate⟩ := h.respond_edit hstore he fuel
  obtain ⟨r, d', s', hp, hends⟩ := h.update_self hresp hchange hw rfl
  refine ⟨r, d', s', hp, ?_⟩
  rcases hends with ⟨fault, hf, hstatus, hholds⟩ | ⟨value, hv, hstatus, hholds⟩
  · rw [hresult] at hf
    have happlied : i.applied id c = c := by simp [Invocation.applied, he, hf]
    rw [happlied]
    exact ⟨hholds, .inl ⟨fault, hf, hstatus⟩⟩
  · rw [hresult] at hv
    have happlied : i.applied id c = (edit c).state := by simp [Invocation.applied, he, hv]
    rw [happlied, ← hstate]
    exact ⟨hholds, .inr ⟨hv, hstatus⟩⟩

theorem perform_other (h : Holds path id d s c) {i : Invocation} (hstore : i.store = path)
    (he : i.edit? id = none) {fuel : Nat} (hw : i.writes fuel d = true) {r : Report} {d' : Disk}
    (hp : i.perform fuel d = some (r, d')) : ∃ s', Holds path id d' s' c := by
  have hopened := h.openedBy hstore
  have hsame (hi : i.looksOnly = true) : ∃ s', Holds path id d' s' c := by
    rw [Invocation.disk_of_perform hi hp]
    exact ⟨s, h⟩
  cases hreq : i.request with
  | create capacity => exact h.create hstore hreq hw hp
  | pointer key address =>
    have hkey : id ≠ key := by
      rintro rfl
      simp [Invocation.edit?, hreq] at he
    obtain ⟨lines, hresp⟩ := Invocation.respond_pointer hopened fuel hreq
    obtain ⟨r', d'', s', hp', hholds⟩ := h.update_other hresp
      (fun c hc => hc.setAddress address) hw hkey
    obtain ⟨rfl, rfl⟩ : r' = r ∧ d'' = d' := by simpa [hp] using hp'.symm
    exact ⟨s', hholds⟩
  | insert key name operand =>
    have hkey : id ≠ key := by
      rintro rfl
      simp only [Invocation.edit?, hreq, if_true] at he
      split at he
      · cases he
      · cases he
    obtain ⟨lines, hresp⟩ := Invocation.respond_insert hopened fuel hreq
    obtain ⟨r', d'', s', hp', hholds⟩ := h.update_other hresp
      (fun c hc => hc.insertWithPolicy i.policy name operand) hw hkey
    obtain ⟨rfl, rfl⟩ : r' = r ∧ d'' = d' := by simpa [hp] using hp'.symm
    exact ⟨s', hholds⟩
  | exec key => exact hsame (by simp [Invocation.looksOnly, hreq])
  | debug key => exact hsame (by simp [Invocation.looksOnly, hreq])
  | run file capacity => exact hsame (by simp [Invocation.looksOnly, hreq])

/-- One command does to the stored computer what it does to the computer in memory. -/
theorem perform (h : Holds path id d s c) {i : Invocation} (hstore : i.store = path) {fuel : Nat}
    (hw : i.writes fuel d = true) {r : Report} {d' : Disk}
    (hp : i.perform fuel d = some (r, d')) : ∃ s', Holds path id d' s' (i.applied id c) := by
  cases he : i.edit? id with
  | none =>
    have happlied : i.applied id c = c := by simp [Invocation.applied, he]
    rw [happlied]
    exact h.perform_other hstore he hw hp
  | some edit =>
    obtain ⟨r', d'', s', hp', hholds, -⟩ := h.perform_edit hstore he hw
    obtain ⟨rfl, rfl⟩ : r' = r ∧ d'' = d' := by simpa [hp] using hp'.symm
    exact ⟨s', hholds⟩

theorem perform_exec (h : Holds path id d s c) {i : Invocation} (hstore : i.store = path)
    (hreq : i.request = .exec id) (fuel : Nat) :
    i.perform fuel d = (c.execute fuel).map fun o => (i.runReport s o, d) := by
  have hresp := Invocation.respond_exec (h.openedBy hstore) fuel h.load hreq
  rw [Invocation.perform, hresp, Invocation.runComputer]
  cases hx : c.execute fuel with
  | none => rfl
  | some o =>
    cases hr : o.result with
    | error fault => simp [Invocation.runReport, hr]
    | ok output => simp [Invocation.runReport, hr]

end Holds

/-- The disk after commands on one store, each with the steps that a run may take. There is none if
a command does not end, or cannot write. -/
def session (path : String) (d : Disk) : List (Invocation × Nat) → Option Disk
  | [] => some d
  | (i, fuel) :: rest =>
    if i.store = path ∧ i.writes fuel d = true then
      (i.perform fuel d).bind fun after => session path after.2 rest
    else none

theorem exists_session {path : String} {d : Disk} (hd : d.Writable path)
    (steps : List (Invocation × Nat))
    (hs : ∀ step ∈ steps, step.1.store = path ∧ step.1.isRun = false) :
    ∃ d', session path d steps = some d' := by
  induction steps generalizing d with
  | nil => exact ⟨d, rfl⟩
  | cons step rest ih =>
    obtain ⟨i, fuel⟩ := step
    obtain ⟨rfl, hi⟩ := hs _ List.mem_cons_self
    obtain ⟨hw, r, d₁, hp, hd₁⟩ := Invocation.perform_of_writable hi hd fuel
    obtain ⟨d', hd'⟩ := ih hd₁ fun step hm => hs step (List.mem_cons_of_mem _ hm)
    refine ⟨d', ?_⟩
    rw [session, if_pos ⟨rfl, hw⟩, hp]
    exact hd'

theorem Holds.session {path id : String} {d d' : Disk} {s : Store} {c : Computer}
    (h : Holds path id d s c) {steps : List (Invocation × Nat)}
    (hs : session path d steps = some d') :
    ∃ s', Holds path id d' s' (steps.foldl (fun c step => step.1.applied id c) c) := by
  induction steps generalizing d s c with
  | nil =>
    cases hs
    exact ⟨s, h⟩
  | cons step rest ih =>
    obtain ⟨i, fuel⟩ := step
    rw [StackComputer.session] at hs
    split at hs
    · rename_i hi
      obtain ⟨⟨r, d₁⟩, hp, hrest⟩ := Option.bind_eq_some_iff.mp hs
      obtain ⟨s₁, hholds⟩ := h.perform hi.1 hi.2 hp
      exact ih hholds hrest
    · cases hs

/-- The first computer of a store that is not there yet. -/
theorem Holds.of_create {path : String} {n fuel : Nat} {d : Disk} {fault : FileFault}
    {i : Invocation} (hn : n ≤ maxCapacity) (hread : d.read path = .error fault)
    (habsent : fault.isAbsence = true) (hstore : i.store = path)
    (hreq : i.request = .create (some n)) (hw : i.writes fuel d = true) :
    ∃ id r d' s', i.perform fuel d = some (r, d') ∧ r.status = 0 ∧ r.output = [id] ∧
      Holds path id d' s' (.empty n) := by
  have hopened : Store.ofFile i.store (d.read i.store) = .ok { path } := by
    rw [hstore, hread]
    exact Store.ofFile_of_isAbsence path habsent
  have hresp := Invocation.respond_create hopened fuel hreq
  rw [Option.getD_some] at hresp
  have hkept := Store.Kept.of_ofFile hopened
  have horderly := Store.orderly_create { path } n
  have hcreate := Store.create_eq_ok (s := { path }) hn (show 1 < addressLimit by decide)
  obtain ⟨r, d', hp, hends⟩ := Invocation.perform_of_writes hresp hw
  rcases hends with ⟨fault', hres, -⟩ | ⟨value, hres, hstatus, houtput, hf⟩
  · rw [hcreate] at hres
    cases hres
  · refine ⟨value, r, d', _, hp, hstatus, houtput,
      of_flush horderly.path (horderly.inRange hkept.inRange) hf ?_ ?_⟩
    · rw [hcreate] at hres ⊢
      cases hres
      exact Store.load_assign_self { path } _ (Computer.storable_empty hn)
    · rw [hcreate] at hres ⊢
      cases hres
      exact ⟨1, Nat.le_refl 1, rfl⟩

/-- Building a computer by commands is building it in memory. On a disk where the store is not there
yet, the first command creates a computer and prints its identifier. After any session from there
the computer under that identifier is the empty one with the same changes made in memory. The next
command to change it succeeds if and only if the change succeeds in memory, and a command to run it
reports what the run in memory results in. -/
theorem built_as_in_memory {path : String} {n fuel : Nat} {d₀ : Disk} {fault : FileFault}
    {first : Invocation} (hn : n ≤ maxCapacity) (hread : d₀.read path = .error fault)
    (habsent : fault.isAbsence = true) (hstore : first.store = path)
    (hcreate : first.request = .create (some n)) (hwrites : first.writes fuel d₀ = true) :
    ∃ id r₁ d₁, first.perform fuel d₀ = some (r₁, d₁) ∧ r₁.status = 0 ∧ r₁.output = [id] ∧
      ∀ steps d, session path d₁ steps = some d →
        let c := steps.foldl (fun c step => step.1.applied id c) (.empty n)
        ∃ s, Store.ofFile path (d.read path) = .ok s ∧ s.load id = .ok c ∧
          (∀ (i : Invocation) edit fuel, i.store = path → i.edit? id = some edit →
            i.writes fuel d = true →
            ∃ r d', i.perform fuel d = some (r, d') ∧
              (r.status = 1 ↔ ∃ fault, (edit c).result = .error fault) ∧
              (r.status = 0 ↔ (edit c).result = .ok ())) ∧
          ∀ (i : Invocation) fuel, i.store = path → i.request = .exec id →
            i.perform fuel d = (c.execute fuel).map fun o => (i.runReport s o, d) := by
  obtain ⟨id, r₁, d₁, s₁, hp, hstatus, houtput, hholds⟩ :=
    Holds.of_create hn hread habsent hstore hcreate hwrites
  refine ⟨id, r₁, d₁, hp, hstatus, houtput, ?_⟩
  intro steps d hs c
  obtain ⟨s, h⟩ := hholds.session hs
  refine ⟨s, h.opened, h.load, ?_, ?_⟩
  · intro i edit fuel hi he hw
    obtain ⟨r, d', s', hp', -, hends⟩ := h.perform_edit hi he hw
    refine ⟨r, d', hp', ?_⟩
    rcases hends with ⟨fault, hf, hr⟩ | ⟨hv, hr⟩
    · simp [c, hf, hr]
    · simp [c, hv, hr]
  · intro i fuel hi hreq
    exact h.perform_exec hi hreq fuel

/-- Another computer is created and changed in between; a strict insertion fails, and so does a move
past the last address. -/
theorem built_as_in_memory_interleaved :
    let path := "computers.json"
    let id := "0000001"
    let first : Invocation := { request := .create (some 4) }
    let steps : List (Invocation × Nat) :=
      [({ request := .insert id " Push" (some 7) }, 0),
       ({ policy := .strict, request := .insert id "jump" none }, 0),
       ({ request := .create none }, 0),
       ({ request := .pointer "0000002" 9 }, 0),
       ({ policy := .strict, request := .insert id "print" none }, 0),
       ({ request := .pointer id 5 }, 0),
       ({ request := .insert id "stop" none }, 0)]
    let exec : Invocation := { format := .plain, request := .exec id }
    let c := steps.foldl (fun c step => step.1.applied id c) (.empty 4)
    (Disk.fresh.read path = .error .notFound ∧ first.writes 0 Disk.fresh = true) ∧
    ∃ r d₁ d s, first.perform 0 Disk.fresh = some (r, d₁) ∧ r.output = [id] ∧
      session path d₁ steps = some d ∧
      Store.ofFile path (d.read path) = .ok s ∧ s.load id = .ok c ∧
      c.program.entries = [(0, .push 7), (1, .print), (2, .stop)] ∧ c.program.pointer = 3 ∧
      ∃ r, exec.perform 3 d = some (r, d) ∧ r.output = ["7"] := by
  intro path id first steps exec c
  have hread : Disk.fresh.read path = .error .notFound := by decide +kernel
  have hprinted : (first.perform 0 Disk.fresh).map (·.1.output) = some [id] := by decide +kernel
  obtain ⟨hw, r, d₁, hp, hd₁⟩ := Invocation.perform_of_writable (i := first) rfl writable_fresh 0
  obtain ⟨d, hd⟩ := exists_session hd₁ steps (by decide)
  obtain ⟨key, r', d', hp', -, houtput, hsession⟩ :=
    built_as_in_memory (show 4 ≤ maxCapacity by decide) hread rfl rfl rfl hw
  obtain ⟨rfl, rfl⟩ : r' = r ∧ d' = d₁ := by simpa [hp] using hp'.symm
  obtain rfl : key = id := by
    rw [hp, Option.map_some, houtput] at hprinted
    simpa using hprinted
  obtain ⟨s, hopen, hload, -, hexec⟩ := hsession steps d hd
  have hrun : (c.execute 3).map (·.result) = some (.ok [7]) := by decide +kernel
  obtain ⟨o, ho, hresult⟩ := Option.map_eq_some_iff.mp hrun
  have hperform : exec.perform 3 d = some (exec.runReport s o, d) := by
    rw [hexec exec 3 rfl rfl]
    exact congrArg _ ho
  refine ⟨⟨hread, hw⟩, r', d', d, s, hp, houtput, hd, hopen, hload, by decide +kernel,
    by decide +kernel, exec.runReport s o, hperform, ?_⟩
  rw [Invocation.runReport, hresult]
  rfl

end StackComputer
