import StackComputer.Proofs.Session

/-! # What a command touches

A command that only looks leaves the disk alone. A command that is there to change a computer leaves
the file of its store as it was if it fails; if it succeeds, one record of that file is another. Of
all other files it can touch the temporary one only.
-/

namespace StackComputer

theorem StoreFault.status_ne_zero (fault : StoreFault) : fault.status ≠ 0 := by
  cases fault <;> exact Nat.succ_ne_zero _

namespace Invocation

/-- The identifier of the record that a command is there to change: the one that it is given, or the
one that a creation hands out. -/
def target? (i : Invocation) (s : Store) : Option String :=
  match i.request with
  | .create _ => some (Catalogue.identifier (s.catalogue.lastId + 1))
  | .pointer id _ | .insert id _ _ => some id
  | .exec _ | .debug _ | .run _ _ => none

/-- How a command can end: with the disk as it was, with a store that could not be written, or with
a store that was written and in which no record but the target has changed. -/
inductive Ends (i : Invocation) (d : Disk) : Report → Disk → Prop where
  | untouched {r : Report} : i.looksOnly = true ∨ r.status ≠ 0 → Ends i d r d
  | unwritten {r : Report} {s' : Store} {d' : Disk} {fault : FileFault} : i.looksOnly = false →
      r.status ≠ 0 → s'.path = i.store → s'.flush d = (.error fault, d') → Ends i d r d'
  | written {r : Report} {s s' : Store} {d' : Disk} {id : String} : i.looksOnly = false →
      r.status = 0 → Store.ofFile i.store (d.read i.store) = .ok s → i.target? s = some id →
      (∀ capacity, i.request = .create capacity → r.output = [id]) →
      (∀ key, key ≠ id → s'.record key = s.record key) →
      s'.path = i.store → s'.catalogue.InRange → s'.flush d = (.ok (), d') → Ends i d r d'

structure Alters {α : Type} (i : Invocation) (s : Store) (o : Outcome Store StoreFault α)
    (lines : α → List String) (id : String) : Prop where
  orderly : s.Orderly o
  target : i.target? s = some id
  printed : ∀ value capacity, o.result = .ok value → i.request = .create capacity →
    lines value = [id]
  others : ∀ key, key ≠ id → o.state.record key = s.record key

theorem alters_create {i : Invocation} {capacity : Option Nat} (hreq : i.request = .create capacity)
    (s : Store) (n : Nat) :
    i.Alters s (s.create n) (fun id => [id]) (Catalogue.identifier (s.catalogue.lastId + 1)) := by
  refine ⟨s.orderly_create n, by simp [target?, hreq], ?_, ?_⟩
  · intro id _ hid _
    rcases s.create_cases n with ⟨fault, hcreate, -⟩ | ⟨-, -, hcreate⟩
    · rw [hcreate] at hid
      cases hid
    · rw [hcreate] at hid
      cases hid
      rfl
  · intro key hkey
    exact (s.record_create_of_ne n hkey).1

theorem alters_update {α : Type} {i : Invocation} {s : Store} {id : String}
    {change : Computer → Outcome Computer Fault α} (htarget : i.target? s = some id)
    (hreq : ∀ capacity, i.request ≠ .create capacity)
    (hchange : ∀ c, c.Storable → (change c).state.Storable)
    (lines : α × Computer → List String) : i.Alters s (s.update id change) lines id := by
  refine ⟨s.orderly_update id fun c hc => (hchange c hc).inRange, htarget, ?_, ?_⟩
  · intro _ capacity _ hcreate
    exact absurd hcreate (hreq capacity)
  · intro key hkey
    exact (s.record_update_of_ne hkey change).1

theorem respond_alters {i : Invocation} (hi : i.looksOnly = false) {d : Disk} {s : Store}
    (hopen : Store.ofFile i.store (d.read i.store) = .ok s) (fuel : Nat) :
    ∃ (α : Type) (o : Outcome Store StoreFault α) (announce : α → List Event)
      (lines : α → List String) (id : String),
      i.respond fuel (d.read i.source) = .ofChange s o announce lines ∧ i.Alters s o lines id := by
  cases hreq : i.request with
  | create capacity =>
    exact ⟨_, _, _, _, _, respond_create hopen fuel hreq, alters_create hreq s _⟩
  | pointer id address =>
    obtain ⟨lines, hresp⟩ := respond_pointer hopen fuel hreq
    have hchange := fun (c : Computer) (hc : c.Storable) => hc.setAddress address
    exact ⟨_, _, _, lines, id, hresp,
      alters_update (by simp [target?, hreq]) (by simp [hreq]) hchange lines⟩
  | insert id name operand =>
    obtain ⟨lines, hresp⟩ := respond_insert hopen fuel hreq
    have hchange := fun (c : Computer) (hc : c.Storable) =>
      hc.insertWithPolicy i.policy name operand
    exact ⟨_, _, _, lines, id, hresp,
      alters_update (by simp [target?, hreq]) (by simp [hreq]) hchange lines⟩
  | exec id => simp [looksOnly, hreq] at hi
  | debug id => simp [looksOnly, hreq] at hi
  | run file capacity => simp [looksOnly, hreq] at hi

theorem respond_eq_withStore {i : Invocation} (hi : i.looksOnly = false) (fuel : Nat)
    (reading : Except FileFault String) :
    i.source = i.store ∧ ∃ next, i.respond fuel reading = i.withStore reading next := by
  cases hreq : i.request with
  | create capacity => exact ⟨source_eq_store (by simp [hreq]), _, by rw [respond, hreq]⟩
  | pointer id address => exact ⟨source_eq_store (by simp [hreq]), _, by rw [respond, hreq]⟩
  | insert id name operand => exact ⟨source_eq_store (by simp [hreq]), _, by rw [respond, hreq]⟩
  | exec id => simp [looksOnly, hreq] at hi
  | debug id => simp [looksOnly, hreq] at hi
  | run file capacity => simp [looksOnly, hreq] at hi

theorem perform_of_not_opened {i : Invocation} (hi : i.looksOnly = false) {d : Disk}
    {fault : StoreFault} (h : Store.ofFile i.store (d.read i.store) = .error fault) (fuel : Nat) :
    i.perform fuel d =
      some (.failed ("failed to open " ++ i.store ++ ": " ++ fault.message) [], d) := by
  obtain ⟨hsource, next, hresp⟩ := respond_eq_withStore hi fuel (d.read i.store)
  rw [perform, hsource, hresp, withStore, h]

theorem ends_perform {i : Invocation} {fuel : Nat} {d d' : Disk} {r : Report}
    (hp : i.perform fuel d = some (r, d')) : i.Ends d r d' := by
  cases hi : i.looksOnly with
  | true =>
    rw [disk_of_perform hi hp]
    exact .untouched (.inl hi)
  | false =>
    cases hopen : Store.ofFile i.store (d.read i.store) with
    | error fault =>
      rw [perform_of_not_opened hi hopen] at hp
      cases hp
      exact .untouched (.inr Nat.one_ne_zero)
    | ok s =>
      -- from here on the store in the file is known, and only its target can change
      obtain ⟨hpath, hrange⟩ := Store.inRange_of_ofFile hopen
      obtain ⟨α, o, announce, lines, id, hresp, halters⟩ := respond_alters hi hopen fuel
      obtain ⟨r', d'', hp', hends⟩ := perform_ofChange hresp
      obtain ⟨rfl, rfl⟩ : r' = r ∧ d'' = d' := by simpa [hp] using hp'.symm
      have hpath' := halters.orderly.path.trans hpath
      cases hends with
      | refused _ hstatus => exact .untouched (.inr (by simp [hstatus, StoreFault.status_ne_zero]))
      | unwritten _ hf hstatus => exact .unwritten hi (by simp [hstatus]) hpath' hf
      | written hr hf hstatus houtput =>
        refine .written hi hstatus hopen halters.target ?_ halters.others hpath'
          (halters.orderly.inRange hrange) hf
        intro capacity hreq
        rw [houtput, halters.printed _ capacity hr hreq]

namespace Ends

variable {i : Invocation} {d d' : Disk} {r : Report}

theorem disk_eq (h : i.Ends d r d') (hi : i.looksOnly = true) : d' = d := by
  cases h with
  | untouched _ => rfl
  | unwritten hlooks => simp [hi] at hlooks
  | written hlooks => simp [hi] at hlooks

theorem content?_eq (h : i.Ends d r d') (hr : r.status ≠ 0)
    (hne : Path.temporary i.store ≠ i.store) : d'.content? i.store = d.content? i.store := by
  cases h with
  | untouched _ => rfl
  | unwritten _ _ hpath hf =>
    rw [← hpath] at hne ⊢
    obtain ⟨hsame, hnode⟩ := Store.sameDirectories_of_flush hf hne
    exact Disk.content?_of_sameDirectories hsame hnode
  | written _ hstatus => exact absurd hstatus hr

theorem node?_eq (h : i.Ends d r d') {q : Place} (hstore : d.locate i.store ≠ .ok q)
    (htemporary : d.locate (Path.temporary i.store) ≠ .ok q) : d'.node? q = d.node? q := by
  cases h with
  | untouched _ => rfl
  | unwritten _ _ hpath hf =>
    rw [← hpath] at hstore htemporary
    exact Store.node?_of_flush hf hstore htemporary
  | written _ _ _ _ _ _ hpath _ hf =>
    rw [← hpath] at hstore htemporary
    exact Store.node?_of_flush hf hstore htemporary

/-- What a command that succeeds has changed is in the file, and is one record. -/
theorem record_eq (h : i.Ends d r d') (hr : r.status = 0) (hi : i.looksOnly = false) :
    ∃ s s' id, Store.ofFile i.store (d.read i.store) = .ok s ∧
      Store.ofFile i.store (d'.read i.store) = .ok s' ∧ i.target? s = some id ∧
      (∀ capacity, i.request = .create capacity → r.output = [id]) ∧
      ∀ key, key ≠ id → s'.record key = s.record key := by
  cases h with
  | untouched hends => simp [hi, hr] at hends
  | unwritten _ hstatus => exact absurd hr hstatus
  | written _ _ hopen htarget hprinted hothers hpath hrange hf =>
    refine ⟨_, _, _, hopen, ?_, htarget, hprinted, hothers⟩
    rw [← hpath]
    exact Store.ofFile_read_of_flush hf hrange

end Ends

end Invocation

/-- What a command line does to a disk, whatever is there and wherever writing fails. Arguments that
are not understood change nothing. Where the command fails, the file of its store has the content it
had, unless that file is its own temporary sibling. A command that only looks changes nothing. The
places that neither the store's path nor its temporary sibling leads to are as they were. And where
a command to change a computer succeeds, no record has changed but the one under the identifier that
was given, or that was handed out and printed. -/
theorem commands_touch_only_their_store {fuel : Nat} {args : List String} {d d' : Disk}
    {r : Report} (h : runCommand fuel args d = some (r, d')) :
    (CommandLine.parse? args = none → r.status ≠ 0 ∧ d' = d) ∧
    ∀ i, CommandLine.parse? args = some i →
      (r.status ≠ 0 → Path.temporary i.store ≠ i.store →
        d'.content? i.store = d.content? i.store) ∧
      (i.looksOnly = true → d' = d) ∧
      (∀ q, d.locate i.store ≠ .ok q → d.locate (Path.temporary i.store) ≠ .ok q →
        d'.node? q = d.node? q) ∧
      (r.status = 0 → i.looksOnly = false →
        ∃ s s' id, Store.ofFile i.store (d.read i.store) = .ok s ∧
          Store.ofFile i.store (d'.read i.store) = .ok s' ∧ i.target? s = some id ∧
          (∀ capacity, i.request = .create capacity → r.output = [id]) ∧
          ∀ key, key ≠ id → s'.record key = s.record key) := by
  rw [runCommand] at h
  constructor
  · intro hargs
    rw [hargs] at h
    cases h
    exact ⟨Nat.succ_ne_zero 1, rfl⟩
  · intro i hargs
    rw [hargs] at h
    have hends := Invocation.ends_perform h
    exact ⟨hends.content?_eq, hends.disk_eq, fun _ => hends.node?_eq, hends.record_eq⟩

/-- A computer is created in a store beside another file. On a disk where the temporary file cannot
take the place of the store's, the store is not there afterwards either. -/
theorem commands_touch_only_their_store_create :
    let notes : Place := ["tmp", "work", "notes.txt"]
    let d := Disk.fresh.put notes (.file (.text "keep"))
    let failing := { d with outages := [none, some (.other "Input/output error (os error 5)")] }
    let create := ["--store", "a.json", "create", "--capacity", "3"]
    ∃ r d₁ r' d₂, runCommand 0 create d = some (r, d₁) ∧ r.status = 0 ∧ r.output = ["0000001"] ∧
      d₁.node? notes = d.node? notes ∧
      runCommand 0 create failing = some (r', d₂) ∧ r'.status = 1 ∧
      d₂.content? "a.json" = failing.content? "a.json" := by
  intro notes d failing create
  have hparse : CommandLine.parse? create =
      some { store := "a.json", request := .create (some 3) } := by decide +kernel
  have hdone : (runCommand 0 create d).map (fun after => (after.1.status, after.1.output)) =
      some (0, ["0000001"]) := by decide +kernel
  have hfailed : (runCommand 0 create failing).map (fun after => after.1.status) = some 1 := by
    decide +kernel
  obtain ⟨⟨r, d₁⟩, hrun, hresults⟩ := Option.map_eq_some_iff.mp hdone
  obtain ⟨⟨r', d₂⟩, hrun', hstatus'⟩ := Option.map_eq_some_iff.mp hfailed
  obtain ⟨hstatus, houtput⟩ := Prod.mk.inj hresults
  obtain ⟨-, -, hnode, -⟩ := (commands_touch_only_their_store hrun).2 _ hparse
  obtain ⟨hcontent, -⟩ := (commands_touch_only_their_store hrun').2 _ hparse
  have hnotes := hnode notes (by decide +kernel) (by decide +kernel)
  refine ⟨r, d₁, r', d₂, hrun, hstatus, houtput, hnotes, hrun', hstatus', hcontent ?_ ?_⟩
  · exact ne_of_eq_of_ne hstatus' Nat.one_ne_zero
  · decide +kernel

end StackComputer
