import StackComputer.Proofs.Durability

/-! # Saved computers loaded again

What a record says about its computer is what can be seen of it from outside, so a saved computer
comes back with the same snapshot if its record can be read at all. Saving does not look at the
capacity, and a record of more than the largest capacity cannot be read.
-/

namespace StackComputer

namespace Record

/-- The return register is not kept, and it cannot be seen from outside. -/
theorem exists_toComputer_ofComputer {c : Computer} (hc : c.program.WellFormed)
    (hcap : c.capacity ≤ maxCapacity) (id : String) :
    ∃ e, (ofComputer id c).toComputer = .ok e ∧ e.snapshot = c.snapshot := by
  let kept := c.restoreRegisters { programCounter := c.registers.programCounter }
  have hkept : kept.Settled := ⟨hc, rfl⟩
  exact ⟨kept.setPolicy .lenient, toComputer_ofComputer hkept hcap id, rfl⟩

theorem toComputer_of_oversized {r : Record} (h : maxCapacity < r.program.capacity) :
    r.toComputer = .error (.invalidRecord (.oversized r.program.capacity)) :=
  if_pos h

end Record

namespace Store

theorem of_save_eq_ok {s : Store} {id : String} {c : Computer}
    (h : (s.save id c).result = .ok ()) :
    (s.save id c).state = s.assign id (some (.ofComputer id c)) := by
  unfold save at h ⊢
  split at h
  · cases h
  · rfl

theorem of_commit_eq_ok {α : Type} {o : Outcome Store StoreFault α} {announce : α → List Event}
    {d : Disk} {value : α} (h : (commit o announce d).result = .ok value) :
    o.result = .ok value ∧ ∃ d', o.state.flush d = (.ok (), d') ∧
      (commit o announce d).state = (o.state, d') := by
  cases hr : o.result with
  | error fault =>
    rw [(commit_of_error hr announce d).1] at h
    cases h
  | ok v =>
    rcases hf : o.state.flush d with ⟨writing, d'⟩
    obtain ⟨hresult, hstate⟩ := commit_of_ok hr hf announce
    rw [hresult] at h
    cases writing with
    | error fault => cases h
    | ok _ =>
      cases h
      exact ⟨rfl, d', rfl, hstate⟩

/-- After a computer was saved, the store in memory and the one in the file have its record. -/
theorem of_saveOn_eq_ok {path : String} {s s' : Store} {d d' : Disk} {id : String} {c : Computer}
    (hs : s.Kept path) (hc : c.InRange) (hsave : (s.saveOn d id c).result = .ok ())
    (hstate : (s.saveOn d id c).state = (s', d')) :
    s' = s.assign id (some (.ofComputer id c)) ∧ ofFile path (d'.read path) = .ok s' := by
  obtain ⟨hok, d₁, hflush, hcommit⟩ := of_commit_eq_ok hsave
  rw [of_save_eq_ok hok] at hflush hcommit
  obtain ⟨rfl, rfl⟩ := Prod.mk.inj (hstate.symm.trans hcommit)
  refine ⟨rfl, ?_⟩
  rw [← hs.path_eq]
  exact ofFile_read_of_flush hflush (hs.inRange.insert id (hc.record id))

/-- Nothing but a refusal keeps a change from a disk that works. -/
theorem commit_of_writable {α : Type} {o : Outcome Store StoreFault α} {d : Disk} {value : α}
    (h : o.result = .ok value) (hd : d.Writable o.state.path) (announce : α → List Event) :
    (commit o announce d).result = .ok value ∧
      ∃ d', (commit o announce d).state = (o.state, d') ∧ d'.Writable o.state.path := by
  obtain ⟨d', hf, hd'⟩ := flush_of_writable hd
  obtain ⟨hresult, hstate⟩ := commit_of_ok h hf announce
  exact ⟨hresult, d', hstate, hd'⟩

theorem createOn_of_writable {s : Store} {d : Disk} {capacity : Nat}
    (hcap : capacity ≤ maxCapacity) (hid : s.catalogue.lastId + 1 < addressLimit)
    (hd : d.Writable s.path) :
    (s.createOn d capacity).result = .ok (Catalogue.identifier (s.catalogue.lastId + 1)) ∧
      ∃ d', (s.createOn d capacity).state =
        ({ s with catalogue := (s.catalogue.create capacity).2 }, d') ∧ d'.Writable s.path := by
  rw [createOn, create_eq_ok hcap hid]
  exact commit_of_writable rfl hd _

theorem saveOn_of_writable {s : Store} {d : Disk} {id : String} {r : Record}
    (hr : s.record id = .ok r) (hd : d.Writable s.path) (c : Computer) :
    (s.saveOn d id c).result = .ok () := by
  rw [saveOn, save, hr]
  exact (commit_of_writable rfl hd _).1

end Store

/-- A computer that was saved, whatever its registers and its policy, comes back with the same
snapshot if its capacity is one that records may have, and not at all if it is larger. Opening the
file again makes no difference. -/
theorem saved_computer_loads_unless_oversized {path : String} {s s' : Store} {d d' : Disk}
    {id : String} {c : Computer} (hs : s.Kept path) (hc : c.program.WellFormed)
    (hrange : c.InRange) (hsave : (s.saveOn d id c).result = .ok ())
    (hstate : (s.saveOn d id c).state = (s', d')) :
    Store.ofFile path (d'.read path) = .ok s' ∧
    (c.capacity ≤ maxCapacity → ∃ e, s'.load id = .ok e ∧ e.snapshot = c.snapshot) ∧
    (maxCapacity < c.capacity →
      s'.load id = .error (.invalidRecord (.oversized c.capacity))) := by
  obtain ⟨rfl, hfile⟩ := Store.of_saveOn_eq_ok hs hrange hsave hstate
  refine ⟨hfile, ?_, ?_⟩
  · intro hcap
    rw [Store.load_assign]
    exact Record.exists_toComputer_ofComputer hc hcap id
  · intro hcap
    rw [Store.load_assign]
    exact Record.toComputer_of_oversized hcap

/-- A computer as it is in the middle of a call, with the write pointer past the last slot. -/
theorem saved_computer_loads_unless_oversized_in_call :
    let path := "computers.json"
    let s : Store := { path, catalogue := (Catalogue.create {} 5).2 }
    let c : Computer := {
      program := { slots := #[some (.call 1), some .ret], capacity := 1, pointer := 2 }
      registers := { programCounter := 1, returnRegister := 1 }
      policy := .strict }
    ∃ s' d' e, (s.saveOn Disk.fresh "0000001" c).result = .ok () ∧
      (s.saveOn Disk.fresh "0000001" c).state = (s', d') ∧
      Store.ofFile path (d'.read path) = .ok s' ∧
      s'.load "0000001" = .ok e ∧ e.snapshot = c.snapshot := by
  intro path s c
  have hs : s.Kept path := ⟨rfl, Catalogue.inRange_empty.create (by decide) (by decide)⟩
  have hc : c.program.WellFormed := ⟨by decide, by decide⟩
  have hrange : c.InRange := ⟨by decide, by decide, by decide⟩
  have hr : s.record "0000001" = .ok (.ofComputer "0000001" (.empty 5)) := by decide +kernel
  have hsave := Store.saveOn_of_writable hr writable_fresh c
  rcases hstate : (s.saveOn Disk.fresh "0000001" c).state with ⟨s', d'⟩
  obtain ⟨hfile, hload, -⟩ :=
    saved_computer_loads_unless_oversized hs hc hrange hsave hstate
  obtain ⟨e, he, hsnapshot⟩ := hload (by decide)
  exact ⟨s', d', e, hsave, rfl, hfile, he, hsnapshot⟩

/-- A computer with a capacity one too large is saved without a fault, and then it is lost: the
store that is open and the file opened again refuse its record. -/
theorem oversized_computer_saved_and_lost :
    let path := "computers.json"
    let c := Computer.empty (maxCapacity + 1)
    let fault := StoreFault.invalidRecord (.oversized (maxCapacity + 1))
    ∃ s d s' d', Store.ofFile path (Disk.fresh.read path) = .ok { path } ∧
      (Store.createOn { path } Disk.fresh 5).result = .ok "0000001" ∧
      (Store.createOn { path } Disk.fresh 5).state = (s, d) ∧
      (s.saveOn d "0000001" c).result = .ok () ∧
      (s.saveOn d "0000001" c).state = (s', d') ∧
      s'.load "0000001" = .error fault ∧
      (Store.ofFile path (d'.read path)).bind (·.load "0000001") = .error fault := by
  intro path c fault
  have hopen : Store.ofFile path (Disk.fresh.read path) = .ok { path } := by decide +kernel
  obtain ⟨hcreated, d, hcreate, hd⟩ :=
    Store.createOn_of_writable (s := { path }) (show 5 ≤ maxCapacity by decide) (by decide)
      writable_fresh
  have hid : Catalogue.identifier 1 = "0000001" := by decide +kernel
  let s : Store := { path, catalogue := (Catalogue.create {} 5).2 }
  have hs : s.Kept path := ⟨rfl, Catalogue.inRange_empty.create (by decide) (by decide)⟩
  have hr : s.record "0000001" = .ok (.ofComputer "0000001" (.empty 5)) := by decide +kernel
  have hrange : c.InRange := ⟨by decide, by decide, by decide⟩
  have hsave := Store.saveOn_of_writable hr hd c
  rcases hstate : (s.saveOn d "0000001" c).state with ⟨s', d'⟩
  obtain ⟨hmemory, hfile⟩ := Store.of_saveOn_eq_ok hs hrange hsave hstate
  have hload : s'.load "0000001" = .error fault := by
    rw [hmemory, Store.load_assign]
    exact Record.toComputer_of_oversized (Nat.lt_succ_self maxCapacity)
  refine ⟨s, d, s', d', hopen, hid ▸ hcreated, hcreate, hsave, hstate, hload, ?_⟩
  rw [hfile]
  exact hload

end StackComputer
