import StackComputer.Proofs.Files
import StackComputer.Proofs.FileFormat
import StackComputer.Proofs.Restoration

/-! # The file of a store

Writing a store goes by a temporary file. Where it succeeds, the file holds the store and opening it
gives the store back; where it fails, the file is as it was, unless it is its own temporary sibling.
Either way all files but these two are untouched.
-/

namespace StackComputer

structure Computer.InRange (c : Computer) : Prop where
  programCounter_lt : c.registers.programCounter < addressLimit
  pointer_lt : c.program.pointer < addressLimit
  capacity_lt : c.program.capacity < addressLimit

theorem Computer.InRange.record {c : Computer} (h : c.InRange) (id : String) :
    (Record.ofComputer id c).InRange :=
  ⟨h.programCounter_lt, h.pointer_lt, h.capacity_lt⟩

structure Computer.Storable (c : Computer) : Prop extends Settled c where
  capacity_le : c.program.capacity ≤ maxCapacity
  programCounter_lt : c.registers.programCounter < addressLimit

namespace Computer.Storable

variable {c d : Computer}

theorem inRange (h : c.Storable) : c.InRange := by
  have hcap := h.capacity_le
  have hpointer := h.wellFormed.pointer_le
  unfold maxCapacity at hcap
  exact ⟨h.programCounter_lt, by unfold addressLimit; omega, by unfold addressLimit; omega⟩

theorem of_edits (h : c.Storable) (he : Edits c d) : d.Storable :=
  ⟨h.toSettled.of_edits he, he.capacity ▸ h.capacity_le, he.registers ▸ h.programCounter_lt⟩

end Computer.Storable

theorem Computer.storable_empty {capacity : Nat} (h : capacity ≤ maxCapacity) :
    (Computer.empty capacity).Storable :=
  ⟨settled_empty capacity, h, show 0 < addressLimit by decide⟩

namespace Catalogue

theorem inRange_empty : ({} : Catalogue).InRange :=
  ⟨by decide, fun e he => by cases he⟩

theorem InRange.insert {cat : Catalogue} (h : cat.InRange) (id : String) {r : Record}
    (hr : r.InRange) : ({ cat with records := cat.records.insert id r } : Catalogue).InRange := by
  refine ⟨h.lastId_lt, fun e he => ?_⟩
  rcases KeyMap.mem_insertEntry he with rfl | he
  · exact hr
  · exact h.records e he

theorem InRange.create {cat : Catalogue} (h : cat.InRange) {capacity : Nat}
    (hcap : capacity ≤ maxCapacity) (hid : cat.lastId + 1 < addressLimit) :
    (cat.create capacity).2.InRange :=
  ⟨hid, (h.insert _ ((Computer.storable_empty hcap).inRange.record _)).records⟩

theorem InRange.erase {cat : Catalogue} (h : cat.InRange) (id : String) :
    (cat.erase id).InRange :=
  ⟨h.lastId_lt, fun e he => h.records e (List.mem_of_mem_filter he)⟩

end Catalogue

namespace Store

/-- Writing succeeds in two steps: the text is in the temporary file before it is in the store's. -/
theorem flush_eq_ok_iff {s : Store} {d d' : Disk} :
    s.flush d = (.ok (), d') ↔
      ∃ d₁, d.write (Path.temporary s.path) s.catalogue.text = (.ok (), d₁) ∧
        d₁.rename (Path.temporary s.path) s.path = (.ok (), d') := by
  rw [flush]
  rcases d.write (Path.temporary s.path) s.catalogue.text with ⟨fault | _, d₁⟩
  · simp
  · simp

/-- The second disk has the text of a store in its file, no temporary file, and all else as the
first disk has it. -/
structure Filed (s : Store) (d d' : Disk) : Prop where
  sameDirectories : d.SameDirectories d'
  slashless : Path.endsInSlash s.path = false
  node? : ∃ place goal, d.locate (Path.temporary s.path) = .ok place ∧
    d.locate s.path = .ok goal ∧
    ∀ q, d'.node? q = if q = goal then some (.file (.text s.catalogue.text))
      else if q = place then none else d.node? q

theorem filed_of_flush {s : Store} {d d' : Disk} (h : s.flush d = (.ok (), d')) :
    s.Filed d d' := by
  obtain ⟨d₁, hw, hr⟩ := flush_eq_ok_iff.mp h
  obtain ⟨hsame, place, hplace, -, hput⟩ := Disk.of_write_eq_ok hw
  obtain ⟨hsame', place', goal, content, hplace', hgoal, hfile, hslash, hmoved⟩ :=
    Disk.of_rename_eq_ok hr
  -- the temporary file is still where it was written
  obtain rfl : place = place' :=
    Except.ok.inj ((Disk.locate_of_sameDirectories hsame hplace).symm.trans hplace')
  obtain rfl : content = .text s.catalogue.text := by
    rw [hput, if_pos rfl] at hfile
    simpa using hfile.symm
  refine ⟨hsame.trans hsame', hslash, place, goal, hplace,
    Disk.locate_of_sameDirectories hsame.symm hgoal, ?_⟩
  intro q
  rw [hmoved, hput]
  by_cases hq : q = place
  · simp [hq]
  · simp [hq]

/-- Of two stores that are written to one file, only the second can be seen. -/
theorem Filed.trans {s t : Store} {d₁ d₂ d₃ : Disk} (hs : s.Filed d₁ d₂) (hpath : t.path = s.path)
    (ht : t.Filed d₂ d₃) : t.Filed d₁ d₃ := by
  obtain ⟨hsame, -, place, goal, hplace, hgoal, hnode⟩ := hs
  obtain ⟨hsame', hslash, place', goal', hplace', hgoal', hnode'⟩ := ht
  have hplace₁ := Disk.locate_of_sameDirectories hsame.symm hplace'
  have hgoal₁ := Disk.locate_of_sameDirectories hsame.symm hgoal'
  refine ⟨hsame.trans hsame', hslash, place', goal', hplace₁, hgoal₁, ?_⟩
  obtain rfl : place' = place := Except.ok.inj (hplace₁.symm.trans (hpath ▸ hplace))
  obtain rfl : goal' = goal := Except.ok.inj (hgoal₁.symm.trans (hpath ▸ hgoal))
  intro q
  rw [hnode', hnode]
  split_ifs <;> rfl

theorem Filed.node?_eq {s : Store} {d d₁ d₂ : Disk} (h₁ : s.Filed d d₁) (h₂ : s.Filed d d₂)
    (q : Place) : d₁.node? q = d₂.node? q := by
  obtain ⟨-, -, place, goal, hplace, hgoal, hnode⟩ := h₁
  obtain ⟨-, -, place', goal', hplace', hgoal', hnode'⟩ := h₂
  obtain rfl : place = place' := Except.ok.inj (hplace.symm.trans hplace')
  obtain rfl : goal = goal' := Except.ok.inj (hgoal.symm.trans hgoal')
  rw [hnode, hnode']

theorem content?_of_flush {s : Store} {d d' : Disk} (h : s.flush d = (.ok (), d')) :
    d'.content? s.path = some (.text s.catalogue.text) := by
  obtain ⟨hsame, hslash, place, goal, -, hgoal, hnode⟩ := filed_of_flush h
  refine Disk.content?_of_node? (Disk.locate_of_sameDirectories hsame hgoal) hslash ?_
  rw [hnode, if_pos rfl]

/-- Where writing fails, at most the temporary file has changed. -/
theorem node?_of_flush_eq_error {s : Store} {d d' : Disk} {fault : FileFault}
    (h : s.flush d = (.error fault, d')) :
    d.SameDirectories d' ∧ ∀ q, d'.node? q = d.node? q ∨
      d.locate (Path.temporary s.path) = .ok q ∧ d.node? q ≠ some .directory := by
  unfold flush at h
  split at h
  · rename_i hw
    cases h
    rw [Disk.of_attempt_eq_error hw]
    exact ⟨Disk.sameDirectories_outages _ _, fun _ => .inl rfl⟩
  · rename_i d₁ hw
    obtain ⟨hsame, place, hplace, hdir, hput⟩ := Disk.of_write_eq_ok hw
    rw [Disk.of_attempt_eq_error h]
    refine ⟨hsame.trans (Disk.sameDirectories_outages _ _), ?_⟩
    intro q
    by_cases hq : q = place
    · subst q
      exact .inr ⟨hplace, hdir⟩
    · left
      change d₁.node? q = _
      rw [hput, if_neg hq]

theorem sameDirectories_of_flush {s : Store} {d d' : Disk} {fault : FileFault}
    (h : s.flush d = (.error fault, d')) (hne : Path.temporary s.path ≠ s.path) :
    d.SameDirectories d' ∧ ∀ place, d.locate s.path = .ok place →
      Path.endsInSlash s.path = true ∨ d'.node? place = d.node? place := by
  obtain ⟨hsame, hnode⟩ := node?_of_flush_eq_error h
  refine ⟨hsame, ?_⟩
  intro place hplace
  rcases hnode place with heq | ⟨htemporary, hdir⟩
  · exact .inr heq
  · exact .inl (Disk.endsInSlash_of_temporary hne hplace htemporary hdir)

theorem node?_of_flush {s : Store} {d d' : Disk} {writing : Except FileFault Unit}
    (h : s.flush d = (writing, d')) {q : Place} (hpath : d.locate s.path ≠ .ok q)
    (htemporary : d.locate (Path.temporary s.path) ≠ .ok q) : d'.node? q = d.node? q := by
  cases writing with
  | error fault =>
    rcases (node?_of_flush_eq_error h).2 q with heq | ⟨hplace, -⟩
    · exact heq
    · exact absurd hplace htemporary
  | ok _ =>
    obtain ⟨-, -, place, goal, hplace, hgoal, hnode⟩ := filed_of_flush h
    have hq : q ≠ goal := fun heq => hpath (heq ▸ hgoal)
    have hq' : q ≠ place := fun heq => htemporary (heq ▸ hplace)
    rw [hnode, if_neg hq, if_neg hq']

/-- Whether a store can be written depends on its path, and on nothing else about it. -/
theorem flush_of_alike {s t : Store} {d d' e : Disk} (hpath : t.path = s.path) (ha : d.Alike e)
    (h : s.flush d = (.ok (), d')) : ∃ e', t.flush e = (.ok (), e') ∧ d'.Alike e' := by
  obtain ⟨d₁, hw, hr⟩ := flush_eq_ok_iff.mp h
  obtain ⟨e₁, hw', ha₁⟩ := Disk.write_of_alike ha hw t.catalogue.text
  obtain ⟨hsame, place, hplace, -, hput⟩ := Disk.of_write_eq_ok hw'
  have hfile : e₁.node? place = some (.file (.text t.catalogue.text)) := by
    rw [hput, if_pos rfl]
  obtain ⟨e', hr', ha'⟩ :=
    Disk.rename_of_alike ha₁ hr (Disk.locate_of_sameDirectories hsame hplace) hfile
  rw [← hpath] at hw' hr'
  exact ⟨e', flush_eq_ok_iff.mpr ⟨e₁, hw', hr'⟩, ha'⟩

theorem flush_of_writable {s : Store} {d : Disk} (h : d.Writable s.path) :
    ∃ d', s.flush d = (.ok (), d') ∧ d'.Writable s.path := by
  obtain ⟨d₁, hw, hout₁⟩ := Disk.write_of_writable h s.catalogue.text
  obtain ⟨hsame, place, hplace, -, hput⟩ := Disk.of_write_eq_ok hw
  have hplace' := Disk.locate_of_sameDirectories hsame hplace
  have hfile : d₁.node? place = some (.file (.text s.catalogue.text)) := by
    rw [hput, if_pos rfl]
  have h₁ := h.of_sameDirectories hsame hout₁
  obtain ⟨d₂, hr, hout₂⟩ := Disk.rename_of_writable h₁ hplace' hfile
  exact ⟨d₂, flush_eq_ok_iff.mpr ⟨d₁, hw, hr⟩,
    h₁.of_sameDirectories (Disk.of_rename_eq_ok hr).1 hout₂⟩

theorem ofFile_read_of_flush {s : Store} {d d' : Disk} (h : s.flush d = (.ok (), d'))
    (hs : s.catalogue.InRange) : ofFile s.path (d'.read s.path) = .ok s := by
  rw [Disk.read_of_content? (content?_of_flush h), ofFile, Catalogue.parse?_text hs]

theorem ofFile_of_isAbsence (path : String) {fault : FileFault} (h : fault.isAbsence = true) :
    ofFile path (.error fault) = .ok { path } :=
  if_pos h

theorem ofFile_read_of_sameDirectories {path : String} {d d' : Disk} (h : d.SameDirectories d')
    (hn : ∀ place, d.locate path = .ok place → Path.endsInSlash path = true ∨
      d'.node? place = d.node? place) :
    ofFile path (d'.read path) = ofFile path (d.read path) := by
  rcases Disk.read_of_sameDirectories h hn with heq | ⟨f, g, hf, hg, hfa, hga⟩
  · rw [heq]
  · rw [hf, hg, ofFile_of_isAbsence _ hfa, ofFile_of_isAbsence _ hga]

theorem ofFile_read_of_failed_flush {s : Store} {d d' : Disk} {fault : FileFault}
    (h : s.flush d = (.error fault, d')) (hne : Path.temporary s.path ≠ s.path) :
    ofFile s.path (d'.read s.path) = ofFile s.path (d.read s.path) := by
  obtain ⟨hsame, hnode⟩ := sameDirectories_of_flush h hne
  exact ofFile_read_of_sameDirectories hsame hnode

/-- A file that is its own temporary sibling has been written once the temporary file has. -/
theorem ofFile_read_of_temporary {s : Store} {d d' : Disk} {fault : FileFault}
    (h : s.flush d = (.error fault, d')) (heq : Path.temporary s.path = s.path)
    (hs : s.catalogue.InRange) :
    ofFile s.path (d'.read s.path) = .ok s ∨
      ofFile s.path (d'.read s.path) = ofFile s.path (d.read s.path) := by
  rw [flush, heq] at h
  split at h
  · rename_i hw
    cases h
    rw [Disk.of_attempt_eq_error hw]
    exact .inr (ofFile_read_of_sameDirectories (Disk.sameDirectories_outages _ _)
      fun _ _ => .inr rfl)
  · rename_i d₁ hw
    left
    obtain ⟨hsame, place, hplace, -, hput⟩ := Disk.of_write_eq_ok hw
    obtain ⟨-, -, -, -, hslash, -⟩ := Disk.write_eq_ok_iff.mp hw
    have hfile : d₁.node? place = some (.file (.text s.catalogue.text)) := by
      rw [hput, if_pos rfl]
    have hcontent : d'.content? s.path = some (.text s.catalogue.text) := by
      rw [Disk.of_attempt_eq_error h]
      have hout := Disk.sameDirectories_outages d₁ d₁.outages.tail
      have hplace' := Disk.locate_of_sameDirectories (hsame.trans hout) hplace
      exact Disk.content?_of_node? hplace' hslash hfile
    rw [Disk.read_of_content? hcontent, ofFile, Catalogue.parse?_text hs]

/-- Whether writing succeeds or fails, the file holds what memory holds or what it held before. -/
theorem reopens_of_flush {s : Store} {d d' : Disk} {writing : Except FileFault Unit}
    (h : s.flush d = (writing, d')) (hs : s.catalogue.InRange) :
    ofFile s.path (d'.read s.path) = .ok s ∨
      writing ≠ .ok () ∧ ofFile s.path (d'.read s.path) = ofFile s.path (d.read s.path) := by
  cases writing with
  | ok _ => exact .inl (ofFile_read_of_flush h hs)
  | error fault =>
    by_cases heq : Path.temporary s.path = s.path
    · rcases ofFile_read_of_temporary h heq hs with hnew | hold
      · exact .inl hnew
      · exact .inr ⟨nofun, hold⟩
    · exact .inr ⟨nofun, ofFile_read_of_failed_flush h heq⟩

theorem inRange_of_ofFile {path : String} {reading : Except FileFault String} {s : Store}
    (h : ofFile path reading = .ok s) : s.path = path ∧ s.catalogue.InRange := by
  unfold ofFile at h
  split at h
  · split at h
    · cases h
      exact ⟨rfl, Catalogue.inRange_empty⟩
    · cases h
  · split at h
    · rename_i hparse
      cases h
      exact ⟨rfl, Catalogue.inRange_of_parse? hparse⟩
    · cases h

end Store

end StackComputer
