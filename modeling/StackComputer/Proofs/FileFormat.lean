import StackComputer.Store
import StackComputer.Proofs.JsonText
import StackComputer.Proofs.KeyMaps

/-! # The file format decodes what it encodes

Every layer of the format has a writer and a reader: optional fields, the operand that is a number
or a text, slots, maps, objects with fixed fields. Each reader undoes its writer, and a catalogue or
a record is put together from them. Counters, addresses and capacities are 64-bit numbers; the
reader refuses any other, so what it gives is in range again.
-/

namespace StackComputer

open Json (Value)

theorem mapM_eq_some_of_forall {α β : Type} {f : α → Option β} {g : α → β} {as : List α}
    (h : ∀ a ∈ as, f a = some (g a)) : as.mapM f = some (as.map g) := by
  induction as with
  | nil => rfl
  | cons a as ih =>
    have hhead := h a List.mem_cons_self
    have htail := ih fun b hb => h b (List.mem_cons_of_mem a hb)
    simp [List.mapM_cons, hhead, htail]

theorem exists_of_mem_mapM {α β : Type} {f : α → Option β} {as : List α} {bs : List β}
    (h : as.mapM f = some bs) {b : β} (hb : b ∈ bs) : ∃ a ∈ as, f a = some b := by
  induction as generalizing bs with
  | nil =>
    cases h
    cases hb
  | cons a as ih =>
    simp only [List.mapM_cons, Option.bind_eq_bind, Option.bind_eq_some_iff] at h
    obtain ⟨c, hc, cs, hcs, hbs⟩ := h
    cases hbs
    rcases List.mem_cons.mp hb with rfl | hb
    · exact ⟨a, List.mem_cons_self, hc⟩
    · obtain ⟨a', ha', hf⟩ := ih hcs hb
      exact ⟨a', List.mem_cons_of_mem a ha', hf⟩

namespace Json.Value

theorem members?_record (ms : List (String × Value)) : (record ms).members? = some ms := by
  rw [record, members?, List.mapM_map]
  exact (mapM_eq_some_of_forall (g := id) fun _ _ => rfl).trans (by rw [List.map_id])

theorem member?_of_mem {name : String} {v : Value} {ms : List (String × Value)}
    (hn : (ms.map Prod.fst).Nodup) (h : (name, v) ∈ ms) : member? name ms = some v := by
  have hf : ms.filter (·.1 == name) = [(name, v)] := by
    induction ms with
    | nil => cases h
    | cons m ms ih =>
      rw [List.map_cons, List.nodup_cons] at hn
      rcases List.mem_cons.mp h with rfl | h
      · have hr : ms.filter (·.1 == name) = [] := by
          rw [List.filter_eq_nil_iff]
          intro m hm hk
          exact hn.1 (List.mem_map.mpr ⟨m, hm, by simpa using hk⟩)
        simp [hr]
      · have hk : m.1 ≠ name := by
          rintro rfl
          exact hn.1 (List.mem_map.mpr ⟨_, h, rfl⟩)
        simp [hk, ih hn.2 h]
  rw [member?, hf]

theorem fields?_record (ms : List (String × Value)) (hn : (ms.map Prod.fst).Nodup) :
    (record ms).fields? (ms.map Prod.fst) = some (ms.map Prod.snd) := by
  change (record ms).members?.bind _ = _
  rw [members?_record, Option.bind_some, List.mapM_map]
  exact mapM_eq_some_of_forall fun _ hm => member?_of_mem hn hm

theorem natural?_integer {n : Nat} (h : n < addressLimit) : natural? (.integer n) = some n := by
  simp [natural?, h]

theorem lt_of_natural? {v : Value} {n : Nat} (h : v.natural? = some n) : n < addressLimit := by
  unfold natural? at h
  split at h
  · split at h
    · cases h
      omega
    · cases h
  · cases h

end Json.Value

theorem unlessNull_orNull {α : Type} {write : α → Value} {read : Value → Option α}
    (hnull : ∀ a, write a ≠ .null) (h : ∀ a, read (write a) = some a) (o : Option α) :
    unlessNull read (orNull write o) = some o := by
  cases o with
  | none => rfl
  | some a => simp [orNull, unlessNull, hnull a, h a]

theorem StoredOperand.ofValue?_toValue (o : StoredOperand) : ofValue? o.toValue = some o := by
  cases o with
  | number value => simp [toValue, ofValue?, Word.ofInt?_eq_some_iff]
  | text s => rfl

theorem SlotRecord.ofValue?_toValue (s : SlotRecord) : ofValue? s.toValue = some s := by
  have hread : ∀ text, (Value.text text).text? = some text := fun _ => rfl
  have hopcode := unlessNull_orNull (by simp [Value.text]) hread s.opcode
  have hnull : ∀ operand : StoredOperand, operand.toValue ≠ .null := by
    intro operand
    cases operand <;> simp [StoredOperand.toValue, Value.text]
  have hoperand := unlessNull_orNull hnull StoredOperand.ofValue?_toValue s.operand
  simp [toValue, ofValue?, hopcode, hoperand]

theorem mapOfValue?_mapToValue {α : Type} {write : α → Value} {read : Value → Option α}
    (m : KeyMap α) (h : ∀ e ∈ m.entries, read (write e.2) = some e.2) :
    mapOfValue? read (mapToValue write m) = some m := by
  have hm := Json.Value.members?_record (m.entries.map fun e => (e.1, write e.2))
  have hread : (m.entries.map fun e => (e.1, write e.2)).mapM (fun e => (read e.2).map (e.1, ·)) =
      some m.entries := by
    rw [List.mapM_map, mapM_eq_some_of_forall (g := id) fun e he => by simp [h e he], List.map_id]
  simp only [mapOfValue?, mapToValue, hm, hread, Option.bind_eq_bind, Option.bind_some,
    KeyMap.ofList_entries]
  rfl

structure Record.InRange (r : Record) : Prop where
  programCounter_lt : r.programCounter < addressLimit
  pointer_lt : r.program.pointer < addressLimit
  capacity_lt : r.program.capacity < addressLimit

structure Catalogue.InRange (cat : Catalogue) : Prop where
  lastId_lt : cat.lastId < addressLimit
  records : ∀ e ∈ cat.records.entries, e.2.InRange

theorem ProgramRecord.ofValue?_toValue {p : ProgramRecord} (hpointer : p.pointer < addressLimit)
    (hcapacity : p.capacity < addressLimit) : ofValue? p.toValue = some p := by
  have hf := Value.fields?_record [("data", mapToValue SlotRecord.toValue p.slots),
    ("stack_pointer", .integer p.pointer), ("stack_size", .integer p.capacity)] (by simp)
  have hslots := mapOfValue?_mapToValue p.slots fun e _ => SlotRecord.ofValue?_toValue e.2
  simp only [List.map_cons, List.map_nil] at hf
  simp [toValue, ofValue?, hf, hslots, Value.natural?_integer hpointer,
    Value.natural?_integer hcapacity]

theorem Record.ofValue?_toValue {r : Record} (h : r.InRange) : ofValue? r.toValue = some r := by
  have hf := Value.fields?_record [("id", .text r.id),
    ("program_counter", .integer r.programCounter), ("program_stack", r.program.toValue)] (by simp)
  have hprogram := ProgramRecord.ofValue?_toValue h.pointer_lt h.capacity_lt
  have hid : (Value.text r.id).text? = some r.id := rfl
  simp only [List.map_cons, List.map_nil] at hf
  simp [toValue, ofValue?, hf, hid, hprogram, Value.natural?_integer h.programCounter_lt]

theorem Catalogue.ofValue?_toValue {cat : Catalogue} (h : cat.InRange) :
    ofValue? cat.toValue = some cat := by
  have hf := Value.fields?_record [("next_id", .integer cat.lastId),
    ("computers", mapToValue Record.toValue cat.records)] (by simp)
  have hrecords := mapOfValue?_mapToValue cat.records fun e he =>
    Record.ofValue?_toValue (h.records e he)
  simp only [List.map_cons, List.map_nil] at hf
  simp [toValue, ofValue?, hf, hrecords, Value.natural?_integer h.lastId_lt]

theorem Record.parse?_text {r : Record} (h : r.InRange) : parse? r.text = some r := by
  rw [parse?, text, Json.parse?_compact, Option.bind_some, ofValue?_toValue h]

theorem Catalogue.parse?_text {cat : Catalogue} (h : cat.InRange) : parse? cat.text = some cat := by
  rw [parse?, text, Json.parse?_pretty, Option.bind_some, ofValue?_toValue h]

/-! What is read is in range, so it can be written and read again. -/

theorem exists_of_mapOfValue? {α : Type} {read : Value → Option α} {v : Value} {m : KeyMap α}
    (h : mapOfValue? read v = some m) {e : String × α} (he : e ∈ m.entries) :
    ∃ w, read w = some e.2 := by
  simp only [mapOfValue?, Option.bind_eq_bind, Option.bind_eq_some_iff] at h
  obtain ⟨ms, -, es, hes, hm⟩ := h
  cases hm
  have hmem := KeyMap.mem_of_mem_entries_ofList he
  obtain ⟨w, -, hw⟩ := exists_of_mem_mapM hes hmem
  obtain ⟨a, ha, rfl⟩ := Option.map_eq_some_iff.mp hw
  exact ⟨_, ha⟩

theorem Record.inRange_of_ofValue? {v : Value} {r : Record} (h : ofValue? v = some r) :
    r.InRange := by
  unfold ofValue? at h
  split at h
  · rename_i id programCounter program _
    simp only [Option.bind_eq_bind, Option.bind_eq_some_iff] at h
    obtain ⟨id', -, pc, hpc, p, hp, hr⟩ := h
    cases hr
    unfold ProgramRecord.ofValue? at hp
    split at hp
    · simp only [Option.bind_eq_bind, Option.bind_eq_some_iff] at hp
      obtain ⟨slots, -, pointer, hpointer, capacity, hcapacity, hp⟩ := hp
      cases hp
      exact ⟨Value.lt_of_natural? hpc, Value.lt_of_natural? hpointer,
        Value.lt_of_natural? hcapacity⟩
    · cases hp
  · cases h

theorem Catalogue.inRange_of_parse? {text : String} {cat : Catalogue}
    (h : parse? text = some cat) : cat.InRange := by
  obtain ⟨v, -, hv⟩ := Option.bind_eq_some_iff.mp h
  unfold ofValue? at hv
  split at hv
  · simp only [Option.bind_eq_bind, Option.bind_eq_some_iff] at hv
    obtain ⟨lastId, hlast, records, hrecords, hc⟩ := hv
    cases hc
    refine ⟨Value.lt_of_natural? hlast, fun e he => ?_⟩
    obtain ⟨w, hw⟩ := exists_of_mapOfValue? hrecords he
    exact Record.inRange_of_ofValue? hw
  · cases hv

/-- A catalogue is read back from its file and a record from its line, whatever texts they hold. -/
theorem format_decodes_encoded :
    (∀ cat : Catalogue, cat.InRange → Catalogue.parse? cat.text = some cat) ∧
    (∀ r : Record, r.InRange → Record.parse? r.text = some r) :=
  ⟨fun _ => Catalogue.parse?_text, fun _ => Record.parse?_text⟩

/-- Controls, quotes and characters beyond the basic plane in every text, the largest and smallest
numbers, a slot without an opcode and one with an operand that is a text. -/
theorem format_decodes_extremes :
    let r : Record :=
      { id := "\"\\\n\x00\x1fé😀"
        programCounter := addressLimit - 1
        program :=
          { slots := .ofList [("", ⟨none, some (.text "\t")⟩), ("7", ⟨some "", none⟩),
              ("+7", ⟨some "push", some (.number (-9223372036854775808))⟩)]
            pointer := 0
            capacity := addressLimit - 1 } }
    let cat : Catalogue := { lastId := addressLimit - 1, records := KeyMap.empty.insert "/\x7f" r }
    cat.InRange ∧ Catalogue.parse? cat.text = some cat ∧
      r.InRange ∧ Record.parse? r.text = some r := by
  intro r cat
  have hr : r.InRange := ⟨by decide, by decide, by decide⟩
  have hcat : cat.InRange := by
    refine ⟨by decide, fun e he => ?_⟩
    rcases KeyMap.mem_insertEntry he with rfl | he
    · exact hr
    · cases he
  exact ⟨hcat, format_decodes_encoded.1 cat hcat, hr, format_decodes_encoded.2 r hr⟩

end StackComputer
