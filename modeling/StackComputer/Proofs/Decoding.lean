import StackComputer.Proofs.ByteOrder
import StackComputer.Proofs.Grammar

/-! # What a record denotes

A record is read in two passes: each of its slots is read on its own, and then the entries are
placed. Both passes together accept exactly the records that are described here. Several keys may
stand for one address, and then the greatest key with a filled slot counts. An empty slot is passed
over once its key has been read, so that its address is not checked against the capacity.
-/

namespace StackComputer

open Text (Signed TrimsTo Unsigned)

def Addresses (key : String) (address : Nat) : Prop :=
  ∃ numeral, TrimsTo key.toList numeral ∧ Unsigned numeral address ∧ address < addressLimit

theorem natural?_trim_eq_some_iff {key : String} {address : Nat} :
    Text.natural? (Text.trim key.toList) = some address ↔ Addresses key address := by
  rw [Text.natural?_eq_some_iff]
  constructor
  · intro h
    exact ⟨_, Text.trimsTo_trim _, h⟩
  · rintro ⟨numeral, htrim, h⟩
    rwa [Text.trim_of_trimsTo htrim]

theorem Addresses.unique {key : String} {a b : Nat} (ha : Addresses key a) (hb : Addresses key b) :
    a = b := by
  rw [← natural?_trim_eq_some_iff] at ha hb
  exact Option.some.inj (ha.symm.trans hb)

def OpCode.KnownAs (op : OpCode) (name : String) : Prop :=
  ∃ word, TrimsTo name.toList word ∧ op.Named word

theorem OpCode.ofName?_eq_some_iff_knownAs {name : String} {op : OpCode} :
    ofName? name = some op ↔ op.KnownAs name := by
  rw [ofName?_eq_some_iff]
  constructor
  · intro h
    exact ⟨_, Text.trimsTo_trim _, h⟩
  · rintro ⟨word, htrim, h⟩
    rwa [Text.trim_of_trimsTo htrim]

inductive StoredOperand.Denotes : StoredOperand → Word → Prop where
  | number (w : Word) : Denotes (.number w) w
  | text {s : String} {numeral : List Char} {w : Word} : TrimsTo s.toList numeral →
      Signed numeral w.toInt → Denotes (.text s) w

theorem StoredOperand.value_eq_ok_iff {operand : StoredOperand} {w : Word} :
    operand.value = .ok w ↔ operand.Denotes w := by
  cases operand with
  | number v =>
    constructor
    · intro h
      cases h
      exact .number w
    · intro h
      cases h
      rfl
  | text s =>
    have hvalue : (StoredOperand.text s).value = .ok w ↔
        Text.word? (Text.trim s.toList) = some w := by
      rw [value]
      split <;> simp_all
    rw [hvalue, Text.word?_eq_some_iff]
    constructor
    · intro h
      exact .text (Text.trimsTo_trim _) h
    · intro h
      cases h with
      | text htrim hsigned => rwa [Text.trim_of_trimsTo htrim]

theorem Instruction.ofParts_ok_iff {op : OpCode} {operand : Option Word} :
    (∃ i, ofParts op operand = .ok i) ↔ (op = .push ∨ op = .call → operand ≠ none) := by
  cases op <;> cases operand <;> simp [ofParts]

namespace SlotRecord

inductive Brings (slot : SlotRecord) : Option Word → Prop where
  | nothing : slot.operand = none → Brings slot none
  | word {operand : StoredOperand} {w : Word} : slot.operand = some operand → operand.Denotes w →
      Brings slot (some w)

/-- The instruction in a filled slot. An operand that the opcode does not need is dropped, but it
has to be a word. -/
structure Denotes (slot : SlotRecord) (i : Instruction) : Prop where
  opcode : ∃ name, slot.opcode = some name ∧ i.opcode.KnownAs name
  operand : ∃ operand, slot.Brings operand ∧ (i.operand = none ∨ i.operand = operand)

theorem Denotes.filled {slot : SlotRecord} {i : Instruction} (h : slot.Denotes i) :
    slot.opcode ≠ none := by
  obtain ⟨name, hname, -⟩ := h.opcode
  rw [hname]
  exact nofun

theorem entry?_of_brings {key name : String} {slot : SlotRecord} {a : Nat} {op : OpCode}
    {operand : Option Word} (ha : Addresses key a) (hname : slot.opcode = some name)
    (hop : op.KnownAs name) (hoperand : slot.Brings operand) :
    slot.entry? key =
      ((Instruction.ofParts op operand).mapError .machine).map fun i => some (a, i) := by
  have ha' := natural?_trim_eq_some_iff.mpr ha
  have hop' := OpCode.ofName?_eq_some_iff_knownAs.mpr hop
  cases hoperand with
  | nothing hnone =>
    simp only [ha', entry?, hname, hop', hnone, pure_bind]
    cases Instruction.ofParts op none <;> rfl
  | @word stored w hsome hdenotes =>
    have hvalue : some <$> stored.value = pure (some w) := by
      rw [StoredOperand.value_eq_ok_iff.mpr hdenotes]
      rfl
    simp only [ha', entry?, hname, hop', hsome, hvalue, pure_bind]
    cases Instruction.ofParts op (some w) <;> rfl

theorem exists_brings_of_entry? {key name : String} {slot : SlotRecord}
    {entry : Option (Nat × Instruction)} (hname : slot.opcode = some name)
    (h : slot.entry? key = .ok entry) : ∃ operand, slot.Brings operand := by
  cases hslot : slot.operand with
  | none => exact ⟨none, .nothing hslot⟩
  | some stored =>
    cases hvalue : stored.value with
    | ok w => exact ⟨some w, .word hslot (StoredOperand.value_eq_ok_iff.mp hvalue)⟩
    | error fault =>
      simp only [hname, entry?, hslot, hvalue] at h
      split at h
      · cases h
      · split at h <;> cases h

/-- A slot can be read if its key is an address and it is empty or holds an instruction. -/
theorem entry?_eq_ok_iff {key : String} {slot : SlotRecord} {entry : Option (Nat × Instruction)} :
    slot.entry? key = .ok entry ↔ ∃ a, Addresses key a ∧
      (slot.opcode = none ∧ entry = none ∨ ∃ i, slot.Denotes i ∧ entry = some (a, i)) := by
  constructor
  · intro h
    cases hkey : Text.natural? (Text.trim key.toList) with
    | none =>
      simp only [hkey, entry?] at h
      cases h
    | some a =>
      have ha := natural?_trim_eq_some_iff.mp hkey
      refine ⟨a, ha, ?_⟩
      cases hopcode : slot.opcode with
      | none =>
        simp only [hkey, entry?, hopcode] at h
        cases h
        exact .inl ⟨rfl, rfl⟩
      | some name =>
        obtain ⟨operand, hoperand⟩ := exists_brings_of_entry? hopcode h
        cases hname : OpCode.ofName? name with
        | none =>
          simp only [hkey, entry?, hopcode, hname] at h
          cases h
        | some op =>
          have hop := OpCode.ofName?_eq_some_iff_knownAs.mp hname
          -- All parts are known now, and only putting them together can still fail.
          rw [entry?_of_brings ha hopcode hop hoperand] at h
          cases hparts : Instruction.ofParts op operand with
          | error fault =>
            rw [hparts] at h
            cases h
          | ok i =>
            rw [hparts] at h
            cases h
            obtain ⟨rfl, hi⟩ := Instruction.ofParts_eq_ok_iff.mp hparts
            exact .inr ⟨i, ⟨⟨name, hopcode, hop⟩, operand, hoperand, hi⟩, rfl⟩
  · rintro ⟨a, ha, ⟨hopcode, rfl⟩ | ⟨i, ⟨⟨name, hopcode, hop⟩, operand, hoperand, hi⟩, rfl⟩⟩
    · simp only [natural?_trim_eq_some_iff.mpr ha, entry?, hopcode]
    · rw [entry?_of_brings ha hopcode hop hoperand, Instruction.ofParts_eq_ok_iff.mpr ⟨rfl, hi⟩]
      rfl

structure Complete (slot : SlotRecord) : Prop where
  opcode : ∃ name op, slot.opcode = some name ∧ OpCode.KnownAs op name ∧
    (op = .push ∨ op = .call → slot.operand ≠ none)
  operand : ∀ stored, slot.operand = some stored → ∃ w, stored.Denotes w

theorem Brings.ne_none_iff {slot : SlotRecord} {operand : Option Word} (h : slot.Brings operand) :
    operand ≠ none ↔ slot.operand ≠ none := by
  cases h with
  | nothing hnone => simp [hnone]
  | word hsome _ => simp [hsome]

theorem Complete.exists_brings {slot : SlotRecord} (h : slot.Complete) :
    ∃ operand, slot.Brings operand := by
  cases hslot : slot.operand with
  | none => exact ⟨none, .nothing hslot⟩
  | some stored =>
    obtain ⟨w, hw⟩ := h.operand stored hslot
    exact ⟨some w, .word hslot hw⟩

theorem complete_iff {slot : SlotRecord} : slot.Complete ↔ ∃ i, slot.Denotes i := by
  constructor
  · intro h
    obtain ⟨name, op, hname, hop, hneeds⟩ := h.opcode
    obtain ⟨operand, hoperand⟩ := h.exists_brings
    have hfits : op = .push ∨ op = .call → operand ≠ none :=
      fun hop => hoperand.ne_none_iff.mpr (hneeds hop)
    obtain ⟨i, hparts⟩ := Instruction.ofParts_ok_iff.mpr hfits
    obtain ⟨rfl, hi⟩ := Instruction.ofParts_eq_ok_iff.mp hparts
    exact ⟨i, ⟨name, hname, hop⟩, operand, hoperand, hi⟩
  · rintro ⟨i, ⟨name, hname, hop⟩, operand, hoperand, hi⟩
    have hfits := Instruction.ofParts_ok_iff.mp ⟨i, Instruction.ofParts_eq_ok_iff.mpr ⟨rfl, hi⟩⟩
    refine ⟨⟨name, i.opcode, hname, hop, fun hop => hoperand.ne_none_iff.mp (hfits hop)⟩, ?_⟩
    intro stored hstored
    cases hoperand with
    | nothing hnone => cases hnone.symm.trans hstored
    | @word stored' w hsome hdenotes =>
      cases hsome.symm.trans hstored
      exact ⟨w, hdenotes⟩

end SlotRecord

def slotEntry (e : String × SlotRecord) : Option (Nat × Instruction) :=
  Option.join <| Except.toOption <| SlotRecord.entry? e.1 e.2

theorem slotEntry_of_ok {e : String × SlotRecord} {entry : Option (Nat × Instruction)}
    (h : SlotRecord.entry? e.1 e.2 = .ok entry) : slotEntry e = entry := by
  rw [slotEntry, h]
  rfl

theorem slotEntry_eq_some_iff {key : String} {slot : SlotRecord} {a : Nat} {i : Instruction} :
    slotEntry (key, slot) = some (a, i) ↔ Addresses key a ∧ slot.Denotes i := by
  constructor
  · intro h
    cases hentry : slot.entry? key with
    | error fault =>
      rw [slotEntry, hentry] at h
      cases h
    | ok entry =>
      have hsame : entry = some (a, i) := by
        rw [← h]
        exact (slotEntry_of_ok (e := (key, slot)) hentry).symm
      rw [hsame] at hentry
      obtain ⟨a', ha, ⟨-, ⟨⟩⟩ | ⟨i', hi, ⟨⟩⟩⟩ := SlotRecord.entry?_eq_ok_iff.mp hentry
      exact ⟨ha, hi⟩
  · rintro ⟨ha, hi⟩
    exact slotEntry_of_ok (SlotRecord.entry?_eq_ok_iff.mpr ⟨a, ha, .inr ⟨i, hi, rfl⟩⟩)

theorem readSlots_cons {e : String × SlotRecord} {entry : Option (Nat × Instruction)}
    (h : SlotRecord.entry? e.1 e.2 = .ok entry) (slots : List (String × SlotRecord)) :
    readSlots (e :: slots) = (readSlots slots).map (entry.toList ++ ·) := by
  simp only [readSlots, h]
  cases readSlots slots <;> rfl

theorem readSlots_of_forall {slots : List (String × SlotRecord)}
    (h : ∀ e ∈ slots, ∃ entry, SlotRecord.entry? e.1 e.2 = .ok entry) :
    readSlots slots = .ok (slots.filterMap slotEntry) := by
  induction slots with
  | nil => rfl
  | cons e slots ih =>
    obtain ⟨entry, hentry⟩ := h e List.mem_cons_self
    rw [readSlots_cons hentry, ih fun e' he' => h e' (List.mem_cons_of_mem e he'),
      List.filterMap_cons, slotEntry_of_ok hentry]
    cases entry <;> rfl

theorem forall_of_readSlots {slots : List (String × SlotRecord)}
    {entries : List (Nat × Instruction)} (h : readSlots slots = .ok entries) :
    ∀ e ∈ slots, ∃ entry, SlotRecord.entry? e.1 e.2 = .ok entry := by
  induction slots generalizing entries with
  | nil => exact nofun
  | cons e slots ih =>
    cases hentry : SlotRecord.entry? e.1 e.2 with
    | error fault =>
      simp only [readSlots, hentry] at h
      cases h
    | ok entry =>
      rw [readSlots_cons hentry] at h
      cases hrest : readSlots slots with
      | error fault =>
        rw [hrest] at h
        cases h
      | ok rest =>
        intro e' he'
        rcases List.mem_cons.mp he' with rfl | he'
        · exact ⟨entry, hentry⟩
        · exact ih hrest e' he'

theorem readSlots_filter {slots : List (String × SlotRecord)} {keep : String × SlotRecord → Bool}
    (h : ∀ e ∈ slots, keep e = false → SlotRecord.entry? e.1 e.2 = .ok none) :
    readSlots (slots.filter keep) = readSlots slots := by
  induction slots with
  | nil => rfl
  | cons e slots ih =>
    have hrest := ih fun e' he' => h e' (List.mem_cons_of_mem e he')
    cases hkeep : keep e with
    | true =>
      rw [List.filter_cons_of_pos hkeep, readSlots, readSlots, hrest]
    | false =>
      rw [List.filter_cons_of_neg (by simp [hkeep]), hrest,
        readSlots_cons (h e List.mem_cons_self hkeep)]
      cases readSlots slots <;> rfl

namespace Computer

theorem address_le_of_placeAll {es : List (Nat × Instruction)} {p q : Program}
    (h : placeAll es p = .ok q) : ∀ e ∈ es, e.1 ≤ p.capacity := by
  induction es generalizing p with
  | nil => exact nofun
  | cons e es ih =>
    by_cases hle : e.1 ≤ p.capacity
    · simp only [placeAll, Program.place_eq_ok e.2 hle, Except.bind] at h
      intro e' he'
      rcases List.mem_cons.mp he' with rfl | he'
      · exact hle
      · exact ih h e' he'
    · simp only [placeAll, Program.place, if_neg hle, Except.bind] at h
      cases h

theorem ofParts_ok_iff {capacity pointer : Nat} {registers : Registers}
    {es : List (Nat × Instruction)} :
    (∃ c, ofParts capacity registers pointer es = .ok c) ↔
      (∀ e ∈ es, e.1 ≤ capacity) ∧ pointer ≤ capacity + 1 := by
  constructor
  · rintro ⟨c, h⟩
    simp only [ofParts, bind, Except.bind] at h
    split at h
    · cases h
    · rename_i p hp
      obtain ⟨-, hcapacity⟩ := wellFormed_of_placeAll (Program.wellFormed_empty capacity) hp
      refine ⟨address_le_of_placeAll hp, ?_⟩
      by_contra hpointer
      have hpast : ¬ pointer ≤ p.capacity + 1 := by
        rw [hcapacity]
        exact hpointer
      rw [Program.restorePointer, if_neg hpast] at h
      cases h
  · rintro ⟨hes, hpointer⟩
    obtain ⟨c, hc, -⟩ := ofParts_spec registers hes hpointer
    exact ⟨c, hc⟩

end Computer

namespace Record

structure Readable (r : Record) : Prop where
  capacity_le : r.program.capacity ≤ maxCapacity
  key : ∀ key slot, r.program.slots.get? key = some slot → ∃ a, Addresses key a
  filled : ∀ key slot, r.program.slots.get? key = some slot → slot.opcode ≠ none →
    slot.Complete ∧ ∀ a, Addresses key a → a ≤ r.program.capacity
  pointer_le : r.program.pointer ≤ r.program.capacity + 1

/-- Of the keys that stand for the address and have a filled slot, the last one in byte order. -/
structure LastAt (r : Record) (a : Nat) (key : String) (slot : SlotRecord) : Prop where
  get?_eq : r.program.slots.get? key = some slot
  filled : slot.opcode ≠ none
  address : Addresses key a
  greatest : ∀ key' slot', r.program.slots.get? key' = some slot' → slot'.opcode ≠ none →
    Addresses key' a → Text.bytes key' ≤ Text.bytes key

theorem readable_of_toComputer {r : Record} {c : Computer} (h : r.toComputer = .ok c) :
    r.Readable := by
  obtain ⟨hcap, entries, hread, hparts⟩ := toComputer_eq_ok_iff.mp h
  have hslots := forall_of_readSlots hread
  obtain ⟨haddresses, hpointer⟩ := Computer.ofParts_ok_iff.mp ⟨c, hparts⟩
  obtain rfl : entries = _ := Except.ok.inj (hread.symm.trans (readSlots_of_forall hslots))
  refine ⟨hcap, ?_, ?_, hpointer⟩
  · intro key slot hslot
    obtain ⟨entry, hentry⟩ := hslots _ (KeyMap.get?_eq_some_iff.mp hslot)
    obtain ⟨a, ha, -⟩ := SlotRecord.entry?_eq_ok_iff.mp hentry
    exact ⟨a, ha⟩
  · intro key slot hslot hfilled
    have hmem := KeyMap.get?_eq_some_iff.mp hslot
    obtain ⟨entry, hentry⟩ := hslots _ hmem
    obtain ⟨a, ha, ⟨hempty, -⟩ | ⟨i, hi, -⟩⟩ := SlotRecord.entry?_eq_ok_iff.mp hentry
    · exact absurd hempty hfilled
    · refine ⟨SlotRecord.complete_iff.mpr ⟨i, hi⟩, ?_⟩
      intro a' ha'
      exact haddresses (a', i)
        (List.mem_filterMap.mpr ⟨_, hmem, slotEntry_eq_some_iff.mpr ⟨ha', hi⟩⟩)

theorem Readable.exists_entry {r : Record} (hr : r.Readable) :
    ∀ e ∈ r.program.slots.entries, ∃ entry, SlotRecord.entry? e.1 e.2 = .ok entry := by
  rintro ⟨key, slot⟩ hmem
  have hslot := KeyMap.get?_eq_some_iff.mpr hmem
  obtain ⟨a, ha⟩ := hr.key key slot hslot
  by_cases hempty : slot.opcode = none
  · exact ⟨none, SlotRecord.entry?_eq_ok_iff.mpr ⟨a, ha, .inl ⟨hempty, rfl⟩⟩⟩
  · obtain ⟨hcomplete, -⟩ := hr.filled key slot hslot hempty
    obtain ⟨i, hi⟩ := SlotRecord.complete_iff.mp hcomplete
    exact ⟨some (a, i), SlotRecord.entry?_eq_ok_iff.mpr ⟨a, ha, .inr ⟨i, hi, rfl⟩⟩⟩

theorem Readable.address_le {r : Record} (hr : r.Readable) :
    ∀ e ∈ r.program.slots.entries.filterMap slotEntry, e.1 ≤ r.program.capacity := by
  rintro ⟨a, i⟩ hentry
  obtain ⟨⟨key, slot⟩, hmem, hslot⟩ := List.mem_filterMap.mp hentry
  obtain ⟨ha, hi⟩ := slotEntry_eq_some_iff.mp hslot
  exact (hr.filled key slot (KeyMap.get?_eq_some_iff.mpr hmem) hi.filled).2 a ha

theorem Readable.exists_toComputer {r : Record} (hr : r.Readable) :
    ∃ c, r.toComputer = .ok c ∧ c.program.WellFormed ∧
      c.program.capacity = r.program.capacity ∧ c.program.pointer = r.program.pointer ∧
      c.registers = { programCounter := r.programCounter, returnRegister := 0 } ∧
      c.policy = .lenient ∧ ∀ a, c.program.get? a =
        (r.program.slots.entries.filterMap slotEntry).reverse.lookup a := by
  have hread := readSlots_of_forall hr.exists_entry
  obtain ⟨c, hc, hcomputer⟩ := Computer.ofParts_spec { programCounter := r.programCounter }
    hr.address_le hr.pointer_le
  exact ⟨c, toComputer_eq_ok_iff.mpr ⟨hr.capacity_le, _, hread, hc⟩, hcomputer⟩

theorem toComputer_ok_iff {r : Record} : (∃ c, r.toComputer = .ok c) ↔ r.Readable := by
  constructor
  · rintro ⟨c, hc⟩
    exact readable_of_toComputer hc
  · intro hr
    obtain ⟨c, hc, -⟩ := hr.exists_toComputer
    exact ⟨c, hc⟩

/-- An entry comes of a filled slot, and every filled slot for the address makes one. -/
theorem Readable.exists_slotEntry_iff {r : Record} (hr : r.Readable) {key : String}
    {slot : SlotRecord} (hslot : r.program.slots.get? key = some slot) {a : Nat} :
    (∃ i, slotEntry (key, slot) = some (a, i)) ↔ slot.opcode ≠ none ∧ Addresses key a := by
  simp only [slotEntry_eq_some_iff]
  constructor
  · rintro ⟨i, ha, hi⟩
    exact ⟨hi.filled, ha⟩
  · rintro ⟨hfilled, ha⟩
    obtain ⟨i, hi⟩ := SlotRecord.complete_iff.mp (hr.filled key slot hslot hfilled).1
    exact ⟨i, ha, hi⟩

theorem Readable.lookup_eq_some_iff {r : Record} (hr : r.Readable) {a : Nat} {i : Instruction} :
    (r.program.slots.entries.filterMap slotEntry).reverse.lookup a = some i ↔
      ∃ key slot, r.LastAt a key slot ∧ slot.Denotes i := by
  rw [KeyMap.lookup_reverse_filterMap]
  constructor
  · rintro ⟨⟨key, slot⟩, hmem, hentry, hgreatest⟩
    obtain ⟨ha, hi⟩ := slotEntry_eq_some_iff.mp hentry
    refine ⟨key, slot, ⟨KeyMap.get?_eq_some_iff.mpr hmem, hi.filled, ha, ?_⟩, hi⟩
    intro key' slot' hslot' hfilled' ha'
    obtain ⟨i', hentry'⟩ := (hr.exists_slotEntry_iff hslot').mpr ⟨hfilled', ha'⟩
    exact Text.bytes_le_bytes_iff.mpr
      (hgreatest _ (KeyMap.get?_eq_some_iff.mp hslot') i' hentry')
  · rintro ⟨key, slot, hlast, hi⟩
    refine ⟨(key, slot), KeyMap.get?_eq_some_iff.mp hlast.get?_eq,
      slotEntry_eq_some_iff.mpr ⟨hlast.address, hi⟩, ?_⟩
    rintro ⟨key', slot'⟩ hmem' i' hentry'
    have hslot' := KeyMap.get?_eq_some_iff.mpr hmem'
    obtain ⟨hfilled', ha'⟩ := (hr.exists_slotEntry_iff hslot').mp ⟨i', hentry'⟩
    exact Text.bytes_le_bytes_iff.mp (hlast.greatest key' slot' hslot' hfilled' ha')

theorem Readable.lookup_eq_none_iff {r : Record} (hr : r.Readable) {a : Nat} :
    (r.program.slots.entries.filterMap slotEntry).reverse.lookup a = none ↔
      ∀ key slot, r.program.slots.get? key = some slot → Addresses key a →
        slot.opcode = none := by
  simp only [List.lookup_eq_none_iff, List.mem_reverse, List.mem_filterMap, bne_iff_ne]
  constructor
  · intro h key slot hslot ha
    by_contra hfilled
    obtain ⟨i, hentry⟩ := (hr.exists_slotEntry_iff hslot).mpr ⟨hfilled, ha⟩
    exact h (a, i) ⟨_, KeyMap.get?_eq_some_iff.mp hslot, hentry⟩ rfl
  · rintro h ⟨_, i⟩ ⟨⟨key, slot⟩, hmem, hentry⟩ rfl
    obtain ⟨ha, hi⟩ := slotEntry_eq_some_iff.mp hentry
    exact hi.filled (h key slot (KeyMap.get?_eq_some_iff.mpr hmem) ha)

def without (r : Record) (key : String) : Record :=
  { r with program := { r.program with slots := r.program.slots.erase key } }

theorem toComputer_without {r : Record} {key : String} {slot : SlotRecord} {a : Nat}
    (hslot : r.program.slots.get? key = some slot) (hempty : slot.opcode = none)
    (ha : Addresses key a) : (r.without key).toComputer = r.toComputer := by
  have hread : readSlots (r.program.slots.erase key).entries =
      readSlots r.program.slots.entries := by
    apply readSlots_filter
    rintro ⟨key', slot'⟩ hmem hkey
    -- No key comes twice, so that no other slot is left out along with this one.
    obtain rfl : key' = key := by simpa using hkey
    obtain rfl : slot' = slot :=
      Option.some.inj ((KeyMap.get?_eq_some_iff.mpr hmem).symm.trans hslot)
    exact SlotRecord.entry?_eq_ok_iff.mpr ⟨a, ha, .inl ⟨hempty, rfl⟩⟩
  simp only [toComputer, without, hread]

end Record

/-- A record denotes a computer if and only if it is readable. The computer has the capacity, the
write pointer and the program counter of the record and is otherwise as new, and each of its slots
holds the instruction of the last key that stands for its address. -/
theorem readable_records_denote_computers (r : Record) :
    ((∃ c, r.toComputer = .ok c) ↔ r.Readable) ∧
    ∀ c, r.toComputer = .ok c →
      c.program.capacity = r.program.capacity ∧ c.program.slots.size = r.program.capacity + 1 ∧
      c.program.pointer = r.program.pointer ∧
      c.registers = { programCounter := r.programCounter, returnRegister := 0 } ∧
      c.policy = .lenient ∧
      (∀ a i, c.program.get? a = some i ↔ ∃ key slot, r.LastAt a key slot ∧ slot.Denotes i) ∧
      ∀ a, c.program.get? a = none ↔ ∀ key slot, r.program.slots.get? key = some slot →
        Addresses key a → slot.opcode = none := by
  refine ⟨Record.toComputer_ok_iff, ?_⟩
  intro c hc
  have hr := Record.readable_of_toComputer hc
  obtain ⟨d, hd, hwf, hcapacity, hpointer, hregisters, hpolicy, hget⟩ := hr.exists_toComputer
  obtain rfl : c = d := Except.ok.inj (hc.symm.trans hd)
  refine ⟨hcapacity, hcapacity ▸ hwf.size_slots, hpointer, hregisters, hpolicy, ?_, ?_⟩
  · intro a i
    rw [hget, hr.lookup_eq_some_iff]
  · intro a
    rw [hget, hr.lookup_eq_none_iff]

theorem readable_records_denote_computers_same_address :
    let r : Record := {
      id := "x"
      programCounter := 4
      program := {
        slots := .ofList [("+5", ⟨some "push", some (.text "7")⟩), ("05", ⟨some "PRINT ", none⟩),
          ("5", ⟨some " Call", some (.text " +3 ")⟩), ("5 ", ⟨none, some (.text "x")⟩)]
        pointer := 7
        capacity := 6 } }
    r.Readable ∧ ∃ c, r.toComputer = .ok c ∧ c.program.get? 5 = some (.call 3) ∧
      ∃ key slot, r.LastAt 5 key slot ∧ slot.Denotes (.call 3) := by
  intro r
  -- The greatest key for address 5 is "5 ", but its slot is empty and so it does not count.
  have hget : r.toComputer.map (·.program.get? 5) = .ok (some (.call 3)) := by decide +kernel
  obtain ⟨hreadable, hdenotes⟩ := readable_records_denote_computers r
  cases hc : r.toComputer with
  | error fault =>
    rw [hc] at hget
    cases hget
  | ok c =>
    have hcall : c.program.get? 5 = some (.call 3) := by
      rw [hc] at hget
      exact Except.ok.inj hget
    obtain ⟨-, -, -, -, -, hslots, -⟩ := hdenotes c hc
    exact ⟨hreadable.mp ⟨c, hc⟩, c, rfl, hcall, (hslots 5 _).mp hcall⟩

/-- A key that stands for no address within the capacity makes the record unreadable, unless it
stands for an address further up and its slot is empty: then the slot is passed over. -/
theorem out_of_range_key_refused_unless_empty {r : Record} {key : String} {slot : SlotRecord}
    (hslot : r.program.slots.get? key = some slot)
    (hout : ¬ ∃ a, Addresses key a ∧ a ≤ r.program.capacity) :
    (slot.opcode ≠ none ∨ (¬ ∃ a, Addresses key a) → ∃ fault, r.toComputer = .error fault) ∧
    (slot.opcode = none → (∃ a, Addresses key a) →
      r.toComputer = (r.without key).toComputer) := by
  constructor
  · intro hcase
    cases hc : r.toComputer with
    | error fault => exact ⟨fault, rfl⟩
    | ok c =>
      have hr := Record.readable_of_toComputer hc
      obtain ⟨a, ha⟩ := hr.key key slot hslot
      rcases hcase with hfilled | hnone
      · exact absurd ⟨a, ha, (hr.filled key slot hslot hfilled).2 a ha⟩ hout
      · exact absurd ⟨a, ha⟩ hnone
  · rintro hempty ⟨a, ha⟩
    exact (Record.toComputer_without hslot hempty ha).symm

theorem out_of_range_key_refused_unless_empty_four :
    let filled : Record := ⟨"x", 0, ⟨.ofList [("4", ⟨some "stop", none⟩)], 0, 3⟩⟩
    let empty : Record := ⟨"x", 0, ⟨.ofList [("4", ⟨none, none⟩)], 0, 3⟩⟩
    (∃ fault, filled.toComputer = .error fault) ∧
      empty.toComputer = (empty.without "4").toComputer := by
  intro filled empty
  have hfour : Addresses "4" 4 := natural?_trim_eq_some_iff.mp (by decide +kernel)
  have hout : ¬ ∃ a, Addresses "4" a ∧ a ≤ 3 := by
    rintro ⟨a, ha, hle⟩
    rw [ha.unique hfour] at hle
    exact absurd hle (by decide)
  have hfilled : filled.program.slots.get? "4" = some ⟨some "stop", none⟩ := by decide +kernel
  have hempty : empty.program.slots.get? "4" = some ⟨none, none⟩ := by decide +kernel
  exact ⟨(out_of_range_key_refused_unless_empty hfilled hout).1 (.inl nofun),
    (out_of_range_key_refused_unless_empty hempty hout).2 rfl ⟨4, hfour⟩⟩

theorem out_of_range_key_of_empty_slot_accepted :
    let r : Record := ⟨"x", 0, ⟨.ofList [("4", ⟨none, none⟩)], 0, 3⟩⟩
    r.program.slots.get? "4" = some ⟨none, none⟩ ∧
      (¬ ∃ a, Addresses "4" a ∧ a ≤ r.program.capacity) ∧ r.toComputer = .ok (.empty 3) := by
  refine ⟨by decide +kernel, ?_, by decide +kernel⟩
  rintro ⟨a, ha, hle⟩
  have hfour : Addresses "4" 4 := natural?_trim_eq_some_iff.mp (by decide +kernel)
  rw [ha.unique hfour] at hle
  exact absurd hle (by decide)

end StackComputer
