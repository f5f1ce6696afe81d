import StackComputer.Proofs.Decoding

/-! # Canonical records

A record that comes from elsewhere may have several keys for one address, blanks and signs in its
numerals, names in any case and operands that nobody needs. The record of the computer that it
denotes has none of this and denotes the same computer, so that a second reading and writing changes
nothing.
-/

namespace StackComputer

/-- The key stands for the address, and every other key that does is longer. So it has no blanks, no
sign and no leading zeros. -/
structure ShortestKey (key : String) (a : Nat) : Prop where
  addresses : Addresses key a
  shorter : ∀ other, Addresses other a → other ≠ key → key.length < other.length

theorem Addresses.eq_repr_or_longer {key : String} {a : Nat} (h : Addresses key a) :
    key = a.repr ∨ a.repr.length < key.length := by
  obtain ⟨numeral, htrims, hunsigned, -⟩ := h
  rw [← String.toList_inj, ← String.length_toList, ← String.length_toList]
  rcases hunsigned.eq_repr_or_longer with rfl | hnumeral
  · exact htrims.eq_or_longer
  · rcases htrims.eq_or_longer with hkey | hkey
    · exact .inr (hkey ▸ hnumeral)
    · exact .inr (Nat.lt_trans hnumeral hkey)

theorem shortestKey_repr {a : Nat} (h : a < addressLimit) : ShortestKey a.repr a where
  addresses := natural?_trim_eq_some_iff.mp (by rw [Text.trim_repr, Text.natural?_repr h])
  shorter other hother hne := hother.eq_repr_or_longer.resolve_left hne

structure SlotRecord.Canonical (slot : SlotRecord) (op : OpCode) : Prop where
  opcode : slot.opcode = some op.mnemonic
  lowerCase : ∀ ch ∈ op.mnemonic.toList, ch.isLower = true
  number : (∃ w, slot.operand = some (.number w)) ↔ op = .push ∨ op = .call
  absent : slot.operand = none ↔ ¬ (op = .push ∨ op = .call)

theorem OpCode.isLower_of_mem_mnemonic (op : OpCode) :
    ∀ ch ∈ op.mnemonic.toList, ch.isLower = true := by
  have hall : op.mnemonic.toList.all Char.isLower = true := by cases op <;> decide
  simpa using hall

theorem SlotRecord.canonical_ofInstruction (i : Instruction) :
    (ofInstruction i).Canonical i.opcode where
  opcode := rfl
  lowerCase := i.opcode.isLower_of_mem_mnemonic
  number := by cases i <;> simp [ofInstruction, Instruction.opcode, Instruction.operand]
  absent := by cases i <;> simp [ofInstruction, Instruction.opcode, Instruction.operand]

namespace Record

/-- Every key is the shortest one for an address within the capacity that no other key stands for,
and every slot is canonical. -/
structure Canonical (r : Record) : Prop where
  key : ∀ key ∈ r.program.slots.keys, ∃ a ≤ r.program.capacity, ShortestKey key a ∧
    ∀ other ∈ r.program.slots.keys, Addresses other a → other = key
  slot : ∀ key slot, r.program.slots.get? key = some slot → ∃ op, slot.Canonical op

theorem exists_entry_of_get? {id : String} {c : Computer} {key : String} {slot : SlotRecord}
    (h : (ofComputer id c).program.slots.get? key = some slot) :
    ∃ a i, c.program.get? a = some i ∧ key = a.repr ∧ slot = .ofInstruction i := by
  obtain ⟨⟨a, i⟩, hmem, hentry⟩ :=
    List.mem_map.mp (KeyMap.mem_of_mem_entries_ofList (KeyMap.get?_eq_some_iff.mp h))
  cases hentry
  exact ⟨a, i, Program.mem_entries.mp hmem, rfl, rfl⟩

theorem canonical_ofComputer {c : Computer} (hc : c.program.WellFormed)
    (hcap : c.program.capacity < addressLimit) (id : String) : (ofComputer id c).Canonical := by
  have hkeys : ∀ key ∈ (ofComputer id c).program.slots.keys,
      ∃ a ≤ c.program.capacity, key = a.repr ∧ ShortestKey a.repr a := by
    intro key hkey
    obtain ⟨slot, hslot⟩ := KeyMap.mem_keys_iff.mp hkey
    obtain ⟨a, i, hi, rfl, -⟩ := exists_entry_of_get? hslot
    have hle := hc.address_le hi
    exact ⟨a, hle, rfl, shortestKey_repr (Nat.lt_of_le_of_lt hle hcap)⟩
  constructor
  · intro key hkey
    obtain ⟨a, hle, rfl, hshortest⟩ := hkeys key hkey
    refine ⟨a, hle, hshortest, ?_⟩
    intro other hother ha
    obtain ⟨b, -, rfl, hb⟩ := hkeys other hother
    rw [hb.addresses.unique ha]
  · intro key slot hslot
    obtain ⟨a, i, -, -, rfl⟩ := exists_entry_of_get? hslot
    exact ⟨i.opcode, SlotRecord.canonical_ofInstruction i⟩

theorem toComputer_ofComputer_of_read {r : Record} {c : Computer} (h : r.toComputer = .ok c)
    (id : String) : (ofComputer id c).toComputer = .ok c := by
  obtain ⟨hsettled, hcap, -, hpolicy⟩ := toComputer_inv h
  rw [toComputer_ofComputer hsettled hcap, Computer.setPolicy_of_policy_eq hpolicy]

end Record

/-- The record of a computer that was read is canonical and denotes the same computer, and reading
and writing it once more leaves it as it is. -/
theorem resaved_record_is_canonical {r : Record} {c : Computer} (h : r.toComputer = .ok c) :
    let r' := Record.ofComputer r.id c
    r'.toComputer = .ok c ∧
    (∀ d, r'.toComputer = .ok d → Record.ofComputer r.id d = r') ∧
    r'.Canonical := by
  intro r'
  obtain ⟨hsettled, hcap, -, -⟩ := Record.toComputer_inv h
  have hlimit : c.program.capacity < addressLimit := Nat.lt_of_le_of_lt hcap (by decide)
  have hread : r'.toComputer = .ok c := Record.toComputer_ofComputer_of_read h r.id
  refine ⟨hread, ?_, Record.canonical_ofComputer hsettled.wellFormed hlimit r.id⟩
  intro d hd
  obtain rfl : d = c := Except.ok.inj (hd.symm.trans hread)
  rfl

/-- Three keys for one address, an operand that is ignored, an operand as text with a sign, an empty
slot and a name in capitals. The text `10` comes before `5`. -/
theorem resaved_record_is_canonical_colliding_keys :
    let r : Record := {
      id := "x"
      programCounter := 3
      program := {
        slots := .ofList [(" 5", ⟨some "push", some (.text "7")⟩), ("+5", ⟨some "stop", none⟩),
          ("05", ⟨some "PRINT ", some (.number 3)⟩), ("10", ⟨some " Call", some (.text " +03 ")⟩),
          ("2 ", ⟨none, some (.text "x")⟩), ("+0", ⟨some "MULT", none⟩)]
        pointer := 11
        capacity := 10 } }
    let slots : KeyMap SlotRecord := .ofList [("0", ⟨some "mult", none⟩),
      ("10", ⟨some "call", some (.number 3)⟩), ("5", ⟨some "print", none⟩)]
    ∃ c, r.toComputer = .ok c ∧ (Record.ofComputer "x" c).program.slots = slots ∧
      (Record.ofComputer "x" c).toComputer = .ok c ∧ (Record.ofComputer "x" c).Canonical := by
  intro r slots
  have hslots : (r.toComputer.map fun c => (Record.ofComputer "x" c).program.slots) =
      .ok slots := by
    decide +kernel
  cases hc : r.toComputer with
  | error fault =>
    rw [hc] at hslots
    cases hslots
  | ok c =>
    rw [hc] at hslots
    obtain ⟨hread, -, hcanonical⟩ := resaved_record_is_canonical hc
    exact ⟨c, rfl, Except.ok.inj hslots, hread, hcanonical⟩

end StackComputer
