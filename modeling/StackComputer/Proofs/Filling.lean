import StackComputer.Proofs.Grammar

/-! # Filling a program

Names and operands are inserted one after the other. What is no instruction is passed over, whether
the insertion is lenient or its fault is ignored, and so only the instructions count: they fill the
slots from the write pointer on, in order and without gaps, until the program is full.
-/

namespace StackComputer

namespace Instruction

def decodeAll (pairs : List (String × Option Word)) : List Instruction :=
  pairs.filterMap fun e => (decode e.1 e.2).toOption

theorem decodeAll_cons_of_ok {e : String × Option Word} {i : Instruction}
    (h : decode e.1 e.2 = .ok i) (pairs : List (String × Option Word)) :
    decodeAll (e :: pairs) = i :: decodeAll pairs := by
  simp [decodeAll, h, Except.toOption]

theorem decodeAll_cons_of_error {e : String × Option Word} {fault : Fault}
    (h : decode e.1 e.2 = .error fault) (pairs : List (String × Option Word)) :
    decodeAll (e :: pairs) = decodeAll pairs := by
  simp [decodeAll, h, Except.toOption]

end Instruction

namespace Computer

def insertAll (c : Computer) (pairs : List (String × Option Word)) : Computer :=
  pairs.foldl (fun c e => (c.insert e.1 e.2).state) c

def tryInsertAll (c : Computer) (pairs : List (String × Option Word)) : Computer :=
  pairs.foldl (fun c e => (c.tryInsert e.1 e.2).state) c

def fill (c : Computer) (is : List Instruction) : Computer :=
  is.foldl (fun c i => (c.insertInstruction i).state) c

theorem insertAll_eq_tryInsertAll (c : Computer) (pairs : List (String × Option Word)) :
    c.insertAll pairs = c.tryInsertAll pairs := by
  simp only [insertAll, tryInsertAll, insert_state]

theorem tryInsert_of_decode {c : Computer} {name : String} {operand : Option Word}
    {i : Instruction} (h : Instruction.decode name operand = .ok i) :
    c.tryInsert name operand = c.insertInstruction i := by
  rw [tryInsert, h]

theorem tryInsert_of_decode_error {c : Computer} {name : String} {operand : Option Word}
    {fault : Fault} (h : Instruction.decode name operand = .error fault) :
    c.tryInsert name operand = .fail fault c := by
  rw [tryInsert, h]

theorem tryInsertAll_eq_fill (c : Computer) (pairs : List (String × Option Word)) :
    c.tryInsertAll pairs = c.fill (Instruction.decodeAll pairs) := by
  induction pairs generalizing c with
  | nil => rfl
  | cons e pairs ih =>
    rw [tryInsertAll, List.foldl_cons, ← tryInsertAll, ih]
    cases hdecode : Instruction.decode e.1 e.2 with
    | ok i =>
      rw [Instruction.decodeAll_cons_of_ok hdecode, tryInsert_of_decode hdecode]
      rfl
    | error fault =>
      rw [Instruction.decodeAll_cons_of_error hdecode, tryInsert_of_decode_error hdecode]
      rfl

theorem insertInstruction_of_full {c : Computer} (h : c.program.capacity < c.program.pointer)
    (i : Instruction) : (c.insertInstruction i).state = c := by
  simp [insertInstruction, Program.insert, Program.place, Nat.not_le.mpr h, Except.map,
    Outcome.fail]

/-- The second computer is the first with the instructions in its slots from the write pointer on,
as many of them as there is room for. -/
structure Filled (c : Computer) (is : List Instruction) (d : Computer) : Prop
    extends Edits c d where
  written : ∀ k i, is[k]? = some i → c.program.pointer + k ≤ c.program.capacity →
    d.program.get? (c.program.pointer + k) = some i
  kept : ∀ a, a < c.program.pointer ∨ c.program.pointer + is.length ≤ a →
    d.program.get? a = c.program.get? a
  pointer : d.program.pointer =
    min (c.program.pointer + is.length) (c.program.capacity + 1)

namespace Filled

variable {c d : Computer} {i : Instruction} {is : List Instruction}

theorem nil (hc : c.program.WellFormed) : c.Filled [] c where
  toEdits := .refl c
  written := nofun
  kept _ _ := rfl
  pointer := (Nat.min_eq_left hc.pointer_le).symm

theorem cons (hc : c.program.WellFormed) (hroom : c.program.pointer ≤ c.program.capacity)
    (h : (c.insertInstruction i).state.Filled is d) : c.Filled (i :: is) d := by
  have hedits := Edits.insertInstruction c i
  have hpointer := pointer_insertInstruction (i := i) hroom
  have hget := get?_insertInstruction (i := i) hc hroom
  obtain ⟨hrest, hwritten, hkept, hend⟩ := h
  rw [hpointer, hedits.capacity] at hwritten hend
  rw [hpointer] at hkept
  refine ⟨hedits.trans hrest, ?_, ?_, ?_⟩
  · intro k j hj hle
    cases k with
    | zero =>
      obtain rfl : i = j := Option.some.inj hj
      rw [Nat.add_zero, hkept _ (.inl (Nat.lt_succ_self _)), hget, if_pos rfl]
    | succ k =>
      rw [← Nat.add_assoc, Nat.add_right_comm] at hle ⊢
      exact hwritten k j hj hle
  · intro a ha
    rw [List.length_cons] at ha
    have hne : a ≠ c.program.pointer := by omega
    rw [hkept a (by omega), hget, if_neg hne]
  · rw [hend, List.length_cons, Nat.add_right_comm, Nat.add_assoc]

theorem cons_of_full (hfull : c.program.capacity < c.program.pointer) (h : c.Filled is d) :
    c.Filled (i :: is) d := by
  refine ⟨h.toEdits, ?_, ?_, ?_⟩
  · intro k j _ hle
    omega
  · intro a ha
    rw [List.length_cons] at ha
    exact h.kept a (by omega)
  · rw [h.pointer, List.length_cons]
    omega

end Filled

theorem filled_fill {c : Computer} (hc : c.program.WellFormed) (is : List Instruction) :
    c.Filled is (c.fill is) := by
  induction is generalizing c with
  | nil => exact .nil hc
  | cons i is ih =>
    rw [fill, List.foldl_cons, ← fill]
    by_cases hroom : c.program.pointer ≤ c.program.capacity
    · exact .cons hc hroom (ih ((Edits.insertInstruction c i).wellFormed hc))
    · have hfull := Nat.lt_of_not_le hroom
      rw [insertInstruction_of_full hfull]
      exact .cons_of_full hfull (ih hc)

end Computer

/-- Lenient insertions leave the instructions among their names and operands in the slots from the
write pointer on, and no gaps for what is none. The write pointer ends behind the last of them, and
one past the last address once the program is full; all else is as it was. Strict insertions whose
faults are ignored come to the same computer. -/
theorem lenient_insertions_skip_rejects {c : Computer} (hc : c.program.WellFormed)
    (pairs : List (String × Option Word)) :
    let is := Instruction.decodeAll pairs
    let pointer := c.program.pointer
    let d := c.insertAll pairs
    (∀ k i, is[k]? = some i → pointer + k ≤ c.capacity →
      d.program.get? (pointer + k) = some i) ∧
    (∀ a, (∀ k < is.length, pointer + k ≤ c.capacity → a ≠ pointer + k) →
      d.program.get? a = c.program.get? a) ∧
    d.program.slots.size = c.program.slots.size ∧ d.capacity = c.capacity ∧
    d.registers = c.registers ∧ d.policy = c.policy ∧
    d.program.pointer = min (pointer + is.length) (c.capacity + 1) ∧
    c.tryInsertAll pairs = d := by
  intro is pointer d
  have hd : d = c.fill is := by
    rw [← Computer.tryInsertAll_eq_fill, ← Computer.insertAll_eq_tryInsertAll]
  have hfilled : c.Filled is d := hd ▸ Computer.filled_fill hc is
  have hwf := hfilled.wellFormed hc
  refine ⟨hfilled.written, ?_, ?_, hfilled.capacity, hfilled.registers, hfilled.policy,
    hfilled.pointer, (c.insertAll_eq_tryInsertAll pairs).symm⟩
  · intro a ha
    by_cases hslot : a ≤ c.capacity
    · apply hfilled.kept
      by_contra hbetween
      obtain ⟨k, rfl⟩ := Nat.exists_eq_add_of_le (show pointer ≤ a by omega)
      exact ha k (by omega) hslot rfl
    · -- There is no such slot in either program.
      have hpast : c.program.capacity < a := Nat.lt_of_not_le hslot
      rw [hwf.get?_eq_none (hfilled.capacity ▸ hpast), hc.get?_eq_none hpast]
  · rw [hwf.size_slots, hc.size_slots, hfilled.capacity]

/-- An unknown name, a name without its operand and a full program, in any order. -/
theorem lenient_insertions_skip_rejects_until_full :
    let slots := #[some .mult, none, some .ret, some .stop]
    let c : Computer := {
      program := { slots, capacity := 3, pointer := 1 }
      registers := { programCounter := 7, returnRegister := 2 }
      policy := .strict }
    let pairs := [("jump", some 1), (" PUSH", some (-5)), ("call", none), ("", none),
      ("Print", some 9), ("stop", none), ("ſtop", none), ("RET", none)]
    let d := c.insertAll pairs
    (c.program.WellFormed ∧ Instruction.decodeAll pairs = [.push (-5), .print, .stop, .ret]) ∧
    d.program.get? 0 = some .mult ∧ d.program.get? 1 = some (.push (-5)) ∧
    d.program.get? 2 = some .print ∧ d.program.get? 3 = some .stop ∧
    d.program.pointer = 4 ∧ d.registers = c.registers ∧ c.tryInsertAll pairs = d := by
  intro slots c pairs d
  have hc : c.program.WellFormed := ⟨by decide, by decide⟩
  have hdecode : Instruction.decodeAll pairs = [.push (-5), .print, .stop, .ret] := by
    decide +kernel
  obtain ⟨hwritten, hkept, -, -, hregisters, -, hpointer, hstrict⟩ :=
    lenient_insertions_skip_rejects hc pairs
  rw [hdecode] at hwritten hkept hpointer
  have hd : d = c.insertAll pairs := rfl
  refine ⟨⟨hc, hdecode⟩, ?_, hwritten 0 _ rfl (by decide), hwritten 1 _ rfl (by decide),
    hwritten 2 _ rfl (by decide), ?_, hregisters, hstrict⟩
  · rw [hd, hkept 0 (by decide)]
    rfl
  · rw [hd, hpointer]
    rfl

end StackComputer
