import StackComputer.Proofs.Grammar
import StackComputer.Proofs.Steps

/-! # Programs written out as listings

The listing of a program has two lines for each filled slot: a directive and the text of the
instruction. Both are lines of the grammar, whatever the address and the operand are, so the listing
loads, and since no address comes twice each slot ends up with its own instruction.
-/

namespace StackComputer

open Text (Blanks IsWord Signed Tight TrimsTo)

theorem OpCode.named_display (op : OpCode) : op.Named op.display.toList := by
  cases op <;> rfl

theorem Text.Signed.digit_or_sign {numeral : List Char} {z : Int} (h : Signed numeral z) :
    ∀ c ∈ numeral, c.isDigit = true ∨ c = '+' ∨ c = '-' := by
  intro c hc
  cases h with
  | unsigned h =>
    cases h with
    | plain h => exact .inl (h.all.2 c hc)
    | plus h =>
      rcases List.mem_cons.mp hc with rfl | hc
      · exact .inr (.inl rfl)
      · exact .inl (h.all.2 c hc)
  | minus h =>
    rcases List.mem_cons.mp hc with rfl | hc
    · exact .inr (.inr rfl)
    · exact .inl (h.all.2 c hc)

theorem Text.blanks_space : Blanks " ".toList := by
  intro c hc
  obtain rfl : c = ' ' := List.mem_singleton.mp hc
  decide

namespace Instruction

theorem written_display (i : Instruction) : Written i.display.toList i := by
  have hnamed := i.opcode.named_display
  cases hoperand : i.operand with
  | none =>
    rw [display, hoperand]
    exact .bare hnamed hoperand
  | some w =>
    rw [display, hoperand, String.toList_append, String.toList_append]
    exact .withOperand hnamed (by decide) Text.blanks_space (Text.signed_text w) (.inr hoperand)

theorem Written.tight {text : List Char} {i : Instruction} (h : Written text i) : Tight text := by
  cases h with
  | bare hnamed _ => exact Text.tight_of_forall hnamed.isWord.not_blank
  | withOperand hnamed _ _ hsigned _ => exact hnamed.isWord.tight_append hsigned.isWord

end Instruction

namespace Listing

structure OneLine (text : List Char) : Prop where
  feed : '\n' ∉ text
  carriage : '\r' ∉ text
  comment : '#' ∉ text

theorem OneLine.append {text rest : List Char} (h : OneLine text) (k : OneLine rest) :
    OneLine (text ++ rest) where
  feed := by simp [h.feed, k.feed]
  carriage := by simp [h.carriage, k.carriage]
  comment := by simp [h.comment, k.comment]

theorem oneLine_of_signed {numeral : List Char} {z : Int} (h : Signed numeral z) :
    OneLine numeral where
  feed hmem := by simpa using h.digit_or_sign _ hmem
  carriage hmem := by simpa using h.digit_or_sign _ hmem
  comment hmem := by simpa using h.digit_or_sign _ hmem

theorem OneLine.append_operand {text : List Char} (h : OneLine text) (w : Word) :
    OneLine (text ++ " ".toList ++ w.text.toList) := by
  have hgap : OneLine " ".toList := ⟨by decide, by decide, by decide⟩
  exact (h.append hgap).append (oneLine_of_signed (Text.signed_text w))

theorem oneLine_opcode (op : OpCode) : OneLine op.display.toList := by
  cases op <;> exact ⟨by decide, by decide, by decide⟩

theorem oneLine_instruction (i : Instruction) : OneLine i.display.toList := by
  have hname := oneLine_opcode i.opcode
  cases hoperand : i.operand with
  | none => rwa [Instruction.display, hoperand]
  | some w =>
    rw [Instruction.display, hoperand, String.toList_append, String.toList_append]
    exact hname.append_operand w

theorem oneLine_address (address : Nat) : OneLine ('@' :: address.repr.toList) := by
  have hat : OneLine ['@'] := ⟨by decide, by decide, by decide⟩
  exact hat.append (oneLine_of_signed (.unsigned (.plain (Text.digits_repr address))))

theorem OneLine.lines_append {text : List Char} (h : OneLine text) (rest : List Char) :
    Text.lines (text ++ '\n' :: rest) = text :: Text.lines rest := by
  rw [Text.lines_append h.feed, Text.dropReturn_eq_self h.carriage]

theorem OneLine.hasCode {text : List Char} (h : OneLine text) (ht : Tight text) :
    HasCode text text :=
  ⟨text, [], by simp, h.comment, nofun, ht, [], [], by simp, nofun, nofun⟩

def entryLines (e : Nat × Instruction) : List (List Char) :=
  ['@' :: e.1.repr.toList, e.2.display.toList]

theorem denotes_address {address : Nat} (h : address < addressLimit) :
    Denotes ('@' :: address.repr.toList) (.directive address) := by
  have hdigits := Text.digits_repr address
  have hword : IsWord ('@' :: address.repr.toList) := hdigits.isWord.cons (by decide)
  have hcode := (oneLine_address address).hasCode (Text.tight_of_forall hword.not_blank)
  have htrim : TrimsTo address.repr.toList address.repr.toList :=
    Text.trim_eq_iff.mp (Text.trim_repr address)
  exact .directive hcode htrim (.plain hdigits) h

theorem denotes_instruction (i : Instruction) : Denotes i.display.toList (.instruction i) :=
  .instruction ((oneLine_instruction i).hasCode i.written_display.tight) i.written_display

/-- The directive before each instruction puts the cursor on the right slot, wherever it was. -/
theorem reads_entries {capacity : Nat} (hcap : capacity < addressLimit)
    {es : List (Nat × Instruction)} (h : ∀ e ∈ es, e.1 ≤ capacity) (cursor : Nat) :
    Reads capacity cursor (es.flatMap entryLines) es := by
  induction es generalizing cursor with
  | nil => exact .done
  | cons e es ih =>
    have hle : e.1 ≤ capacity := h e List.mem_cons_self
    have hrest := ih (fun f hf => h f (List.mem_cons_of_mem e hf)) (e.1 + 1)
    exact .directive (denotes_address (Nat.lt_of_le_of_lt hle hcap)) hle
      (.instruction (denotes_instruction e.2) hle hrest)

theorem lines_ofProgram (p : Program) :
    Text.lines (ofProgram p).toList = p.entries.flatMap entryLines := by
  rw [ofProgram, String.toList_join]
  induction p.entries with
  | nil => rfl
  | cons e es ih =>
    have hentry (rest : List Char) :
        ("@" ++ e.1.repr ++ "\n" ++ e.2.display ++ "\n").toList ++ rest =
          '@' :: e.1.repr.toList ++ '\n' :: (e.2.display.toList ++ '\n' :: rest) := by
      simp
    rw [List.map_cons, List.flatMap_cons, hentry, (oneLine_address e.1).lines_append,
      (oneLine_instruction e.2).lines_append, ih]
    rfl

/-- A program comes back from its listing, all but its write pointer. -/
theorem load_ofProgram {p : Program} (hp : p.WellFormed) (hcap : p.capacity < addressLimit) :
    (load (ofProgram p) p.capacity).result = .ok () ∧
      (load (ofProgram p) p.capacity).state.program = { p with pointer := 0 } ∧
      (load (ofProgram p) p.capacity).state.registers = {} := by
  have hreads : Reads p.capacity 0 (Text.lines (ofProgram p).toList) p.entries := by
    rw [lines_ofProgram]
    apply reads_entries hcap
    intro e he
    exact hp.address_le (Program.mem_entries.mp he)
  obtain ⟨hok, hpointer, hslots⟩ := hreads.load
  have hempty := Program.wellFormed_empty p.capacity
  have hedits : Edits (.empty p.capacity) (load (ofProgram p) p.capacity).state := .loadInto _ _
  refine ⟨hok, Program.ext_get? ?_ hedits.capacity hpointer ?_, hedits.registers⟩
  · rw [(hedits.wellFormed hempty).size_slots, hedits.capacity]
    exact hp.size_slots.symm
  · intro a
    have hnodup : (p.entries.reverse.map Prod.fst).Nodup := by
      rw [List.map_reverse, List.nodup_reverse]
      exact p.nodup_addresses
    ext i
    rw [hslots, lookup_eq_some_iff_mem hnodup, List.mem_reverse, Program.mem_entries]
    rfl

end Listing

/-- A run does not look at the write pointer. -/
theorem Machine.after_pointer (p : Program) (pointer steps : Nat) (m : Machine) :
    m.after { p with pointer } steps = m.after p steps := by
  have hcode : p.SameCode { p with pointer } := ⟨rfl, fun _ _ => rfl⟩
  exact after_of_sameCode hcode steps m

/-- A program comes back from its listing in a computer with the write pointer and the registers at
zero, and runs there as it does from zero registers. -/
theorem disassembled_program_reloads {c : Computer} (hc : c.program.WellFormed)
    (hcap : c.capacity < addressLimit) :
    let zero : Registers := { programCounter := 0, returnRegister := 0 }
    let o := Listing.load (Listing.ofProgram c.program) c.capacity
    o.result = .ok () ∧
    o.state.program = { slots := c.program.slots, capacity := c.capacity, pointer := 0 } ∧
    o.state.registers = zero ∧
    ∀ fuel, (o.state.execute fuel).map (·.result) =
      ((c.restoreRegisters zero).execute fuel).map (·.result) := by
  intro zero o
  obtain ⟨hok, hprogram, hregisters⟩ := Listing.load_ofProgram hc hcap
  refine ⟨hok, hprogram, hregisters, ?_⟩
  intro fuel
  rw [Computer.result_execute, Computer.result_execute, show o.state.program = _ from hprogram,
    show o.state.registers = _ from hregisters, Machine.after_pointer]
  rfl

/-- The least word, addresses of one and of two digits, and a write pointer past the last slot. -/
theorem disassembled_program_reloads_least_word :
    let slots := #[none, none, some (.push (-9223372036854775808)), none, none, none, none, none,
      none, none, some .print, some .stop]
    let c : Computer := {
      program := { slots, capacity := 11, pointer := 12 }
      registers := { programCounter := 10, returnRegister := 3 } }
    let o := Listing.load (Listing.ofProgram c.program) 11
    (Listing.ofProgram c.program = "@2\nPUSH -9223372036854775808\n@10\nPRINT\n@11\nSTOP\n" ∧
      c.program.WellFormed ∧ c.capacity < addressLimit) ∧
    o.result = .ok () ∧ o.state.program = { c.program with pointer := 0 } ∧
    (o.state.execute 12).map (·.result) = some (.ok [-9223372036854775808]) := by
  intro slots c o
  have hc : c.program.WellFormed := ⟨by decide, by decide⟩
  have hcap : c.capacity < addressLimit := by decide
  obtain ⟨hok, hprogram, -, hrun⟩ := disassembled_program_reloads hc hcap
  refine ⟨⟨by decide +kernel, hc, hcap⟩, hok, hprogram, (hrun 12).trans ?_⟩
  decide +kernel

end StackComputer
