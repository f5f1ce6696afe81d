import StackComputer.Proofs.Numerals
import StackComputer.Proofs.Restoration

/-! # The grammar of listings

A listing is read line by line with a cursor. The grammar says what a line may look like, in terms
of the characters that it is put together from, and what the line does to the cursor. Loading
accepts exactly the listings of the grammar, and each slot ends up with what was written there last.
-/

namespace StackComputer

open Text (Blanks IsWord Signed Tight TrimsTo Unsigned)

def OpCode.Named (op : OpCode) (name : List Char) : Prop :=
  name.map Char.toLower = op.mnemonic.toList

theorem OpCode.ofName?_eq_some_iff {name : String} {op : OpCode} :
    ofName? name = some op ↔ op.Named (Text.trim name.toList) := by
  rw [ofName?]
  constructor
  · intro h
    have hname := List.find?_some h
    exact eq_of_beq hname
  · intro h
    rw [show (Text.trim name.toList).map Char.toLower = op.mnemonic.toList from h]
    cases op <;> rfl

/-- No letter is a blank, so a blank has one case only. -/
theorem Text.toLower_of_isBlank {c : Char} (h : isBlank c = true) : c.toLower = c := by
  unfold Char.toLower
  split
  · rename_i hupper
    have hupper' : 65 ≤ c.toNat ∧ c.toNat ≤ 90 := by
      simpa [UInt32.le_iff_toNat_le] using hupper
    simp only [isBlank, blankRanges, List.any_cons, List.any_nil] at h
    simp at h
    omega
  · rfl

theorem OpCode.not_blank_of_mem_mnemonic (op : OpCode) :
    ∀ c ∈ op.mnemonic.toList, Text.isBlank c = false := by
  have hall : (op.mnemonic.toList.all fun c => !Text.isBlank c) = true := by
    cases op <;> decide
  simpa using hall

theorem OpCode.Named.isWord {op : OpCode} {name : List Char} (h : op.Named name) :
    IsWord name := by
  constructor
  · rintro rfl
    cases op <;> cases h
  · intro c hc
    by_contra hblank
    rw [Bool.not_eq_false] at hblank
    have hmem : c.toLower ∈ op.mnemonic.toList := by
      rw [← h]
      exact List.mem_map_of_mem hc
    rw [Text.toLower_of_isBlank hblank] at hmem
    rw [op.not_blank_of_mem_mnemonic c hmem] at hblank
    cases hblank

theorem OpCode.Named.head_ne_at {op : OpCode} {rest : List Char} (h : op.Named ('@' :: rest)) :
    False := by
  cases op <;> cases (List.cons.inj h).1

namespace Instruction

theorem ofParts_eq_ok_iff {op : OpCode} {operand : Option Word} {i : Instruction} :
    ofParts op operand = .ok i ↔ i.opcode = op ∧ (i.operand = none ∨ i.operand = operand) := by
  constructor
  · intro h
    cases op <;> cases operand <;> cases h <;> simp [opcode, Instruction.operand]
  · rintro ⟨rfl, hoperand⟩
    cases i <;> cases operand <;> simp_all [ofParts, opcode, Instruction.operand]

/-- The text of an instruction: a name, and blanks and an operand behind it. Only a push and a call
need the operand; the others ignore it. -/
inductive Written : List Char → Instruction → Prop where
  | bare {name : List Char} {i : Instruction} : i.opcode.Named name → i.operand = none →
      Written name i
  | withOperand {name gap numeral : List Char} {w : Word} {i : Instruction} :
      i.opcode.Named name → gap ≠ [] → Blanks gap → Signed numeral w.toInt →
      i.operand = none ∨ i.operand = some w → Written (name ++ gap ++ numeral) i

theorem decode_eq_ok_iff {name : List Char} (hname : IsWord name) {operand : Option Word}
    {i : Instruction} :
    decode (.ofList name) operand = .ok i ↔
      i.opcode.Named name ∧ (i.operand = none ∨ i.operand = operand) := by
  have hlookup (op : OpCode) : OpCode.ofName? (.ofList name) = some op ↔ op.Named name := by
    rw [OpCode.ofName?_eq_some_iff, String.toList_ofList, Text.trim_eq_self hname.not_blank]
  unfold decode
  cases hop : OpCode.ofName? (.ofList name) with
  | none =>
    constructor
    · intro h
      cases h
    · rintro ⟨hnamed, -⟩
      rw [(hlookup _).mpr hnamed] at hop
      cases hop
  | some op =>
    simp only [ofParts_eq_ok_iff]
    constructor
    · rintro ⟨rfl, hoperand⟩
      exact ⟨(hlookup _).mp hop, hoperand⟩
    · rintro ⟨hnamed, hoperand⟩
      rw [(hlookup _).mpr hnamed] at hop
      exact ⟨Option.some.inj hop, hoperand⟩

end Instruction

namespace Listing

open Instruction (Written decode_eq_ok_iff)

theorem written_of_readInstruction {text : List Char} {i : Instruction} (ht : Tight text)
    (h : readInstruction text = .ok i) : Written text i := by
  unfold readInstruction at h
  split at h
  · cases h
  · rename_i name hwords
    obtain ⟨rfl, hname⟩ := ht.eq_of_words hwords
    obtain ⟨hnamed, hoperand⟩ := (decode_eq_ok_iff hname).mp h
    exact .bare hnamed (hoperand.elim id id)
  · rename_i name token rest hwords
    split at h
    · cases h
    · cases h
    · rename_i w hw
      obtain ⟨gap, rfl, hgap, hblanks, hname, -⟩ := ht.eq_of_two_words hwords
      obtain ⟨hnamed, hoperand⟩ := (decode_eq_ok_iff hname).mp h
      exact .withOperand hnamed hgap hblanks (Text.word?_eq_some_iff.mp hw) hoperand

theorem readInstruction_of_written {text : List Char} {i : Instruction} (h : Written text i) :
    readInstruction text = .ok i := by
  cases h with
  | bare hnamed hoperand =>
    have hname := hnamed.isWord
    simp only [readInstruction, hname.words_eq]
    exact (decode_eq_ok_iff hname).mpr ⟨hnamed, .inl hoperand⟩
  | withOperand hnamed hgap hblanks hsigned hoperand =>
    have hname := hnamed.isWord
    have hwords := Text.words_of_two_words hname hgap hblanks hsigned.isWord
    simp only [readInstruction, hwords, Text.word?_eq_some_iff.mpr hsigned]
    exact (decode_eq_ok_iff hname).mpr ⟨hnamed, hoperand⟩

def HasCode (raw text : List Char) : Prop :=
  ∃ kept comment, raw = kept ++ comment ∧ '#' ∉ kept ∧
    (∀ c, comment.head? = some c → c = '#') ∧ TrimsTo kept text

theorem code_eq_iff {raw text : List Char} : code raw = text ↔ HasCode raw text := by
  rw [code, Text.trim_eq_iff]
  constructor
  · intro h
    refine ⟨_, raw.dropWhile (· ≠ '#'), List.takeWhile_append_dropWhile.symm, ?_, ?_, h⟩
    · intro hmem
      simpa using List.all_eq_true.mp List.all_takeWhile _ hmem
    · intro c hc
      have hnot := List.head?_dropWhile_not (· ≠ '#') raw
      rw [hc] at hnot
      simpa using hnot
  · rintro ⟨kept, comment, rfl, hkept, hcomment, h⟩
    have htake : (kept ++ comment).takeWhile (· ≠ '#') = kept := by
      rw [List.takeWhile_append_of_pos]
      · cases comment with
        | nil => simp
        | cons c comment => simp [hcomment c rfl]
      · intro c hc
        have hne : c ≠ '#' := fun heq => hkept (heq ▸ hc)
        simpa using hne
    rwa [htake]

inductive Denotes (raw : List Char) : Line → Prop where
  | empty : HasCode raw [] → Denotes raw .empty
  | directive {rest numeral : List Char} {address : Nat} : HasCode raw ('@' :: rest) →
      TrimsTo rest numeral → Unsigned numeral address → address < addressLimit →
      Denotes raw (.directive address)
  | instruction {text : List Char} {i : Instruction} : HasCode raw text → Written text i →
      Denotes raw (.instruction i)

theorem denotes_of_readLine {raw : List Char} {line : Line} (h : readLine raw = .ok line) :
    Denotes raw line := by
  unfold readLine at h
  split at h
  · rename_i hcode
    cases h
    exact .empty (code_eq_iff.mp hcode)
  · rename_i rest hcode
    split at h
    · rename_i address haddress
      cases h
      obtain ⟨hunsigned, hlt⟩ := Text.natural?_eq_some_iff.mp haddress
      exact .directive (code_eq_iff.mp hcode) (Text.trimsTo_trim rest) hunsigned hlt
    · cases h
  · rename_i hcode
    have htight : Tight (code raw) := (Text.trimsTo_trim _).1
    cases hread : readInstruction (code raw) with
    | error fault =>
      rw [hread] at h
      cases h
    | ok i =>
      rw [hread] at h
      cases h
      exact .instruction (code_eq_iff.mp rfl) (written_of_readInstruction htight hread)

theorem exists_name_of_written {text : List Char} {i : Instruction} (h : Written text i) :
    ∃ c name rest, text = c :: (name ++ rest) ∧ i.opcode.Named (c :: name) := by
  cases h with
  | bare hnamed hoperand =>
    obtain ⟨c, name, rfl⟩ := List.exists_cons_of_ne_nil hnamed.isWord.ne_nil
    exact ⟨c, name, [], by simp, hnamed⟩
  | withOperand hnamed hgap hblanks hsigned hoperand =>
    obtain ⟨c, name, rfl⟩ := List.exists_cons_of_ne_nil hnamed.isWord.ne_nil
    exact ⟨c, name, _, List.append_assoc .., hnamed⟩

theorem readLine_of_denotes {raw : List Char} {line : Line} (h : Denotes raw line) :
    readLine raw = .ok line := by
  cases h with
  | empty hcode => simp only [readLine, code_eq_iff.mpr hcode]
  | directive hcode htrim hunsigned hlt =>
    have hnatural := Text.natural?_eq_some_iff.mpr ⟨hunsigned, hlt⟩
    simp only [readLine, code_eq_iff.mpr hcode, Text.trim_eq_iff.mpr htrim, hnatural]
  | @instruction text i hcode hwritten =>
    obtain ⟨c, name, rest, htext, hnamed⟩ := exists_name_of_written hwritten
    have hread := readInstruction_of_written hwritten
    rw [readLine, code_eq_iff.mpr hcode]
    split
    · cases htext
    · -- a mnemonic does not start like a directive
      cases htext
      exact hnamed.head_ne_at.elim
    · rw [hread]
      rfl

/-- The lines are read in order with a cursor, which starts at the given address. The writes are
the instructions of the listing with the addresses that the cursor was at. -/
inductive Reads (capacity : Nat) :
    Nat → List (List Char) → List (Nat × Instruction) → Prop where
  | done {cursor : Nat} : Reads capacity cursor [] []
  | empty {cursor : Nat} {raw : List Char} {raws : List (List Char)}
      {writes : List (Nat × Instruction)} : Denotes raw .empty →
      Reads capacity cursor raws writes → Reads capacity cursor (raw :: raws) writes
  | directive {cursor address : Nat} {raw : List Char} {raws : List (List Char)}
      {writes : List (Nat × Instruction)} : Denotes raw (.directive address) →
      address ≤ capacity → Reads capacity address raws writes →
      Reads capacity cursor (raw :: raws) writes
  | instruction {cursor : Nat} {raw : List Char} {raws : List (List Char)} {i : Instruction}
      {writes : List (Nat × Instruction)} : Denotes raw (.instruction i) → cursor ≤ capacity →
      Reads capacity (cursor + 1) raws writes →
      Reads capacity cursor (raw :: raws) ((cursor, i) :: writes)

end Listing

namespace Computer

variable {c : Computer}

theorem setAddress_ok_iff {address : Nat} :
    (c.setAddress address).result = .ok () ↔ address ≤ c.program.capacity := by
  by_cases h : address ≤ c.program.capacity
  · simp [setAddress, Program.setPointer, h, Outcome.ok]
  · simp [setAddress, Program.setPointer, h, Outcome.fail]

theorem setAddress_state {address : Nat} (h : address ≤ c.program.capacity) :
    (c.setAddress address).state = { c with program := { c.program with pointer := address } } := by
  simp [setAddress, Program.setPointer, h, Outcome.ok]

theorem insertInstruction_ok_iff {i : Instruction} :
    (c.insertInstruction i).result = .ok () ↔ c.program.pointer ≤ c.program.capacity := by
  by_cases h : c.program.pointer ≤ c.program.capacity
  · simp [insertInstruction, Program.insert, Program.place, h, Except.map, Outcome.ok]
  · simp [insertInstruction, Program.insert, Program.place, h, Except.map, Outcome.fail]

theorem pointer_insertInstruction {i : Instruction} (h : c.program.pointer ≤ c.program.capacity) :
    (c.insertInstruction i).state.program.pointer = c.program.pointer + 1 := by
  rw [insertInstruction, Program.insert_eq_ok_iff.mpr ⟨h, rfl⟩]
  rfl

theorem get?_insertInstruction {i : Instruction} (hc : c.program.WellFormed)
    (h : c.program.pointer ≤ c.program.capacity) (a : Nat) :
    (c.insertInstruction i).state.program.get? a =
      if a = c.program.pointer then some i else c.program.get? a := by
  have hp := Program.insert_eq_ok_iff (i := i).mpr ⟨h, rfl⟩
  rw [insertInstruction, hp]
  exact Program.get?_of_insert hc.size_slots hp a

end Computer

namespace Listing

theorem loadLines_cons {c : Computer} {raw : List Char} {line : Line} (hline : Denotes raw line)
    (happly : (line.apply c).result = .ok ()) (number : Nat) (raws : List (List Char)) :
    (loadLines c number (raw :: raws)).result =
        (loadLines (line.apply c).state (number + 1) raws).result ∧
      (loadLines c number (raw :: raws)).state =
        (loadLines (line.apply c).state (number + 1) raws).state := by
  have hload : loadLine c number raw = (line.apply c).mapFault (.onLine number) := by
    rw [loadLine, readLine_of_denotes hline]
  have hok : (loadLine c number raw).result = .ok () := by
    rw [hload, Outcome.mapFault_eq_ok_iff, happly]
  rw [loadLines, Outcome.andThen_of_ok hok, hload]
  exact ⟨rfl, rfl⟩

/-- A listing of the grammar loads, and each slot that it writes holds the last instruction written
there. -/
theorem Reads.loads {c : Computer} {raws : List (List Char)} {writes : List (Nat × Instruction)}
    (h : Reads c.program.capacity c.program.pointer raws writes) (hc : c.program.WellFormed)
    (number : Nat) :
    (loadLines c number raws).result = .ok () ∧
      (loadLines c number raws).state.program.pointer = 0 ∧
      ∀ a, (loadLines c number raws).state.program.get? a =
        (writes.reverse.lookup a).or (c.program.get? a) := by
  generalize hcapacity : c.program.capacity = capacity at h
  generalize hcursor : c.program.pointer = cursor at h
  induction h generalizing c number with
  | done =>
    have hle : 0 ≤ c.program.capacity := Nat.zero_le _
    rw [loadLines, Computer.setAddress_state hle]
    exact ⟨Computer.setAddress_ok_iff.mpr hle, rfl, fun a => rfl⟩
  | empty hline _ ih =>
    obtain ⟨hresult, hstate⟩ := loadLines_cons (c := c) hline rfl number _
    rw [hresult, hstate]
    exact ih hc (number + 1) hcapacity hcursor
  | @directive cursor address raw raws writes hline hle _ ih =>
    rw [← hcapacity] at hle
    obtain ⟨hresult, hstate⟩ :=
      loadLines_cons hline (Computer.setAddress_ok_iff.mpr hle) number raws
    have hwf := (Edits.setAddress c address).wellFormed hc
    rw [hresult, hstate]
    rw [Line.apply, Computer.setAddress_state hle] at *
    exact ih hwf (number + 1) hcapacity rfl
  | @instruction cursor raw raws i writes hline hle _ ih =>
    rw [← hcapacity, ← hcursor] at hle
    obtain ⟨hresult, hstate⟩ :=
      loadLines_cons hline (Computer.insertInstruction_ok_iff.mpr hle) number raws
    have hedits := Edits.insertInstruction c i
    obtain ⟨hok, hzero, hslots⟩ := ih (hedits.wellFormed hc) (number + 1)
      (hedits.capacity.trans hcapacity) (by rw [Computer.pointer_insertInstruction hle, hcursor])
    rw [hresult, hstate]
    refine ⟨hok, hzero, ?_⟩
    intro a
    rw [Line.apply, hslots, Computer.get?_insertInstruction hc hle, hcursor, List.reverse_cons,
      List.lookup_append, lookup_cons_eq_if, Option.or_assoc]
    by_cases ha : a = cursor <;> simp [ha]

theorem exists_denotes_of_loadLines {c : Computer} {number : Nat} {raw : List Char}
    {raws : List (List Char)} (h : (loadLines c number (raw :: raws)).result = .ok ()) :
    ∃ line, Denotes raw line ∧ (line.apply c).result = .ok () := by
  cases hline : (loadLine c number raw).result with
  | error fault =>
    rw [loadLines, Outcome.andThen_of_error hline] at h
    cases h
  | ok _ =>
    unfold loadLine at hline
    split at hline
    · cases hline
    · rename_i line hread
      exact ⟨line, denotes_of_readLine hread, Outcome.mapFault_eq_ok_iff.mp hline⟩

theorem exists_reads {c : Computer} {number : Nat} {raws : List (List Char)}
    (h : (loadLines c number raws).result = .ok ()) :
    ∃ writes, Reads c.program.capacity c.program.pointer raws writes := by
  induction raws generalizing c number with
  | nil => exact ⟨[], .done⟩
  | cons raw raws ih =>
    obtain ⟨line, hline, happly⟩ := exists_denotes_of_loadLines h
    rw [(loadLines_cons hline happly number raws).1] at h
    obtain ⟨writes, hreads⟩ := ih h
    cases line with
    | empty => exact ⟨writes, .empty hline hreads⟩
    | directive address =>
      have hle := Computer.setAddress_ok_iff.mp happly
      rw [Line.apply, Computer.setAddress_state hle] at hreads
      exact ⟨writes, .directive hline hle hreads⟩
    | instruction i =>
      have hle := Computer.insertInstruction_ok_iff.mp happly
      rw [Line.apply, (Edits.insertInstruction c i).capacity,
        Computer.pointer_insertInstruction hle] at hreads
      exact ⟨_, .instruction hline hle hreads⟩

theorem Reads.load {source : String} {capacity : Nat} {writes : List (Nat × Instruction)}
    (h : Reads capacity 0 (Text.lines source.toList) writes) :
    (load source capacity).result = .ok () ∧
      (load source capacity).state.program.pointer = 0 ∧
      ∀ a, (load source capacity).state.program.get? a = writes.reverse.lookup a := by
  obtain ⟨hok, hpointer, hslots⟩ :=
    h.loads (c := .empty capacity) (Program.wellFormed_empty capacity) 1
  refine ⟨hok, hpointer, ?_⟩
  intro a
  have hempty : (Computer.empty capacity).program.get? a = none := Program.get?_empty capacity a
  rw [Listing.load, loadInto, hslots, hempty, Option.or_none]

theorem load_ok_iff {source : String} {capacity : Nat} :
    (load source capacity).result = .ok () ↔
      ∃ writes, Reads capacity 0 (Text.lines source.toList) writes := by
  constructor
  · exact exists_reads
  · rintro ⟨writes, h⟩
    exact h.load.1

end Listing

/-- A listing loads if and only if it is one of the grammar. The computer then has in each slot what
the listing writes there last, and is otherwise as new. -/
theorem load_accepts_grammar (source : String) (capacity : Nat) :
    let raws := Text.lines source.toList
    let c := (Listing.load source capacity).state
    ((Listing.load source capacity).result = .ok () ↔
      ∃ writes, Listing.Reads capacity 0 raws writes) ∧
    ∀ writes, Listing.Reads capacity 0 raws writes →
      c.program.capacity = capacity ∧ c.program.slots.size = capacity + 1 ∧
      c.program.pointer = 0 ∧
      c.registers = { programCounter := 0, returnRegister := 0 } ∧
      ∀ a i, c.program.get? a = some i ↔
        ∃ before after, writes = before ++ (a, i) :: after ∧ ∀ e ∈ after, e.1 ≠ a := by
  intro raws c
  have hwf : (Computer.empty capacity).program.WellFormed := Program.wellFormed_empty capacity
  have hedits : Edits (.empty capacity) c := .loadInto _ source
  refine ⟨Listing.load_ok_iff, ?_⟩
  intro writes hreads
  obtain ⟨-, hpointer, hslots⟩ := hreads.load
  refine ⟨hedits.capacity, ?_, hpointer, hedits.registers, ?_⟩
  · rw [(hedits.wellFormed hwf).size_slots, hedits.capacity]
    rfl
  · intro a i
    rw [hslots, lookup_reverse_eq_some_iff]

/-- Blanks of several kinds, signs, leading zeros, the last slot, an operand that is ignored and a
slot that is written twice. -/
theorem load_accepts_grammar_twice_written :
    let source := "\u00a0@ +002 # two\r\n pUsH\t-0\nCALL 2 #\n\n@0\r\nstop +7\n@0\nRET"
    let writes := [(2, .push 0), (3, .call 2), (0, .stop), (0, .ret)]
    let c := (Listing.load source 3).state
    Listing.Reads 3 0 (Text.lines source.toList) writes ∧
    (Listing.load source 3).result = .ok () ∧ c.program.pointer = 0 ∧
    c.program.get? 0 = some .ret ∧ c.program.get? 1 = none := by
  intro source writes c
  have hlines : Text.lines source.toList = ["\u00a0@ +002 # two".toList, " pUsH\t-0".toList,
      "CALL 2 #".toList, [], "@0".toList, "stop +7".toList, "@0".toList, "RET".toList] := by
    decide +kernel
  have hreads : Listing.Reads 3 0 (Text.lines source.toList) writes := by
    rw [hlines]
    refine .directive (Listing.denotes_of_readLine (by decide +kernel)) (show 2 ≤ 3 by decide) ?_
    refine .instruction (Listing.denotes_of_readLine (by decide +kernel)) (by decide) ?_
    refine .instruction (Listing.denotes_of_readLine (by decide +kernel)) (by decide) ?_
    refine .empty (Listing.denotes_of_readLine (by decide +kernel)) ?_
    refine .directive (Listing.denotes_of_readLine (by decide +kernel)) (show 0 ≤ 3 by decide) ?_
    refine .instruction (Listing.denotes_of_readLine (by decide +kernel)) (by decide) ?_
    refine .directive (Listing.denotes_of_readLine (by decide +kernel)) (show 0 ≤ 3 by decide) ?_
    exact .instruction (Listing.denotes_of_readLine (by decide +kernel)) (by decide) .done
  obtain ⟨hok, hloaded⟩ := load_accepts_grammar source 3
  obtain ⟨-, -, hpointer, -, hslots⟩ := hloaded writes hreads
  refine ⟨hreads, hok.mpr ⟨writes, hreads⟩, hpointer, ?_, ?_⟩
  · rw [hslots]
    exact ⟨[(2, .push 0), (3, .call 2), (0, .stop)], [], rfl, nofun⟩
  · rw [Option.eq_none_iff_forall_ne_some]
    intro i hi
    obtain ⟨before, after, hwrites, -⟩ := (hslots 1 i).mp hi
    have hmem : ((1, i) : Nat × Instruction) ∈ writes := by
      rw [hwrites]
      exact List.mem_append_right _ List.mem_cons_self
    simp [writes] at hmem

end StackComputer
