import StackComputer.Proofs.Decoding
import StackComputer.Proofs.Disassembly
import StackComputer.Proofs.Filling

/-! # Routes into a program

An instruction gets into a program by an insertion, on a line of a listing or in the slot of a
record, and there its operand may be a number or a text. Each route has a reader of its own, and all
of them come to what decoding the name and the operand comes to.
-/

namespace StackComputer

open Text (IsWord)

def Outcome.final {σ ε α : Type} (o : Outcome σ ε α) : Except ε σ :=
  o.result.map fun _ => o.state

section Follows

variable {ε : Type}

def Places (i : Instruction) (built : Except ε Computer) : Prop :=
  ∃ c, built = .ok c ∧ c.program.entries = [(0, i)]

def Refuses (built : Except ε Computer) : Prop := ∃ fault, built = .error fault

/-- Building places what was decoded, and refuses what could not be decoded. -/
structure Follows (decoded : Except Fault Instruction) (built : Except ε Computer) : Prop where
  places : ∀ i, decoded = .ok i → Places i built
  refuses : ∀ fault, decoded = .error fault → Refuses built

theorem places_of_get? {c : Computer} {i : Instruction}
    (h : ∀ a, c.program.get? a = [(0, i)].lookup a) : Places i (.ok c : Except ε Computer) :=
  ⟨c, rfl, Program.entries_eq_of_lookup (List.pairwise_singleton _ _) h⟩

end Follows

theorem Computer.follows_tryInsert (capacity : Nat) (name : String) (operand : Option Word) :
    Follows (Instruction.decode name operand)
      ((Computer.empty capacity).tryInsert name operand).final := by
  constructor
  · intro i hi
    have hroom : (empty capacity).program.pointer ≤ (empty capacity).program.capacity :=
      Nat.zero_le _
    rw [tryInsert_of_decode hi, Outcome.final, insertInstruction_ok_iff.mpr hroom]
    apply places_of_get?
    intro a
    have hempty : (empty capacity).program.get? a = none := Program.get?_empty capacity a
    rw [get?_insertInstruction (Program.wellFormed_empty capacity) hroom, hempty,
      lookup_cons_eq_if]
    rfl
  · intro fault hfault
    rw [tryInsert_of_decode_error hfault]
    exact ⟨fault, rfl⟩

namespace Listing

def instructionLine (name : String) : Option Word → String
  | none => name
  | some w => name ++ " " ++ w.text

/-- What a name has to be like to stand on a line of its own. -/
structure IsName (name : String) : Prop where
  isWord : IsWord name.toList
  comment : '#' ∉ name.toList
  directive : name.toList.head? ≠ some '@'

instance (name : String) : Decidable (IsName name) :=
  decidable_of_iff (IsWord name.toList ∧ '#' ∉ name.toList ∧ name.toList.head? ≠ some '@')
    ⟨fun h => ⟨h.1, h.2.1, h.2.2⟩, fun h => ⟨h.isWord, h.comment, h.directive⟩⟩

variable {name : String}

theorem IsName.oneLine (h : IsName name) : OneLine name.toList where
  feed hmem := by cases h.isWord.not_blank _ hmem
  carriage hmem := by cases h.isWord.not_blank _ hmem
  comment := h.comment

theorem IsName.oneLine_line (h : IsName name) (operand : Option Word) :
    OneLine (instructionLine name operand).toList := by
  cases operand with
  | none => exact h.oneLine
  | some w =>
    rw [instructionLine, String.toList_append, String.toList_append]
    exact h.oneLine.append_operand w

theorem IsName.tight_line (h : IsName name) (operand : Option Word) :
    Text.Tight (instructionLine name operand).toList := by
  cases operand with
  | none => exact Text.tight_of_forall h.isWord.not_blank
  | some w =>
    rw [instructionLine, String.toList_append, String.toList_append]
    exact h.isWord.tight_append (Text.signed_text w).isWord

theorem IsName.exists_line_eq_cons (h : IsName name) (operand : Option Word) :
    ∃ c rest, (instructionLine name operand).toList = c :: rest ∧ c ≠ '@' := by
  obtain ⟨c, rest, hname⟩ := List.exists_cons_of_ne_nil h.isWord.ne_nil
  have hc : c ≠ '@' := by
    rintro rfl
    exact h.directive (by rw [hname]; rfl)
  cases operand with
  | none => exact ⟨c, rest, hname, hc⟩
  | some w =>
    refine ⟨c, rest ++ (" ".toList ++ w.text.toList), ?_, hc⟩
    simp [instructionLine, hname]

theorem IsName.readInstruction_line (h : IsName name) (operand : Option Word) :
    readInstruction (instructionLine name operand).toList = Instruction.decode name operand := by
  cases operand with
  | none =>
    rw [instructionLine, readInstruction, h.isWord.words_eq]
    simp only [String.ofList_toList]
  | some w =>
    have hsigned := Text.signed_text w
    have hwords := Text.words_of_two_words h.isWord (by decide) Text.blanks_space hsigned.isWord
    rw [instructionLine, String.toList_append, String.toList_append, readInstruction, hwords]
    simp only [Text.word?_eq_some_iff.mpr hsigned, String.ofList_toList]

/-- The line is neither empty nor a directive and has no comment, so that all of it is read. -/
theorem IsName.readLine_line (h : IsName name) (operand : Option Word) :
    readLine (instructionLine name operand).toList =
      (Instruction.decode name operand).map .instruction := by
  have hcode := code_eq_iff.mpr ((h.oneLine_line operand).hasCode (h.tight_line operand))
  obtain ⟨c, rest, hline, hc⟩ := h.exists_line_eq_cons operand
  rw [← h.readInstruction_line operand, readLine, hcode, hline]
  split
  · rename_i hnil
    cases hnil
  · rename_i hat
    cases hat
    exact absurd rfl hc
  · rfl

theorem IsName.lines_line (h : IsName name) (operand : Option Word) :
    Text.lines (instructionLine name operand).toList =
      [(instructionLine name operand).toList] := by
  obtain ⟨c, rest, hline, -⟩ := h.exists_line_eq_cons operand
  exact Text.lines_eq_singleton (h.oneLine_line operand).feed (by rw [hline]; exact nofun)

theorem IsName.follows_load (h : IsName name) (capacity : Nat) (operand : Option Word) :
    Follows (Instruction.decode name operand)
      (load (instructionLine name operand) capacity).final := by
  have hread := h.readLine_line operand
  have hlines := h.lines_line operand
  constructor
  · intro i hi
    rw [hi] at hread
    have hreads : Reads capacity 0 (Text.lines (instructionLine name operand).toList) [(0, i)] := by
      rw [hlines]
      exact .instruction (denotes_of_readLine hread) (Nat.zero_le _) .done
    obtain ⟨hok, -, hslots⟩ := hreads.load
    rw [Outcome.final, hok]
    exact places_of_get? hslots
  · intro fault hfault
    rw [hfault] at hread
    refine ⟨.onLine 1 fault, ?_⟩
    rw [Outcome.final, load, loadInto, hlines, loadLines, loadLine, hread]
    rfl

end Listing

theorem StoredOperand.Denotes.unique {operand : StoredOperand} {v w : Word}
    (hv : operand.Denotes v) (hw : operand.Denotes w) : v = w := by
  rw [← value_eq_ok_iff] at hv hw
  exact Except.ok.inj (hv.symm.trans hw)

namespace SlotRecord

variable {slot : SlotRecord}

theorem Brings.unique {v w : Option Word} (hv : slot.Brings v) (hw : slot.Brings w) : v = w := by
  cases hv with
  | nothing hnone =>
    cases hw with
    | nothing _ => rfl
    | word hsome _ => cases hnone.symm.trans hsome
  | word hsome hv =>
    cases hw with
    | nothing hnone => cases hnone.symm.trans hsome
    | word hsome' hw =>
      cases hsome.symm.trans hsome'
      rw [hv.unique hw]

theorem brings_number (opcode : Option String) (operand : Option Word) :
    Brings ⟨opcode, operand.map .number⟩ operand := by
  cases operand with
  | none => exact .nothing rfl
  | some w => exact .word rfl (.number w)

theorem brings_text (opcode : Option String) (operand : Option Word) :
    Brings ⟨opcode, operand.map fun w => .text w.text⟩ operand := by
  cases operand with
  | none => exact .nothing rfl
  | some w =>
    have hsigned := Text.signed_text w
    have htrims := Text.trim_eq_iff.mp (Text.trim_eq_self hsigned.isWord.not_blank)
    exact .word rfl (.text htrims hsigned)

theorem denotes_iff_decode {name : String} {operand : Option Word} {i : Instruction}
    (hname : slot.opcode = some name) (hbrings : slot.Brings operand) :
    slot.Denotes i ↔ Instruction.decode name operand = .ok i := by
  have hdecode : Instruction.decode name operand = .ok i ↔
      i.opcode.KnownAs name ∧ (i.operand = none ∨ i.operand = operand) := by
    rw [← OpCode.ofName?_eq_some_iff_knownAs, Instruction.decode]
    split
    · rename_i op hop
      rw [Instruction.ofParts_eq_ok_iff, hop, Option.some.injEq, eq_comm (a := op)]
    · rename_i hop
      rw [hop]
      exact ⟨nofun, nofun⟩
  rw [hdecode]
  constructor
  · rintro ⟨⟨name', hname', hknown⟩, operand', hbrings', hoperand⟩
    cases hname.symm.trans hname'
    rw [hbrings.unique hbrings']
    exact ⟨hknown, hoperand⟩
  · rintro ⟨hknown, hoperand⟩
    exact ⟨⟨name, hname, hknown⟩, operand, hbrings, hoperand⟩

end SlotRecord

namespace Record

def single (id : String) (programCounter pointer capacity : Nat) (slot : SlotRecord) : Record where
  id := id
  programCounter := programCounter
  program := { slots := .ofList [("0", slot)], pointer, capacity }

theorem follows_toComputer {name : String} {operand : Option Word} {slot : SlotRecord}
    (hname : slot.opcode = some name) (hbrings : slot.Brings operand) (id : String)
    (programCounter : Nat) {pointer capacity : Nat} (hcap : capacity ≤ maxCapacity)
    (hpointer : pointer ≤ capacity + 1) :
    Follows (Instruction.decode name operand)
      (single id programCounter pointer capacity slot).toComputer := by
  have hzero : Addresses "0" 0 := natural?_trim_eq_some_iff.mp (by decide +kernel)
  constructor
  · intro i hi
    have hdenotes : slot.Denotes i := (SlotRecord.denotes_iff_decode hname hbrings).mpr hi
    have hentry : slot.entry? "0" = .ok (some (0, i)) :=
      SlotRecord.entry?_eq_ok_iff.mpr ⟨0, hzero, .inr ⟨i, hdenotes, rfl⟩⟩
    have hread : readSlots [("0", slot)] = .ok [(0, i)] := by
      rw [readSlots_cons hentry]
      rfl
    have hes : ∀ e ∈ [(0, i)], e.1 ≤ capacity := by
      intro e he
      rw [List.mem_singleton.mp he]
      exact Nat.zero_le _
    obtain ⟨c, hparts, -, -, -, -, -, hget⟩ :=
      Computer.ofParts_spec { programCounter := programCounter } hes hpointer
    have hc : (single id programCounter pointer capacity slot).toComputer = .ok c :=
      toComputer_eq_ok_iff.mpr ⟨hcap, _, hread, hparts⟩
    rw [hc]
    exact places_of_get? hget
  · intro fault hfault
    cases hc : (single id programCounter pointer capacity slot).toComputer with
    | error fault => exact ⟨fault, rfl⟩
    | ok c =>
      -- A slot that can be read has an instruction in it.
      obtain ⟨-, entries, hread, -⟩ := toComputer_eq_ok_iff.mp hc
      obtain ⟨entry, hentry⟩ := forall_of_readSlots hread ("0", slot) List.mem_cons_self
      obtain ⟨a, -, ⟨hempty, -⟩ | ⟨i, hi, -⟩⟩ := SlotRecord.entry?_eq_ok_iff.mp hentry
      · cases hname.symm.trans hempty
      · rw [(SlotRecord.denotes_iff_decode hname hbrings).mp hi] at hfault
        cases hfault

end Record

/-- An insertion, a listing of one line and a record of one slot, with its operand as a number or as
a text, all place the same instruction at address 0, or all refuse the name and the operand. Of the
rest of the record only the write pointer matters, which has to be in range. -/
theorem build_routes_agree {name : String} (hname : Listing.IsName name) (operand : Option Word)
    {capacity : Nat} (hcap : capacity ≤ maxCapacity) (id : String) (programCounter : Nat)
    {pointer : Nat} (hpointer : pointer ≤ capacity + 1) :
    let record (stored : Option StoredOperand) :=
      Record.single id programCounter pointer capacity ⟨some name, stored⟩
    let tried := ((Computer.empty capacity).tryInsert name operand).final
    let loaded := (Listing.load (Listing.instructionLine name operand) capacity).final
    let fromNumber := (record (operand.map .number)).toComputer
    let fromText := (record (operand.map fun w => .text w.text)).toComputer
    (∃ i, Places i tried ∧ Places i loaded ∧ Places i fromNumber ∧ Places i fromText) ∨
      Refuses tried ∧ Refuses loaded ∧ Refuses fromNumber ∧ Refuses fromText := by
  intro record tried loaded fromNumber fromText
  have htried : Follows _ tried := Computer.follows_tryInsert capacity name operand
  have hloaded : Follows _ loaded := hname.follows_load capacity operand
  have hnumber : Follows _ fromNumber := Record.follows_toComputer rfl
    (SlotRecord.brings_number _ operand) id programCounter hcap hpointer
  have htext : Follows _ fromText := Record.follows_toComputer rfl
    (SlotRecord.brings_text _ operand) id programCounter hcap hpointer
  cases hdecode : Instruction.decode name operand with
  | ok i =>
    exact .inl ⟨i, htried.places i hdecode, hloaded.places i hdecode, hnumber.places i hdecode,
      htext.places i hdecode⟩
  | error fault =>
    exact .inr ⟨htried.refuses fault hdecode, hloaded.refuses fault hdecode,
      hnumber.refuses fault hdecode, htext.refuses fault hdecode⟩

/-- A print ignores its operand, whatever it is, and a letter that only looks like an `s` is
none. -/
theorem build_routes_agree_look_alike :
    let record (name : String) (stored : Option StoredOperand) :=
      Record.single "x" 7 3 2 ⟨some name, stored⟩
    let least : Word := -9223372036854775808
    (Listing.IsName "pRiNt" ∧
      Places .print ((Computer.empty 2).tryInsert "pRiNt" (some least)).final ∧
      Places .print (Listing.load "pRiNt -9223372036854775808" 2).final ∧
      Places .print (record "pRiNt" (some (.number least))).toComputer ∧
      Places .print (record "pRiNt" (some (.text "-9223372036854775808"))).toComputer) ∧
    Listing.IsName "ſtop" ∧ Refuses ((Computer.empty 2).tryInsert "ſtop" none).final ∧
      Refuses (Listing.load "ſtop" 2).final ∧ Refuses (record "ſtop" none).toComputer := by
  intro record least
  have hprint : Listing.IsName "pRiNt" := by decide
  have hstop : Listing.IsName "ſtop" := by decide
  have haccepts : ((Computer.empty 2).tryInsert "pRiNt" (some least)).final.map
      (·.program.entries) = .ok [(0, .print)] := by
    decide +kernel
  have hrefuses : ((Computer.empty 2).tryInsert "ſtop" none).final =
      .error (.unknownInstruction "ſtop") := by
    decide +kernel
  have hleast : least.text = "-9223372036854775808" := by decide +kernel
  have hline : Listing.instructionLine "pRiNt" (some least) = "pRiNt -9223372036854775808" := by
    rw [Listing.instructionLine, hleast]
    rfl
  constructor
  · refine ⟨hprint, ?_⟩
    rcases build_routes_agree hprint (some least) (show 2 ≤ maxCapacity by decide) "x" 7
      (show 3 ≤ 2 + 1 by decide) with ⟨i, htried, hloaded, hnumber, htext⟩ | ⟨⟨fault, hfault⟩, -⟩
    · obtain rfl : i = .print := by
        obtain ⟨c, hc, hentries⟩ := htried
        rw [hc, Except.map, hentries] at haccepts
        simpa using haccepts
      rw [hline] at hloaded
      rw [Option.map_some, hleast] at htext
      exact ⟨htried, hloaded, hnumber, htext⟩
    · rw [hfault] at haccepts
      cases haccepts
  · refine ⟨hstop, ?_⟩
    rcases build_routes_agree hstop none (show 2 ≤ maxCapacity by decide) "x" 7
      (show 3 ≤ 2 + 1 by decide) with ⟨i, ⟨c, hc, -⟩, -⟩ | hothers
    · rw [hrefuses] at hc
      cases hc
    · exact ⟨hothers.1, hothers.2.1, hothers.2.2.1⟩

end StackComputer
