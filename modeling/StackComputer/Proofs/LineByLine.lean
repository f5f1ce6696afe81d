import StackComputer.Proofs.Grammar

/-! # Listings loaded line by line

A listing is loaded one line after the other, and loading ends at the first faulty line. So a fault
names the line that it was met on, what stands before that line has its full effect, and what stands
behind it does not matter. Two listings with a move to address 0 between them load like the first
listing and then the second.
-/

namespace StackComputer

namespace Computer

theorem setAddress_zero_result (c : Computer) : (c.setAddress 0).result = .ok () :=
  setAddress_ok_iff.mpr (Nat.zero_le _)

theorem setAddress_zero_state (c : Computer) :
    (c.setAddress 0).state = { c with program.pointer := 0 } :=
  setAddress_state (Nat.zero_le _)

end Computer

namespace Listing

variable {c : Computer} {number : Nat}

theorem Line.state_of_error {line : Line} {fault : Fault}
    (h : (line.apply c).result = .error fault) : (line.apply c).state = c := by
  cases line with
  | empty => rfl
  | directive address =>
    simp only [Line.apply, Computer.setAddress] at h ⊢
    split at h
    · cases h
    · rfl
  | instruction i =>
    simp only [Line.apply, Computer.insertInstruction] at h ⊢
    split at h
    · cases h
    · rfl

/-- A faulty line is named in the fault and leaves the computer alone. -/
theorem of_loadLine_eq_error {raw : List Char} {fault : Fault}
    (h : (loadLine c number raw).result = .error fault) :
    (∃ cause, fault = .onLine number cause) ∧ (loadLine c number raw).state = c := by
  unfold loadLine at h ⊢
  split at h
  · rename_i cause hread
    cases h
    exact ⟨⟨cause, rfl⟩, rfl⟩
  · rename_i line hread
    cases happly : (line.apply c).result with
    | error cause =>
      rw [Outcome.mapFault_eq_error happly] at h
      cases h
      exact ⟨⟨cause, rfl⟩, Line.state_of_error happly⟩
    | ok _ =>
      rw [Outcome.mapFault_eq_ok_iff.mpr happly] at h
      cases h

/-- Lines in front of a faulty one load, and every load that meets the faulty line behind them comes
to the same outcome. That outcome has their work in it, and names the faulty line. -/
structure StopsAt (c : Computer) (number : Nat) (front : List (List Char)) (raw : List Char)
    (o : Outcome Computer Fault Unit) : Prop where
  fault : ∃ cause, o.result = .error (.onLine (number + front.length) cause)
  loads : (loadLines c number front).result = .ok ()
  state : (loadLines c number front).state = { o.state with program.pointer := 0 }
  outcome : ∀ rest, loadLines c number (front ++ raw :: rest) = o

theorem stopsAt_first {raw : List Char} {fault : Fault}
    (h : (loadLine c number raw).result = .error fault) :
    StopsAt c number [] raw (.fail fault c (loadLine c number raw).events) := by
  obtain ⟨⟨cause, rfl⟩, hstate⟩ := of_loadLine_eq_error h
  refine ⟨⟨cause, rfl⟩, c.setAddress_zero_result, c.setAddress_zero_state, ?_⟩
  intro rest
  rw [List.nil_append, loadLines, Outcome.andThen_of_error h, hstate]

theorem StopsAt.cons {first raw : List Char} {front : List (List Char)}
    {o : Outcome Computer Fault Unit} (hfirst : (loadLine c number first).result = .ok ())
    (h : StopsAt (loadLine c number first).state (number + 1) front raw o) :
    StopsAt c number (first :: front) raw
      { o with events := (loadLine c number first).events ++ o.events } := by
  obtain ⟨cause, hfault⟩ := h.fault
  -- The first line does the same whatever follows it.
  have hcons (raws : List (List Char)) := Outcome.andThen_of_ok hfirst
    fun _ d => loadLines d (number + 1) raws
  refine ⟨⟨cause, ?_⟩, ?_, ?_, ?_⟩
  · rw [hfault, List.length_cons, Nat.add_right_comm]
    rfl
  · rw [loadLines, hcons]
    exact h.loads
  · rw [loadLines, hcons]
    exact h.state
  · intro rest
    rw [List.cons_append, loadLines, hcons, h.outcome]

theorem exists_stopsAt {raws : List (List Char)} {fault : Fault}
    (h : (loadLines c number raws).result = .error fault) :
    ∃ front raw rest, raws = front ++ raw :: rest ∧
      StopsAt c number front raw (loadLines c number raws) := by
  induction raws generalizing c number with
  | nil =>
    rw [loadLines, Computer.setAddress_zero_result] at h
    cases h
  | cons raw raws ih =>
    cases hline : (loadLine c number raw).result with
    | error cause =>
      have hstops := stopsAt_first hline
      refine ⟨[], raw, raws, rfl, ?_⟩
      rwa [← hstops.outcome raws] at hstops
    | ok _ =>
      rw [loadLines, Outcome.andThen_of_ok hline] at h
      obtain ⟨front, bad, rest, rfl, hstops⟩ := ih h
      refine ⟨raw :: front, bad, rest, rfl, ?_⟩
      rw [loadLines, Outcome.andThen_of_ok hline]
      exact hstops.cons hline

end Listing

/-- A load that fails names a line of the listing. The lines before that line load, and do to the
computer what the failed load did, but for the write pointer. Every listing with the same lines up
to the named one fails in the same way. -/
theorem load_stops_at_first_faulty_line {c : Computer} {source : String} {fault : Fault}
    (h : (Listing.loadInto c source).result = .error fault) :
    let raws := Text.lines source.toList
    let o := Listing.loadInto c source
    ∃ n cause, fault = .onLine n cause ∧ 1 ≤ n ∧ n ≤ raws.length ∧
      (∃ front rest : String, source = front ++ rest ∧
        Text.lines front.toList = raws.take (n - 1)) ∧
      (∀ front : String, Text.lines front.toList = raws.take (n - 1) →
        (Listing.loadInto c front).result = .ok () ∧
        (Listing.loadInto c front).state = { o.state with program.pointer := 0 }) ∧
      ∀ other : String, (Text.lines other.toList).take n = raws.take n →
        Listing.loadInto c other = o := by
  intro raws o
  obtain ⟨front, raw, rest, hlines, hstops⟩ := Listing.exists_stopsAt h
  obtain ⟨cause, hfault⟩ := hstops.fault
  have hraws : raws = front ++ raw :: rest := hlines
  have hbefore : raws.take front.length = front := by
    rw [hraws, List.take_left]
  have hupto : raws.take (1 + front.length) = front ++ [raw] := by
    rw [hraws, Nat.add_comm, List.take_length_add_append]
    rfl
  refine ⟨1 + front.length, cause, ?_, Nat.le_add_right _ _, ?_, ?_, ?_, ?_⟩
  · exact Except.error.inj (h.symm.trans hfault)
  · rw [hraws, List.length_append, List.length_cons]
    omega
  · obtain ⟨text, back, hsource, htext⟩ := Text.exists_front_lines front.length source.toList
    refine ⟨.ofList text, .ofList back, ?_, ?_⟩
    · rw [← String.ofList_append, ← hsource, String.ofList_toList]
    · rw [String.toList_ofList, Nat.add_sub_cancel_left]
      exact htext
  · intro text htext
    rw [Nat.add_sub_cancel_left, hbefore] at htext
    rw [Listing.loadInto, htext]
    exact ⟨hstops.loads, hstops.state⟩
  · intro other hother
    have hsame : Text.lines other.toList =
        front ++ raw :: (Text.lines other.toList).drop (1 + front.length) := by
      calc Text.lines other.toList
        _ = (Text.lines other.toList).take (1 + front.length) ++
            (Text.lines other.toList).drop (1 + front.length) :=
          (List.take_append_drop _ _).symm
        _ = front ++ raw :: (Text.lines other.toList).drop (1 + front.length) := by
          rw [hother, hupto, List.append_assoc]
          rfl
    rw [Listing.loadInto, hsame]
    exact hstops.outcome _

theorem load_stops_at_first_faulty_line_out_of_range :
    let source := "@4 # four\r\nSTOP\n\n@7\nJUMP"
    let c := Computer.empty 5
    let o := Listing.loadInto c source
    o.result = .error (.onLine 4 (.invalidAddress 7 5)) ∧
    (Listing.loadInto c "@4 # four\nSTOP\n\n").result = .ok () ∧
    (Listing.loadInto c "@4 # four\nSTOP\n\n").state = { o.state with program.pointer := 0 } ∧
    o.state.program.pointer = 5 ∧
    Listing.loadInto c "@4 # four\nSTOP\r\n\n@7\r\nPUSH 3" = o := by
  intro source c o
  have h : o.result = .error (.onLine 4 (.invalidAddress 7 5)) := by decide +kernel
  obtain ⟨n, cause, hfault, -, -, -, hfront, hother⟩ := load_stops_at_first_faulty_line h
  cases hfault
  -- Line endings do not count as part of a line, so they may differ in what is compared.
  obtain ⟨hok, hstate⟩ := hfront "@4 # four\nSTOP\n\n" (by decide +kernel)
  exact ⟨h, hok, hstate, by decide +kernel, hother _ (by decide +kernel)⟩

def Fault.furtherDown (lines : Nat) : Fault → Fault
  | onLine line cause => onLine (line + lines) cause
  | fault => fault

namespace Listing

theorem loadLine_furtherDown (c : Computer) (number lines : Nat) (raw : List Char) :
    loadLine c (number + lines) raw =
      (loadLine c number raw).mapFault (Fault.furtherDown lines) := by
  unfold loadLine
  split
  · rfl
  · rw [Outcome.mapFault_mapFault]
    rfl

/-- Where the lines stand shows in the fault only. -/
theorem loadLines_furtherDown (c : Computer) (number lines : Nat) (raws : List (List Char)) :
    loadLines c (number + lines) raws =
      (loadLines c number raws).mapFault (Fault.furtherDown lines) := by
  induction raws generalizing c number with
  | nil => rw [loadLines, loadLines, Outcome.mapFault_of_ok c.setAddress_zero_result]
  | cons raw raws ih =>
    rw [loadLines, loadLines, Outcome.mapFault_andThen, loadLine_furtherDown]
    congr 1
    funext _ d
    rw [Nat.add_right_comm, ih]

/-- A carriage return at the end of a line is a blank or in its comment. -/
theorem HasCode.append_return {raw text : List Char} (h : HasCode raw text) :
    HasCode (raw ++ ['\r']) text := by
  obtain ⟨kept, comment, rfl, hkept, hcomment, htight, lead, tail, rfl, hlead, htail⟩ := h
  cases comment with
  | nil =>
    refine ⟨lead ++ text ++ (tail ++ ['\r']), [], by simp, ?_, nofun, htight, lead, tail ++ ['\r'],
      rfl, hlead, ?_⟩
    · rw [← List.append_assoc, List.mem_append]
      exact fun hmem => hmem.elim hkept (by decide)
    · intro d hd
      rcases List.mem_append.mp hd with hd | hd
      · exact htail d hd
      · rw [List.mem_singleton.mp hd]
        decide
  | cons mark comment =>
    exact ⟨lead ++ text ++ tail, mark :: comment ++ ['\r'], by simp, hkept, hcomment, htight, lead,
      tail, rfl, hlead, htail⟩

theorem loadLine_dropReturn (c : Computer) (number : Nat) (raw : List Char) :
    loadLine c number (Text.dropReturn raw) = loadLine c number raw := by
  have hcode : code (Text.dropReturn raw) = code raw := by
    unfold Text.dropReturn
    split
    · rename_i hlast
      obtain ⟨front, rfl⟩ := List.getLast?_eq_some_iff.mp hlast
      rw [List.dropLast_concat]
      exact (code_eq_iff.mpr (code_eq_iff.mp rfl).append_return).symm
    · rfl
  rw [loadLine, readLine, hcode]
  rfl

/-- The pieces of a text load like its lines, whether or not the text ends with a line feed. -/
theorem loadLines_endLines (c : Computer) (number : Nat) (pieces : List (List Char)) :
    loadLines c number (pieces.map Text.dropReturn) =
      loadLines c number (Text.endLines pieces) := by
  fun_induction Text.endLines pieces generalizing c number with
  | case1 => rfl
  | case2 last hempty =>
    obtain rfl := List.isEmpty_iff.mp hempty
    rfl
  | case3 last _ => rw [List.map_cons, loadLines, loadLines, loadLine_dropReturn, List.map_nil]
  | case4 piece next rest ih =>
    rw [List.map_cons, loadLines, loadLines]
    congr 1
    funext _ d
    exact ih d (number + 1)

theorem loadLines_append_zero (c : Computer) (number : Nat) (front rest : List (List Char)) :
    loadLines c number (front ++ ['@', '0'] :: rest) =
      (loadLines c number front).andThen
        fun _ d => loadLines d (number + front.length + 1) rest := by
  induction front generalizing c number with
  | nil =>
    have hzero : loadLine c number ['@', '0'] = c.setAddress 0 := by
      have hread : readLine ['@', '0'] = .ok (.directive 0) := by decide
      rw [loadLine, hread]
      exact Outcome.mapFault_of_ok c.setAddress_zero_result _
    rw [List.nil_append, loadLines.eq_2, hzero]
    rfl
  | cons raw front ih =>
    rw [List.cons_append, loadLines, loadLines, Outcome.andThen_assoc]
    congr 1
    funext _ d
    rw [ih, List.length_cons, Nat.add_right_comm number, Nat.add_assoc number]

end Listing

/-- Two listings with a move to address 0 between them load like the one and then the other, and a
fault in the second one is that many lines further down. If the first one fails, the second one does
not matter. -/
theorem listings_load_one_after_the_other (c : Computer) (first second : String) :
    let o := Listing.loadInto c first
    let joined := Listing.loadInto c (first ++ "\n@0\n" ++ second)
    let lines := first.toList.count '\n' + 2
    joined = (o.andThen fun _ d =>
      (Listing.loadInto d second).mapFault (Fault.furtherDown lines)) ∧
    ∀ fault, o.result = .error fault → joined = o := by
  intro o joined lines
  let pieces := first.toList.splitOn '\n'
  have htext : (first ++ "\n@0\n" ++ second).toList =
      first.toList ++ '\n' :: (['@', '0'] ++ '\n' :: second.toList) := by
    simp
  have hlines : Text.lines (first ++ "\n@0\n" ++ second).toList =
      pieces.map Text.dropReturn ++ ['@', '0'] :: Text.lines second.toList := by
    rw [htext, Text.lines_append_feed, Text.lines_append (by decide)]
    rfl
  have hcount : 1 + (pieces.map Text.dropReturn).length + 1 = 1 + lines := by
    rw [List.length_map, Text.length_splitOn_feed]
    omega
  have hjoined : joined = (o.andThen fun _ d =>
      (Listing.loadInto d second).mapFault (Fault.furtherDown lines)) := by
    calc joined
      _ = Listing.loadLines c 1
            (pieces.map Text.dropReturn ++ ['@', '0'] :: Text.lines second.toList) := by
        rw [← hlines]
        rfl
      _ = (Listing.loadLines c 1 (pieces.map Text.dropReturn)).andThen fun _ d =>
            Listing.loadLines d (1 + lines) (Text.lines second.toList) := by
        rw [Listing.loadLines_append_zero, hcount]
      _ = o.andThen fun _ d =>
            (Listing.loadInto d second).mapFault (Fault.furtherDown lines) := by
        simp only [Listing.loadLines_endLines, Listing.loadLines_furtherDown]
        rfl
  refine ⟨hjoined, ?_⟩
  intro fault hfault
  rw [hjoined, Outcome.andThen_of_error hfault, Outcome.fail, ← hfault]

theorem listings_load_one_after_the_other_fault_below :
    let c := Computer.empty 3
    let first := "@2\nPUSH 1 # one\r"
    let second := "\n\tSTOP\nPRINT 5 6"
    let o := Listing.loadInto c first
    let joined := Listing.loadInto c (first ++ "\n@0\n" ++ second)
    (o.result = .ok () ∧
      (Listing.loadInto o.state second).result = .error (.onLine 3 (.extraToken "6"))) ∧
    joined.result = .error (.onLine 6 (.extraToken "6")) ∧
    joined.state = (Listing.loadInto o.state second).state ∧
    (Listing.loadInto c "@4").result = .error (.onLine 1 (.invalidAddress 4 3)) ∧
    Listing.loadInto c ("@4" ++ "\n@0\n" ++ second) = Listing.loadInto c "@4" := by
  intro c first second o joined
  have hfirst : o.result = .ok () := by decide +kernel
  have hsecond : (Listing.loadInto o.state second).result =
      .error (.onLine 3 (.extraToken "6")) := by
    decide +kernel
  have hfails : (Listing.loadInto c "@4").result = .error (.onLine 1 (.invalidAddress 4 3)) := by
    decide +kernel
  have hlines : first.toList.count '\n' = 1 := by decide +kernel
  obtain ⟨hjoined, -⟩ := listings_load_one_after_the_other c first second
  obtain ⟨-, halone⟩ := listings_load_one_after_the_other c "@4" second
  rw [Outcome.andThen_of_ok hfirst, hlines] at hjoined
  refine ⟨⟨hfirst, hsecond⟩, ?_, ?_, hfails, halone _ hfails⟩
  · rw [show joined = _ from hjoined, Outcome.mapFault, hsecond]
    rfl
  · rw [show joined = _ from hjoined]
    rfl

end StackComputer
