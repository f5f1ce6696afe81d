import StackComputer.Computer
import StackComputer.Proofs.Slots
import StackComputer.Proofs.Steps

/-! # More room

A listing that loads into a computer loads into any larger one, with the same entries. The larger
computer then runs as the smaller one does, up to a call of an address that the smaller one does not
have: where the smaller one runs off its last address, the larger one still has empty slots to pass
before it does the same.
-/

namespace StackComputer

/-- The second program has the slots of the first and perhaps more, which are empty. -/
structure Program.GrowsTo (p q : Program) : Prop where
  wellFormed : p.WellFormed
  wellFormed' : q.WellFormed
  capacity_le : p.capacity ≤ q.capacity
  pointer : q.pointer = p.pointer
  slots : ∀ a, q.get? a = p.get? a

namespace Program.GrowsTo

variable {p q p' : Program}

theorem empty {small large : Nat} (h : small ≤ large) :
    (Program.empty small).GrowsTo (.empty large) := by
  refine ⟨wellFormed_empty small, wellFormed_empty large, h, rfl, ?_⟩
  intro a
  rw [get?_empty, get?_empty]

theorem get?_eq_none (h : p.GrowsTo q) {a : Nat} (ha : p.capacity < a) : q.get? a = none := by
  rw [h.slots]
  exact h.wellFormed.get?_eq_none ha

theorem entries (h : p.GrowsTo q) : q.entries = p.entries := by
  apply eq_of_ascending q.entries_ascending p.entries_ascending
  intro e
  rw [mem_entries, mem_entries, h.slots]

theorem setPointer (h : p.GrowsTo q) {address : Nat} (hp : p.setPointer address = .ok p') :
    ∃ q', q.setPointer address = .ok q' ∧ p'.GrowsTo q' := by
  have hwf := h.wellFormed.of_setPointer hp
  obtain ⟨hle, rfl⟩ := setPointer_eq_ok_iff.mp hp
  have hq := setPointer_eq_ok_iff.mpr ⟨Nat.le_trans hle h.capacity_le, rfl⟩
  exact ⟨_, hq, hwf, h.wellFormed'.of_setPointer hq, h.capacity_le, rfl, h.slots⟩

theorem insert (h : p.GrowsTo q) {i : Instruction} (hp : p.insert i = .ok p') :
    ∃ q', q.insert i = .ok q' ∧ p'.GrowsTo q' := by
  obtain ⟨hle, hp'⟩ := insert_eq_ok_iff.mp hp
  have hle' : q.pointer ≤ q.capacity := by
    rw [h.pointer]
    exact Nat.le_trans hle h.capacity_le
  have hq := insert_eq_ok_iff (i := i).mpr ⟨hle', rfl⟩
  refine ⟨_, hq, h.wellFormed.of_insert hp, h.wellFormed'.of_insert hq, ?_, ?_, ?_⟩
  · rw [hp']
    exact h.capacity_le
  · rw [hp']
    exact congrArg (· + 1) h.pointer
  · intro a
    rw [get?_of_insert h.wellFormed'.size_slots hq, get?_of_insert h.wellFormed.size_slots hp,
      h.pointer, h.slots]

end Program.GrowsTo

structure Computer.GrowsTo (c d : Computer) : Prop where
  program : c.program.GrowsTo d.program
  registers : d.registers = c.registers

namespace Computer.GrowsTo

variable {c d : Computer}

theorem setAddress (h : c.GrowsTo d) {address : Nat}
    (hc : (c.setAddress address).result = .ok ()) :
    (d.setAddress address).result = .ok () ∧
      (c.setAddress address).state.GrowsTo (d.setAddress address).state := by
  cases hp : c.program.setPointer address with
  | error fault => simp [Computer.setAddress, hp, Outcome.fail] at hc
  | ok p =>
    obtain ⟨q, hq, hgrows⟩ := h.program.setPointer hp
    simp only [Computer.setAddress, hp, hq]
    exact ⟨rfl, hgrows, h.registers⟩

theorem insertInstruction (h : c.GrowsTo d) {i : Instruction}
    (hc : (c.insertInstruction i).result = .ok ()) :
    (d.insertInstruction i).result = .ok () ∧
      (c.insertInstruction i).state.GrowsTo (d.insertInstruction i).state := by
  cases hp : c.program.insert i with
  | error fault => simp [Computer.insertInstruction, hp, Outcome.fail] at hc
  | ok p =>
    obtain ⟨q, hq, hgrows⟩ := h.program.insert hp
    simp only [Computer.insertInstruction, hp, hq]
    exact ⟨rfl, hgrows, h.registers⟩

theorem apply (h : c.GrowsTo d) {line : Listing.Line} (hc : (line.apply c).result = .ok ()) :
    (line.apply d).result = .ok () ∧ (line.apply c).state.GrowsTo (line.apply d).state := by
  cases line with
  | empty => exact ⟨rfl, h⟩
  | directive address => exact h.setAddress hc
  | instruction i => exact h.insertInstruction hc

theorem loadLine (h : c.GrowsTo d) {number : Nat} {raw : List Char}
    (hc : (Listing.loadLine c number raw).result = .ok ()) :
    (Listing.loadLine d number raw).result = .ok () ∧
      (Listing.loadLine c number raw).state.GrowsTo (Listing.loadLine d number raw).state := by
  cases hline : Listing.readLine raw with
  | error fault => simp [Listing.loadLine, hline, Outcome.fail] at hc
  | ok line =>
    simp only [Listing.loadLine, hline] at hc ⊢
    rw [Outcome.mapFault_eq_ok_iff] at hc ⊢
    exact h.apply hc

theorem loadLines (h : c.GrowsTo d) {number : Nat} {raws : List (List Char)}
    (hc : (Listing.loadLines c number raws).result = .ok ()) :
    (Listing.loadLines d number raws).result = .ok () ∧
      (Listing.loadLines c number raws).state.GrowsTo
        (Listing.loadLines d number raws).state := by
  induction raws generalizing c d number with
  | nil => exact h.setAddress hc
  | cons raw raws ih =>
    cases hline : (Listing.loadLine c number raw).result with
    | error fault =>
      rw [Listing.loadLines, Outcome.andThen_of_error hline] at hc
      cases hc
    | ok _ =>
      obtain ⟨hline', hgrows⟩ := h.loadLine hline
      have hcons := Outcome.andThen_of_ok hline fun _ c => Listing.loadLines c (number + 1) raws
      have hcons' := Outcome.andThen_of_ok hline' fun _ d => Listing.loadLines d (number + 1) raws
      rw [Listing.loadLines, hcons] at hc
      simp only [Listing.loadLines, hcons, hcons']
      exact ih hgrows hc

end Computer.GrowsTo

namespace Machine

variable {p q : Program} {m : Machine}

theorem perform_of_le {small large : Nat} (hle : small ≤ large) {i : Instruction}
    (h : ∀ target, (m.perform small i).status ≠ .failed (.unknownAddress target small)) :
    m.perform large i = m.perform small i := by
  cases i with
  | call target =>
    by_cases ht : 0 ≤ target.toInt ∧ target.toInt ≤ small
    · have ht' : 0 ≤ target.toInt ∧ target.toInt ≤ large := by omega
      rw [perform, if_pos ht', perform, if_pos ht]
    · have hunknown := h target
      rw [perform, if_neg ht] at hunknown
      exact absurd rfl hunknown
  | push value => rfl
  | print => rfl
  | mult => rfl
  | ret => rfl
  | stop => rfl

theorem halts_past_empty_slots (hm : m.status = .running)
    (hempty : ∀ a, m.registers.programCounter ≤ a → q.get? a = none) :
    ∃ k, (m.after q k).status = .halted m.output.toList := by
  induction hleft : q.capacity + 1 - m.registers.programCounter generalizing m with
  | zero =>
    have hlt : q.capacity < m.registers.programCounter := by omega
    exact ⟨1, by rw [after_succ, after, step_past hm hlt, status_halt]⟩
  | succ left ih =>
    have hle : m.registers.programCounter ≤ q.capacity := by omega
    have hstep := step_empty hm hle (hempty _ (Nat.le_refl _))
    obtain ⟨k, hk⟩ := ih (m := m.advance) hm (fun a ha => hempty a (Nat.le_of_succ_le ha))
      (show q.capacity + 1 - (m.registers.programCounter + 1) = left by omega)
    exact ⟨k + 1, by rw [after, hstep]; exact hk⟩

/-- The larger program needs more steps than the smaller one at the end of a run only, after the
last address of the smaller one. -/
theorem ends_as_smaller (h : p.GrowsTo q) {n : Nat} (hended : (m.after p n).status ≠ .running)
    (hknown : ∀ target capacity,
      (m.after p n).status ≠ .failed (.unknownAddress target capacity)) :
    ∃ k, (m.after q k).status = (m.after p n).status := by
  induction n generalizing m with
  | zero => exact ⟨0, rfl⟩
  | succ n ih =>
    by_cases hm : m.status = .running
    · rcases Nat.lt_or_ge p.capacity m.registers.programCounter with hlt | hle
      · have hhalt : m.after p (n + 1) = m.halt := by
          rw [after, step_past hm hlt]
          exact after_of_not_running rfl n
        rw [hhalt]
        apply halts_past_empty_slots hm
        intro a ha
        exact h.get?_eq_none (Nat.lt_of_lt_of_le hlt ha)
      · have hstep : m.step q = m.step p := by
          have hle' := Nat.le_trans hle h.capacity_le
          cases hs : p.get? m.registers.programCounter with
          | none => rw [step_empty hm hle hs, step_empty hm hle' (by rw [h.slots, hs])]
          | some i =>
            rw [step_filled hm hle hs, step_filled hm hle' (by rw [h.slots, hs])]
            apply perform_of_le h.capacity_le
            -- a machine that fails here has failed in the same way at the end
            intro target hfailed
            apply hknown target p.capacity
            have hstopped : ((m.perform p.capacity i).after p 0).status ≠ .running := by
              simp [after, hfailed]
            rw [after, step_filled hm hle hs, after_of_le (Nat.zero_le n) hstopped]
            exact hfailed
        obtain ⟨k, hk⟩ := ih (m := m.step p) hended hknown
        exact ⟨k + 1, by rw [after, hstep, hk]; rfl⟩
    · refine ⟨0, ?_⟩
      rw [after_of_le (Nat.zero_le (n + 1)) hm]
      rfl

end Machine

/-- What loads loads into more room as well. If the run of the smaller computer ends without calling
an address that it does not have, the run of the larger one ends with the same result. -/
theorem larger_computer_runs_alike {source : String} {small large : Nat} (hle : small ≤ large)
    (hload : (Listing.load source small).result = .ok ()) :
    let c := (Listing.load source small).state
    let d := (Listing.load source large).state
    (Listing.load source large).result = .ok () ∧ d.program.entries = c.program.entries ∧
    ∀ fuel o, c.execute fuel = some o →
      (∀ target capacity, o.result ≠ .error (.unknownAddress target capacity)) →
      ∃ enough, ∀ fuel' ≥ enough, ∃ o', d.execute fuel' = some o' ∧ o'.result = o.result := by
  intro c d
  have hempty : (Computer.empty small).GrowsTo (.empty large) :=
    ⟨Program.GrowsTo.empty hle, rfl⟩
  obtain ⟨hload', hgrows⟩ : _ ∧ c.GrowsTo d := hempty.loadLines hload
  refine ⟨hload', hgrows.program.entries, ?_⟩
  intro fuel o ho hknown
  have hresult := c.result_execute fuel
  rw [ho, Option.map_some] at hresult
  have hended := Status.ne_running_of_result? hresult.symm
  have hknown' : ∀ target capacity, ((Machine.start c.registers).after c.program fuel).status ≠
      .failed (.unknownAddress target capacity) := by
    intro target capacity hfailed
    rw [hfailed] at hresult
    exact hknown target capacity (Option.some.inj hresult)
  obtain ⟨k, hk⟩ := Machine.ends_as_smaller hgrows.program hended hknown'
  refine ⟨k, ?_⟩
  intro fuel' hfuel
  apply Computer.execute_of_result? _ hfuel
  rw [hresult, ← hk]
  exact congrArg (fun r => ((Machine.start r).after d.program k).status.result?) hgrows.registers

/-- The smaller computer halts behind its last slot; the larger one has empty slots there. -/
theorem larger_computer_runs_alike_past_end :
    let source := "PUSH 2\nPUSH 3\nCALL 5\n@5\nMULT\nPRINT"
    let c := (Listing.load source 6).state
    let d := (Listing.load source 40).state
    ((Listing.load source 6).result = .ok () ∧ (c.execute 6).map (·.result) = some (.ok [6]) ∧
      d.execute 6 = none) ∧
    (Listing.load source 40).result = .ok () ∧ d.program.entries = c.program.entries ∧
    ∃ enough, ∀ fuel ≥ enough, ∃ o, d.execute fuel = some o ∧ o.result = .ok [6] := by
  intro source c d
  have hload : (Listing.load source 6).result = .ok () := by decide +kernel
  have hrun : (c.execute 6).map (·.result) = some (.ok [6]) := by decide +kernel
  have hunfinished : (d.execute 6).map (·.result) = none := by decide +kernel
  obtain ⟨hload', hentries, hruns⟩ := larger_computer_runs_alike (show 6 ≤ 40 by decide) hload
  obtain ⟨o, ho, hresult⟩ := Option.map_eq_some_iff.mp hrun
  obtain ⟨enough, hd⟩ := hruns 6 o ho (by simp [hresult])
  rw [hresult] at hd
  exact ⟨⟨hload, hrun, Option.map_eq_none_iff.mp hunfinished⟩, hload', hentries, enough, hd⟩

end StackComputer
