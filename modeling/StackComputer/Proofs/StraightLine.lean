import StackComputer.Proofs.Slots
import StackComputer.Proofs.Steps

/-! # Programs without calls and returns

Such a program runs upwards from where it starts, passes over its empty slots and comes to an end.
What it puts out depends on the order of its entries only: it is what they put out when they are
taken one after the other from an empty stack, up to the first stop.
-/

namespace StackComputer

structure Values where
  /-- From the top down. -/
  stack : List Word := []
  /-- Oldest value first. -/
  output : List Word := []
  deriving DecidableEq, Repr

namespace Values

def apply (v : Values) : Instruction → Except Fault Values
  | .push value => .ok { v with stack := value :: v.stack }
  | .print =>
    match v.stack with
    | value :: rest => .ok { stack := rest, output := v.output ++ [value] }
    | [] => .error .stackUnderflow
  | .mult =>
    match v.stack with
    | lhs :: rhs :: rest =>
      match Word.mul? lhs rhs with
      | some product => .ok { v with stack := product :: rest }
      | none => .error (.overflow lhs rhs)
    | _ => .error .stackUnderflow
  | .call _ | .ret | .stop => .ok v

/-- The output of instructions that are taken in order, up to the first stop. -/
def outputOf (v : Values) (is : List Instruction) : Except Fault (List Word) :=
  ((is.takeWhile (· ≠ .stop)).foldlM apply v).map (·.output)

theorem outputOf_nil (v : Values) : v.outputOf [] = .ok v.output := rfl

theorem outputOf_stop (v : Values) (is : List Instruction) :
    v.outputOf (.stop :: is) = .ok v.output := rfl

theorem outputOf_cons (v : Values) {i : Instruction} (hi : i ≠ .stop) (is : List Instruction) :
    v.outputOf (i :: is) = (v.apply i).bind fun w => w.outputOf is := by
  have htake : (i :: is).takeWhile (· ≠ .stop) = i :: is.takeWhile (· ≠ .stop) :=
    List.takeWhile_cons_of_pos (by simpa using hi)
  rw [outputOf, htake, List.foldlM_cons]
  cases v.apply i <;> rfl

end Values

namespace Program

def StraightLine (p : Program) : Prop :=
  ∀ e ∈ p.entries, e.2.opcode ≠ .call ∧ e.2.opcode ≠ .ret

def instructionsFrom (p : Program) (address : Nat) : List Instruction :=
  (p.entries.filter fun e => address ≤ e.1).map Prod.snd

theorem instructionsFrom_past {p : Program} (hp : p.WellFormed) {address : Nat}
    (h : p.capacity < address) : p.instructionsFrom address = [] := by
  rw [instructionsFrom, List.map_eq_nil_iff, List.filter_eq_nil_iff]
  intro e he
  have hle := hp.address_le (mem_entries.mp he)
  simp only [decide_eq_true_eq]
  omega

theorem instructionsFrom_empty {p : Program} {address : Nat} (h : p.get? address = none) :
    p.instructionsFrom address = p.instructionsFrom (address + 1) := by
  rw [instructionsFrom, instructionsFrom]
  congr 1
  apply List.filter_congr
  intro e he
  have hne : e.1 ≠ address := by
    rintro rfl
    rw [mem_entries.mp he] at h
    cases h
  simp only [decide_eq_decide]
  omega

theorem instructionsFrom_filled {p : Program} {address : Nat} {i : Instruction}
    (h : p.get? address = some i) :
    p.instructionsFrom address = i :: p.instructionsFrom (address + 1) := by
  have hentries : p.entries.filter (fun e => address ≤ e.1) =
      (address, i) :: p.entries.filter (fun e => address + 1 ≤ e.1) := by
    apply eq_of_ascending (p.entries_ascending.filter _)
    · refine .cons ?_ (p.entries_ascending.filter _)
      intro e he
      exact of_decide_eq_true (List.mem_filter.mp he).2
    · rintro ⟨a, j⟩
      simp only [List.mem_filter, List.mem_cons, mem_entries, decide_eq_true_eq]
      constructor
      · rintro ⟨hj, hle⟩
        rcases Nat.eq_or_lt_of_le hle with rfl | hlt
        · left
          rw [Option.some.inj (h.symm.trans hj)]
        · exact .inr ⟨hj, hlt⟩
      · rintro (heq | ⟨hj, hlt⟩)
        · cases heq
          exact ⟨h, Nat.le_refl _⟩
        · exact ⟨hj, Nat.le_of_lt hlt⟩
  rw [instructionsFrom, hentries, List.map_cons, instructionsFrom]

end Program

namespace Machine

variable {p : Program} {m : Machine}

def values (m : Machine) : Values := ⟨m.stack.values, m.output.toList⟩

/-- An instruction that does not jump goes on to the next address with the values that it leaves, or
fails as it does on the values. -/
theorem perform_straight (hm : m.status = .running) (capacity : Nat) {i : Instruction}
    (hcall : i.opcode ≠ .call) (hret : i.opcode ≠ .ret) (hstop : i ≠ .stop) :
    (∃ fault, m.values.apply i = .error fault ∧
      (m.perform capacity i).status = .failed fault) ∨
    (m.values.apply i = .ok (m.perform capacity i).values ∧
      (m.perform capacity i).status = .running ∧
      (m.perform capacity i).registers.programCounter = m.registers.programCounter + 1) := by
  have hp := m.performs_perform capacity i
  generalize m.perform capacity i = m' at hp
  cases hp with
  | push value => exact .inr ⟨rfl, hm, rfl⟩
  | print hs => exact .inr ⟨by simp [values, Values.apply, hs, advance], hm, rfl⟩
  | printUnderflow hs => exact .inl ⟨_, by simp [values, Values.apply, hs], rfl⟩
  | mult hs hw => exact .inr ⟨by simp [values, Values.apply, hs, hw, advance], hm, rfl⟩
  | multOverflow hs hw => exact .inl ⟨_, by simp [values, Values.apply, hs, hw], rfl⟩
  | multUnderflow hs =>
    refine .inl ⟨_, ?_, rfl⟩
    rcases hv : m.stack.values with _ | ⟨lhs, _ | ⟨rhs, rest⟩⟩
    · simp [values, Values.apply, hv]
    · simp [values, Values.apply, hv]
    · simp only [hv, List.length_cons] at hs
      omega
  | call ht => exact absurd rfl hcall
  | callUnknown ht => exact absurd rfl hcall
  | ret => exact absurd rfl hret
  | stop => exact absurd rfl hstop

/-- Every step goes up by one address, so the slots that are left bound the run. -/
theorem result_straight (hp : p.WellFormed) (hs : p.StraightLine) (hm : m.status = .running)
    {n : Nat} (hn : p.capacity + 1 - m.registers.programCounter < n) :
    (m.after p n).status.result? =
      some (m.values.outputOf (p.instructionsFrom m.registers.programCounter)) := by
  induction n generalizing m with
  | zero => omega
  | succ n ih =>
    rw [after]
    rcases Nat.lt_or_ge p.capacity m.registers.programCounter with hlt | hle
    · rw [step_past hm hlt, after_of_not_running rfl, Program.instructionsFrom_past hp hlt,
        Values.outputOf_nil]
      rfl
    · cases hslot : p.get? m.registers.programCounter with
      | none =>
        rw [step_empty hm hle hslot, Program.instructionsFrom_empty hslot]
        have hleft : p.capacity + 1 - (m.registers.programCounter + 1) < n := by omega
        exact ih (m := m.advance) hm hleft
      | some i =>
        rw [step_filled hm hle hslot, Program.instructionsFrom_filled hslot]
        obtain ⟨hcall, hret⟩ := hs _ (Program.mem_entries.mpr hslot)
        by_cases hstop : i = .stop
        · subst i
          rw [perform, after_of_not_running rfl, Values.outputOf_stop]
          rfl
        · rw [Values.outputOf_cons _ hstop]
          rcases perform_straight hm p.capacity hcall hret hstop with
            ⟨fault, hfault, hstatus⟩ | ⟨hvalues, hstatus, hpc⟩
          · rw [hfault, after_of_not_running (isRunning_eq_false_iff.mpr (by simp [hstatus])),
              hstatus]
            rfl
          · rw [hvalues, ih hstatus (by omega), hpc]
            rfl

end Machine

/-- A program without calls and returns runs to its end from any address and with any gaps between
its entries. What the run comes to is what the entries from that address on put out, or the first
fault among them, when they are taken in order from an empty stack up to the first stop. -/
theorem straight_line_run_is_fold {c : Computer} (hc : c.program.WellFormed)
    (hs : c.program.StraightLine) {fuel : Nat}
    (hfuel : c.capacity + 1 - c.registers.programCounter < fuel) :
    let entries := c.snapshot.entries.filter fun e => c.registers.programCounter ≤ e.1
    ∃ o, c.execute fuel = some o ∧
      o.result = ((((entries.map Prod.snd).takeWhile (· ≠ .stop)).foldlM Values.apply {}).map
        (·.output)) :=
  Computer.execute_of_result? (Machine.result_straight hc hs rfl hfuel) (Nat.le_refl fuel)

/-- An entry before the start is not performed and none after the stop; the start may be on a gap or
past all slots, and a start in the middle finds the stack empty. -/
theorem straight_line_run_is_fold_with_gaps :
    let slots := #[some .print, none, some (.push 2), some (.push 3), none, some .mult, some .print,
      some .stop, some .mult]
    let starting := fun pc : Nat => ({
      program := { slots, capacity := 8, pointer := 0 }
      registers := { programCounter := pc, returnRegister := 0 } } : Computer)
    (∀ pc, (starting pc).program.WellFormed ∧ (starting pc).program.StraightLine) ∧
    (∃ o, (starting 1).execute 9 = some o ∧ o.result = .ok [6]) ∧
    (∃ o, (starting 3).execute 7 = some o ∧ o.result = .error .stackUnderflow) ∧
    ∃ o, (starting 40).execute 1 = some o ∧ o.result = .ok [] := by
  intro slots starting
  have hwf : ∀ pc, (starting pc).program.WellFormed := fun pc => ⟨rfl, Nat.zero_le _⟩
  have hs : ∀ pc, (starting pc).program.StraightLine := by
    intro pc
    change ∀ e ∈ ({ slots, capacity := 8, pointer := 0 } : Program).entries, _
    decide
  refine ⟨fun pc => ⟨hwf pc, hs pc⟩, ?_, ?_, ?_⟩
  · exact straight_line_run_is_fold (hwf 1) (hs 1) (show 8 + 1 - 1 < 9 by decide)
  · exact straight_line_run_is_fold (hwf 3) (hs 3) (show 8 + 1 - 3 < 7 by decide)
  · exact straight_line_run_is_fold (hwf 40) (hs 40) (show 8 + 1 - 40 < 1 by decide)

end StackComputer
