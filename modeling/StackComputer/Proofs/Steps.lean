import StackComputer.Computer

/-! # Steps and runs

What one step does at each kind of slot, and how the steps of a run add up. A machine that has ended
stays as it is, so the answer of a run does not depend on how many more steps are allowed. Of the
program a run reads the capacity and the slots only.
-/

namespace StackComputer

structure Program.SameCode (p q : Program) : Prop where
  capacity : q.capacity = p.capacity
  slots : ∀ a ≤ p.capacity, q.get? a = p.get? a

namespace Machine

variable {p : Program} {m : Machine}

theorem isRunning_iff : m.isRunning = true ↔ m.status = .running := by
  cases h : m.status <;> simp [isRunning, h]

theorem isRunning_eq_false_iff : m.isRunning = false ↔ m.status ≠ .running := by
  rw [← Bool.not_eq_true, isRunning_iff]

theorem step_of_ended (h : m.status ≠ .running) : m.step p = m :=
  step_of_not_running (isRunning_eq_false_iff.mpr h)

theorem step_past (hm : m.status = .running) (h : p.capacity < m.registers.programCounter) :
    m.step p = m.halt := by
  simp [step, hm, h]

theorem step_empty (hm : m.status = .running) (hle : m.registers.programCounter ≤ p.capacity)
    (h : p.get? m.registers.programCounter = none) : m.step p = m.advance := by
  simp [step, hm, Nat.not_lt.mpr hle, h]

theorem step_filled {i : Instruction} (hm : m.status = .running)
    (hle : m.registers.programCounter ≤ p.capacity)
    (h : p.get? m.registers.programCounter = some i) : m.step p = m.perform p.capacity i := by
  simp [step, hm, Nat.not_lt.mpr hle, h]

@[simp] theorem status_advance : m.advance.status = m.status := rfl

@[simp] theorem status_halt : m.halt.status = .halted m.output.toList := rfl

inductive Performs (m : Machine) (capacity : Nat) : Instruction → Machine → Prop where
  | push (value : Word) :
      Performs m capacity (.push value) { m with stack := m.stack.push value }.advance
  | print {value : Word} {rest : List Word} : m.stack.values = value :: rest →
      Performs m capacity .print { m with stack := ⟨rest⟩, output := m.output.push value }.advance
  | printUnderflow : m.stack.values = [] → Performs m capacity .print (m.fail .stackUnderflow)
  | mult {lhs rhs product : Word} {rest : List Word} : m.stack.values = lhs :: rhs :: rest →
      Word.mul? lhs rhs = some product →
      Performs m capacity .mult { m with stack := ⟨product :: rest⟩ }.advance
  | multOverflow {lhs rhs : Word} {rest : List Word} : m.stack.values = lhs :: rhs :: rest →
      Word.mul? lhs rhs = none →
      Performs m capacity .mult ({ m with stack := ⟨rest⟩ }.fail (.overflow lhs rhs))
  | multUnderflow : m.stack.values.length < 2 →
      Performs m capacity .mult ({ m with stack := ⟨[]⟩ }.fail .stackUnderflow)
  | call {target : Word} : 0 ≤ target.toInt ∧ target.toInt ≤ capacity →
      Performs m capacity (.call target) { m with registers := {
        programCounter := target.toInt.toNat
        returnRegister := m.registers.programCounter + 1 } }
  | callUnknown {target : Word} : ¬ (0 ≤ target.toInt ∧ target.toInt ≤ capacity) →
      Performs m capacity (.call target) (m.fail (.unknownAddress target capacity))
  | ret : Performs m capacity .ret
      { m with registers.programCounter := m.registers.returnRegister }
  | stop : Performs m capacity .stop m.halt

theorem performs_perform (m : Machine) (capacity : Nat) (i : Instruction) :
    m.Performs capacity i (m.perform capacity i) := by
  cases i with
  | push value => exact .push value
  | print =>
    rcases hs : m.stack.values with _ | ⟨value, rest⟩
    · simpa [perform, OperandStack.pop, hs] using Performs.printUnderflow hs
    · simpa [perform, OperandStack.pop, hs] using Performs.print hs
  | mult =>
    rcases hs : m.stack.values with _ | ⟨lhs, _ | ⟨rhs, rest⟩⟩
    · have h : m.Performs capacity .mult _ := .multUnderflow (by simp [hs])
      have hempty : ({ m with stack := ⟨[]⟩ } : Machine) = m := by
        rw [← hs]
      rw [hempty] at h
      simpa [perform, OperandStack.pop, hs] using h
    · simpa [perform, OperandStack.pop, hs] using Performs.multUnderflow (by simp [hs])
    · cases hp : Word.mul? lhs rhs with
      | none => simpa [perform, OperandStack.pop, hs, hp] using Performs.multOverflow hs hp
      | some product =>
        simpa [perform, OperandStack.pop, hs, hp, OperandStack.push] using Performs.mult hs hp
  | call target =>
    by_cases ht : 0 ≤ target.toInt ∧ target.toInt ≤ capacity
    · rw [perform, if_pos ht]
      exact .call ht
    · rw [perform, if_neg ht]
      exact .callUnknown ht
  | ret => exact .ret
  | stop => exact .stop

inductive Steps (m : Machine) (p : Program) : Machine → Prop where
  | ended : m.status ≠ .running → Steps m p m
  | past : m.status = .running → p.capacity < m.registers.programCounter → Steps m p m.halt
  | empty : m.status = .running → m.registers.programCounter ≤ p.capacity →
      p.get? m.registers.programCounter = none → Steps m p m.advance
  | filled {i : Instruction} : m.status = .running → m.registers.programCounter ≤ p.capacity →
      p.get? m.registers.programCounter = some i → Steps m p (m.perform p.capacity i)

theorem steps_step (p : Program) (m : Machine) : m.Steps p (m.step p) := by
  by_cases hm : m.status = .running
  · rcases Nat.lt_or_ge p.capacity m.registers.programCounter with hlt | hle
    · rw [step_past hm hlt]
      exact .past hm hlt
    · cases hs : p.get? m.registers.programCounter with
      | none =>
        rw [step_empty hm hle hs]
        exact .empty hm hle hs
      | some i =>
        rw [step_filled hm hle hs]
        exact .filled hm hle hs
  · rw [step_of_ended hm]
    exact .ended hm

theorem after_add (a b : Nat) (m : Machine) : m.after p (a + b) = (m.after p a).after p b := by
  induction a generalizing m with
  | zero => rw [Nat.zero_add, after]
  | succ a ih => rw [Nat.succ_add, after, ih, after]

theorem after_succ (n : Nat) (m : Machine) : m.after p (n + 1) = (m.after p n).step p :=
  after_add n 1 m

theorem after_induction {motive : Machine → Prop} (start : motive m)
    (step : ∀ m, motive m → motive (m.step p)) (n : Nat) : motive (m.after p n) := by
  induction n with
  | zero => exact start
  | succ n ih =>
    rw [after_succ]
    exact step _ ih

theorem after_of_le {a b : Nat} (hab : a ≤ b) (h : (m.after p a).status ≠ .running) :
    m.after p b = m.after p a := by
  obtain ⟨k, rfl⟩ := Nat.exists_eq_add_of_le hab
  rw [after_add, after_of_not_running (isRunning_eq_false_iff.mpr h)]

theorem running_of_le {a b : Nat} (hab : a ≤ b) (h : (m.after p b).status = .running) :
    (m.after p a).status = .running := by
  apply Decidable.byContradiction
  intro hne
  rw [after_of_le hab hne] at h
  exact hne h

theorem exists_last_step {n : Nat} (hm : m.status = .running)
    (hn : (m.after p n).status ≠ .running) :
    ∃ k < n, (m.after p k).status = .running ∧ m.after p (k + 1) = m.after p n := by
  induction n with
  | zero => exact absurd hm hn
  | succ n ih =>
    by_cases h : (m.after p n).status = .running
    · exact ⟨n, Nat.lt_succ_self n, h, rfl⟩
    · obtain ⟨k, hk, hrunning, heq⟩ := ih h
      refine ⟨k, by omega, hrunning, ?_⟩
      rw [heq, after_of_le (Nat.le_succ n) h]

theorem step_of_sameCode {q : Program} (h : p.SameCode q) (m : Machine) : m.step q = m.step p := by
  have hs := m.steps_step p
  generalize m.step p = m' at hs
  cases hs with
  | ended hm => exact step_of_ended hm
  | past hm hlt => exact step_past hm (by rw [h.capacity]; exact hlt)
  | empty hm hle hslot =>
    exact step_empty hm (by rw [h.capacity]; exact hle) (by rw [h.slots _ hle, hslot])
  | filled hm hle hslot =>
    rw [← h.capacity]
    exact step_filled hm (by rw [h.capacity]; exact hle) (by rw [h.slots _ hle, hslot])

theorem after_of_sameCode {q : Program} (h : p.SameCode q) (n : Nat) (m : Machine) :
    m.after q n = m.after p n := by
  induction n with
  | zero => rfl
  | succ n ih => rw [after_succ, after_succ, ih, step_of_sameCode h]

end Machine

def Status.result? : Status → Option (Except Fault (List Word))
  | .running => none
  | .halted output => some (.ok output)
  | .failed fault => some (.error fault)

theorem Status.ne_running_of_result? {s : Status} {r : Except Fault (List Word)}
    (h : s.result? = some r) : s ≠ .running := by
  rintro rfl
  cases h

theorem Computer.result_execute (c : Computer) (fuel : Nat) :
    (c.execute fuel).map (·.result) =
      ((Machine.start c.registers).after c.program fuel).status.result? := by
  rw [← Machine.run_fst c.program fuel (.start c.registers) #[]]
  simp only [execute]
  split <;> rename_i h <;> rw [h] <;> rfl

theorem Computer.execute_of_result? {c : Computer} {steps fuel : Nat}
    {r : Except Fault (List Word)}
    (h : ((Machine.start c.registers).after c.program steps).status.result? = some r)
    (hfuel : steps ≤ fuel) : ∃ o, c.execute fuel = some o ∧ o.result = r := by
  have hresult := c.result_execute fuel
  rw [Machine.after_of_le hfuel (Status.ne_running_of_result? h), h] at hresult
  exact Option.map_eq_some_iff.mp hresult

end StackComputer
