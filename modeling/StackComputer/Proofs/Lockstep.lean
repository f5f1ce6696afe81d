import StackComputer.Proofs.Steps

/-! # Runs of programs that push different values

Two programs that differ in pushed values only go through the same slots in the same order, until a
product of theirs overflows. Above all a return goes to where the call came from, whatever is on the
operand stack.
-/

namespace StackComputer

/-- Equal capacities, and the same slots except that both may push, and then different values. -/
structure Program.DifferInPushes (p q : Program) : Prop where
  capacity : q.capacity = p.capacity
  slots : ∀ a ≤ p.capacity, q.get? a = p.get? a ∨
    ∃ v w, p.get? a = some (.push v) ∧ q.get? a = some (.push w)

namespace Machine

def Overflowed (m : Machine) : Prop := ∃ lhs rhs, m.status = .failed (.overflow lhs rhs)

structure InStep (m n : Machine) : Prop where
  left : m.status = .running
  right : n.status = .running
  registers : n.registers = m.registers
  depth : n.stack.size = m.stack.size
  outputs : n.output.size = m.output.size

inductive Alike (m n : Machine) : Prop where
  | running : InStep m n → Alike m n
  | halted {xs ys : List Word} : m.status = .halted xs → n.status = .halted ys →
      ys.length = xs.length → Alike m n
  | failed {fault : Fault} :
      fault = .stackUnderflow ∨ (∃ target capacity, fault = .unknownAddress target capacity) →
      m.status = .failed fault → n.status = .failed fault →
      n.registers.programCounter = m.registers.programCounter → Alike m n

namespace InStep

variable {m n : Machine} {p q : Program}

theorem advance (h : InStep m n) : InStep m.advance n.advance := by
  refine ⟨h.left, h.right, ?_, h.depth, h.outputs⟩
  simp [Machine.advance, h.registers]

theorem halt (h : InStep m n) : Alike m.halt n.halt := by
  apply Alike.halted status_halt status_halt
  simpa using h.outputs

theorem push (h : InStep m n) (v w : Word) :
    InStep { m with stack := m.stack.push v } { n with stack := n.stack.push w } := by
  refine ⟨h.left, h.right, h.registers, ?_, h.outputs⟩
  exact congrArg (· + 1) h.depth

theorem perform (h : InStep m n) (capacity : Nat) (i : Instruction) :
    Alike (m.perform capacity i) (n.perform capacity i) ∨
      (m.perform capacity i).Overflowed ∨ (n.perform capacity i).Overflowed := by
  have hdepth : n.stack.values.length = m.stack.values.length := h.depth
  have hpc := congrArg Registers.programCounter h.registers
  have hm := m.performs_perform capacity i
  have hn := n.performs_perform capacity i
  generalize m.perform capacity i = m' at hm
  generalize n.perform capacity i = n' at hn
  cases hm with
  | push value =>
    cases hn
    exact .inl (.running (h.push value value).advance)
  | print hs =>
    rw [hs] at hdepth
    cases hn with
    | print ht =>
      rw [ht] at hdepth
      left
      apply Alike.running
      apply InStep.advance
      exact ⟨h.left, h.right, h.registers, Nat.succ.inj hdepth, by simpa using h.outputs⟩
    | printUnderflow ht =>
      rw [ht] at hdepth
      cases hdepth
  | printUnderflow hs =>
    rw [hs] at hdepth
    cases hn with
    | print ht =>
      rw [ht] at hdepth
      cases hdepth
    | printUnderflow ht => exact .inl (.failed (.inl rfl) rfl rfl hpc)
  | mult hs hp =>
    rw [hs] at hdepth
    cases hn with
    | mult ht hq =>
      rw [ht] at hdepth
      left
      apply Alike.running
      apply InStep.advance
      exact ⟨h.left, h.right, h.registers, Nat.succ.inj hdepth, h.outputs⟩
    | multOverflow ht hq => exact .inr (.inr ⟨_, _, rfl⟩)
    | multUnderflow ht =>
      simp only [List.length_cons] at hdepth
      omega
  | multOverflow hs hp => exact .inr (.inl ⟨_, _, rfl⟩)
  | multUnderflow hs =>
    cases hn with
    | mult ht hq =>
      simp only [ht, List.length_cons] at hdepth
      omega
    | multOverflow ht hq => exact .inr (.inr ⟨_, _, rfl⟩)
    | multUnderflow ht => exact .inl (.failed (.inl rfl) rfl rfl hpc)
  | call hs =>
    cases hn with
    | call ht =>
      left
      apply Alike.running
      exact ⟨h.left, h.right, by simp [h.registers], h.depth, h.outputs⟩
    | callUnknown ht => exact absurd hs ht
  | callUnknown hs =>
    cases hn with
    | call ht => exact absurd ht hs
    | callUnknown ht => exact .inl (.failed (.inr ⟨_, _, rfl⟩) rfl rfl hpc)
  | ret =>
    cases hn
    left
    apply Alike.running
    exact ⟨h.left, h.right, by simp [h.registers], h.depth, h.outputs⟩
  | stop =>
    cases hn
    exact .inl h.halt

theorem step (hpq : p.DifferInPushes q) (h : InStep m n) :
    Alike (m.step p) (n.step q) ∨ (m.step p).Overflowed ∨ (n.step q).Overflowed := by
  have hpc := congrArg Registers.programCounter h.registers
  have hcap := hpq.capacity
  rcases Nat.lt_or_ge p.capacity m.registers.programCounter with hlt | hle
  · rw [step_past h.left hlt, step_past h.right (by omega)]
    exact .inl h.halt
  · have hle' : n.registers.programCounter ≤ q.capacity := by omega
    rcases hpq.slots _ hle with hsame | ⟨v, w, hv, hw⟩
    · cases hs : p.get? m.registers.programCounter with
      | none =>
        rw [hs, ← hpc] at hsame
        rw [step_empty h.left hle hs, step_empty h.right hle' hsame]
        exact .inl (.running h.advance)
      | some i =>
        rw [hs, ← hpc] at hsame
        rw [step_filled h.left hle hs, step_filled h.right hle' hsame, hcap]
        exact h.perform p.capacity i
    · rw [← hpc] at hw
      rw [step_filled h.left hle hv, step_filled h.right hle' hw]
      exact .inl (.running (h.push v w).advance)

end InStep

variable {m n : Machine} {p q : Program}

theorem Overflowed.step (h : m.Overflowed) : (m.step p).Overflowed := by
  obtain ⟨lhs, rhs, hm⟩ := h
  rw [step_of_ended (by simp [hm])]
  exact ⟨lhs, rhs, hm⟩

theorem Alike.step (hpq : p.DifferInPushes q) (h : Alike m n) :
    Alike (m.step p) (n.step q) ∨ (m.step p).Overflowed ∨ (n.step q).Overflowed := by
  cases h with
  | running h => exact h.step hpq
  | halted hm hn hlength =>
    rw [step_of_ended (by simp [hm]), step_of_ended (by simp [hn])]
    exact .inl (.halted hm hn hlength)
  | failed hfault hm hn hpc =>
    rw [step_of_ended (by simp [hm]), step_of_ended (by simp [hn])]
    exact .inl (.failed hfault hm hn hpc)

end Machine

/-- Pushed values do not steer a run: unless a product has overflowed in one of them, two runs that
differ in pushed values are alike after any number of steps. -/
theorem pushed_values_do_not_steer {p q : Program} (hpq : p.DifferInPushes q)
    (registers : Registers) (n : Nat) :
    Machine.Alike ((Machine.start registers).after p n) ((Machine.start registers).after q n) ∨
      ((Machine.start registers).after p n).Overflowed ∨
      ((Machine.start registers).after q n).Overflowed := by
  induction n with
  | zero => exact .inl (.running ⟨rfl, rfl, rfl, rfl, rfl⟩)
  | succ n ih =>
    rw [Machine.after_succ, Machine.after_succ]
    rcases ih with h | h | h
    · exact h.step hpq
    · exact .inr (.inl h.step)
    · exact .inr (.inr h.step)

/-- Both runs return from the call and print; then both fail at the second multiplication. -/
theorem pushed_values_do_not_steer_return :
    let code := fun v w : Word =>
      #[some (.push v), some (.push w), some (.call 4), some .print, some .mult, some .ret]
    let p : Program := { slots := code 6 7, capacity := 5, pointer := 0 }
    let q : Program := { slots := code (-1) 0x4000000000000000, capacity := 5, pointer := 0 }
    let left := fun n => (Machine.start {}).after p n
    let right := fun n => (Machine.start {}).after q n
    p.DifferInPushes q ∧
    ((left 5).registers = { programCounter := 3, returnRegister := 3 } ∧
      (left 5).Alike (right 5)) ∧
    ((left 7).status = .failed .stackUnderflow ∧ (left 7).Alike (right 7)) := by
  intro code p q left right
  have hpq : p.DifferInPushes q := by
    refine ⟨rfl, ?_⟩
    intro a ha
    match a, ha with
    | 0, _ => exact .inr ⟨_, _, rfl, rfl⟩
    | 1, _ => exact .inr ⟨_, _, rfl, rfl⟩
    | 2, _ | 3, _ | 4, _ | 5, _ => exact .inl rfl
    | _ + 6, h => exact absurd h (by simp [p])
  have hleft : (left 5).status = .running ∧ (left 7).status = .failed .stackUnderflow := by
    decide +kernel
  have hright : (right 5).status = .running ∧ (right 7).status = .failed .stackUnderflow := by
    decide +kernel
  refine ⟨hpq, ⟨by decide +kernel, ?_⟩, hleft.2, ?_⟩
  · rcases pushed_values_do_not_steer hpq {} 5 with h | ⟨lhs, rhs, h⟩ | ⟨lhs, rhs, h⟩
    · exact h
    · cases hleft.1.symm.trans h
    · cases hright.1.symm.trans h
  · rcases pushed_values_do_not_steer hpq {} 7 with h | ⟨lhs, rhs, h⟩ | ⟨lhs, rhs, h⟩
    · exact h
    · cases hleft.2.symm.trans h
    · cases hright.2.symm.trans h

end StackComputer
