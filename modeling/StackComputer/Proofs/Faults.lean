import StackComputer.Proofs.Steps

/-! # What a run fails with

The depth of the operand stack can be told from the instructions that a run has performed: so many
pushes, less the prints and multiplications. A run fails where an instruction asks for more values
than that, where a product is out of range or where a call has no slot to go to, with the fault that
belongs to it, and nowhere else.
-/

namespace StackComputer

namespace Instruction

/-- How many values instructions leave on the stack that find as many as they take. -/
def depth (is : List Instruction) : Int :=
  is.countP (·.opcode = .push) - is.countP (·.opcode = .print) - is.countP (·.opcode = .mult)

theorem depth_append (is js : List Instruction) : depth (is ++ js) = depth is + depth js := by
  simp only [depth, List.countP_append]
  omega

def takes : Instruction → Nat
  | print => 1
  | mult => 2
  | push _ | call _ | ret | stop => 0

inductive Faults (capacity : Nat) (stack : List Word) : Instruction → Fault → Prop where
  | print : stack.length = 0 → Faults capacity stack .print .stackUnderflow
  | mult : stack.length < 2 → Faults capacity stack .mult .stackUnderflow
  | overflow {lhs rhs : Word} {rest : List Word} : stack = lhs :: rhs :: rest →
      lhs.toInt * rhs.toInt < -0x8000000000000000 ∨ 0x8000000000000000 ≤ lhs.toInt * rhs.toInt →
      Faults capacity stack .mult (.overflow lhs rhs)
  | call {target : Word} : target.toInt < 0 ∨ capacity < target.toInt →
      Faults capacity stack (.call target) (.unknownAddress target capacity)

end Instruction

namespace Machine

variable {p : Program} {m : Machine} {i : Instruction} {fault : Fault} {capacity : Nat}

theorem failed_perform_iff (hm : m.status = .running) :
    (m.perform capacity i).status = .failed fault ↔ i.Faults capacity m.stack.values fault := by
  have hp := m.performs_perform capacity i
  generalize m.perform capacity i = m' at hp
  constructor
  · intro h
    cases hp with
    | printUnderflow hs =>
      cases h
      exact .print (by rw [hs]; rfl)
    | multUnderflow hs =>
      cases h
      exact .mult hs
    | multOverflow hs hw =>
      cases h
      exact .overflow hs (Word.mul?_eq_none_iff.mp hw)
    | callUnknown ht =>
      cases h
      exact .call (by omega)
    | stop => cases h
    | _ => cases hm.symm.trans h
  · intro h
    cases h with
    | print hs =>
      cases hp with
      | printUnderflow hs => rfl
      | print hs' => simp [hs'] at hs
    | mult hs =>
      cases hp with
      | multUnderflow hs' => rfl
      | mult hs' hw =>
        simp only [hs', List.length_cons] at hs
        omega
      | multOverflow hs' hw =>
        simp only [hs', List.length_cons] at hs
        omega
    | overflow hs hw =>
      rw [← Word.mul?_eq_none_iff] at hw
      cases hp with
      | multUnderflow hs' =>
        simp only [hs, List.length_cons] at hs'
        omega
      | mult hs' hw' =>
        cases hs.symm.trans hs'
        cases hw.symm.trans hw'
      | multOverflow hs' hw' =>
        cases hs.symm.trans hs'
        rfl
    | call ht =>
      cases hp with
      | call ht' => omega
      | callUnknown ht' => rfl

/-- What an instruction has taken before it fails stays taken; it has changed nothing else. -/
theorem perform_of_failed (hm : m.status = .running)
    (h : (m.perform capacity i).status = .failed fault) :
    m.perform capacity i =
      { m with stack := ⟨m.stack.values.drop i.takes⟩, status := .failed fault } := by
  have hp := m.performs_perform capacity i
  generalize m.perform capacity i = m' at hp h
  cases hp with
  | printUnderflow hs =>
    cases h
    rw [hs, Instruction.takes, List.drop_nil, ← hs, fail]
  | multUnderflow hs =>
    cases h
    rw [Instruction.takes, List.drop_eq_nil_of_le (Nat.le_of_lt hs), fail]
  | multOverflow hs hw =>
    cases h
    rw [hs]
    rfl
  | callUnknown ht =>
    cases h
    rfl
  | stop => cases h
  | _ => cases hm.symm.trans h

theorem size_perform (h : (m.perform capacity i).status = .running) :
    ((m.perform capacity i).stack.size : Int) = m.stack.size + Instruction.depth [i] := by
  have hp := m.performs_perform capacity i
  generalize m.perform capacity i = m' at hp h
  cases hp with
  | push value => rfl
  | print hs =>
    have hone : Instruction.depth [.print] = -1 := rfl
    simp only [advance, OperandStack.size, hs, List.length_cons, hone]
    omega
  | mult hs hw =>
    have hone : Instruction.depth [.mult] = -1 := rfl
    simp only [advance, OperandStack.size, hs, List.length_cons, hone]
    omega
  | call ht => exact (Int.add_zero _).symm
  | ret => exact (Int.add_zero _).symm
  | printUnderflow hs => cases h
  | multUnderflow hs => cases h
  | multOverflow hs hw => cases h
  | callUnknown ht => cases h
  | stop => cases h

def current? (p : Program) (m : Machine) : Option Instruction :=
  if m.status = .running ∧ m.registers.programCounter ≤ p.capacity then
    p.get? m.registers.programCounter
  else none

def performed (p : Program) (n : Nat) (m : Machine) : List Instruction :=
  (List.range n).filterMap fun k => (m.after p k).current? p

theorem current?_eq_some_iff : m.current? p = some i ↔
    m.status = .running ∧ m.registers.programCounter ≤ p.capacity ∧
      p.get? m.registers.programCounter = some i := by
  rw [current?]
  by_cases h : m.status = .running ∧ m.registers.programCounter ≤ p.capacity
  · rw [if_pos h]
    exact ⟨fun hi => ⟨h.1, h.2, hi⟩, fun hi => hi.2.2⟩
  · rw [if_neg h]
    exact ⟨nofun, fun hi => absurd ⟨hi.1, hi.2.1⟩ h⟩

theorem step_of_current? (h : m.current? p = some i) : m.step p = m.perform p.capacity i := by
  obtain ⟨hm, hle, hslot⟩ := current?_eq_some_iff.mp h
  exact step_filled hm hle hslot

theorem step_of_current?_eq_none (hm : m.status = .running) (h : m.current? p = none) :
    m.step p = m.halt ∨ m.step p = m.advance := by
  have hs := m.steps_step p
  generalize m.step p = m' at hs
  cases hs with
  | ended hended => exact absurd hm hended
  | past _ hlt => exact .inl rfl
  | empty _ hle hslot => exact .inr rfl
  | filled _ hle hslot => cases h.symm.trans (current?_eq_some_iff.mpr ⟨hm, hle, hslot⟩)

theorem performed_succ (n : Nat) (m : Machine) :
    m.performed p (n + 1) = m.performed p n ++ ((m.after p n).current? p).toList := by
  rw [performed, List.range_succ, List.filterMap_append, performed]
  rfl

theorem size_step (hm : m.status = .running) (h : (m.step p).status = .running) :
    ((m.step p).stack.size : Int) = m.stack.size + Instruction.depth (m.current? p).toList := by
  cases hi : m.current? p with
  | some i =>
    rw [step_of_current? hi] at h ⊢
    exact size_perform h
  | none =>
    rcases step_of_current?_eq_none hm hi with hstep | hstep
    · rw [hstep] at h
      cases h
    · rw [hstep]
      exact (Int.add_zero _).symm

theorem size_after {n : Nat} (h : (m.after p n).status = .running) :
    ((m.after p n).stack.size : Int) = m.stack.size + Instruction.depth (m.performed p n) := by
  induction n with
  | zero => exact (Int.add_zero _).symm
  | succ n ih =>
    have hn := running_of_le (Nat.le_succ n) h
    rw [after_succ] at h ⊢
    rw [size_step hn h, ih hn, performed_succ, Instruction.depth_append, Int.add_assoc]

theorem failed_step_iff (hm : m.status = .running) :
    (m.step p).status = .failed fault ↔
      ∃ i, m.current? p = some i ∧ i.Faults p.capacity m.stack.values fault := by
  cases hi : m.current? p with
  | some i =>
    rw [step_of_current? hi, failed_perform_iff hm]
    simp
  | none =>
    rcases step_of_current?_eq_none hm hi with hstep | hstep
    · simp [hstep]
    · simp [hstep, hm]

theorem fails_iff (hm : m.status = .running) :
    (∃ n, (m.after p n).status = .failed fault) ↔
      ∃ n i, (m.after p n).current? p = some i ∧
        i.Faults p.capacity (m.after p n).stack.values fault := by
  constructor
  · rintro ⟨n, hn⟩
    have hended : (m.after p n).status ≠ .running := by simp [hn]
    obtain ⟨k, -, hk, heq⟩ := exists_last_step hm hended
    rw [← heq, after_succ, failed_step_iff hk] at hn
    exact ⟨k, hn⟩
  · rintro ⟨n, i, hi, hfault⟩
    have hn := (current?_eq_some_iff.mp hi).1
    exact ⟨n + 1, by rw [after_succ, failed_step_iff hn]; exact ⟨i, hi, hfault⟩⟩

/-- A failed run is as it was before its last step, but for the stack and the status. -/
theorem exists_before_failure {n : Nat} (hm : m.status = .running)
    (hn : (m.after p n).status = .failed fault) :
    ∃ k < n, (m.after p k).status = .running ∧ m.after p (k + 1) = m.after p n ∧
      (m.after p n).registers = (m.after p k).registers ∧
      (m.after p n).output = (m.after p k).output := by
  obtain ⟨k, hlt, hk, heq⟩ := exists_last_step hm (p := p) (n := n) (by simp [hn])
  refine ⟨k, hlt, hk, heq, ?_⟩
  rw [← heq, after_succ] at hn ⊢
  obtain ⟨i, hi, -⟩ := (failed_step_iff hk).mp hn
  rw [step_of_current? hi] at hn ⊢
  rw [perform_of_failed hk hn]
  exact ⟨rfl, rfl⟩

end Machine

/-- A run fails with an underflow if and only if it comes to an instruction that takes more values
than the pushes so far have left, with an overflow of two factors if and only if it comes to a
multiplication with these on top whose product is out of range, and with an unknown address if and
only if it comes to a call of one. It fails with nothing else, and then its registers and its output
are as they were before the instruction that failed. -/
theorem faults_are_earned (p : Program) (initial : Registers) :
    let run := fun n : Nat => (Machine.start initial).after p n
    let fails := fun fault : Fault => ∃ n, (run n).status = .failed fault
    let reaches := fun (n : Nat) (i : Instruction) => (run n).current? p = some i
    let depth := fun n : Nat => Instruction.depth ((Machine.start initial).performed p n)
    (fails .stackUnderflow ↔
      ∃ n, reaches n .print ∧ depth n = 0 ∨ reaches n .mult ∧ depth n < 2) ∧
    (∀ lhs rhs, fails (.overflow lhs rhs) ↔
      ∃ n rest, reaches n .mult ∧ (run n).stack.values = lhs :: rhs :: rest ∧
        (lhs.toInt * rhs.toInt < -0x8000000000000000 ∨
          0x8000000000000000 ≤ lhs.toInt * rhs.toInt)) ∧
    (∀ target capacity, fails (.unknownAddress target capacity) ↔
      capacity = p.capacity ∧
        ∃ n, reaches n (.call target) ∧ (target.toInt < 0 ∨ p.capacity < target.toInt)) ∧
    ∀ n fault, (run n).status = .failed fault →
      (fault = .stackUnderflow ∨ (∃ lhs rhs, fault = .overflow lhs rhs) ∨
        ∃ target, fault = .unknownAddress target p.capacity) ∧
      ∃ k < n, (run k).status = .running ∧ run (k + 1) = run n ∧
        (run n).registers = (run k).registers ∧ (run n).output = (run k).output := by
  intro run fails reaches depth
  have hfails : ∀ fault, fails fault ↔
      ∃ n i, reaches n i ∧ i.Faults p.capacity (run n).stack.values fault :=
    fun fault => Machine.fails_iff rfl
  have hdepth : ∀ n i, reaches n i → ((run n).stack.values.length : Int) = depth n := by
    intro n i hi
    have hsize := Machine.size_after (Machine.current?_eq_some_iff.mp hi).1
    exact hsize.trans (Int.zero_add _)
  refine ⟨?_, ?_, ?_, ?_⟩
  · rw [hfails]
    constructor
    · rintro ⟨n, i, hi, hfault⟩
      have hn := hdepth n i hi
      cases hfault with
      | print hs => exact ⟨n, .inl ⟨hi, by omega⟩⟩
      | mult hs => exact ⟨n, .inr ⟨hi, by omega⟩⟩
    · rintro ⟨n, ⟨hi, hs⟩ | ⟨hi, hs⟩⟩
      · have hn := hdepth n _ hi
        exact ⟨n, _, hi, .print (by omega)⟩
      · have hn := hdepth n _ hi
        exact ⟨n, _, hi, .mult (by omega)⟩
  · intro lhs rhs
    rw [hfails]
    constructor
    · rintro ⟨n, i, hi, hfault⟩
      cases hfault with
      | overflow hs hrange => exact ⟨n, _, hi, hs, hrange⟩
    · rintro ⟨n, rest, hi, hs, hrange⟩
      exact ⟨n, _, hi, .overflow hs hrange⟩
  · intro target capacity
    rw [hfails]
    constructor
    · rintro ⟨n, i, hi, hfault⟩
      cases hfault with
      | call ht => exact ⟨rfl, n, hi, ht⟩
    · rintro ⟨rfl, n, hi, ht⟩
      exact ⟨n, _, hi, .call ht⟩
  · intro n fault hn
    obtain ⟨k, i, hi, hfault⟩ := (hfails fault).mp ⟨n, hn⟩
    refine ⟨?_, Machine.exists_before_failure rfl hn⟩
    cases hfault with
    | print hs => exact .inl rfl
    | mult hs => exact .inl rfl
    | overflow hs hrange => exact .inr (.inl ⟨_, _, rfl⟩)
    | call ht => exact .inr (.inr ⟨_, rfl⟩)

/-- A second print after a subroutine has pushed one value, a product that is one too large, and a
call of the address past the last slot. -/
theorem faults_are_earned_one_each :
    let program := fun slots : Array (Option Instruction) =>
      ({ slots, capacity := slots.size - 1, pointer := 0 } : Program)
    let p := program #[some (.call 3), some .print, some .print, some (.push 5), some .ret]
    let q := program #[some (.push 0x4000000000000000), some (.push 2), some .mult]
    let r := program #[some (.push 7), some .print, none, some (.call 4)]
    let run := fun (p : Program) (n : Nat) => (Machine.start {}).after p n
    (∃ n, (run p n).status = .failed .stackUnderflow) ∧
    (∃ n, (run q n).status = .failed (.overflow 2 0x4000000000000000)) ∧
    ((∃ n, (run r n).status = .failed (.unknownAddress 4 3)) ∧
      ∃ k < 4, (run r k).status = .running ∧ run r (k + 1) = run r 4 ∧
        (run r 4).registers = (run r k).registers ∧ (run r 4).output = (run r k).output) := by
  intro program p q r run
  obtain ⟨hunderflow, -, -, -⟩ := faults_are_earned p {}
  obtain ⟨-, hoverflow, -, -⟩ := faults_are_earned q {}
  obtain ⟨-, -, hunknown, hkept⟩ := faults_are_earned r {}
  refine ⟨?_, ?_, ?_, ?_⟩
  · exact hunderflow.mpr ⟨4, .inl ⟨by decide +kernel, by decide +kernel⟩⟩
  · exact (hoverflow 2 0x4000000000000000).mpr
      ⟨2, [], by decide +kernel, by decide +kernel, .inr (by decide +kernel)⟩
  · exact (hunknown 4 3).mpr ⟨rfl, 3, by decide +kernel, .inr (by decide +kernel)⟩
  · exact (hkept 4 (.unknownAddress 4 3) (by decide +kernel)).2

end StackComputer
