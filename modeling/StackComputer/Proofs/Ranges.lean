import StackComputer.Proofs.Steps

/-! # What a run keeps in range

The registers of a run may start anywhere, also far behind the last slot, and a return goes to
wherever the return register started. So the program counter stays on the slots and the address
behind them, or else on one of the two addresses that the run started with. Nothing is added to it
there: a step whose additions are checked is the step itself. The values of a run are exact
integers, each of them in the range of a word.
-/

namespace StackComputer

structure Registers.Within (capacity : Nat) (initial r : Registers) : Prop where
  programCounter : r.programCounter = initial.programCounter ∨
    r.programCounter = initial.returnRegister ∨ r.programCounter ≤ capacity + 1
  returnRegister : r.returnRegister = initial.returnRegister ∨
    1 ≤ r.returnRegister ∧ r.returnRegister ≤ capacity + 1

namespace Registers.Within

variable {capacity : Nat} {initial : Registers} {m : Machine} {p : Program}

theorem advance (h : Within capacity initial m.registers)
    (hle : m.registers.programCounter ≤ capacity) :
    Within capacity initial m.advance.registers := by
  refine ⟨?_, h.returnRegister⟩
  exact .inr (.inr (Nat.add_le_add_right hle 1))

theorem perform (h : Within capacity initial m.registers)
    (hle : m.registers.programCounter ≤ capacity) (i : Instruction) :
    Within capacity initial (m.perform capacity i).registers := by
  have hp := m.performs_perform capacity i
  generalize m.perform capacity i = m' at hp
  cases hp with
  | push value => exact h.advance hle
  | print hs => exact h.advance hle
  | printUnderflow hs => exact h
  | mult hs hw => exact h.advance hle
  | multOverflow hs hw => exact h
  | multUnderflow hs => exact h
  | call ht =>
    constructor
    · right; right
      simp only
      omega
    · right
      exact ⟨Nat.le_add_left 1 _, Nat.add_le_add_right hle 1⟩
  | callUnknown ht => exact h
  | ret =>
    -- the return register becomes the program counter, so its range has to be known as well
    refine ⟨?_, h.returnRegister⟩
    rcases h.returnRegister with heq | ⟨-, hle'⟩
    · exact .inr (.inl heq)
    · exact .inr (.inr hle')
  | stop => exact h

theorem step (h : Within p.capacity initial m.registers) :
    Within p.capacity initial (m.step p).registers := by
  have hs := m.steps_step p
  generalize m.step p = m' at hs
  cases hs with
  | ended hm => exact h
  | past hm hlt => exact h
  | empty hm hle hslot => exact h.advance hle
  | filled hm hle hslot => exact h.perform hle _

theorem after (p : Program) (initial : Registers) (n : Nat) :
    Within p.capacity initial ((Machine.start initial).after p n).registers := by
  apply Machine.after_induction (motive := fun m => Within p.capacity initial m.registers)
  · exact ⟨.inl rfl, .inl rfl⟩
  · intro m h
    exact h.step

end Registers.Within

def Program.following? (p : Program) (address : Nat) : Option Nat :=
  if address ≤ p.capacity ∧ address + 1 < addressLimit then some (address + 1) else none

namespace Machine

def advance? (p : Program) (m : Machine) : Option Machine :=
  (p.following? m.registers.programCounter).map fun next =>
    { m with registers.programCounter := next }

def perform? (p : Program) (m : Machine) : Instruction → Option Machine
  | .push value => { m with stack := m.stack.push value }.advance? p
  | .print =>
    match m.stack.pop with
    | .error fault => some (m.fail fault)
    | .ok (value, rest) => { m with stack := rest, output := m.output.push value }.advance? p
  | .mult =>
    match m.stack.pop with
    | .error fault => some (m.fail fault)
    | .ok (lhs, rest) =>
      match rest.pop with
      | .error fault => some ({ m with stack := rest }.fail fault)
      | .ok (rhs, rest) =>
        match Word.mul? lhs rhs with
        | none => some ({ m with stack := rest }.fail (.overflow lhs rhs))
        | some product => { m with stack := rest.push product }.advance? p
  | .call target =>
    if 0 ≤ target.toInt ∧ target.toInt ≤ p.capacity then
      (p.following? m.registers.programCounter).map fun next =>
        { m with registers := { programCounter := target.toInt.toNat, returnRegister := next } }
    else some (m.fail (.unknownAddress target p.capacity))
  | .ret => some { m with registers.programCounter := m.registers.returnRegister }
  | .stop => some m.halt

def step? (p : Program) (m : Machine) : Option Machine :=
  match m.status with
  | .running =>
    if p.capacity < m.registers.programCounter then some m.halt
    else
      match p.get? m.registers.programCounter with
      | none => m.advance? p
      | some i => m.perform? p i
  | _ => some m

section Additions

variable {p : Program} {m : Machine}

theorem advance?_eq (h : p.following? m.registers.programCounter =
    some (m.registers.programCounter + 1)) : m.advance? p = some m.advance := by
  rw [advance?, h]
  rfl

theorem perform?_eq (h : p.following? m.registers.programCounter =
    some (m.registers.programCounter + 1)) (i : Instruction) :
    m.perform? p i = some (m.perform p.capacity i) := by
  cases i with
  | push value => exact advance?_eq h
  | print =>
    rcases hpop : m.stack.pop with fault | ⟨value, rest⟩
    · simp only [perform?, perform, hpop]
    · simp only [perform?, perform, hpop]
      exact advance?_eq h
  | mult =>
    rcases hlhs : m.stack.pop with fault | ⟨lhs, rest⟩
    · simp only [perform?, perform, hlhs]
    · rcases hrhs : rest.pop with fault | ⟨rhs, rest'⟩
      · simp only [perform?, perform, hlhs, hrhs]
      · cases hproduct : Word.mul? lhs rhs with
        | none => simp only [perform?, perform, hlhs, hrhs, hproduct]
        | some product =>
          simp only [perform?, perform, hlhs, hrhs, hproduct]
          exact advance?_eq h
  | call target =>
    by_cases ht : 0 ≤ target.toInt ∧ target.toInt ≤ p.capacity
    · rw [perform?, if_pos ht, perform, if_pos ht, h]
      rfl
    · rw [perform?, if_neg ht, perform, if_neg ht]
  | ret => rfl
  | stop => rfl

/-- No addition of a step is out of bounds. -/
theorem step?_eq (hcap : p.capacity + 1 < addressLimit) (m : Machine) :
    m.step? p = some (m.step p) := by
  have hfollowing (hle : m.registers.programCounter ≤ p.capacity) :
      p.following? m.registers.programCounter = some (m.registers.programCounter + 1) := by
    rw [Program.following?, if_pos ⟨hle, by omega⟩]
  unfold step?
  split
  · rename_i hm
    rcases Nat.lt_or_ge p.capacity m.registers.programCounter with hlt | hle
    · rw [if_pos hlt, step_past hm hlt]
    · rw [if_neg (Nat.not_lt.mpr hle)]
      cases hs : p.get? m.registers.programCounter with
      | none =>
        rw [step_empty hm hle hs]
        exact advance?_eq (hfollowing hle)
      | some i =>
        rw [step_filled hm hle hs]
        exact perform?_eq (hfollowing hle) i
  · rename_i hm
    rw [step_of_ended hm]

end Additions

end Machine

/-- The integers that a program can come to: those that it pushes, and their exact products. -/
inductive Program.Computes (p : Program) : Int → Prop where
  | push {address : Nat} {value : Word} :
      p.get? address = some (.push value) → p.Computes value.toInt
  | product {x y : Int} : p.Computes x → p.Computes y → p.Computes (x * y)

namespace Machine

def Holds (m : Machine) (v : Word) : Prop :=
  v ∈ m.stack.values ∨ v ∈ m.output ∨ ∃ output, m.status = .halted output ∧ v ∈ output

/-- No value of the machine has been cut to the size of a word. -/
structure Exact (p : Program) (m : Machine) : Prop where
  stack : ∀ v ∈ m.stack.values, p.Computes v.toInt
  output : ∀ v ∈ m.output, p.Computes v.toInt
  halted : ∀ output, m.status = .halted output → ∀ v ∈ output, p.Computes v.toInt

namespace Exact

variable {p : Program} {m : Machine}

theorem computes (h : m.Exact p) {v : Word} (hv : m.Holds v) : p.Computes v.toInt := by
  rcases hv with hv | hv | ⟨output, hstatus, hv⟩
  · exact h.stack v hv
  · exact h.output v hv
  · exact h.halted output hstatus v hv

theorem fail (h : m.Exact p) (fault : Fault) : (m.fail fault).Exact p := by
  refine ⟨h.stack, h.output, ?_⟩
  intro output hstatus
  cases hstatus

theorem halt (h : m.Exact p) : m.halt.Exact p := by
  refine ⟨h.stack, ?_, ?_⟩
  · intro v hv
    simp [Machine.halt] at hv
  · intro output hstatus v hv
    cases hstatus
    exact h.output v (Array.mem_toList_iff.mp hv)

theorem advance (h : m.Exact p) : m.advance.Exact p :=
  ⟨h.stack, h.output, h.halted⟩

theorem withStack (h : m.Exact p) {s : OperandStack}
    (hs : ∀ v ∈ s.values, p.Computes v.toInt) : Exact p { m with stack := s } :=
  ⟨hs, h.output, h.halted⟩

theorem perform (h : m.Exact p) {i : Instruction} {address : Nat}
    (hi : p.get? address = some i) : (m.perform p.capacity i).Exact p := by
  have hstack := h.stack
  have hp := m.performs_perform p.capacity i
  generalize m.perform p.capacity i = m' at hp
  cases hp with
  | push value =>
    apply advance
    apply h.withStack
    intro v hv
    rcases List.mem_cons.mp hv with rfl | hv
    · exact .push hi
    · exact hstack v hv
  | print hs =>
    rw [hs, List.forall_mem_cons] at hstack
    refine ⟨hstack.2, ?_, h.halted⟩
    intro v hv
    rcases Array.mem_push.mp hv with hv | rfl
    · exact h.output v hv
    · exact hstack.1
  | printUnderflow hs => exact h.fail _
  | mult hs hw =>
    rw [hs, List.forall_mem_cons, List.forall_mem_cons] at hstack
    apply advance
    apply h.withStack
    rw [List.forall_mem_cons, Word.mul?_eq_some_iff.mp hw]
    exact ⟨.product hstack.1 hstack.2.1, hstack.2.2⟩
  | multOverflow hs hw =>
    rw [hs, List.forall_mem_cons, List.forall_mem_cons] at hstack
    exact (h.withStack hstack.2.2).fail _
  | multUnderflow hs =>
    exact (h.withStack (s := ⟨[]⟩) (List.forall_mem_nil _)).fail _
  | call ht => exact ⟨h.stack, h.output, h.halted⟩
  | callUnknown ht => exact h.fail _
  | ret => exact ⟨h.stack, h.output, h.halted⟩
  | stop => exact h.halt

theorem step (h : m.Exact p) : (m.step p).Exact p := by
  have hs := m.steps_step p
  generalize m.step p = m' at hs
  cases hs with
  | ended hm => exact h
  | past hm hlt => exact h.halt
  | empty hm hle hslot => exact h.advance
  | filled hm hle hslot => exact h.perform hslot

theorem start (p : Program) (initial : Registers) : (Machine.start initial).Exact p := by
  refine ⟨?_, ?_, ?_⟩
  · intro v hv
    cases hv
  · intro v hv
    simp [Machine.start] at hv
  · intro output hstatus
    cases hstatus

theorem after (p : Program) (initial : Registers) (n : Nat) :
    ((Machine.start initial).after p n).Exact p := by
  apply Machine.after_induction (motive := fun m => m.Exact p)
  · exact start p initial
  · intro m h
    exact h.step

end Exact

end Machine

/-- Whatever the registers are at first, and after any number of steps: the registers are the first
ones or on the slots and just behind them, the step that follows adds to no other program counter,
all values are exact and in range, and a run that has ended stays as it is. -/
theorem run_stays_in_range {p : Program} (hcap : p.capacity + 1 < addressLimit)
    (initial : Registers) (n : Nat) :
    let m := (Machine.start initial).after p n
    (m.registers.programCounter = initial.programCounter ∨
      m.registers.programCounter = initial.returnRegister ∨
      m.registers.programCounter ≤ p.capacity + 1) ∧
    (m.registers.returnRegister = initial.returnRegister ∨
      1 ≤ m.registers.returnRegister ∧ m.registers.returnRegister ≤ p.capacity + 1) ∧
    m.step? p = some (m.step p) ∧
    (∀ v, m.Holds v → p.Computes v.toInt ∧
      -0x8000000000000000 ≤ v.toInt ∧ v.toInt < 0x8000000000000000) ∧
    (m.status ≠ .running → ∀ k, m.after p k = m) := by
  intro m
  have hregisters := Registers.Within.after p initial n
  refine ⟨hregisters.programCounter, hregisters.returnRegister, m.step?_eq hcap, ?_, ?_⟩
  · intro v hv
    exact ⟨(Machine.Exact.after p initial n).computes hv, v.le_toInt, v.toInt_lt⟩
  · intro hended k
    exact Machine.after_of_not_running (Machine.isRunning_eq_false_iff.mpr hended) k

/-- The least word is put out, and the return goes to the largest address. -/
theorem run_stays_in_range_far_off :
    let p : Program :=
      { slots := #[none, some (.push (-0x8000000000000000)), some .print, some .ret], capacity := 3,
        pointer := 0 }
    let initial : Registers := { programCounter := 1, returnRegister := addressLimit - 1 }
    let run := fun n => (Machine.start initial).after p n
    p.capacity + 1 < addressLimit ∧
    ((run 3).registers.programCounter = addressLimit - 1 ∧
      (run 3).step? p = some ((run 3).step p)) ∧
    ((run 4).status = .halted [-0x8000000000000000] ∧ p.Computes (-0x8000000000000000) ∧
      ∀ k, (run 4).after p k = run 4) := by
  intro p initial run
  have hcap : p.capacity + 1 < addressLimit := by decide
  have hstatus : (run 4).status = .halted [-0x8000000000000000] := by decide +kernel
  obtain ⟨-, -, hstep, -, -⟩ := run_stays_in_range hcap initial 3
  obtain ⟨-, -, -, hvalues, hended⟩ := run_stays_in_range hcap initial 4
  have hexact := (hvalues _ (.inr (.inr ⟨_, hstatus, List.mem_singleton_self _⟩))).1
  refine ⟨hcap, ⟨by decide +kernel, hstep⟩, hstatus, hexact, hended ?_⟩
  intro hrunning
  cases hstatus.symm.trans hrunning

end StackComputer
