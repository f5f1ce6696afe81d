import StackComputer.Proofs.ControlFlow
import StackComputer.Proofs.Faults
import StackComputer.Proofs.StraightLine

/-! # Leaf subroutines

The body of a leaf subroutine only pushes, prints and multiplies, and a return stands behind it. A
call of it goes on behind the call with the values that the instructions of the body leave when they
are taken one after the other, or fails as they do. Where the body stands, how long it is and what
was in the return register before do not matter.
-/

namespace StackComputer

def Instruction.isPlain : Instruction → Bool
  | push _ | print | mult => true
  | call _ | ret | stop => false

theorem Instruction.next_of_isPlain {i : Instruction} (hi : i.isPlain) (r : Registers) :
    i.next r = { r with programCounter := r.programCounter + 1 } := by
  cases i with
  | push value => rfl
  | print => rfl
  | mult => rfl
  | call target => cases hi
  | ret => cases hi
  | stop => cases hi

namespace Program

variable {p : Program} {address : Nat}

def instructionsIn (p : Program) (address count : Nat) : List Instruction :=
  (List.range' address count).filterMap p.get?

theorem instructionsIn_empty (h : p.get? address = none) (count : Nat) :
    p.instructionsIn address (count + 1) = p.instructionsIn (address + 1) count := by
  rw [instructionsIn, List.range'_succ, List.filterMap_cons_none h, instructionsIn]

theorem instructionsIn_filled {i : Instruction} (h : p.get? address = some i) (count : Nat) :
    p.instructionsIn address (count + 1) = i :: p.instructionsIn (address + 1) count := by
  rw [instructionsIn, List.range'_succ, List.filterMap_cons_some h, instructionsIn]

end Program

namespace Values

/-- What is left when an instruction fails: it has taken its values by then, or all there were. -/
def leftBy (v : Values) (i : Instruction) : Values := { v with stack := v.stack.drop i.takes }

/-- The values after instructions that are taken one after the other, or the first fault and the
values that it leaves. -/
def applyAll (v : Values) : List Instruction → Except (Fault × Values) Values
  | [] => .ok v
  | i :: rest =>
    match v.apply i with
    | .error fault => .error (fault, v.leftBy i)
    | .ok w => w.applyAll rest

theorem applyAll_of_error {v : Values} {i : Instruction} {fault : Fault}
    (h : v.apply i = .error fault) (rest : List Instruction) :
    v.applyAll (i :: rest) = .error (fault, v.leftBy i) := by
  rw [applyAll, h]

theorem applyAll_of_ok {v w : Values} {i : Instruction} (h : v.apply i = .ok w)
    (rest : List Instruction) : v.applyAll (i :: rest) = w.applyAll rest := by
  rw [applyAll, h]

end Values

namespace Machine

variable {p : Program} {m : Machine}

theorem perform_plain (hm : m.status = .running) (capacity : Nat) {i : Instruction}
    (hi : i.isPlain) :
    (∃ fault, m.values.apply i = .error fault ∧ (m.perform capacity i).status = .failed fault ∧
      (m.perform capacity i).values = m.values.leftBy i) ∨
    (m.values.apply i = .ok (m.perform capacity i).values ∧
      (m.perform capacity i).status = .running ∧
      (m.perform capacity i).registers = m.advance.registers) := by
  have hopcode : i.opcode ≠ .call ∧ i.opcode ≠ .ret ∧ i ≠ .stop := by
    cases i <;> simp_all [Instruction.isPlain, Instruction.opcode]
  obtain ⟨hcall, hret, hstop⟩ := hopcode
  rcases perform_straight hm capacity hcall hret hstop with
    ⟨fault, hfault, hstatus⟩ | ⟨hvalues, hstatus, -⟩
  · refine .inl ⟨fault, hfault, hstatus, ?_⟩
    rw [perform_of_failed hm hstatus]
    rfl
  · exact .inr ⟨hvalues, hstatus, (registers_perform hstatus).trans (i.next_of_isPlain hi _)⟩

inductive Yields (m : Machine) (r : Registers) : Except (Fault × Values) Values → Prop where
  | done : m.status = .running → m.registers = r → Yields m r (.ok m.values)
  | failed {fault : Fault} : m.status = .failed fault → Yields m r (.error (fault, m.values))

/-- As many steps as there are slots take the machine through a body, or to its first fault. -/
theorem after_body {address count : Nat} (hm : m.status = .running)
    (haddress : m.registers.programCounter = address) (hfit : address + count ≤ p.capacity + 1)
    (hbody : ∀ j < count, ∀ i, p.get? (address + j) = some i → i.isPlain) :
    (m.after p count).Yields { m.registers with programCounter := address + count }
      (m.values.applyAll (p.instructionsIn address count)) := by
  induction count generalizing m address with
  | zero =>
    subst address
    exact .done hm rfl
  | succ count ih =>
    have hle : m.registers.programCounter ≤ p.capacity := by omega
    have hfit' : address + 1 + count ≤ p.capacity + 1 := by omega
    have hbody' : ∀ j < count, ∀ i, p.get? (address + 1 + j) = some i → i.isPlain := by
      intro j hj i hi
      apply hbody (j + 1) (by omega)
      rw [← hi]
      congr 1
      omega
    have hnext : address + 1 + count = address + (count + 1) := by omega
    rw [after]
    subst address
    cases hslot : p.get? m.registers.programCounter with
    | none =>
      rw [step_empty hm hle hslot, Program.instructionsIn_empty hslot, ← hnext]
      exact ih (m := m.advance) hm rfl hfit' hbody'
    | some i =>
      rw [step_filled hm hle hslot, Program.instructionsIn_filled hslot]
      rcases perform_plain hm p.capacity (hbody 0 (by omega) i hslot) with
        ⟨fault, hfault, hstatus, hleft⟩ | ⟨hvalues, hstatus, hregisters⟩
      · -- a machine that has failed takes the other steps of the body without changing
        rw [Values.applyAll_of_error hfault, ← hleft,
          after_of_not_running (isRunning_eq_false_iff.mpr (by simp [hstatus]))]
        exact .failed hstatus
      · rw [Values.applyAll_of_ok hvalues, ← hnext]
        have hrest := ih hstatus (by rw [hregisters]; rfl) hfit' hbody'
        rw [hregisters] at hrest
        exact hrest

theorem step_call {target : Word} (hm : m.status = .running)
    (hle : m.registers.programCounter ≤ p.capacity)
    (hslot : p.get? m.registers.programCounter = some (.call target))
    (htarget : 0 ≤ target.toInt ∧ target.toInt ≤ p.capacity) :
    m.step p = { m with registers := {
      programCounter := target.toInt.toNat
      returnRegister := m.registers.programCounter + 1 } } := by
  rw [step_filled hm hle hslot, perform, if_pos htarget]

theorem step_ret (hm : m.status = .running) (hle : m.registers.programCounter ≤ p.capacity)
    (hslot : p.get? m.registers.programCounter = some .ret) :
    m.step p = { m with registers.programCounter := m.registers.returnRegister } := by
  rw [step_filled hm hle hslot, perform]

end Machine

/-- A call of a leaf subroutine takes a step for each slot of its body, one to get there and one to
return. By then the machine has failed as the instructions of the body do, or it goes on behind the
call with the values that they leave. -/
theorem leaf_call_runs_body {p : Program} {m : Machine} {target : Word} {count : Nat}
    (hm : m.status = .running) (hle : m.registers.programCounter ≤ p.capacity)
    (hcall : p.get? m.registers.programCounter = some (.call target))
    (htarget : 0 ≤ target.toInt) (hfit : target.toInt.toNat + count ≤ p.capacity)
    (hbody : ∀ j < count, ∀ i, p.get? (target.toInt.toNat + j) = some i → i.isPlain)
    (hret : p.get? (target.toInt.toNat + count) = some .ret) :
    let body := p.instructionsIn target.toInt.toNat count
    let next := m.registers.programCounter + 1
    let m' := m.after p (count + 2)
    (∃ fault left, m.values.applyAll body = .error (fault, left) ∧
      m'.status = .failed fault ∧ m'.values = left) ∨
    (∃ v, m.values.applyAll body = .ok v ∧ m'.status = .running ∧
      m'.registers = { programCounter := next, returnRegister := next } ∧ m'.values = v) := by
  intro body next m'
  let entered : Machine := { m with registers := {
    programCounter := target.toInt.toNat
    returnRegister := next } }
  have henter : m.step p = entered := Machine.step_call hm hle hcall (by omega)
  have hrun : (entered.after p count).Yields _ (m.values.applyAll body) :=
    Machine.after_body hm rfl (Nat.le_succ_of_le hfit) hbody
  have hafter : m' = (entered.after p count).step p := by
    rw [← henter]
    exact Machine.after_succ count (m.step p)
  rw [hafter]
  generalize entered.after p count = arrived at hrun
  generalize m.values.applyAll body = result at hrun
  cases hrun with
  | failed hstatus =>
    left
    rw [Machine.step_of_ended (by simp [hstatus])]
    exact ⟨_, _, rfl, hstatus, rfl⟩
  | done hstatus hregisters =>
    right
    have hpc : arrived.registers.programCounter = target.toInt.toNat + count := by
      rw [hregisters]
    have hleave : arrived.step p = _ := Machine.step_ret hstatus (by omega) (by rw [hpc, hret])
    rw [hleave, hregisters]
    exact ⟨_, rfl, hstatus, rfl, rfl⟩

/-- The call is on the last slot and its body right before it. With a value on the stack the run
comes to the address past the last; without one it fails inside the body. -/
theorem leaf_call_runs_body_before_call :
    let p : Program := {
      slots := #[some (.push 7), none, some .mult, some .print, some .ret, some (.call 0)]
      capacity := 5, pointer := 0 }
    let body : List Instruction := [.push 7, .mult, .print]
    let calling := fun (stack : List Word) => ({
      registers := { programCounter := 5, returnRegister := 40 }, stack := ⟨stack⟩ } : Machine)
    let m := (calling [6, 1]).after p 6
    let m' := (calling []).after p 6
    p.instructionsIn 0 4 = body ∧
    ((calling [6, 1]).values.applyAll body = .ok ⟨[1], [42]⟩ ∧ m.status = .running ∧
      m.registers = { programCounter := 6, returnRegister := 6 } ∧ m.values = ⟨[1], [42]⟩) ∧
    ((calling []).values.applyAll body = .error (.stackUnderflow, ⟨[], []⟩) ∧
      m'.status = .failed .stackUnderflow ∧ m'.values = ⟨[], []⟩) := by
  intro p body calling m m'
  have hplain : ∀ j < 4, ∀ i, p.get? ((0 : Word).toInt.toNat + j) = some i → i.isPlain := by
    intro j hj i hi
    have hall : ∀ j < 4, (p.get? ((0 : Word).toInt.toNat + j)).all (·.isPlain) := by decide
    have hslot := hall j hj
    rw [hi] at hslot
    exact hslot
  have hinstructions : p.instructionsIn 0 4 = body := by decide
  have hok : (calling [6, 1]).values.applyAll body = .ok ⟨[1], [42]⟩ := by decide +kernel
  have herror : (calling []).values.applyAll body = .error (.stackUnderflow, ⟨[], []⟩) := by
    decide +kernel
  have hruns := fun stack => leaf_call_runs_body (p := p) (m := calling stack) rfl
    (show 5 ≤ 5 by decide) (show p.get? 5 = some (.call 0) by decide) (by decide) (by decide)
    hplain (by decide)
  refine ⟨hinstructions, ⟨hok, ?_⟩, herror, ?_⟩
  · rcases hruns [6, 1] with ⟨_, _, h, -⟩ | ⟨v, h, hafter⟩
    · cases hok.symm.trans h
    · cases hok.symm.trans h
      exact hafter
  · rcases hruns [] with ⟨_, _, h, hafter⟩ | ⟨v, h, -⟩
    · cases herror.symm.trans h
      exact hafter
    · cases herror.symm.trans h

end StackComputer
