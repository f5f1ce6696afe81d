import StackComputer.Proofs.Slots
import StackComputer.Proofs.Steps

/-! # Programs that only go forward

Without returns, and with calls that go up or nowhere, each step of a run raises the program counter
until the run ends. So it ends after one step for each slot from its start on and one to run off the
end, whatever the slots and the return register hold. One return is enough to lose this: it can go
back to where the run started.
-/

namespace StackComputer

structure Program.ForwardOnly (p : Program) : Prop where
  noReturn : ∀ a ≤ p.capacity, p.get? a ≠ some .ret
  calls : ∀ a ≤ p.capacity, ∀ target, p.get? a = some (.call target) →
    a < target.toInt ∨ target.toInt < 0

namespace Machine

variable {p : Program} {m : Machine} {n : Nat}

theorem programCounter_lt_step (hp : p.ForwardOnly) (hm : m.status = .running)
    (h : (m.step p).status = .running) :
    m.registers.programCounter < (m.step p).registers.programCounter := by
  have hs := m.steps_step p
  generalize m.step p = m' at hs h
  cases hs with
  | ended hended => exact absurd hm hended
  | past _ hlt => cases h
  | empty _ hle hslot => exact Nat.lt_succ_self _
  | @filled i _ hle hslot =>
    have hi := m.performs_perform p.capacity i
    generalize m.perform p.capacity i = m' at hi h
    cases hi with
    | push value => exact Nat.lt_succ_self _
    | print hs => exact Nat.lt_succ_self _
    | mult hs hw => exact Nat.lt_succ_self _
    | call ht =>
      have hcall := hp.calls _ hle _ hslot
      simp only
      omega
    | ret => exact absurd hslot (hp.noReturn _ hle)
    | printUnderflow hs => cases h
    | multOverflow hs hw => cases h
    | multUnderflow hs => cases h
    | callUnknown ht => cases h
    | stop => cases h

theorem programCounter_add_le (hp : p.ForwardOnly) (h : (m.after p n).status = .running) :
    m.registers.programCounter + n ≤ (m.after p n).registers.programCounter := by
  induction n with
  | zero => exact Nat.le_refl _
  | succ n ih =>
    have hn := running_of_le (Nat.le_succ n) h
    rw [after_succ] at h ⊢
    have hlt := programCounter_lt_step hp hn h
    have hle := ih hn
    omega

/-- The last of these steps finds the program counter past all slots, if the run gets there. -/
theorem ended_of_forwardOnly (hp : p.ForwardOnly)
    (hn : p.capacity < m.registers.programCounter + n) :
    (m.after p (n + 1)).status ≠ .running := by
  intro h
  have hrunning := running_of_le (Nat.le_succ n) h
  have hle := programCounter_add_le hp hrunning
  rw [after_succ, step_past hrunning (by omega)] at h
  cases h

end Machine

theorem Status.halted_or_failed {s : Status} (h : s ≠ .running) :
    (∃ output, s = .halted output) ∨ ∃ fault, s = .failed fault := by
  cases s with
  | running => exact absurd rfl h
  | halted output => exact .inl ⟨output, rfl⟩
  | failed fault => exact .inr ⟨fault, rfl⟩

/-- A run of a program that only goes forward halts or fails, whatever the registers are at first.
It takes a step for each slot that is left at most and one more; from past that it takes one. -/
theorem forward_only_run_ends {p : Program} (hp : p.ForwardOnly) (initial : Registers) :
    let ends := fun steps : Nat =>
      let status := (Machine.run p steps (.start initial) #[]).1.status
      (∃ output, status = .halted output) ∨ ∃ fault, status = .failed fault
    (initial.programCounter ≤ p.capacity + 1 → ends (p.capacity + 2 - initial.programCounter)) ∧
    (p.capacity + 1 < initial.programCounter → ends 1) := by
  intro ends
  have hends : ∀ n, p.capacity < initial.programCounter + n → ends (n + 1) := by
    intro n hn
    apply Status.halted_or_failed
    rw [Machine.run_fst]
    exact Machine.ended_of_forwardOnly hp hn
  constructor
  · intro hle
    have hbound : p.capacity + 2 - initial.programCounter =
        p.capacity + 1 - initial.programCounter + 1 := by omega
    rw [hbound]
    apply hends
    omega
  · intro hlt
    apply hends 0
    omega

/-- With a return, a run can come back to where it was. -/
example : (Machine.start {}).step { slots := #[some .ret], capacity := 0, pointer := 0 } =
    .start {} := by decide

/-- Calls that skip slots, one of them past the last slot and one with a negative target; a program
without any instruction needs all of its steps. -/
theorem forward_only_run_ends_with_calls :
    let p : Program := {
      slots := #[some (.call 2), some .stop, none, some (.call 9), some (.call (-1))]
      capacity := 4, pointer := 0 }
    let blank : Program := .empty 4
    let registers := fun pc : Nat => ({ programCounter := pc, returnRegister := 1 } : Registers)
    let status := fun (p : Program) (pc steps : Nat) =>
      (Machine.run p steps (.start (registers pc)) #[]).1.status
    let ends := fun s : Status => (∃ output, s = .halted output) ∨ ∃ fault, s = .failed fault
    (p.ForwardOnly ∧ blank.ForwardOnly) ∧
    (ends (status p 0 (4 + 2 - 0)) ∧ ends (status p 4 (4 + 2 - 4)) ∧ ends (status p 40 1)) ∧
    (status blank 0 5 = .running ∧ ends (status blank 0 (4 + 2 - 0))) := by
  intro p blank registers status ends
  have hp : p.ForwardOnly := by
    constructor
    · decide
    · intro a ha target hslot
      match a, ha with
      | 0, _ | 3, _ | 4, _ =>
        cases hslot
        decide
      | 1, _ | 2, _ => cases hslot
      | _ + 5, h => exact absurd h (by simp [p])
  have hblank : blank.ForwardOnly := by
    constructor
    · intro a ha hslot
      cases (Program.get?_empty 4 a).symm.trans hslot
    · intro a ha target hslot
      cases (Program.get?_empty 4 a).symm.trans hslot
  have hruns : ∀ pc ≤ 5, ends (status p pc (4 + 2 - pc)) :=
    fun pc => (forward_only_run_ends hp (registers pc)).1
  have hblankRuns : ∀ pc ≤ 5, ends (status blank pc (4 + 2 - pc)) :=
    fun pc => (forward_only_run_ends hblank (registers pc)).1
  have hpast : ∀ pc > 5, ends (status p pc 1) :=
    fun pc => (forward_only_run_ends hp (registers pc)).2
  exact ⟨⟨hp, hblank⟩, ⟨hruns 0 (by decide), hruns 4 (by decide), hpast 40 (by decide)⟩,
    by decide +kernel, hblankRuns 0 (by decide)⟩

end StackComputer
