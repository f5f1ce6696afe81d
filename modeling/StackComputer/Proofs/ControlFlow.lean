import Mathlib.Data.Finset.Prod
import Mathlib.Logic.Function.Iterate
import Mathlib.Order.Interval.Finset.Nat
import StackComputer.Proofs.Steps

/-! # Control flow

Values never decide where a run goes: while nothing fails, the next registers depend on the
registers alone. There are finitely many of them, although the operand stack has no bound, so a run
that has not halted before they repeat never halts.
-/

namespace StackComputer

def Instruction.next (r : Registers) : Instruction → Registers
  | call target =>
    { programCounter := target.toInt.toNat, returnRegister := r.programCounter + 1 }
  | ret => { r with programCounter := r.returnRegister }
  | _ => { r with programCounter := r.programCounter + 1 }

namespace Program

def next (p : Program) (r : Registers) : Registers :=
  match p.get? r.programCounter with
  | none => { r with programCounter := r.programCounter + 1 }
  | some i => i.next r

def HaltsAt (p : Program) (r : Registers) : Prop :=
  p.capacity < r.programCounter ∨ p.get? r.programCounter = some .stop

theorem programCounter_le_of_not_haltsAt {p : Program} {r : Registers} (h : ¬ p.HaltsAt r) :
    r.programCounter ≤ p.capacity := by
  by_contra hgt
  exact h (.inl (Nat.not_le.mp hgt))

/-- A run leaves the return register alone or puts an address behind a slot into it. -/
theorem returnRegister_next {p : Program} {r : Registers} {initial : Nat}
    (hpc : r.programCounter ≤ p.capacity)
    (h : r.returnRegister = initial ∨ r.returnRegister ∈ Finset.Icc 1 (p.capacity + 1)) :
    (p.next r).returnRegister = initial ∨
      (p.next r).returnRegister ∈ Finset.Icc 1 (p.capacity + 1) := by
  unfold next
  cases p.get? r.programCounter with
  | none => exact h
  | some i =>
    cases i with
    | call target =>
      right
      rw [Finset.mem_Icc]
      constructor
      · exact Nat.le_add_left 1 _
      · exact Nat.add_le_add_right hpc 1
    | push value => exact h
    | print => exact h
    | mult => exact h
    | ret => exact h
    | stop => exact h

end Program

namespace Machine

variable {p : Program} {m : Machine} {n : Nat}

theorem registers_perform {capacity : Nat} {i : Instruction}
    (h : (m.perform capacity i).status = .running) :
    (m.perform capacity i).registers = i.next m.registers := by
  have hp := m.performs_perform capacity i
  generalize m.perform capacity i = m' at hp h
  cases hp with
  | push value => rfl
  | print hs => rfl
  | printUnderflow hs => cases h
  | mult hs hw => rfl
  | multOverflow hs hw => cases h
  | multUnderflow hs => cases h
  | call ht => rfl
  | callUnknown ht => cases h
  | ret => rfl
  | stop => cases h

theorem eq_stop_of_perform {capacity : Nat} {i : Instruction} {output : List Word}
    (hm : m.status = .running) (h : (m.perform capacity i).status = .halted output) :
    i = .stop := by
  have hp := m.performs_perform capacity i
  generalize m.perform capacity i = m' at hp h
  cases hp with
  | stop => rfl
  | printUnderflow hs => cases h
  | multOverflow hs hw => cases h
  | multUnderflow hs => cases h
  | callUnknown ht => cases h
  | _ => cases hm.symm.trans h

theorem registers_step (hm : m.status = .running) (h : (m.step p).status = .running) :
    (m.step p).registers = p.next m.registers := by
  rcases Nat.lt_or_ge p.capacity m.registers.programCounter with hlt | hle
  · rw [step_past hm hlt] at h
    cases h
  · cases hs : p.get? m.registers.programCounter with
    | none =>
      rw [step_empty hm hle hs, Program.next, hs]
      rfl
    | some i =>
      rw [step_filled hm hle hs] at h ⊢
      rw [registers_perform h, Program.next, hs]

theorem halted_step_iff (hm : m.status = .running) :
    (∃ output, (m.step p).status = .halted output) ↔ p.HaltsAt m.registers := by
  constructor
  · rintro ⟨output, h⟩
    rcases Nat.lt_or_ge p.capacity m.registers.programCounter with hlt | hle
    · exact .inl hlt
    · right
      cases hs : p.get? m.registers.programCounter with
      | none =>
        rw [step_empty hm hle hs, status_advance, hm] at h
        cases h
      | some i =>
        rw [step_filled hm hle hs] at h
        rw [eq_stop_of_perform hm h]
  · intro h
    rcases Nat.lt_or_ge p.capacity m.registers.programCounter with hlt | hle
    · exact ⟨_, by rw [step_past hm hlt, status_halt]⟩
    · rcases h with hlt | hs
      · omega
      · exact ⟨_, by rw [step_filled hm hle hs, perform, status_halt]⟩

theorem registers_after (h : (m.after p n).status = .running) :
    (m.after p n).registers = p.next^[n] m.registers := by
  induction n with
  | zero => rfl
  | succ n ih =>
    have hn := running_of_le (Nat.le_succ n) h
    rw [after_succ] at h ⊢
    rw [registers_step hn h, ih hn, Function.iterate_succ_apply']

theorem not_haltsAt_of_running (h : (m.after p (n + 1)).status = .running) :
    ¬ p.HaltsAt (p.next^[n] m.registers) := by
  intro hhalts
  have hn := running_of_le (Nat.le_succ n) h
  rw [← registers_after hn, ← halted_step_iff hn, ← after_succ, h] at hhalts
  obtain ⟨output, hout⟩ := hhalts
  cases hout

theorem returnRegister_after (h : (m.after p n).status = .running) :
    (p.next^[n] m.registers).returnRegister = m.registers.returnRegister ∨
      (p.next^[n] m.registers).returnRegister ∈ Finset.Icc 1 (p.capacity + 1) := by
  induction n with
  | zero => exact .inl rfl
  | succ n ih =>
    rw [Function.iterate_succ_apply']
    apply Program.returnRegister_next
    · exact Program.programCounter_le_of_not_haltsAt (not_haltsAt_of_running h)
    · exact ih (running_of_le (Nat.le_succ n) h)

/-- If the registers come back, the run goes round: it does not halt. -/
theorem registers_ne_of_halts {last i j : Nat} (hlast : (m.after p last).status = .running)
    (hhalts : p.HaltsAt (p.next^[last] m.registers)) (hij : i < j) (hj : j ≤ last) :
    p.next^[i] m.registers ≠ p.next^[j] m.registers := by
  intro heq
  have hearlier : p.next^[last - j + i] m.registers = p.next^[last] m.registers := by
    calc p.next^[last - j + i] m.registers
        = p.next^[last - j] (p.next^[i] m.registers) := Function.iterate_add_apply ..
      _ = p.next^[last - j] (p.next^[j] m.registers) := by rw [heq]
      _ = p.next^[last - j + j] m.registers := (Function.iterate_add_apply ..).symm
      _ = p.next^[last] m.registers := by rw [Nat.sub_add_cancel hj]
  have hrunning : (m.after p (last - j + i + 1)).status = .running :=
    running_of_le (by omega) hlast
  apply not_haltsAt_of_running hrunning
  rw [hearlier]
  exact hhalts

/-- The registers of a run before its last step: the program counter is on a slot, and the return
register is the initial one or behind a slot. -/
def visitable (p : Program) (initial : Registers) : Finset Registers :=
  (Finset.range (p.capacity + 1) ×ˢ
    insert initial.returnRegister (Finset.Icc 1 (p.capacity + 1))).image fun x => ⟨x.1, x.2⟩

theorem card_visitable_le (p : Program) (initial : Registers) :
    (visitable p initial).card ≤ (p.capacity + 1) * (p.capacity + 2) := by
  have hreturn : (insert initial.returnRegister (Finset.Icc 1 (p.capacity + 1))).card ≤
      p.capacity + 2 := by
    have hinsert := Finset.card_insert_le initial.returnRegister (Finset.Icc 1 (p.capacity + 1))
    rw [Nat.card_Icc] at hinsert
    omega
  calc (visitable p initial).card
      ≤ _ := Finset.card_image_le
    _ = (p.capacity + 1) *
          (insert initial.returnRegister (Finset.Icc 1 (p.capacity + 1))).card := by
        rw [Finset.card_product, Finset.card_range]
    _ ≤ (p.capacity + 1) * (p.capacity + 2) := Nat.mul_le_mul_left _ hreturn

theorem mem_visitable {k last : Nat} (hk : k < last)
    (hlast : (m.after p last).status = .running) :
    p.next^[k] m.registers ∈ visitable p m.registers := by
  have hpc := Program.programCounter_le_of_not_haltsAt
    (not_haltsAt_of_running (running_of_le hk hlast))
  have hreturn := returnRegister_after (running_of_le (Nat.le_of_lt hk) hlast)
  rw [visitable, Finset.mem_image]
  refine ⟨((p.next^[k] m.registers).programCounter, (p.next^[k] m.registers).returnRegister), ?_,
    rfl⟩
  rw [Finset.mem_product, Finset.mem_range, Finset.mem_insert]
  exact ⟨Nat.lt_succ_of_le hpc, hreturn⟩

theorem last_step_le {last : Nat} (hlast : (m.after p last).status = .running)
    (hhalts : p.HaltsAt (p.next^[last] m.registers)) :
    last ≤ (p.capacity + 1) * (p.capacity + 2) := by
  have hmaps : ∀ k ∈ Finset.range last, p.next^[k] m.registers ∈ visitable p m.registers := by
    intro k hk
    exact mem_visitable (Finset.mem_range.mp hk) hlast
  have hinj : Set.InjOn (fun k => p.next^[k] m.registers) (Finset.range last) := by
    intro i hi j hj heq
    rw [Finset.mem_coe, Finset.mem_range] at hi hj
    rcases Nat.lt_trichotomy i j with hlt | hij | hlt
    · exact absurd heq (registers_ne_of_halts hlast hhalts hlt (Nat.le_of_lt hj))
    · exact hij
    · exact absurd heq.symm (registers_ne_of_halts hlast hhalts hlt (Nat.le_of_lt hi))
  calc last = (Finset.range last).card := (Finset.card_range last).symm
    _ ≤ (visitable p m.registers).card := Finset.card_le_card_of_injOn _ hmaps hinj
    _ ≤ (p.capacity + 1) * (p.capacity + 2) := card_visitable_le p m.registers

end Machine

/-- A run that halts at all does so before the registers can repeat, whatever they are at first; so
a run that goes on for longer does not halt any more. -/
theorem halts_before_registers_repeat (p : Program) (registers : Registers) :
    let run := fun n => (Machine.start registers).after p n
    let bound := (p.capacity + 1) * (p.capacity + 2) + 1
    (∀ n output, (run n).status = .halted output →
      ∃ k ≤ bound, (run k).status = .halted output) ∧
    ((run bound).status = .running → ∀ n output, (run n).status ≠ .halted output) := by
  intro run bound
  have hbound : ∀ n output, (run n).status = .halted output →
      ∃ k ≤ bound, (run k).status = .halted output := by
    intro n output hn
    have hended : (run n).status ≠ .running := by simp [hn]
    obtain ⟨last, -, hlast, heq⟩ := Machine.exists_last_step (m := .start registers) rfl hended
    rw [← show _ = run n from heq] at hn
    refine ⟨last + 1, ?_, hn⟩
    have hhalts : p.HaltsAt (p.next^[last] registers) := by
      rw [← show _ = p.next^[last] registers from Machine.registers_after hlast,
        ← Machine.halted_step_iff hlast]
      exact ⟨output, by rw [← Machine.after_succ, hn]⟩
    have hle := Machine.last_step_le hlast hhalts
    omega
  refine ⟨hbound, ?_⟩
  intro hrunning n output hn
  obtain ⟨k, hk, hhalted⟩ := hbound n output hn
  have hk' := Machine.running_of_le hk hrunning
  rw [show ((Machine.start registers).after p k).status = _ from hhalted] at hk'
  cases hk'

/-- A slot that is visited twice, with different return registers; and a loop that pushes for ever,
so that no state of the machine comes twice. -/
theorem halts_before_registers_repeat_or_loops :
    let p : Program :=
      { slots := #[some (.call 3), some (.call 3), some .stop, some .ret], capacity := 3,
        pointer := 0 }
    let loop : Program :=
      { slots := #[some (.push 7), some (.call 0)], capacity := 1, pointer := 0 }
    let r : Registers := { returnRegister := 9 }
    (((Machine.start r).after p 30).status = .halted [] ∧
      ∃ k ≤ 21, ((Machine.start r).after p k).status = .halted []) ∧
    (((Machine.start r).after loop 7).status = .running ∧
      ∀ n output, ((Machine.start r).after loop n).status ≠ .halted output) := by
  intro p loop r
  have hp : ((Machine.start r).after p 30).status = .halted [] := by decide +kernel
  have hloop : ((Machine.start r).after loop 7).status = .running := by decide +kernel
  constructor
  · exact ⟨hp, (halts_before_registers_repeat p r).1 30 [] hp⟩
  · exact ⟨hloop, (halts_before_registers_repeat loop r).2 hloop⟩

end StackComputer
