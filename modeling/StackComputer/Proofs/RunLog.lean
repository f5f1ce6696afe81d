import StackComputer.Proofs.BuildLog
import StackComputer.Proofs.ControlFlow
import StackComputer.Proofs.Faults

/-! # Logs of runs

A run reports each filled slot that it comes to, and at last how it has ended. This is enough to
account for the run: the operand stack is as deep as there were more pushes than prints and
multiplications, the next address follows from the last visit or, for a return, from the last call,
and as many values are put out as there were prints.
-/

namespace StackComputer

structure Visit where
  address : Nat
  instruction : Instruction
  deriving DecidableEq, Repr

namespace Visit

/-- Where a return goes: behind the most recent call or, before any call, where the return register
says at first. -/
def returnsTo (initial : Registers) (seen : List Visit) : Nat :=
  match (seen.filter fun v => v.instruction.opcode = .call).getLast? with
  | some v => v.address + 1
  | none => initial.returnRegister

def resumesAt (initial : Registers) (seen : List Visit) : Nat :=
  match seen.getLast? with
  | none => initial.programCounter
  | some v =>
    match v.instruction with
    | .call target => target.toInt.toNat
    | .ret => returnsTo initial seen
    | _ => v.address + 1

theorem returnsTo_concat (initial : Registers) (seen : List Visit) (v : Visit) :
    returnsTo initial (seen ++ [v]) =
      if v.instruction.opcode = .call then v.address + 1 else returnsTo initial seen := by
  by_cases h : v.instruction.opcode = .call
  · simp [returnsTo, List.filter_append, h]
  · simp [returnsTo, List.filter_append, h]

/-- Visits tell the registers: one more of them changes both as its instruction does. -/
theorem resumes_concat {initial r : Registers} {seen : List Visit}
    (h : r.returnRegister = returnsTo initial seen) (i : Instruction) :
    let seen' := seen ++ [⟨r.programCounter, i⟩]
    i.next r = { programCounter := resumesAt initial seen'
                 returnRegister := returnsTo initial seen' } := by
  intro seen'
  have hlast : seen'.getLast? = some ⟨r.programCounter, i⟩ := List.getLast?_concat ..
  have hreturn := returnsTo_concat initial seen ⟨r.programCounter, i⟩
  rw [resumesAt, hlast, hreturn, ← h]
  cases i with
  | push value => rfl
  | print => rfl
  | mult => rfl
  | call target => rfl
  | ret => rfl
  | stop => rfl

end Visit

structure Program.FirstFilled (p : Program) (start : Nat) (v : Visit) : Prop where
  start_le : start ≤ v.address
  le_capacity : v.address ≤ p.capacity
  filled : p.get? v.address = some v.instruction
  passed : ∀ a, start ≤ a → a < v.address → p.get? a = none

namespace Machine

variable {p : Program} {m : Machine} {initial : Registers} {seen : List Visit}

def visit? (p : Program) (m : Machine) : Option Visit :=
  (m.current? p).map fun i => ⟨m.registers.programCounter, i⟩

def visits (p : Program) (n : Nat) (m : Machine) : List Visit :=
  (List.range n).filterMap fun k => (m.after p k).visit? p

theorem visit?_eq_some_iff {v : Visit} : m.visit? p = some v ↔
    m.current? p = some v.instruction ∧ v.address = m.registers.programCounter := by
  rw [visit?, Option.map_eq_some_iff]
  constructor
  · rintro ⟨i, hi, rfl⟩
    exact ⟨hi, rfl⟩
  · rintro ⟨hi, haddress⟩
    exact ⟨v.instruction, hi, by rw [← haddress]⟩

theorem visits_add (a b : Nat) (m : Machine) :
    m.visits p (a + b) = m.visits p a ++ (m.after p a).visits p b := by
  simp only [visits, List.range_add, List.filterMap_append, List.filterMap_map, Function.comp_def,
    after_add]

theorem visits_succ (n : Nat) (m : Machine) :
    m.visits p (n + 1) = m.visits p n ++ ((m.after p n).visit? p).toList := by
  rw [visits_add]
  cases h : (m.after p n).visit? p <;> simp [visits, after, h]

theorem visits_of_ended (hm : m.status ≠ .running) (n : Nat) : m.visits p n = [] := by
  rw [visits, List.filterMap_eq_nil_iff]
  intro k _
  rw [after_of_not_running (isRunning_eq_false_iff.mpr hm), visit?, current?, if_neg (by simp [hm])]
  rfl

theorem size_output_perform {capacity : Nat} {i : Instruction}
    (h : (m.perform capacity i).status = .running) :
    (m.perform capacity i).output.size = m.output.size + [i].countP (· = .print) := by
  have hp := m.performs_perform capacity i
  generalize m.perform capacity i = m' at hp h
  cases hp with
  | push value => rfl
  | print hs => exact Array.size_push _
  | mult hs hw => rfl
  | call ht => rfl
  | ret => rfl
  | printUnderflow hs => cases h
  | multUnderflow hs => cases h
  | multOverflow hs hw => cases h
  | callUnknown ht => cases h
  | stop => cases h

/-- How a machine that is running can be told from the visits of its run: since the last of them it
has passed empty slots only. -/
structure Tracks (p : Program) (initial : Registers) (m : Machine) (seen : List Visit) :
    Prop where
  returnRegister : m.registers.returnRegister = Visit.returnsTo initial seen
  resumesAt_le : Visit.resumesAt initial seen ≤ m.registers.programCounter
  passed : ∀ a, Visit.resumesAt initial seen ≤ a → a < m.registers.programCounter →
    p.get? a = none
  depth : (m.stack.size : Int) = Instruction.depth (seen.map (·.instruction))
  outputs : m.output.size = seen.countP (·.instruction = .print)

namespace Tracks

theorem start (p : Program) (initial : Registers) :
    (Machine.start initial).Tracks p initial [] where
  returnRegister := rfl
  resumesAt_le := Nat.le_refl _
  passed _ hle hlt := absurd hlt (Nat.not_lt.mpr hle)
  depth := rfl
  outputs := rfl

theorem advance (h : m.Tracks p initial seen)
    (hslot : p.get? m.registers.programCounter = none) : m.advance.Tracks p initial seen where
  returnRegister := h.returnRegister
  resumesAt_le := Nat.le_succ_of_le h.resumesAt_le
  passed a hle hlt := by
    by_cases ha : a = m.registers.programCounter
    · rw [ha, hslot]
    · exact h.passed a hle (Nat.lt_of_le_of_ne (Nat.le_of_lt_succ hlt) ha)
  depth := h.depth
  outputs := h.outputs

theorem perform (h : m.Tracks p initial seen) {i : Instruction}
    (hrunning : (m.perform p.capacity i).status = .running) :
    (m.perform p.capacity i).Tracks p initial (seen ++ [⟨m.registers.programCounter, i⟩]) := by
  have hregisters := (registers_perform hrunning).trans (Visit.resumes_concat h.returnRegister i)
  constructor
  · rw [hregisters]
  · rw [hregisters]
  · -- the machine stands where the run resumes, so nothing has been passed
    intro a hle hlt
    rw [hregisters] at hlt
    exact absurd hlt (Nat.not_lt.mpr hle)
  · rw [size_perform hrunning, h.depth, List.map_append, Instruction.depth_append]
    rfl
  · rw [size_output_perform hrunning, h.outputs, List.countP_append]
    rfl

theorem step (h : m.Tracks p initial seen) (hm : m.status = .running)
    (hrunning : (m.step p).status = .running) :
    (m.step p).Tracks p initial (seen ++ (m.visit? p).toList) := by
  have hs := m.steps_step p
  generalize m.step p = m' at hs hrunning
  cases hs with
  | ended hended => exact absurd hm hended
  | past _ hlt => cases hrunning
  | empty _ hle hslot =>
    have hnone : m.visit? p = none := by
      rw [visit?, current?, if_pos ⟨hm, hle⟩, hslot, Option.map_none]
    rw [hnone, Option.toList_none, List.append_nil]
    exact h.advance hslot
  | filled _ hle hslot =>
    rw [visit?, current?_eq_some_iff.mpr ⟨hm, hle, hslot⟩]
    exact h.perform hrunning

theorem after {n : Nat} (hn : ((Machine.start initial).after p n).status = .running) :
    ((Machine.start initial).after p n).Tracks p initial ((Machine.start initial).visits p n) := by
  induction n with
  | zero => exact start p initial
  | succ n ih =>
    have hprevious := running_of_le (Nat.le_succ n) hn
    rw [after_succ] at hn ⊢
    rw [visits_succ]
    exact (ih hprevious).step hprevious hn

theorem firstFilled (h : m.Tracks p initial seen) {v : Visit} (hv : m.visit? p = some v) :
    p.FirstFilled (Visit.resumesAt initial seen) v := by
  obtain ⟨hi, haddress⟩ := visit?_eq_some_iff.mp hv
  obtain ⟨-, hle, hslot⟩ := current?_eq_some_iff.mp hi
  rw [← haddress] at hle hslot
  exact ⟨haddress ▸ h.resumesAt_le, hle, hslot, haddress ▸ h.passed⟩

end Tracks

theorem opening_eq (hm : m.status = .running) : m.opening p =
    (m.visit? p).toList.map fun v => .performing v.address v.instruction m.stack.size := by
  rw [opening, visit?, current?]
  by_cases hle : m.registers.programCounter ≤ p.capacity
  · rw [if_pos hle, if_pos ⟨hm, hle⟩]
    cases p.get? m.registers.programCounter <;> rfl
  · rw [if_neg hle, if_neg (fun h => hle h.2)]
    rfl

theorem closing_of_running (hm : m.status = .running) : m.closing p = [] := by
  simp [closing, hm]

theorem journal_add (a b : Nat) (m : Machine) :
    m.journal p (a + b) = m.journal p a ++ (m.after p a).journal p b := by
  induction a generalizing m with
  | zero => simp [journal, after]
  | succ a ih =>
    by_cases hm : m.isRunning
    · rw [Nat.succ_add, journal, journal, if_pos hm, if_pos hm, ih, after, List.append_assoc,
        List.append_assoc, List.append_assoc]
    · rw [Bool.not_eq_true] at hm
      rw [after_of_not_running hm, journal_of_not_running hm, journal_of_not_running hm,
        journal_of_not_running hm, List.append_nil]

theorem journal_succ {n : Nat} (hn : (m.after p n).status = .running) :
    m.journal p (n + 1) =
      m.journal p n ++ (m.after p n).opening p ++ (m.after p (n + 1)).closing p := by
  rw [journal_add, journal, if_pos (isRunning_iff.mpr hn), journal, List.append_nil, after_succ,
    List.append_assoc]

end Machine

namespace Event

def visit? (e : Event) : Option Visit :=
  match e.message with
  | "exec" => do
    let address ← e.number? "pc"
    let i ← e.instruction?
    return ⟨address, i⟩
  | _ => none

/-- The event reports what comes next after visits: the first filled slot from where the run goes
on, and a stack as deep as the visits have left it. -/
def Follows (p : Program) (initial : Registers) (seen : List Visit) (e : Event) : Prop :=
  ∃ v depth, e.visit? = some v ∧ p.FirstFilled (Visit.resumesAt initial seen) v ∧
    e.number? "depth" = some depth ∧ (depth : Int) = Instruction.depth (seen.map (·.instruction))

/-- The event reports how a run has ended after visits. It has halted on a stop, or where no slot is
filled from where it would go on, or it has failed in the last visit. -/
def Closes (p : Program) (initial : Registers) (seen : List Visit) (e : Event) :
    Except Fault (List Word) → Prop
  | .ok output =>
    (e.message = "halted on STOP" ∧
        (∃ v, seen.getLast? = some v ∧ v.instruction = .stop ∧ e.number? "pc" = some v.address) ∨
      e.message = "halted past last address" ∧
        ∀ a, Visit.resumesAt initial seen ≤ a → a ≤ p.capacity → p.get? a = none) ∧
    e.number? "outputs" = some output.length ∧
    output.length = seen.countP (·.instruction = .print)
  | .error fault =>
    e.message = "execution failed" ∧
    (∃ v, seen.getLast? = some v ∧ e.number? "pc" = some v.address) ∧
    e.field? "error" = some fault.message

theorem visit?_performing (v : Visit) (depth : Nat) :
    (performing v.address v.instruction depth).visit? = some v := by
  have hpc : (performing v.address v.instruction depth).number? "pc" = some v.address :=
    number?_of_field? rfl
  have hi : (performing v.address v.instruction depth).instruction? = some v.instruction :=
    instruction?_of_field? rfl
  simp only [visit?, message, hpc, hi]
  rfl

end Event

structure Explains (p : Program) (initial : Registers) (log : List Event) (seen : List Visit) :
    Prop where
  reads : log.map Event.visit? = seen.map some
  follows : ∀ (k : Nat) (e : Event), log[k]? = some e → e.Follows p initial (seen.take k)

namespace Explains

variable {p : Program} {initial : Registers} {log : List Event} {seen : List Visit} {m : Machine}

theorem nil (p : Program) (initial : Registers) : Explains p initial [] [] :=
  ⟨rfl, nofun⟩

theorem concat (h : Explains p initial log seen) {e : Event} {v : Visit} (hv : e.visit? = some v)
    (he : e.Follows p initial seen) : Explains p initial (log ++ [e]) (seen ++ [v]) := by
  have hlength : log.length = seen.length := by
    simpa using congrArg List.length h.reads
  constructor
  · simp [h.reads, hv]
  · intro k e' hk
    rcases Nat.lt_trichotomy k log.length with hlt | rfl | hgt
    · rw [List.getElem?_append_left hlt] at hk
      rw [List.take_append_of_le_length (by omega)]
      exact h.follows k e' hk
    · rw [List.getElem?_concat_length, Option.some.injEq] at hk
      rw [hlength, List.take_left, ← hk]
      exact he
    · rw [List.getElem?_eq_none (by rw [List.length_append]; exact hgt)] at hk
      cases hk

theorem opening (h : Explains p initial log seen) (ht : m.Tracks p initial seen)
    (hm : m.status = .running) :
    Explains p initial (log ++ m.opening p) (seen ++ (m.visit? p).toList) := by
  rw [Machine.opening_eq hm]
  cases hv : m.visit? p with
  | none => simpa using h
  | some v =>
    have hreads := Event.visit?_performing v m.stack.size
    exact h.concat hreads
      ⟨v, m.stack.size, hreads, ht.firstFilled hv, Event.number?_of_field? rfl, ht.depth⟩

theorem journal {n : Nat} (hn : ((Machine.start initial).after p n).status = .running) :
    Explains p initial ((Machine.start initial).journal p n)
      ((Machine.start initial).visits p n) := by
  induction n with
  | zero => exact nil p initial
  | succ n ih =>
    have hprevious := Machine.running_of_le (Nat.le_succ n) hn
    rw [Machine.journal_succ hprevious, Machine.closing_of_running hn, List.append_nil,
      Machine.visits_succ]
    exact (ih hprevious).opening (.after hprevious) hprevious

end Explains

theorem Machine.Tracks.closing {p : Program} {m : Machine} {initial : Registers}
    {seen : List Visit} (h : m.Tracks p initial seen) (hm : m.status = .running)
    {r : Except Fault (List Word)} (hr : (m.step p).status.result? = some r) :
    ∃ last, (m.step p).closing p = [last] ∧
      last.Closes p initial (seen ++ (m.visit? p).toList) r := by
  have houtputs : m.output.toList.length = seen.countP (·.instruction = .print) := h.outputs
  have hs := m.steps_step p
  generalize m.step p = m' at hs hr
  cases hs with
  | ended hended => exact absurd hm hended
  | past _ hlt =>
    cases hr
    refine ⟨.ranOff m.registers.programCounter m.output.toList.length, if_pos hlt, ?_⟩
    rw [visit?, current?, if_neg (by omega), Option.map_none, Option.toList_none, List.append_nil]
    refine ⟨.inr ⟨rfl, ?_⟩, Event.number?_of_field? rfl, houtputs⟩
    intro a hle hcapacity
    exact h.passed a hle (Nat.lt_of_le_of_lt hcapacity hlt)
  | empty _ hle hslot =>
    rw [status_advance, hm] at hr
    cases hr
  | @filled i _ hle hslot =>
    rw [visit?, current?_eq_some_iff.mpr ⟨hm, hle, hslot⟩, Option.map_some, Option.toList_some]
    cases hstatus : (m.perform p.capacity i).status with
    | running =>
      rw [hstatus] at hr
      cases hr
    | halted output =>
      obtain rfl := eq_stop_of_perform hm hstatus
      cases hr
      refine ⟨.stopped m.registers.programCounter m.output.toList.length,
        if_neg (Nat.not_lt.mpr hle), .inl ⟨rfl, _, List.getLast?_concat .., rfl, ?_⟩, ?_, ?_⟩
      · exact Event.number?_of_field? rfl
      · exact Event.number?_of_field? rfl
      · rw [List.countP_append]
        exact houtputs
    | failed fault =>
      rw [hstatus] at hr
      cases hr
      rw [perform_of_failed hm hstatus]
      refine ⟨.failed m.registers.programCounter fault, rfl, rfl, ⟨_, List.getLast?_concat .., ?_⟩,
        rfl⟩
      exact Event.number?_of_field? rfl

theorem Computer.events_of_execute {c : Computer} {fuel : Nat}
    {o : Outcome Computer Fault (List Word)} (h : c.execute fuel = some o) :
    o.events = (Machine.start c.registers).journal c.program fuel := by
  have hlog := Machine.run_snd c.program fuel (.start c.registers) #[]
  simp only [execute] at h
  split at h
  · cases h
  · cases h
    exact hlog
  · cases h
    exact hlog

/-- If a run ends, its log is one event for each filled slot that it has come to, in their order,
and one more. Each event of a slot follows from the visits before it, and the last event tells how
the run has ended. -/
theorem execution_log_accounts_for_run {c : Computer} {fuel : Nat}
    {o : Outcome Computer Fault (List Word)} (h : c.execute fuel = some o) :
    let visits := (Machine.start c.registers).visits c.program fuel
    ∃ (execs : List Event) (last : Event), o.events = execs ++ [last] ∧
      execs.map Event.visit? = visits.map some ∧
      (∀ (k : Nat) (e : Event), execs[k]? = some e →
        e.Follows c.program c.registers (visits.take k)) ∧
      last.Closes c.program c.registers visits o.result := by
  intro visits
  have hresult := c.result_execute fuel
  rw [h, Option.map_some] at hresult
  obtain ⟨k, hlt, hk, heq⟩ := Machine.exists_last_step (m := .start c.registers) rfl
    (Status.ne_running_of_result? hresult.symm)
  rw [← heq] at hresult
  have hended := Status.ne_running_of_result? hresult.symm
  have htracks := Machine.Tracks.after hk
  obtain ⟨last, hclosing, hcloses⟩ := htracks.closing hk
    (by rw [← Machine.after_succ]; exact hresult.symm)
  rw [← Machine.after_succ] at hclosing
  -- the fuel that is left is not used: a machine that has ended visits and reports nothing
  obtain ⟨left, rfl⟩ := Nat.exists_eq_add_of_le hlt
  have hvisits : visits = _ := Machine.visits_add (k + 1) left _
  have hevents := (Computer.events_of_execute h).trans (Machine.journal_add (k + 1) left _)
  rw [Machine.visits_of_ended hended, List.append_nil, Machine.visits_succ] at hvisits
  rw [Machine.journal_of_not_running (Machine.isRunning_eq_false_iff.mpr hended), List.append_nil,
    Machine.journal_succ hk, hclosing] at hevents
  have hlog := (Explains.journal hk).opening htracks hk
  rw [hvisits]
  exact ⟨_, last, hevents, hlog.reads, hlog.follows, hcloses⟩

/-- A return before any call goes where the return register says, and the ones after it behind the
call; the second of these comes to a print with nothing left. With a stop in its place the run ends
there, and a run from far behind the slots ends at once. -/
theorem execution_log_accounts_for_run_three_returns :
    let computer := fun (i : Instruction) (pc : Nat) => ({
      program := {
        slots := #[some (.call 4), some .print, some i, none, none, some (.push 7), some .ret]
        capacity := 6, pointer := 0 }
      registers := { programCounter := pc, returnRegister := 0 } } : Computer)
    let accounts := fun (c : Computer) (visits : List Visit) (r : Except Fault (List Word)) =>
      ∃ o, c.execute 9 = some o ∧ o.result = r ∧
        ∃ (execs : List Event) (last : Event), o.events = execs ++ [last] ∧
          execs.map Event.visit? = visits.map some ∧
          (∀ (k : Nat) (e : Event), execs[k]? = some e →
            e.Follows c.program c.registers (visits.take k)) ∧
          last.Closes c.program c.registers visits r
    accounts (computer .ret 2) [⟨2, .ret⟩, ⟨0, .call 4⟩, ⟨5, .push 7⟩, ⟨6, .ret⟩, ⟨1, .print⟩,
      ⟨2, .ret⟩, ⟨1, .print⟩] (.error .stackUnderflow) ∧
    accounts (computer .stop 0) [⟨0, .call 4⟩, ⟨5, .push 7⟩, ⟨6, .ret⟩, ⟨1, .print⟩, ⟨2, .stop⟩]
      (.ok [7]) ∧
    accounts (computer .stop 40) [] (.ok []) := by
  intro computer accounts
  have haccounts : ∀ (c : Computer) (visits : List Visit) (r : Except Fault (List Word)),
      ((Machine.start c.registers).after c.program 9).status.result? = some r →
      (Machine.start c.registers).visits c.program 9 = visits → accounts c visits r := by
    rintro c visits r hr rfl
    obtain ⟨o, ho, rfl⟩ := Computer.execute_of_result? hr (Nat.le_refl 9)
    exact ⟨o, ho, rfl, execution_log_accounts_for_run ho⟩
  refine ⟨?_, ?_, ?_⟩
  · exact haccounts _ _ _ (by decide +kernel) (by decide +kernel)
  · exact haccounts _ _ _ (by decide +kernel) (by decide +kernel)
  · exact haccounts _ _ _ (by decide +kernel) (by decide +kernel)

end StackComputer
