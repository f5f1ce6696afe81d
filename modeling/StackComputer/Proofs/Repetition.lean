import StackComputer.Proofs.Restoration
import StackComputer.Proofs.Steps

/-! # Running a computer again

A run moves the registers, and they are put back once it has ended, whichever way it has. So the
computer is the same after a run as before it, and a second run comes to the same result with the
same events. The result is that of the steps of a machine of its own, and it depends on the
capacity, the slots and the registers only.
-/

namespace StackComputer

namespace Machine

variable {p : Program} {m : Machine}

theorem run_of_le {fuel more : Nat} {log : Array Event} (hle : fuel ≤ more)
    (h : (run p fuel m log).1.status ≠ .running) : run p more m log = run p fuel m log := by
  induction fuel generalizing m log more with
  | zero =>
    have hm : m.isRunning = false := isRunning_eq_false_iff.mpr h
    cases more with
    | zero => rfl
    | succ more => simp [run, hm]
  | succ fuel ih =>
    obtain ⟨more, rfl⟩ := Nat.exists_eq_add_of_lt hle
    cases hm : m.isRunning with
    | false => simp [run, hm]
    | true =>
      simp only [run, hm, if_true] at h ⊢
      exact ih (by omega) h

end Machine

namespace Computer

variable {c : Computer} {fuel : Nat} {o : Outcome Computer Fault (List Word)}

theorem execute_of_le {more : Nat} (h : c.execute fuel = some o) (hle : fuel ≤ more) :
    c.execute more = some o := by
  have hended : (Machine.run c.program fuel (.start c.registers) #[]).1.status ≠ .running := by
    intro hrunning
    simp only [execute, hrunning] at h
    cases h
  rw [← h]
  simp only [execute, Machine.run_of_le hle hended]

theorem execute_unique {other : Nat} {o' : Outcome Computer Fault (List Word)}
    (h : c.execute fuel = some o) (h' : c.execute other = some o') : o' = o := by
  rcases Nat.le_total fuel other with hle | hle
  · exact Option.some.inj (h'.symm.trans (execute_of_le h hle))
  · exact Option.some.inj ((execute_of_le h' hle).symm.trans h)

/-- What a run comes to is what its first steps come to, up to the one that ends it. -/
theorem exists_steps_of_execute (h : c.execute fuel = some o) :
    ∃ n ≤ fuel, (∀ k < n, ((Machine.start c.registers).after c.program k).status = .running) ∧
      ((Machine.start c.registers).after c.program n).status.result? = some o.result := by
  have hresult := c.result_execute fuel
  rw [h, Option.map_some] at hresult
  obtain ⟨last, hlt, hlast, heq⟩ := Machine.exists_last_step (m := .start c.registers) rfl
    (Status.ne_running_of_result? hresult.symm)
  refine ⟨last + 1, hlt, ?_, ?_⟩
  · intro k hk
    exact Machine.running_of_le (Nat.le_of_lt_succ hk) hlast
  · rw [heq, hresult]

end Computer

/-- If a run of a computer ends, well or not, the computer is the same afterwards in all its parts
and a second run has the same outcome. It ends if and only if the steps of a machine of its own do,
with the same result. Computers with the same slots, capacity and registers come to the same result,
whatever their write pointers and policies. -/
theorem execute_is_repeatable (c : Computer) :
    let steps := fun n => ((Machine.start c.registers).after c.program n).status
    (∀ fuel o, c.execute fuel = some o →
      o.state = c ∧
      (∀ more ≥ fuel, o.state.execute more = some o) ∧
      (∀ other o', o.state.execute other = some o' → o' = o) ∧
      ∃ n ≤ fuel, (∀ k < n, steps k = .running) ∧ (steps n).result? = some o.result) ∧
    (∀ n r, (steps n).result? = some r → ∃ o, c.execute n = some o ∧ o.result = r) ∧
    (∀ d : Computer, d.capacity = c.capacity → d.registers = c.registers →
      (∀ a ≤ c.capacity, d.program.get? a = c.program.get? a) →
      ∀ fuel, (d.execute fuel).map (·.result) = (c.execute fuel).map (·.result)) := by
  intro steps
  refine ⟨?_, ?_, ?_⟩
  · intro fuel o ho
    have hstate := Computer.state_of_execute ho
    rw [hstate]
    refine ⟨rfl, ?_, ?_, Computer.exists_steps_of_execute ho⟩
    · intro more hle
      exact Computer.execute_of_le ho hle
    · intro other o' ho'
      exact Computer.execute_unique ho ho'
  · intro n r hr
    exact Computer.execute_of_result? hr (Nat.le_refl n)
  · intro d hcapacity hregisters hslots fuel
    have hcode : c.program.SameCode d.program := ⟨hcapacity, hslots⟩
    rw [Computer.result_execute, Computer.result_execute, hregisters,
      Machine.after_of_sameCode hcode]

/-- A run that fails behind a call: it has moved both registers by then, and put out a value. -/
theorem execute_is_repeatable_after_failure :
    let slots := #[some (.call 2), some .print, some (.push 3), some .print, some .ret]
    let registers : Registers := { programCounter := 0, returnRegister := 9 }
    let c : Computer :=
      { program := { slots, capacity := 4, pointer := 5 }, registers, policy := .strict }
    let d : Computer :=
      { program := { slots, capacity := 4, pointer := 0 }, registers, policy := .lenient }
    ((Machine.start registers).after c.program 5).registers =
      { programCounter := 1, returnRegister := 1 } ∧
    (∃ o, c.execute 5 = some o ∧ o.result = .error .stackUnderflow ∧ o.state = c ∧
      o.state.execute 40 = some o) ∧
    (d.execute 5).map (·.result) = some (.error .stackUnderflow) := by
  intro slots registers c d
  have hmoved : ((Machine.start registers).after c.program 5).registers =
      { programCounter := 1, returnRegister := 1 } := by decide +kernel
  have hfails : ((Machine.start registers).after c.program 5).status.result? =
      some (.error .stackUnderflow) := by decide +kernel
  obtain ⟨hagain, hends, halike⟩ := execute_is_repeatable c
  obtain ⟨o, ho, hresult⟩ := hends 5 _ hfails
  obtain ⟨hstate, hmore, -, -⟩ := hagain 5 o ho
  refine ⟨hmoved, ⟨o, ho, hresult, hstate, hmore 40 (by decide)⟩, ?_⟩
  rw [halike d rfl rfl (fun _ _ => rfl) 5, ho, Option.map_some, hresult]

end StackComputer
