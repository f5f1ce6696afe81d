import StackComputer.Proofs.Slots

/-! # A program as a map with a cursor

Operations on a program, from the empty one on, each of which may fail. The table of slots keeps its
size, and what is in a slot is what was last written there. The write pointer may stand one past the
last address: an insertion can leave it there, it can be restored there, and it cannot be set there.
-/

namespace StackComputer

namespace Program

inductive Operation where
  | setPointer (address : Nat)
  | restorePointer (address : Nat)
  | insert (i : Instruction)
  | place (address : Nat) (i : Instruction)
  deriving DecidableEq, Repr

namespace Operation

def attempt (p : Program) : Operation → Except Fault Program
  | setPointer address => p.setPointer address
  | restorePointer address => p.restorePointer address
  | insert i => p.insert i
  | place address i => p.place address i

def perform (op : Operation) (p : Program) : Except Fault Unit × Program :=
  match op.attempt p with
  | .ok q => (.ok (), q)
  | .error fault => (.error fault, p)

def address (p : Program) : Operation → Nat
  | insert _ => p.pointer
  | setPointer address | restorePointer address | place address _ => address

def limit (p : Program) : Operation → Nat
  | restorePointer _ => p.capacity + 1
  | _ => p.capacity

def pointerAfter (p : Program) : Operation → Nat
  | setPointer address | restorePointer address => address
  | insert _ => p.pointer + 1
  | place _ _ => p.pointer

def instruction? : Operation → Option Instruction
  | insert i | place _ i => some i
  | setPointer _ | restorePointer _ => none

def writes (op : Operation) (p : Program) : List (Nat × Instruction) :=
  match (op.perform p).1 with
  | .ok () => (op.instruction?.map fun i => (op.address p, i)).toList
  | .error _ => []

inductive Ends (op : Operation) (p : Program) : Except Fault Unit × Program → Prop where
  | refused : op.limit p < op.address p →
      Ends op p (.error (.invalidAddress (op.address p) p.capacity), p)
  | done {q : Program} : op.address p ≤ op.limit p → q.capacity = p.capacity →
      q.slots.size = p.slots.size → q.pointer = op.pointerAfter p →
      (∀ a, q.get? a = ((op.writes p).reverse.lookup a).or (p.get? a)) → Ends op p (.ok (), q)

theorem perform_of_ok {op : Operation} {p q : Program} (h : op.attempt p = .ok q) :
    op.perform p = (.ok (), q) := by
  rw [perform, h]

theorem perform_of_error {op : Operation} {p : Program} {fault : Fault}
    (h : op.attempt p = .error fault) : op.perform p = (.error fault, p) := by
  rw [perform, h]

theorem attempt_of_lt {op : Operation} {p : Program} (h : op.limit p < op.address p) :
    op.attempt p = .error (.invalidAddress (op.address p) p.capacity) := by
  have hnot : ¬ op.address p ≤ op.limit p := Nat.not_le.mpr h
  cases op with
  | setPointer address => exact if_neg hnot
  | restorePointer address => exact if_neg hnot
  | insert i =>
    have hplace : p.place p.pointer i = .error (.invalidAddress p.pointer p.capacity) := if_neg hnot
    rw [attempt, Program.insert, hplace]
    rfl
  | place address i => exact if_neg hnot

theorem writes_of_ok {op : Operation} {p q : Program} (h : op.attempt p = .ok q) :
    op.writes p = (op.instruction?.map fun i => (op.address p, i)).toList := by
  rw [writes, perform_of_ok h]

theorem writes_of_error {op : Operation} {p : Program} {fault : Fault}
    (h : op.attempt p = .error fault) : op.writes p = [] := by
  rw [writes, perform_of_error h]

theorem ends_perform (op : Operation) {p : Program} (hp : p.WellFormed) :
    op.Ends p (op.perform p) := by
  have hwritten : ∀ address i, address ≤ p.capacity → ∀ a,
      get? { p with slots := p.slots.setIfInBounds address (some i) } a =
        ([(address, i)].lookup a).or (p.get? a) := by
    intro address i hle a
    rw [get?_set hp.size_slots i hle, lookup_cons_eq_if]
    by_cases ha : a = address <;> simp [ha]
  rcases Nat.lt_or_ge (op.limit p) (op.address p) with hlt | hle
  · rw [perform_of_error (attempt_of_lt hlt)]
    exact .refused hlt
  · cases op with
    | setPointer address =>
      have hok : (setPointer address).attempt p = .ok { p with pointer := address } := if_pos hle
      rw [perform_of_ok hok]
      refine .done hle rfl rfl rfl ?_
      rw [writes_of_ok hok]
      intro a
      rfl
    | restorePointer address =>
      have hok : (restorePointer address).attempt p = .ok { p with pointer := address } :=
        if_pos hle
      rw [perform_of_ok hok]
      refine .done hle rfl rfl rfl ?_
      rw [writes_of_ok hok]
      intro a
      rfl
    | insert i =>
      have hok : (insert i).attempt p = .ok _ := insert_eq_ok_iff.mpr ⟨hle, rfl⟩
      rw [perform_of_ok hok]
      refine .done hle rfl (Array.size_setIfInBounds ..) rfl ?_
      rw [writes_of_ok hok]
      exact hwritten p.pointer i hle
    | place address i =>
      have hok : (place address i).attempt p = .ok _ := place_eq_ok i hle
      rw [perform_of_ok hok]
      refine .done hle rfl (Array.size_setIfInBounds ..) rfl ?_
      rw [writes_of_ok hok]
      exact hwritten address i hle

theorem pointerAfter_le {op : Operation} {p : Program} (h : op.address p ≤ op.limit p)
    (hp : p.pointer ≤ p.capacity + 1) : op.pointerAfter p ≤ p.capacity + 1 := by
  cases op with
  | setPointer address => exact Nat.le_succ_of_le h
  | restorePointer address => exact h
  | insert i => exact Nat.succ_le_succ h
  | place address i => exact hp

end Operation

/-- The program after operations in order. A failed one is passed over. -/
def after (p : Program) (ops : List Operation) : Program :=
  ops.foldl (fun p op => (op.perform p).2) p

def writes (p : Program) : List Operation → List (Nat × Instruction)
  | [] => []
  | op :: rest => op.writes p ++ writes (op.perform p).2 rest

/-- What a program is, given what has been written to it. -/
structure Keeps (capacity : Nat) (written : List (Nat × Instruction)) (p : Program) : Prop
    extends WellFormed p where
  capacity_eq : p.capacity = capacity
  get?_eq : ∀ a, p.get? a = written.reverse.lookup a

namespace Keeps

variable {capacity : Nat} {written : List (Nat × Instruction)} {p : Program}

theorem empty (capacity : Nat) : Keeps capacity [] (.empty capacity) := by
  refine ⟨wellFormed_empty capacity, rfl, ?_⟩
  intro a
  rw [get?_empty]
  rfl

theorem perform (h : p.Keeps capacity written) (op : Operation) :
    (op.perform p).2.Keeps capacity (written ++ op.writes p) := by
  have hends := op.ends_perform h.toWellFormed
  generalize op.perform p = after at hends
  cases hends with
  | refused hlt =>
    rw [Operation.writes_of_error (Operation.attempt_of_lt hlt), List.append_nil]
    exact h
  | @done q hle hcapacity hsize hpointer hget =>
    refine ⟨⟨?_, ?_⟩, hcapacity.trans h.capacity_eq, ?_⟩
    · rw [hsize, hcapacity, h.size_slots]
    · rw [hpointer, hcapacity]
      exact Operation.pointerAfter_le hle h.pointer_le
    · intro a
      rw [hget, h.get?_eq, List.reverse_append, List.lookup_append]

theorem run (h : p.Keeps capacity written) (ops : List Operation) :
    (p.after ops).Keeps capacity (written ++ p.writes ops) := by
  induction ops generalizing p written with
  | nil =>
    rw [Program.writes, List.append_nil]
    exact h
  | cons op rest ih =>
    rw [Program.writes, ← List.append_assoc]
    exact ih (h.perform op)

end Keeps

end Program

/-- Whatever is done to an empty program: the table keeps its size, the write pointer ends at most
one past the last address and is never set there, and each address has the instruction that was
written to it last. The entries are the filled slots in ascending order. An insertion succeeds if
and only if the write pointer is on a slot, and an operation that fails leaves the program alone. -/
theorem program_is_map_with_cursor (capacity : Nat) (ops : List Program.Operation) :
    let p := (Program.empty capacity).after ops
    let writes := (Program.empty capacity).writes ops
    (p.capacity = capacity ∧ p.slots.size = capacity + 1) ∧
    (p.pointer ≤ capacity + 1 ∧
      ∀ address q, p.setPointer address = .ok q → q.pointer = address ∧ address ≤ capacity) ∧
    (∀ a i, p.get? a = some i ↔
      ∃ before after, writes = before ++ (a, i) :: after ∧ ∀ e ∈ after, e.1 ≠ a) ∧
    (∀ a, capacity < a → p.get? a = none) ∧
    (p.entries.Pairwise (fun e f => e.1 < f.1) ∧
      ∀ a i, (a, i) ∈ p.entries ↔ p.get? a = some i) ∧
    (∀ i, (∃ q, p.insert i = .ok q) ↔ p.pointer ≤ capacity) ∧
    ∀ op : Program.Operation, (op.perform p).1 = .ok () ∨
      op.perform p = (.error (.invalidAddress (op.address p) capacity), p) := by
  intro p writes
  have h : p.Keeps capacity writes := (Program.Keeps.empty capacity).run ops
  have hcapacity := h.capacity_eq
  refine ⟨⟨hcapacity, ?_⟩, ⟨?_, ?_⟩, ?_, ?_, ⟨p.entries_ascending, ?_⟩, ?_, ?_⟩
  · rw [h.size_slots, hcapacity]
  · rw [← hcapacity]
    exact h.pointer_le
  · intro address q hq
    obtain ⟨hle, rfl⟩ := Program.setPointer_eq_ok_iff.mp hq
    exact ⟨rfl, hcapacity ▸ hle⟩
  · intro a i
    rw [h.get?_eq, lookup_reverse_eq_some_iff]
  · intro a ha
    by_contra hne
    obtain ⟨i, hi⟩ := Option.ne_none_iff_exists'.mp hne
    have hle := h.address_le hi
    omega
  · intro a i
    exact Program.mem_entries
  · intro i
    rw [← hcapacity]
    constructor
    · rintro ⟨q, hq⟩
      exact (Program.insert_eq_ok_iff.mp hq).1
    · intro hle
      exact ⟨_, Program.insert_eq_ok_iff.mpr ⟨hle, rfl⟩⟩
  · intro op
    have hends := op.ends_perform h.toWellFormed
    rw [← hcapacity]
    generalize op.perform p = after at hends
    cases hends with
    | refused hlt => exact .inr rfl
    | done hle _ _ _ _ => exact .inl rfl

/-- The last slot is filled, which leaves the write pointer past it, and then written again. The
insertion there fails, and so does setting the write pointer to where it stands; restoring it does
not. -/
theorem program_is_map_with_cursor_past_last :
    let ops : List Program.Operation := [.place 0 .mult, .setPointer 1, .insert (.push 7),
      .insert .stop, .place 1 .ret, .setPointer 2, .restorePointer 2, .place 2 .print]
    let p := (Program.empty 1).after ops
    p.pointer = 2 ∧ p.get? 1 = some .ret ∧ p.get? 2 = none ∧
    ((1, .ret) ∈ p.entries ∧ (1, .push 7) ∉ p.entries) ∧
    (¬ ∃ q, p.insert .stop = .ok q) ∧
    Program.Operation.perform (.setPointer 2) p = (.error (.invalidAddress 2 1), p) := by
  intro ops p
  obtain ⟨-, -, hslots, hpast, ⟨-, hentries⟩, hinsert, hfails⟩ := program_is_map_with_cursor 1 ops
  have hpointer : p.pointer = 2 := by decide
  have hwrites : (Program.empty 1).writes ops = [(0, .mult), (1, .push 7), (1, .ret)] := by decide
  have hret : p.get? 1 = some .ret :=
    (hslots 1 .ret).mpr ⟨[(0, .mult), (1, .push 7)], [], hwrites, nofun⟩
  refine ⟨hpointer, hret, hpast 2 (by decide), ⟨(hentries 1 .ret).mpr hret, ?_⟩, ?_, ?_⟩
  · rw [hentries, hret]
    decide
  · rw [hinsert, hpointer]
    decide
  · exact (hfails (.setPointer 2)).resolve_left (by decide)

end StackComputer
