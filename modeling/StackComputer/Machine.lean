import StackComputer.Instruction

/-!
Programs and their runs. A program is a table of instruction slots at the addresses `0 … capacity`,
with a write pointer. The pointer may stand one past the last address; nothing can be inserted there
until it is moved back.

A machine holds the registers, the operand stack and the output of one run; it steps until the
program stops, runs past its last address or fails, and does not change after that. What it reports
while it works are events: an event is data; its level, message and fields are what a log shows of
it.
-/

namespace StackComputer

structure Program where
  slots : Array (Option Instruction)
  capacity : Nat
  /-- The address that the next insertion writes to. -/
  pointer : Nat
  deriving DecidableEq, Repr

namespace Program

def empty (capacity : Nat) : Program :=
  { slots := Array.replicate (capacity + 1) none, capacity, pointer := 0 }

def setPointer (p : Program) (address : Nat) : Except Fault Program :=
  if address ≤ p.capacity then .ok { p with pointer := address }
  else .error (.invalidAddress address p.capacity)

/-- Sets the pointer to where it stood before, which may be one past the last address. -/
def restorePointer (p : Program) (address : Nat) : Except Fault Program :=
  if address ≤ p.capacity + 1 then .ok { p with pointer := address }
  else .error (.invalidAddress address p.capacity)

def place (p : Program) (address : Nat) (i : Instruction) : Except Fault Program :=
  if address ≤ p.capacity then .ok { p with slots := p.slots.setIfInBounds address (some i) }
  else .error (.invalidAddress address p.capacity)

def insert (p : Program) (i : Instruction) : Except Fault Program :=
  (p.place p.pointer i).map fun q => { q with pointer := q.pointer + 1 }

/-- The instruction at an address; none for an empty slot and past the last address. -/
def get? (p : Program) (address : Nat) : Option Instruction :=
  p.slots[address]?.join

def entries (p : Program) : List (Nat × Instruction) :=
  p.slots.toList.zipIdx.filterMap fun (slot, address) => slot.map (address, ·)

/-- What every operation keeps: one slot per address, and the pointer at most one past the last. -/
structure WellFormed (p : Program) : Prop where
  size_slots : p.slots.size = p.capacity + 1
  pointer_le : p.pointer ≤ p.capacity + 1

theorem wellFormed_empty (capacity : Nat) : (empty capacity).WellFormed where
  size_slots := by simp [empty]
  pointer_le := by simp [empty]

theorem WellFormed.of_setPointer {p q : Program} {address : Nat} (h : p.WellFormed)
    (hq : p.setPointer address = .ok q) : q.WellFormed := by
  unfold setPointer at hq
  split at hq <;> cases hq
  exact ⟨h.size_slots, by simp; omega⟩

theorem WellFormed.of_restorePointer {p q : Program} {address : Nat} (h : p.WellFormed)
    (hq : p.restorePointer address = .ok q) : q.WellFormed := by
  unfold restorePointer at hq
  split at hq <;> cases hq
  exact ⟨h.size_slots, by simpa⟩

theorem WellFormed.of_place {p q : Program} {address : Nat} {i : Instruction} (h : p.WellFormed)
    (hq : p.place address i = .ok q) : q.WellFormed := by
  unfold place at hq
  split at hq <;> cases hq
  exact ⟨by simpa using h.size_slots, h.pointer_le⟩

/-- Insertion succeeds only while the pointer is on a slot, so it ends one past the last at most. -/
theorem WellFormed.of_insert {p q : Program} {i : Instruction} (h : p.WellFormed)
    (hq : p.insert i = .ok q) : q.WellFormed := by
  unfold insert place at hq
  split at hq <;> cases hq
  exact ⟨by simpa using h.size_slots, by simp; omega⟩

end Program

/-- Values from the top down. -/
structure OperandStack where
  values : List Word := []
  deriving DecidableEq, Repr

namespace OperandStack

def empty : OperandStack := ⟨[]⟩

def push (s : OperandStack) (w : Word) : OperandStack := ⟨w :: s.values⟩

def pop (s : OperandStack) : Except Fault (Word × OperandStack) :=
  match s.values with
  | [] => .error .stackUnderflow
  | w :: rest => .ok (w, ⟨rest⟩)

def peek (s : OperandStack) : Except Fault Word :=
  match s.values with
  | [] => .error .stackUnderflow
  | w :: _ => .ok w

def size (s : OperandStack) : Nat := s.values.length

def isEmpty (s : OperandStack) : Bool := s.values.isEmpty

def toList (s : OperandStack) : List Word := s.values.reverse

end OperandStack

inductive Level where
  | trace
  | debug
  | info
  | warn
  deriving DecidableEq, Repr

def Level.display : Level → String
  | trace => "TRACE"
  | debug => "DEBUG"
  | info => "INFO"
  | warn => "WARN"

/-- A named value of an event. A quoted field stands in quotes on a log line. -/
structure Field where
  name : String
  value : String
  isQuoted : Bool := false
  deriving DecidableEq, Repr

def Field.display (f : Field) : String :=
  f.name ++ "=" ++ (if f.isQuoted then Text.quoted f.value else f.value)

inductive Event where
  | pointerMoved (address : Nat)
  | inserted (address : Nat) (instruction : Instruction)
  /-- A lenient insertion met a fault and did nothing. -/
  | ignored (name : String) (operand : Option Word) (fault : Fault)
  /-- An instruction is about to be performed, with that many values on the operand stack. -/
  | performing (pc : Nat) (instruction : Instruction) (depth : Nat)
  /-- The program counter stood past the last address. -/
  | ranOff (pc outputs : Nat)
  | stopped (pc outputs : Nat)
  | failed (pc : Nat) (fault : Fault)
  | storeOpened (path : String) (computers : Nat)
  | storeWritten (path : String)
  | computerCreated (id : String) (capacity : Nat)
  | computerRemoved (id : String)
  | programLoaded (file : String)
  deriving DecidableEq, Repr

namespace Event

def level : Event → Level
  | performing .. => .trace
  | ignored .. => .warn
  | computerCreated .. | computerRemoved .. | programLoaded .. => .info
  | _ => .debug

def message : Event → String
  | pointerMoved .. => "write pointer moved"
  | inserted .. => "instruction inserted"
  | ignored .. => "instruction ignored"
  | performing .. => "exec"
  | ranOff .. => "halted past last address"
  | stopped .. => "halted on STOP"
  | failed .. => "execution failed"
  | storeOpened .. => "store opened"
  | storeWritten .. => "store written"
  | computerCreated .. => "computer created"
  | computerRemoved .. => "computer removed"
  | programLoaded .. => "program loaded"

def operandText : Option Word → String
  | none => "None"
  | some w => "Some(" ++ w.text ++ ")"

def fields : Event → List Field
  | pointerMoved address => [⟨"address", address.repr, false⟩]
  | inserted address i => [⟨"address", address.repr, false⟩, ⟨"instruction", i.display, false⟩]
  | ignored name operand fault =>
    [⟨"opcode", name, true⟩, ⟨"operand", operandText operand, false⟩,
      ⟨"error", fault.message, false⟩]
  | performing pc i depth =>
    [⟨"pc", pc.repr, false⟩, ⟨"instruction", i.display, false⟩, ⟨"depth", depth.repr, false⟩]
  | ranOff pc outputs | stopped pc outputs =>
    [⟨"pc", pc.repr, false⟩, ⟨"outputs", outputs.repr, false⟩]
  | failed pc fault => [⟨"pc", pc.repr, false⟩, ⟨"error", fault.message, false⟩]
  | storeOpened path computers =>
    [⟨"path", path, false⟩, ⟨"computers", computers.repr, false⟩]
  | storeWritten path => [⟨"path", path, false⟩]
  | computerCreated id capacity => [⟨"id", id, false⟩, ⟨"capacity", capacity.repr, false⟩]
  | computerRemoved id => [⟨"id", id, false⟩]
  | programLoaded file => [⟨"file", file, false⟩]

def display (e : Event) : String :=
  " ".intercalate (e.level.display :: e.message :: e.fields.map Field.display)

/-- Whether the event is worth a line to someone who asked for no particular level. -/
def isNotable (e : Event) : Bool :=
  match e.level with
  | .info | .warn => true
  | .trace | .debug => false

end Event

structure Registers where
  programCounter : Nat := 0
  /-- Written by every call: only one level of calls can return. -/
  returnRegister : Nat := 0
  deriving DecidableEq, Repr

inductive Status where
  | running
  /-- Ended, with everything that was put out. -/
  | halted (output : List Word)
  | failed (fault : Fault)
  deriving DecidableEq, Repr

structure Machine where
  registers : Registers
  stack : OperandStack := .empty
  /-- Oldest value first. -/
  output : Array Word := #[]
  status : Status := .running
  deriving DecidableEq, Repr

namespace Machine

def start (registers : Registers) : Machine := { registers }

def isRunning (m : Machine) : Bool :=
  match m.status with
  | .running => true
  | _ => false

def advance (m : Machine) : Machine :=
  { m with registers.programCounter := m.registers.programCounter + 1 }

/-- The output moves into the status. -/
def halt (m : Machine) : Machine :=
  { m with status := .halted m.output.toList, output := #[] }

def fail (m : Machine) (fault : Fault) : Machine :=
  { m with status := .failed fault }

/-- Performs one instruction. What was taken from the stack before a failure stays taken; the
program counter stays at the failed instruction. -/
def perform (m : Machine) (capacity : Nat) : Instruction → Machine
  | .push value => { m with stack := m.stack.push value }.advance
  | .print =>
    match m.stack.pop with
    | .error fault => m.fail fault
    | .ok (value, rest) => { m with stack := rest, output := m.output.push value }.advance
  | .mult =>
    match m.stack.pop with
    | .error fault => m.fail fault
    | .ok (lhs, rest) =>
      match rest.pop with
      | .error fault => { m with stack := rest }.fail fault
      | .ok (rhs, rest) =>
        match Word.mul? lhs rhs with
        | none => { m with stack := rest }.fail (.overflow lhs rhs)
        | some product => { m with stack := rest.push product }.advance
  | .call target =>
    if 0 ≤ target.toInt ∧ target.toInt ≤ capacity then
      { m with registers := {
          programCounter := target.toInt.toNat
          returnRegister := m.registers.programCounter + 1 } }
    else m.fail (.unknownAddress target capacity)
  | .ret => { m with registers.programCounter := m.registers.returnRegister }
  | .stop => m.halt

/-- One step. An empty slot is passed over; a machine that has ended stays as it is. -/
def step (p : Program) (m : Machine) : Machine :=
  match m.status with
  | .running =>
    if p.capacity < m.registers.programCounter then m.halt
    else
      match p.get? m.registers.programCounter with
      | none => m.advance
      | some i => m.perform p.capacity i
  | _ => m

def opening (p : Program) (m : Machine) : List Event :=
  if m.registers.programCounter ≤ p.capacity then
    match p.get? m.registers.programCounter with
    | some i => [.performing m.registers.programCounter i m.stack.size]
    | none => []
  else []

def closing (p : Program) (m : Machine) : List Event :=
  let pc := m.registers.programCounter
  match m.status with
  | .running => []
  | .halted output =>
    if p.capacity < pc then [.ranOff pc output.length] else [.stopped pc output.length]
  | .failed fault => [.failed pc fault]

def after (p : Program) : Nat → Machine → Machine
  | 0, m => m
  | n + 1, m => after p n (m.step p)

def states (p : Program) : Nat → Machine → List Machine
  | 0, _ => []
  | n + 1, m => m.step p :: states p n (m.step p)

def journal (p : Program) : Nat → Machine → List Event
  | 0, _ => []
  | n + 1, m =>
    if m.isRunning then m.opening p ++ (m.step p).closing p ++ journal p n (m.step p) else []

def run (p : Program) : Nat → Machine → Array Event → Machine × Array Event
  | 0, m, log => (m, log)
  | fuel + 1, m, log =>
    if m.isRunning then
      let log := log.appendList (m.opening p)
      let m := m.step p
      run p fuel m (log.appendList (m.closing p))
    else (m, log)

theorem step_of_not_running {p : Program} {m : Machine} (h : m.isRunning = false) :
    m.step p = m := by
  unfold isRunning at h
  unfold step
  split at h <;> simp_all

theorem after_of_not_running {p : Program} {m : Machine} (h : m.isRunning = false) (n : Nat) :
    m.after p n = m := by
  induction n with
  | zero => rfl
  | succ n ih => rw [after, step_of_not_running h, ih]

theorem journal_of_not_running {p : Program} {m : Machine} (h : m.isRunning = false) (n : Nat) :
    m.journal p n = [] := by
  cases n <;> simp [journal, h]

/-- A run goes where that many steps go, since a machine that has ended stays as it is. -/
theorem run_fst (p : Program) (fuel : Nat) (m : Machine) (log : Array Event) :
    (run p fuel m log).1 = m.after p fuel := by
  induction fuel generalizing m log with
  | zero => rfl
  | succ fuel ih =>
    cases h : m.isRunning with
    | true => simp [run, h, ih, after]
    | false => simp [run, h, after_of_not_running h]

theorem run_snd (p : Program) (fuel : Nat) (m : Machine) (log : Array Event) :
    (run p fuel m log).2.toList = log.toList ++ m.journal p fuel := by
  induction fuel generalizing m log with
  | zero => simp [run, journal]
  | succ fuel ih =>
    cases h : m.isRunning with
    | true => simp [run, h, ih, journal]
    | false => simp [run, h, journal_of_not_running h]

end Machine

end StackComputer
