import StackComputer.Machine

/-!
A computer: a program under construction, the registers that a run starts from, and a policy for
instructions that cannot be inserted. An operation on it has an outcome: a result, the state left
behind and the events on the way. A failed operation keeps what it had done before it failed.

A program can be given as a listing. A line holds an instruction, or an address directive that moves
the write pointer, or nothing; what follows a number sign is a comment. Loading is strict and ends
with the write pointer at address 0.

    @50          # a subroutine
    MULT
    PRINT
    RET
    @0
    PUSH 1009
-/

namespace StackComputer

structure Outcome (σ ε α : Type) where
  result : Except ε α
  state : σ
  events : List Event := []

namespace Outcome

variable {σ ε ε' α β γ : Type}

def ok (value : α) (state : σ) (events : List Event := []) : Outcome σ ε α :=
  { result := .ok value, state, events }

def fail (fault : ε) (state : σ) (events : List Event := []) : Outcome σ ε α :=
  { result := .error fault, state, events }

def andThen (o : Outcome σ ε α) (next : α → σ → Outcome σ ε β) : Outcome σ ε β :=
  match o.result with
  | .error fault => fail fault o.state o.events
  | .ok value =>
    let o' := next value o.state
    { o' with events := o.events ++ o'.events }

def mapFault (f : ε → ε') (o : Outcome σ ε α) : Outcome σ ε' α :=
  { result := o.result.mapError f, state := o.state, events := o.events }

theorem andThen_of_error {o : Outcome σ ε α} {fault : ε} (h : o.result = .error fault)
    (next : α → σ → Outcome σ ε β) : o.andThen next = fail fault o.state o.events := by
  simp [andThen, h]

theorem andThen_of_ok {o : Outcome σ ε α} {value : α} (h : o.result = .ok value)
    (next : α → σ → Outcome σ ε β) :
    o.andThen next =
      { next value o.state with events := o.events ++ (next value o.state).events } := by
  simp [andThen, h]

theorem andThen_assoc (o : Outcome σ ε α) (next : α → σ → Outcome σ ε β)
    (last : β → σ → Outcome σ ε γ) :
    (o.andThen next).andThen last = o.andThen fun value s => (next value s).andThen last := by
  cases ho : o.result with
  | error fault =>
    rw [andThen_of_error ho, andThen_of_error ho]
    rfl
  | ok value =>
    rw [andThen_of_ok ho, andThen_of_ok ho]
    cases hnext : (next value o.state).result with
    | error fault => simp [andThen, hnext, fail]
    | ok value' => simp [andThen, hnext, List.append_assoc]

theorem mapFault_eq_ok_iff {o : Outcome σ ε α} {f : ε → ε'} {value : α} :
    (o.mapFault f).result = .ok value ↔ o.result = .ok value := by
  rw [mapFault]
  cases o.result with
  | error fault => exact ⟨nofun, nofun⟩
  | ok v =>
    constructor
    · intro h
      cases h
      rfl
    · intro h
      cases h
      rfl

theorem mapFault_eq_error {o : Outcome σ ε α} {fault : ε} (h : o.result = .error fault)
    (f : ε → ε') : (o.mapFault f).result = .error (f fault) := by
  rw [mapFault, h]
  rfl

theorem mapFault_mapFault {ε'' : Type} (f : ε → ε') (g : ε' → ε'') (o : Outcome σ ε α) :
    (o.mapFault f).mapFault g = o.mapFault (g ∘ f) := by
  obtain ⟨fault | value, state, events⟩ := o <;> rfl

theorem mapFault_of_ok {o : Outcome σ ε α} {value : α} (h : o.result = .ok value) (f : ε → ε) :
    o.mapFault f = o := by
  cases o
  cases h
  rfl

theorem mapFault_andThen (f : ε → ε') (o : Outcome σ ε α) (next : α → σ → Outcome σ ε β) :
    (o.andThen next).mapFault f =
      (o.mapFault f).andThen fun value s => (next value s).mapFault f := by
  cases ho : o.result with
  | error fault =>
    rw [andThen_of_error ho, andThen_of_error (mapFault_eq_error ho f)]
    rfl
  | ok value =>
    rw [andThen_of_ok ho, andThen_of_ok (mapFault_eq_ok_iff.mpr ho)]
    rfl

end Outcome

/-- What becomes of an instruction that cannot be inserted. -/
inductive Policy where
  /-- It is dropped. -/
  | lenient
  /-- It is a fault. -/
  | strict
  deriving DecidableEq, Repr

structure Config where
  capacity : Nat := 100
  policy : Policy := .lenient
  deriving DecidableEq, Repr

structure Computer where
  program : Program
  registers : Registers := {}
  policy : Policy := .lenient
  deriving DecidableEq, Repr

structure Snapshot where
  programCounter : Nat
  /-- The filled slots in ascending order. -/
  entries : List (Nat × Instruction)
  capacity : Nat
  pointer : Nat
  deriving DecidableEq, Repr

namespace Computer

def empty (capacity : Nat) : Computer :=
  { program := .empty capacity }

def ofConfig (config : Config) : Computer :=
  { program := .empty config.capacity, policy := config.policy }

def placeAll : List (Nat × Instruction) → Program → Except Fault Program
  | [], p => .ok p
  | (address, i) :: rest, p => (p.place address i).bind (placeAll rest)

/-- A computer from its parts. Later entries for an address replace earlier ones. -/
def ofParts (capacity : Nat) (registers : Registers) (pointer : Nat)
    (entries : List (Nat × Instruction)) : Except Fault Computer := do
  let p ← placeAll entries (.empty capacity)
  let p ← p.restorePointer pointer
  return { program := p, registers }

def capacity (c : Computer) : Nat := c.program.capacity

def setPolicy (c : Computer) (policy : Policy) : Computer := { c with policy }

def setAddress (c : Computer) (address : Nat) : Outcome Computer Fault Unit :=
  match c.program.setPointer address with
  | .ok p => .ok () { c with program := p } [.pointerMoved address]
  | .error fault => .fail fault c

def insertInstruction (c : Computer) (i : Instruction) : Outcome Computer Fault Unit :=
  match c.program.insert i with
  | .ok p => .ok () { c with program := p } [.inserted c.program.pointer i]
  | .error fault => .fail fault c

/-- Inserts at the write pointer; the pointer moves on only if that succeeds. -/
def tryInsert (c : Computer) (name : String) (operand : Option Word) :
    Outcome Computer Fault Unit :=
  match Instruction.decode name operand with
  | .ok i => c.insertInstruction i
  | .error fault => .fail fault c

/-- Inserts at the write pointer and never fails: what cannot be inserted is ignored. -/
def insert (c : Computer) (name : String) (operand : Option Word) :
    Outcome Computer Fault Unit :=
  let o := c.tryInsert name operand
  match o.result with
  | .ok () => o
  | .error fault => .ok () o.state (o.events ++ [.ignored name operand fault])

def insertWithPolicy (c : Computer) (name : String) (operand : Option Word) :
    Outcome Computer Fault Unit :=
  match c.policy with
  | .lenient => c.insert name operand
  | .strict => c.tryInsert name operand

def leftBy (c : Computer) (m : Machine) : Computer := { c with registers := m.registers }

def restoreRegisters (c : Computer) (registers : Registers) : Computer := { c with registers }

/-- Runs the program from the computer's registers and puts them back once the run has ended, well
or not. There is no outcome if the run takes more steps than the fuel allows. -/
def execute (c : Computer) (fuel : Nat) : Option (Outcome Computer Fault (List Word)) :=
  let (m, log) := Machine.run c.program fuel (.start c.registers) #[]
  let after := (c.leftBy m).restoreRegisters c.registers
  match m.status with
  | .running => none
  | .halted output => some (.ok output after log.toList)
  | .failed fault => some (.fail fault after log.toList)

def snapshot (c : Computer) : Snapshot where
  programCounter := c.registers.programCounter
  entries := c.program.entries
  capacity := c.program.capacity
  pointer := c.program.pointer

end Computer

namespace Listing

inductive Line where
  | empty
  | directive (address : Nat)
  | instruction (i : Instruction)
  deriving DecidableEq, Repr

def code (raw : List Char) : List Char :=
  Text.trim (raw.takeWhile (· ≠ '#'))

/-- A name and at most one operand. The operand has to be a word even where it is dropped. -/
def readInstruction (text : List Char) : Except Fault Instruction :=
  match Text.words text with
  | [] => Instruction.decode "" none
  | [name] => Instruction.decode (.ofList name) none
  | name :: token :: rest =>
    match Text.word? token, rest with
    | none, _ => .error (.malformedOperand (.ofList token))
    | some _, extra :: _ => .error (.extraToken (.ofList extra))
    | some operand, [] => Instruction.decode (.ofList name) (some operand)

def readLine (raw : List Char) : Except Fault Line :=
  match code raw with
  | [] => .ok .empty
  | '@' :: rest =>
    match Text.natural? (Text.trim rest) with
    | some address => .ok (.directive address)
    | none => .error (.malformedAddress (.ofList (Text.trim rest)))
  | text => (readInstruction text).map .instruction

def Line.apply (c : Computer) : Line → Outcome Computer Fault Unit
  | .empty => .ok () c
  | .directive address => c.setAddress address
  | .instruction i => c.insertInstruction i

def loadLine (c : Computer) (number : Nat) (raw : List Char) : Outcome Computer Fault Unit :=
  match readLine raw with
  | .error fault => .fail (.onLine number fault) c
  | .ok line => (line.apply c).mapFault (.onLine number)

/-- Loads lines numbered from `number` on, then moves the write pointer to address 0. -/
def loadLines (c : Computer) (number : Nat) : List (List Char) → Outcome Computer Fault Unit
  | [] => c.setAddress 0
  | raw :: rest => (loadLine c number raw).andThen fun _ c => loadLines c (number + 1) rest

/-- Loads a listing into a computer. Lines before a faulty one have their effect. -/
def loadInto (c : Computer) (source : String) : Outcome Computer Fault Unit :=
  loadLines c 1 (Text.lines source.toList)

def load (source : String) (capacity : Nat) : Outcome Computer Fault Unit :=
  loadInto (.empty capacity) source

def ofProgram (p : Program) : String :=
  String.join (p.entries.map fun (address, i) =>
    "@" ++ address.repr ++ "\n" ++ i.display ++ "\n")

end Listing

end StackComputer
