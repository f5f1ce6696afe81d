import StackComputer.Computer
import StackComputer.Disk
import StackComputer.Json
import StackComputer.KeyMap

/-!
Computers as they are kept, and why keeping or fetching one can fail. A record may come from
elsewhere: its addresses are texts, its operands may be texts, and its opcodes may be written in any
case. Turning a record into a computer brings them to one form; turning that computer into a record
again keeps the form.
-/

namespace StackComputer

inductive RecordFault where
  | oversized (capacity : Nat)
  | address (key : String)
  | opcode (name : String)
  | operand (text : String)
  deriving DecidableEq, Repr

/-- The largest capacity of a computer that is kept. -/
def maxCapacity : Nat := 65535

def RecordFault.message : RecordFault → String
  | oversized capacity => "stack size " ++ capacity.repr ++ " exceeds " ++ maxCapacity.repr
  | address key => "invalid address " ++ Text.quoted key
  | opcode name => "unknown opcode " ++ Text.quoted name
  | operand text => "invalid operand " ++ Text.quoted text

inductive StoreFault where
  | notFound (id : String)
  | invalidRecord (fault : RecordFault)
  | machine (fault : Fault)
  | file (fault : FileFault)
  /-- The file does not hold a catalogue. -/
  | malformed
  /-- The counter of identifiers is at its bound, and none is left to hand out. -/
  | exhausted
  deriving DecidableEq, Repr

def StoreFault.message : StoreFault → String
  | notFound id => "computer " ++ id ++ " not found"
  | invalidRecord fault => "invalid record: " ++ fault.message
  | machine fault => fault.message
  | file fault => "io error: " ++ fault.message
  | malformed => "json error:"
  | exhausted => "attempt to add with overflow"

/-- The status that a command exits with. An exhausted counter ends it on the spot. -/
def StoreFault.status : StoreFault → Nat
  | exhausted => 101
  | _ => 1

inductive StoredOperand where
  | number (value : Word)
  | text (text : String)
  deriving DecidableEq, Repr

/-- A slot without an opcode is empty. -/
structure SlotRecord where
  opcode : Option String
  operand : Option StoredOperand
  deriving DecidableEq, Repr

structure ProgramRecord where
  slots : KeyMap SlotRecord
  pointer : Nat
  capacity : Nat
  deriving DecidableEq

structure Record where
  id : String
  programCounter : Nat
  program : ProgramRecord
  deriving DecidableEq

def SlotRecord.ofInstruction (i : Instruction) : SlotRecord where
  opcode := some i.opcode.mnemonic
  operand := i.operand.map .number

/-- The record of a computer. The return register and the policy are not kept. -/
def Record.ofComputer (id : String) (c : Computer) : Record where
  id := id
  programCounter := c.registers.programCounter
  program := {
    slots := .ofList (c.program.entries.map fun (address, i) => (address.repr, .ofInstruction i))
    pointer := c.program.pointer
    capacity := c.program.capacity }

def StoredOperand.value : StoredOperand → Except StoreFault Word
  | .number value => .ok value
  | .text s =>
    match Text.word? (Text.trim s.toList) with
    | some value => .ok value
    | none => .error (.invalidRecord (.operand s))

def SlotRecord.entry? (key : String) (slot : SlotRecord) :
    Except StoreFault (Option (Nat × Instruction)) :=
  match Text.natural? (Text.trim key.toList) with
  | none => .error (.invalidRecord (.address key))
  | some address =>
    match slot.opcode with
    | none => .ok none
    | some name =>
      match OpCode.ofName? name with
      | none => .error (.invalidRecord (.opcode name))
      | some opcode => do
        let operand ← match slot.operand with
          | none => pure none
          | some operand => some <$> operand.value
        match Instruction.ofParts opcode operand with
        | .ok i => return some (address, i)
        | .error fault => .error (.machine fault)

/-- The entries of slots in order; the first fault counts. -/
def readSlots : List (String × SlotRecord) → Except StoreFault (List (Nat × Instruction))
  | [] => .ok []
  | (key, slot) :: rest => do
    let entry ← slot.entry? key
    let entries ← readSlots rest
    return entry.toList ++ entries

def Record.toComputer (r : Record) : Except StoreFault Computer :=
  if maxCapacity < r.program.capacity then .error (.invalidRecord (.oversized r.program.capacity))
  else do
    let entries ← readSlots r.program.slots.entries
    (Computer.ofParts r.program.capacity { programCounter := r.programCounter } r.program.pointer
      entries).mapError .machine

open Json (Value)

def StoredOperand.toValue : StoredOperand → Value
  | .number value => .integer value.toInt
  | .text s => .text s

def StoredOperand.ofValue? : Value → Option StoredOperand
  | .integer i => (Word.ofInt? i).map .number
  | v => v.text?.map .text

def orNull {α : Type} (f : α → Value) : Option α → Value
  | none => .null
  | some a => f a

def unlessNull {α : Type} (f : Value → Option α) : Value → Option (Option α)
  | .null => some none
  | v => (f v).map some

def SlotRecord.toValue (s : SlotRecord) : Value :=
  .array [orNull .text s.opcode, orNull StoredOperand.toValue s.operand]

def SlotRecord.ofValue? : Value → Option SlotRecord
  | .array [opcode, operand] => do
    return ⟨← unlessNull Value.text? opcode, ← unlessNull StoredOperand.ofValue? operand⟩
  | _ => none

def mapToValue {α : Type} (f : α → Value) (m : KeyMap α) : Value :=
  .record (m.entries.map fun (key, a) => (key, f a))

/-- Of several members with one key the last stands. -/
def mapOfValue? {α : Type} (f : Value → Option α) (v : Value) : Option (KeyMap α) := do
  let ms ← v.members?
  let es ← ms.mapM fun (key, v) => (f v).map (key, ·)
  return .ofList es

def ProgramRecord.toValue (p : ProgramRecord) : Value :=
  .record [("data", mapToValue SlotRecord.toValue p.slots),
    ("stack_pointer", .integer p.pointer), ("stack_size", .integer p.capacity)]

def ProgramRecord.ofValue? (v : Value) : Option ProgramRecord :=
  match v.fields? ["data", "stack_pointer", "stack_size"] with
  | some [slots, pointer, capacity] => do
    return ⟨← mapOfValue? SlotRecord.ofValue? slots, ← pointer.natural?, ← capacity.natural?⟩
  | _ => none

def Record.toValue (r : Record) : Value :=
  .record [("id", .text r.id), ("program_counter", .integer r.programCounter),
    ("program_stack", r.program.toValue)]

def Record.ofValue? (v : Value) : Option Record :=
  match v.fields? ["id", "program_counter", "program_stack"] with
  | some [id, programCounter, program] => do
    return ⟨← id.text?, ← programCounter.natural?, ← ProgramRecord.ofValue? program⟩
  | _ => none

def Record.text (r : Record) : String := r.toValue.compact

def Record.parse? (text : String) : Option Record := (Json.parse? text).bind ofValue?

end StackComputer
