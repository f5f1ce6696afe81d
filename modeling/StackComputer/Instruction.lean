import StackComputer.Text

/-!
The six operations of the computer and their names; why building, loading or running a program can
fail; and instructions: an opcode with its operand where the opcode needs one, so an instruction is
always complete.
-/

namespace StackComputer

inductive OpCode where
  /-- Put the operand on the operand stack. -/
  | push
  /-- Take the top of the operand stack and put it out. -/
  | print
  /-- Replace the two topmost values by their product. -/
  | mult
  /-- Continue at the operand's address and remember the address after this one. -/
  | call
  /-- Continue at the remembered address. -/
  | ret
  | stop
  deriving DecidableEq, Repr

namespace OpCode

def all : List OpCode := [push, print, mult, call, ret, stop]

def mnemonic : OpCode → String
  | push => "push"
  | print => "print"
  | mult => "mult"
  | call => "call"
  | ret => "ret"
  | stop => "stop"

def display : OpCode → String
  | push => "PUSH"
  | print => "PRINT"
  | mult => "MULT"
  | call => "CALL"
  | ret => "RET"
  | stop => "STOP"

/-- Look-up by name. Blanks around the name and the case of ASCII letters do not matter. -/
def ofName? (name : String) : Option OpCode :=
  all.find? fun op => (Text.trim name.toList).map Char.toLower == op.mnemonic.toList

def ofMnemonic? (name : String) : Option OpCode :=
  all.find? fun op => name == op.mnemonic

end OpCode

inductive Fault where
  | invalidAddress (address capacity : Nat)
  | unknownInstruction (name : String)
  | missingOperand (opcode : OpCode)
  | stackUnderflow
  | unknownAddress (target : Word) (capacity : Nat)
  /-- The left factor was on top of the stack. -/
  | overflow (lhs rhs : Word)
  | malformedAddress (text : String)
  | malformedOperand (token : String)
  | extraToken (token : String)
  /-- A fault met on a line of a listing, counted from one. -/
  | onLine (line : Nat) (cause : Fault)
  deriving DecidableEq, Repr

namespace Fault

def message : Fault → String
  | invalidAddress address capacity =>
    "cannot set address to " ++ address.repr ++ ": computer only supports addresses up to "
      ++ capacity.repr
  | unknownInstruction name => "unknown instruction: " ++ Text.quoted name
  | missingOperand opcode => "instruction " ++ opcode.display ++ " requires an operand"
  | stackUnderflow => "stack underflow"
  | unknownAddress target capacity =>
    "unknown address " ++ target.text ++ ": computer only supports addresses up to "
      ++ capacity.repr
  | overflow lhs rhs => "arithmetic overflow: " ++ lhs.text ++ " * " ++ rhs.text
  | malformedAddress text => "invalid address " ++ Text.quoted text
  | malformedOperand token => "invalid operand " ++ Text.quoted token
  | extraToken token => "unexpected token " ++ Text.quoted token
  | onLine line cause => "line " ++ line.repr ++ ": " ++ cause.message

end Fault

inductive Instruction where
  | push (value : Word)
  | print
  | mult
  | call (target : Word)
  | ret
  | stop
  deriving DecidableEq, Repr

namespace Instruction

def opcode : Instruction → OpCode
  | push _ => .push
  | print => .print
  | mult => .mult
  | call _ => .call
  | ret => .ret
  | stop => .stop

def operand : Instruction → Option Word
  | push value => some value
  | call target => some target
  | _ => none

/-- An operand given to an opcode that needs none is dropped. -/
def ofParts : OpCode → Option Word → Except Fault Instruction
  | .push, some value => .ok (push value)
  | .push, none => .error (.missingOperand .push)
  | .print, _ => .ok print
  | .mult, _ => .ok mult
  | .call, some target => .ok (call target)
  | .call, none => .error (.missingOperand .call)
  | .ret, _ => .ok ret
  | .stop, _ => .ok stop

def decode (name : String) (operand : Option Word) : Except Fault Instruction :=
  match OpCode.ofName? name with
  | some opcode => ofParts opcode operand
  | none => .error (.unknownInstruction name)

def display (i : Instruction) : String :=
  match i.operand with
  | some w => i.opcode.display ++ " " ++ w.text
  | none => i.opcode.display

end Instruction

end StackComputer
