import StackComputer.Store

/-!
What the command does. An invocation reads one file; then it either ends, or writes its store and
ends. The report says what is printed, as JSON or as plain lines, and with which status the command
exits.

The first argument that is no option is the verb; the options for the store, the policy and the
format may stand on both sides of it, once on each, and the inner one counts. A long option takes
its value after an equals sign or as the next argument. Two dashes end the options. Arguments that
break the rules are refused with status 2.

Help is no part of the command. `--help`, `-h` and `help` break the rules as any unknown argument
does and are refused with status 2, although it is usual to answer them with a usage text and with
status 0.
-/

namespace StackComputer

inductive Format where
  | json
  | plain
  deriving DecidableEq, Repr

def Format.ofName? : String → Option Format
  | "json" => some .json
  | "plain" => some .plain
  | _ => none

open Json (Value)

def entryValue (address : Nat) (i : Instruction) : Value :=
  .array [.integer address, .array [.text i.opcode.mnemonic,
    match i.operand with
    | some w => .integer w.toInt
    | none => .null]]

namespace Snapshot

def toValue (s : Snapshot) : Value :=
  .record [("program_counter", .integer s.programCounter),
    ("program_stack", .array (s.entries.map fun (address, i) => entryValue address i)),
    ("program_stack_size", .integer s.capacity), ("program_stack_pointer", .integer s.pointer)]

def entryLine (address : Nat) (i : Instruction) : String :=
  "  " ++ .ofList ((Nat.toDigits 10 address).leftpad 5 ' ') ++ "  " ++ i.display

def plainLines (s : Snapshot) : List String :=
  ["-------", "Number of addresses: " ++ s.capacity.repr, "Program stack:"]
    ++ s.entries.map (fun (address, i) => entryLine address i)
    ++ ["Program stack pointer: " ++ s.pointer.repr,
      "Program counter: " ++ s.programCounter.repr, "-------"]

def lines (s : Snapshot) : Format → List String
  | .json => [s.toValue.pretty]
  | .plain => s.plainLines

end Snapshot

def outputLines (output : List Word) : Format → List String
  | .json =>
    [(Value.record [("program_output", .array (output.map fun w => .integer w.toInt))]).compact]
  | .plain => output.map Word.text

inductive Request where
  | create (capacity : Option Nat)
  | pointer (id : String) (address : Nat)
  | insert (id opcode : String) (operand : Option Word)
  | exec (id : String)
  | debug (id : String)
  | run (file : String) (capacity : Option Nat)
  deriving DecidableEq, Repr

structure Invocation where
  store : String := "computers.json"
  policy : Policy := .lenient
  format : Format := .json
  request : Request
  deriving DecidableEq, Repr

namespace CommandLine

inductive Verb where
  | create
  | pointer
  | insert
  | exec
  | debug
  | run
  deriving DecidableEq, Repr

def Verb.ofName? : String → Option Verb
  | "create" => some create
  | "pointer" => some pointer
  | "insert" => some insert
  | "exec" => some exec
  | "debug" => some debug
  | "run" => some run
  | _ => none

inductive Key where
  | store
  | format
  | capacity
  deriving DecidableEq, Repr

structure Options where
  store : Option String := none
  format : Option Format := none
  capacity : Option Nat := none
  strict : Bool := false
  deriving DecidableEq, Repr

/-- A capacity may be signed, as any number, but has to be in range. -/
def capacity? (value : String) : Option Nat :=
  match Text.word? value.toList with
  | some w => if 0 ≤ w.toInt ∧ w.toInt ≤ maxCapacity then some w.toInt.toNat else none
  | none => none

/-- Gives an option its value. No option may be given twice. -/
def Options.set (o : Options) (key : Key) (value : String) : Option Options :=
  match key with
  | .store =>
    if o.store.isSome || value.isEmpty then none else some { o with store := some value }
  | .format =>
    if o.format.isSome then none
    else (Format.ofName? value).map fun f => { o with format := some f }
  | .capacity =>
    if o.capacity.isSome then none
    else (capacity? value).map fun n => { o with capacity := some n }

def Options.setStrict (o : Options) : Option Options :=
  if o.strict then none else some { o with strict := true }

structure Reading where
  /-- Options before the verb. -/
  outer : Options := {}
  /-- Options after the verb. -/
  inner : Options := {}
  verb : Option Verb := none
  positionals : List String := []
  /-- The option whose value is to come. -/
  pending : Option Key := none
  /-- Whether the options have ended. -/
  ended : Bool := false
  deriving DecidableEq, Repr

namespace Reading

def withOptions (r : Reading) (f : Options → Option Options) : Option Reading :=
  match r.verb with
  | none => (f r.outer).map fun o => { r with outer := o }
  | some _ => (f r.inner).map fun o => { r with inner := o }

def set (r : Reading) (key : Key) (value : String) : Option Reading :=
  { r with pending := none }.withOptions (·.set key value)

def positional (r : Reading) (arg : String) : Option Reading :=
  match r.verb with
  | none => (Verb.ofName? arg).map fun verb => { r with verb := some verb }
  | some _ => some { r with positionals := r.positionals ++ [arg] }

def key? (r : Reading) : List Char → Option Key
  | ['s', 't', 'o', 'r', 'e'] => some .store
  | ['f', 'o', 'r', 'm', 'a', 't'] => some .format
  | ['c', 'a', 'p', 'a', 'c', 'i', 't', 'y'] =>
    if r.verb = some .create ∨ r.verb = some .run then some .capacity else none
  | _ => none

def long (r : Reading) (arg : List Char) : Option Reading :=
  match arg.takeWhile (· ≠ '='), arg.dropWhile (· ≠ '=') with
  | ['s', 't', 'r', 'i', 'c', 't'], [] => r.withOptions Options.setStrict
  | name, [] => (r.key? name).map fun key => { r with pending := some key }
  | name, _ :: value => (r.key? name).bind fun key => r.set key (.ofList value)

/-- Whether the next positional argument is an operand, which may be negative. -/
def atOperand (r : Reading) : Bool :=
  r.verb = some .insert && r.positionals.length = 2

end Reading

def isExponentMark (c : Char) : Bool := c = 'e' || c = 'E'

/-- Digits with at most one exponent mark among them and at most one dot before it; neither stands
in front, and no exponent mark at the end. -/
def looksNumeric (cs : List Char) : Bool :=
  let whole := cs.takeWhile (!isExponentMark ·)
  let exponent := cs.dropWhile (!isExponentMark ·)
  (whole.filter (· ≠ '.') ++ exponent.tail).all Char.isDigit
    && whole.count '.' ≤ 1 && !whole.isEmpty && whole.head? ≠ some '.' && exponent.length ≠ 1

def readArgument (r : Reading) (arg : String) : Option Reading :=
  if r.ended then r.positional arg
  else
    match r.pending, arg.toList with
    | some key, '-' :: c :: cs =>
      if r.atOperand && looksNumeric (c :: cs) then r.set key arg else none
    | some key, _ => r.set key arg
    | none, ['-', '-'] => if r.verb.isSome then some { r with ended := true } else none
    | none, '-' :: '-' :: name => r.long name
    | none, '-' :: c :: cs =>
      if r.atOperand && looksNumeric (c :: cs) then r.positional arg else none
    | none, _ => r.positional arg

def request? (capacity : Option Nat) : Verb → List String → Option Request
  | .create, [] => some (.create capacity)
  | .pointer, [id, address] => (Text.natural? address.toList).map (.pointer id)
  | .insert, [id, opcode] => some (.insert id opcode none)
  | .insert, [id, opcode, operand] =>
    (Text.word? operand.toList).map fun w => .insert id opcode (some w)
  | .exec, [id] => some (.exec id)
  | .debug, [id] => some (.debug id)
  | .run, [file] => if file.isEmpty then none else some (.run file capacity)
  | _, _ => none

def Reading.invocation? (r : Reading) : Option Invocation :=
  match r.verb, r.pending with
  | some verb, none =>
    (request? r.inner.capacity verb r.positionals).map fun request =>
      { store := (r.inner.store <|> r.outer.store).getD "computers.json"
        policy := if r.inner.strict || r.outer.strict then .strict else .lenient
        format := (r.inner.format <|> r.outer.format).getD .json
        request }
  | _, _ => none

def parse? (args : List String) : Option Invocation :=
  (args.foldlM readArgument {}).bind Reading.invocation?

end CommandLine

structure Report where
  status : Nat := 0
  /-- Lines on standard output. -/
  output : List String := []
  events : List Event := []
  /-- Why the command has failed. -/
  complaint : Option String := none
  deriving DecidableEq, Repr

namespace Report

def done (output : List String) (events : List Event) : Report := { output, events }

def failed (complaint : String) (events : List Event) : Report :=
  { status := 1, events, complaint := some complaint }

def refused : Report := { status := 2 }

def outputText (r : Report) : String := String.join (r.output.map (· ++ "\n"))

/-- A line without what it says about a malformed JSON text: it ends where the details begin. -/
def withoutDetails : List Char → List Char
  | [] => []
  | c :: cs =>
    if "json error: ".toList.isPrefixOf (c :: cs) then "json error:".toList
    else c :: withoutDetails cs

def errorLines (r : Report) : List String :=
  let texts := (r.events.filter Event.isNotable).map Event.display
    ++ (r.complaint.map ("Error: " ++ ·)).toList
  (Text.lines (texts.flatMap fun text => text.toList ++ ['\n'])).map fun line =>
    .ofList (withoutDetails line)

end Report

/-- How an invocation goes on once its file has been read. -/
inductive Response where
  | finish (report : Report)
  /-- Write the store, then report according to how that went. -/
  | write (store : Store) (report : Except FileFault Unit → Report)
  /-- A run took more steps than its fuel allows. -/
  | unfinished

def Response.ofChange {α : Type} (s : Store) (o : Outcome Store StoreFault α)
    (announce : α → List Event) (lines : α → List String) : Response :=
  let report (writing : Except FileFault Unit) : Report :=
    let o := Store.conclude o announce writing
    match o.result with
    | .ok value => .done (lines value) (s.opened :: o.events)
    | .error fault =>
      { Report.failed fault.message (s.opened :: o.events) with status := fault.status }
  match o.result with
  | .error _ => .finish (report (.ok ()))
  | .ok _ => .write o.state report

namespace Invocation

def source (i : Invocation) : String :=
  match i.request with
  | .run file _ => file
  | _ => i.store

def withStore (i : Invocation) (reading : Except FileFault String) (next : Store → Response) :
    Response :=
  match Store.ofFile i.store reading with
  | .ok s => next s
  | .error fault => .finish (.failed ("failed to open " ++ i.store ++ ": " ++ fault.message) [])

def runComputer (i : Invocation) (fuel : Nat) (c : Computer) (events : List Event) : Response :=
  match c.execute fuel with
  | none => .unfinished
  | some o =>
    match o.result with
    | .ok output => .finish (.done (outputLines output i.format) (events ++ o.events))
    | .error fault =>
      .finish (.failed ("unexpected error when executing the program: " ++ fault.message)
        (events ++ o.events))

def runListing (i : Invocation) (fuel : Nat) (file : String) (capacity : Nat)
    (reading : Except FileFault String) : Response :=
  match reading with
  | .error fault => .finish (.failed ("failed to read " ++ file ++ ": " ++ fault.message) [])
  | .ok text =>
    let o := Listing.load text capacity
    match o.result with
    | .error fault =>
      .finish (.failed ("invalid program " ++ file ++ ": " ++ fault.message) o.events)
    | .ok () => i.runComputer fuel o.state (o.events ++ [.programLoaded file])

def withComputer (i : Invocation) (reading : Except FileFault String) (id : String)
    (next : Store → Computer → Response) : Response :=
  i.withStore reading fun s =>
    match s.load id with
    | .ok c => next s c
    | .error fault => .finish (.failed fault.message [s.opened])

def respond (i : Invocation) (fuel : Nat) (reading : Except FileFault String) : Response :=
  match i.request with
  | .create capacity =>
    let capacity := capacity.getD ({} : Config).capacity
    i.withStore reading fun s =>
      .ofChange s (s.create capacity) (fun id => [.computerCreated id capacity]) fun id => [id]
  | .pointer id address =>
    i.withStore reading fun s =>
      .ofChange s (s.update id (·.setAddress address)) (fun _ => []) fun (_, c) =>
        c.snapshot.lines i.format
  | .insert id opcode operand =>
    i.withStore reading fun s =>
      .ofChange s (s.update id fun c => (c.setPolicy i.policy).insertWithPolicy opcode operand)
        (fun _ => []) fun (_, c) => c.snapshot.lines i.format
  | .exec id =>
    i.withComputer reading id fun s c => i.runComputer fuel c [s.opened]
  | .debug id =>
    i.withComputer reading id fun s c => .finish (.done (c.snapshot.lines i.format) [s.opened])
  | .run file capacity =>
    i.runListing fuel file (capacity.getD ({} : Config).capacity) reading

/-- Carries out an invocation on a disk. There is no report if a run does not end within the
fuel. -/
def perform (i : Invocation) (fuel : Nat) (d : Disk) : Option (Report × Disk) :=
  match i.respond fuel (d.read i.source) with
  | .finish report => some (report, d)
  | .write s report =>
    let (writing, d) := s.flush d
    some (report writing, d)
  | .unfinished => none

end Invocation

def runCommand (fuel : Nat) (args : List String) (d : Disk) : Option (Report × Disk) :=
  match CommandLine.parse? args with
  | none => some (.refused, d)
  | some i => i.perform fuel d

end StackComputer
