import StackComputer.Proofs.Disassembly

/-! # Logs of building

Building operations report what they do to the program. A log is read as it is shown, message by
message, and from the slots and the write pointer at the start it leads to the slots and the write
pointer at the end: a change is reported when it is made and only then, and an operation that fails
half-way has reported what it did before.
-/

namespace StackComputer

structure Tape where
  slots : Array (Option Instruction)
  pointer : Nat
  deriving DecidableEq, Repr

def Program.tape (p : Program) : Tape := ⟨p.slots, p.pointer⟩

namespace Event

def field? (e : Event) (name : String) : Option String :=
  (e.fields.find? fun f => f.name == name).map (·.value)

def number? (e : Event) (name : String) : Option Nat :=
  (e.field? name).bind fun text => Text.digits? text.toList

def address? (e : Event) : Option Nat := e.number? "address"

def instruction? (e : Event) : Option Instruction :=
  (e.field? "instruction").bind fun text => (Listing.readInstruction text.toList).toOption

theorem number?_of_field? {e : Event} {name : String} {n : Nat}
    (h : e.field? name = some n.repr) : e.number? name = some n := by
  rw [number?, h, Option.bind_some, Text.digits?_eq_some_iff]
  exact Text.digits_repr n

theorem instruction?_of_field? {e : Event} {i : Instruction}
    (h : e.field? "instruction" = some i.display) : e.instruction? = some i := by
  rw [instruction?, h, Option.bind_some, Listing.readInstruction_of_written i.written_display]
  rfl

theorem instruction?_inserted (address : Nat) (i : Instruction) :
    (inserted address i).instruction? = some i :=
  instruction?_of_field? rfl

end Event

namespace Tape

/-- What an entry of the log says about the tape. It has no meaning if it cannot be read, if it is
about an address without a slot or if it is not about building. -/
def replay (t : Tape) (e : Event) : Option Tape :=
  match e.message with
  | "write pointer moved" => do
    let address ← e.address?
    return { t with pointer := address }
  | "instruction inserted" => do
    let address ← e.address?
    let i ← e.instruction?
    if address < t.slots.size then
      return { slots := t.slots.setIfInBounds address (some i), pointer := address + 1 }
    else none
  | "instruction ignored" => return t
  | _ => none

def replayAll (t : Tape) (log : List Event) : Option Tape :=
  log.foldlM replay t

theorem replay_pointerMoved (t : Tape) (address : Nat) :
    t.replay (.pointerMoved address) = some { t with pointer := address } := by
  have haddress : (Event.pointerMoved address).address? = some address :=
    Event.number?_of_field? rfl
  simp only [replay, Event.message, haddress]
  rfl

theorem replay_inserted {t : Tape} {address : Nat} (i : Instruction)
    (h : address < t.slots.size) :
    t.replay (.inserted address i) = some {
      slots := t.slots.setIfInBounds address (some i)
      pointer := address + 1 } := by
  have haddress : (Event.inserted address i).address? = some address :=
    Event.number?_of_field? rfl
  simp only [replay, Event.message, haddress, Event.instruction?_inserted]
  exact if_pos h

theorem replayAll_append (t : Tape) (log more : List Event) :
    t.replayAll (log ++ more) = (t.replayAll log).bind fun u => u.replayAll more :=
  List.foldlM_append

end Tape

/-- The events of the outcome lead from the tape of the computer to that of the computer after. -/
def Logs {ε α : Type} (c : Computer) (o : Outcome Computer ε α) : Prop :=
  c.program.tape.replayAll o.events = some o.state.program.tape

namespace Logs

variable {ε ε' α β : Type} {c : Computer}

theorem silent {o : Outcome Computer ε α} (hstate : o.state = c) (hevents : o.events = []) :
    Logs c o := by
  rw [Logs, hstate, hevents]
  rfl

theorem single {o : Outcome Computer ε α} {e : Event} (hevents : o.events = [e])
    (h : c.program.tape.replay e = some o.state.program.tape) : Logs c o := by
  rw [Logs, hevents, Tape.replayAll, List.foldlM_cons, h]
  rfl

theorem mapFault {o : Outcome Computer ε α} (h : Logs c o) (f : ε → ε') : Logs c (o.mapFault f) :=
  h

/-- The log of one operation after another is the two logs one after the other. -/
theorem andThen {o : Outcome Computer ε α} {next : α → Computer → Outcome Computer ε β}
    (h : Logs c o) (hnext : ∀ value, o.result = .ok value → Logs o.state (next value o.state)) :
    Logs c (o.andThen next) := by
  cases hresult : o.result with
  | error fault =>
    rw [Outcome.andThen_of_error hresult]
    exact h
  | ok value =>
    rw [Outcome.andThen_of_ok hresult, Logs, Tape.replayAll_append, h, Option.bind_some]
    exact hnext value hresult

theorem setAddress (c : Computer) (address : Nat) : Logs c (c.setAddress address) := by
  rw [Computer.setAddress]
  split
  · rename_i p hp
    obtain ⟨-, rfl⟩ := Program.setPointer_eq_ok_iff.mp hp
    exact single rfl (Tape.replay_pointerMoved _ address)
  · exact silent rfl rfl

theorem insertInstruction (hc : c.program.WellFormed) (i : Instruction) :
    Logs c (c.insertInstruction i) := by
  rw [Computer.insertInstruction]
  split
  · rename_i p hp
    obtain ⟨hle, rfl⟩ := Program.insert_eq_ok_iff.mp hp
    have hslot : c.program.pointer < c.program.tape.slots.size :=
      hc.size_slots ▸ Nat.lt_succ_of_le hle
    exact single rfl (Tape.replay_inserted i hslot)
  · exact silent rfl rfl

theorem tryInsert (hc : c.program.WellFormed) (name : String) (operand : Option Word) :
    Logs c (c.tryInsert name operand) := by
  rw [Computer.tryInsert]
  split
  · exact insertInstruction hc _
  · exact silent rfl rfl

theorem insert (hc : c.program.WellFormed) (name : String) (operand : Option Word) :
    Logs c (c.insert name operand) := by
  have htry := tryInsert hc name operand
  simp only [Computer.insert]
  split
  · exact htry
  · rw [Logs, Outcome.ok, Tape.replayAll_append, htry, Option.bind_some]
    rfl

theorem insertWithPolicy (hc : c.program.WellFormed) (name : String) (operand : Option Word) :
    Logs c (c.insertWithPolicy name operand) := by
  rw [Computer.insertWithPolicy]
  split
  · exact insert hc name operand
  · exact tryInsert hc name operand

theorem loadLine (hc : c.program.WellFormed) (number : Nat) (raw : List Char) :
    Logs c (Listing.loadLine c number raw) := by
  rw [Listing.loadLine]
  split
  · exact silent rfl rfl
  · rename_i line _
    apply mapFault
    cases line with
    | empty => exact silent rfl rfl
    | directive address => exact setAddress c address
    | instruction i => exact insertInstruction hc i

theorem loadLines (hc : c.program.WellFormed) (number : Nat) (raws : List (List Char)) :
    Logs c (Listing.loadLines c number raws) := by
  induction raws generalizing c number with
  | nil => exact setAddress c 0
  | cons raw raws ih =>
    rw [Listing.loadLines]
    apply andThen (loadLine hc number raw)
    intro _ _
    exact ih ((Edits.loadLine c number raw).wellFormed hc) (number + 1)

theorem loadInto (hc : c.program.WellFormed) (source : String) :
    Logs c (Listing.loadInto c source) :=
  loadLines hc 1 _

end Logs

namespace BuildCall

theorem logs_perform (call : BuildCall) {c : Computer} (hc : c.program.WellFormed) :
    Logs c (call.perform c) := by
  cases call with
  | setAddress address => exact .setAddress c address
  | insert name operand => exact .insert hc name operand
  | tryInsert name operand => exact .tryInsert hc name operand
  | insertWithPolicy name operand => exact .insertWithPolicy hc name operand
  | insertInstruction i => exact .insertInstruction hc i
  | loadInto source => exact .loadInto hc source

def after (c : Computer) : List BuildCall → Computer
  | [] => c
  | call :: rest => after (call.perform c).state rest

def log (c : Computer) : List BuildCall → List Event
  | [] => []
  | call :: rest => (call.perform c).events ++ log (call.perform c).state rest

end BuildCall

/-- Whatever calls are made to build a program, and whether or not they succeed: their log leads
from the slots and the write pointer at the start to those at the end. -/
theorem build_log_replays {c : Computer} (hc : c.program.WellFormed) (calls : List BuildCall) :
    c.program.tape.replayAll (BuildCall.log c calls) =
      some (BuildCall.after c calls).program.tape := by
  induction calls generalizing c with
  | nil => rfl
  | cons call rest ih =>
    have hcall : Logs c (call.perform c) := call.logs_perform hc
    rw [BuildCall.log, BuildCall.after, Tape.replayAll_append, hcall, Option.bind_some]
    exact ih ((call.edits_perform c).wellFormed hc)

/-- A move and insertions that fail, an instruction that is ignored, and a listing that stops at its
third line with two instructions placed, the second of them over an old one. -/
theorem build_log_replays_after_failures :
    let c : Computer := {
      program := { slots := #[none, some .ret, none], capacity := 2, pointer := 3 }
      policy := .strict }
    let calls : List BuildCall := [.setAddress 3, .insertInstruction .stop,
      .insert "push" (some 1), .setAddress 0, .insertWithPolicy "jump" none,
      .loadInto "PUSH -9223372036854775808\nprint # over\nPUSH\nSTOP", .tryInsert "call" none]
    let tape : Tape := ⟨#[some (.push (-9223372036854775808)), some .print, none], 2⟩
    (c.program.WellFormed ∧ (BuildCall.log c calls).map Event.message =
      ["instruction ignored", "write pointer moved", "instruction inserted",
        "instruction inserted"]) ∧
    (BuildCall.after c calls).program.tape = tape ∧
    c.program.tape.replayAll (BuildCall.log c calls) = some tape := by
  intro c calls tape
  have hc : c.program.WellFormed := ⟨by decide, by decide⟩
  have htape : (BuildCall.after c calls).program.tape = tape := by decide +kernel
  refine ⟨⟨hc, by decide +kernel⟩, htape, ?_⟩
  rw [← htape]
  exact build_log_replays hc calls

end StackComputer
