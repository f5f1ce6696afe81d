import StackComputer.Record

/-!
A store: the catalogue of all computers that are kept, in memory, and the file that it is kept in.
Identifiers are handed out in sequence and never twice. Every change is made in memory first and
then written: to a temporary file beside the store's file, which then takes its place. A change that
is refused is not written; a change that could not be written stays in memory.
-/

namespace StackComputer

structure Catalogue where
  /-- The number of the identifier that was handed out last. -/
  lastId : Nat := 0
  records : KeyMap Record := .empty
  deriving DecidableEq

namespace Catalogue

/-- An identifier: the number in lower-case hexadecimal, of seven digits at least. -/
def identifier (n : Nat) : String :=
  .ofList ((Nat.toDigits 16 n).leftpad 7 '0')

/-- Hands out the next identifier, for an empty computer. -/
def create (cat : Catalogue) (capacity : Nat) : String × Catalogue :=
  let id := identifier (cat.lastId + 1)
  (id, { lastId := cat.lastId + 1,
         records := cat.records.insert id (.ofComputer id (.empty capacity)) })

def replace (cat : Catalogue) (id : String) (c : Computer) : Catalogue :=
  { cat with records := cat.records.insert id (.ofComputer id c) }

def erase (cat : Catalogue) (id : String) : Catalogue :=
  { cat with records := cat.records.erase id }

open Json (Value)

def toValue (cat : Catalogue) : Value :=
  .record [("next_id", .integer cat.lastId), ("computers", mapToValue Record.toValue cat.records)]

def ofValue? (v : Value) : Option Catalogue :=
  match v.fields? ["next_id", "computers"] with
  | some [lastId, records] => do
    return ⟨← lastId.natural?, ← mapOfValue? Record.ofValue? records⟩
  | _ => none

def text (cat : Catalogue) : String := cat.toValue.pretty

def parse? (text : String) : Option Catalogue := (Json.parse? text).bind ofValue?

end Catalogue

structure Store where
  path : String
  catalogue : Catalogue := {}
  deriving DecidableEq

namespace Store

/-- The store of a file, given what reading it has brought. A file that is not there is an empty
store. -/
def ofFile (path : String) (reading : Except FileFault String) : Except StoreFault Store :=
  match reading with
  | .error fault => if fault.isAbsence then .ok { path } else .error (.file fault)
  | .ok text =>
    match Catalogue.parse? text with
    | some catalogue => .ok { path, catalogue }
    | none => .error .malformed

def opened (s : Store) : Event := .storeOpened s.path s.catalogue.records.size

def ids (s : Store) : List String := s.catalogue.records.keys

def record (s : Store) (id : String) : Except StoreFault Record :=
  match s.catalogue.records.get? id with
  | some r => .ok r
  | none => .error (.notFound id)

def load (s : Store) (id : String) : Except StoreFault Computer := do
  (← s.record id).toComputer

def create (s : Store) (capacity : Nat) : Outcome Store StoreFault String :=
  if maxCapacity < capacity then .fail (.invalidRecord (.oversized capacity)) s
  else if addressLimit ≤ s.catalogue.lastId + 1 then .fail .exhausted s
  else
    let (id, catalogue) := s.catalogue.create capacity
    .ok id { s with catalogue }

def save (s : Store) (id : String) (c : Computer) : Outcome Store StoreFault Unit :=
  match s.record id with
  | .error fault => .fail fault s
  | .ok _ => .ok () { s with catalogue := s.catalogue.replace id c }

/-- Loads a computer, changes it and saves it. Nothing is saved if the change fails. -/
def update {α : Type} (s : Store) (id : String) (change : Computer → Outcome Computer Fault α) :
    Outcome Store StoreFault (α × Computer) :=
  match s.load id with
  | .error fault => .fail fault s
  | .ok c =>
    let o := change c
    match o.result with
    | .error fault => .fail (.machine fault) s o.events
    | .ok value =>
      let saved := s.save id o.state
      { result := saved.result.map fun _ => (value, o.state)
        state := saved.state
        events := o.events ++ saved.events }

def remove (s : Store) (id : String) : Outcome Store StoreFault Unit :=
  match s.record id with
  | .error fault => .fail fault s
  | .ok _ => .ok () { s with catalogue := s.catalogue.erase id }

def flush (s : Store) (d : Disk) : Except FileFault Unit × Disk :=
  match d.write (Path.temporary s.path) s.catalogue.text with
  | (.error fault, d) => (.error fault, d)
  | (.ok (), d) => d.rename (Path.temporary s.path) s.path

/-- The outcome of a change once its writing has succeeded or failed. Some changes are announced
after they are written. -/
def conclude {α : Type} (o : Outcome Store StoreFault α) (announce : α → List Event)
    (writing : Except FileFault Unit) : Outcome Store StoreFault α :=
  match o.result, writing with
  | .error fault, _ => .fail fault o.state o.events
  | .ok _, .error fault => .fail (.file fault) o.state o.events
  | .ok value, .ok () =>
    .ok value o.state (o.events ++ .storeWritten o.state.path :: announce value)

/-- Writes a change to a disk, unless it was refused. -/
def commit {α : Type} (o : Outcome Store StoreFault α) (announce : α → List Event) (d : Disk) :
    Outcome (Store × Disk) StoreFault α :=
  let (writing, d) := match o.result with
    | .error _ => (.ok (), d)
    | .ok _ => o.state.flush d
  let o := conclude o announce writing
  { result := o.result, state := (o.state, d), events := o.events }

def createOn (s : Store) (d : Disk) (capacity : Nat) : Outcome (Store × Disk) StoreFault String :=
  commit (s.create capacity) (fun id => [.computerCreated id capacity]) d

def saveOn (s : Store) (d : Disk) (id : String) (c : Computer) :
    Outcome (Store × Disk) StoreFault Unit :=
  commit (s.save id c) (fun _ => []) d

def updateOn {α : Type} (s : Store) (d : Disk) (id : String)
    (change : Computer → Outcome Computer Fault α) :
    Outcome (Store × Disk) StoreFault (α × Computer) :=
  commit (s.update id change) (fun _ => []) d

def removeOn (s : Store) (d : Disk) (id : String) : Outcome (Store × Disk) StoreFault Unit :=
  commit (s.remove id) (fun _ => [.computerRemoved id]) d

end Store

end StackComputer
