/-!
Files and directories, as a value. A disk maps places to what is there. A change either happens in
full or leaves every file as it was.

A path is pieces with slashes between them. An empty piece is no step of a walk; a single dot is a
step that stays, and two dots lead up. A path that begins with a slash starts from the top.
-/

namespace StackComputer

namespace Path

def pieces (path : String) : List (List Char) := path.toList.splitOn '/'

def steps (path : String) : List String :=
  ((pieces path).filter (!·.isEmpty)).map String.ofList

def isAbsolute (path : String) : Bool := path.toList.head? = some '/'

def endsInSlash (path : String) : Bool := path.toList.getLast? = some '/'

/-- Whether there is no last step, or one that is no name. -/
def isNameless (path : String) : Bool :=
  (steps path).getLast?.all fun step => step = "." || step = ".."

def maxLength : Nat := 4095

def maxNameLength : Nat := 255

def isIdle (piece : List Char) : Bool := piece.isEmpty || piece = ['.']

def join (pieces : List (List Char)) : String :=
  .ofList (['/'].intercalate pieces)

/-- A file name up to its last dot, unless that dot comes first. -/
def stem (name : List Char) : List Char :=
  match name.reverse.dropWhile (· ≠ '.') with
  | _ :: c :: before => (c :: before).reverse
  | _ => name

/-- The path with the extension of its file name replaced by `tmp`, or with that extension added. A
path without a file name stays as it is. The old extension is cut off first: if that leaves two dots
at the end, there is no file name any more, and nothing is added. -/
def temporary (path : String) : String :=
  match (pieces path).reverse.dropWhile isIdle with
  | [] => path
  | name :: above =>
    if name = ['.', '.'] then path
    else if stem name = ['.'] ∧ (pieces path).getLast? = some name then
      join (above.reverse ++ [['.', '.']])
    else join (above.reverse ++ [stem name ++ ['.', 't', 'm', 'p']])

end Path

inductive FileFault where
  | notFound
  /-- Dots stand where a name is needed. -/
  | busy
  | notADirectory
  | isADirectory
  /-- A name in the path, or the whole path, is too long. -/
  | nameTooLong
  /-- No path has a null character in it. -/
  | nullInPath
  /-- The content is not UTF-8. -/
  | notText
  | other (text : String)
  deriving DecidableEq, Repr

namespace FileFault

def message : FileFault → String
  | notFound => "No such file or directory (os error 2)"
  | busy => "Device or resource busy (os error 16)"
  | notADirectory => "Not a directory (os error 20)"
  | isADirectory => "Is a directory (os error 21)"
  | nameTooLong => "File name too long (os error 36)"
  | nullInPath => "file name contained an unexpected NUL byte"
  | notText => "stream did not contain valid UTF-8"
  | other text => text

def isAbsence : FileFault → Bool
  | notFound | notADirectory | nameTooLong | nullInPath => true
  | _ => false

end FileFault

inductive Content where
  | text (text : String)
  /-- Bytes that are not UTF-8. -/
  | binary (bytes : List UInt8)
  deriving DecidableEq, Repr

inductive Node where
  | file (content : Content)
  | directory
  deriving DecidableEq, Repr

/-- The names that lead to a place from the top. -/
abbrev Place := List String

/-- Where a step leads. A single dot stays; two dots lead up, and nothing is above the top. -/
def Place.enter (p : Place) (step : String) : Place :=
  if step = "." then p else if step = ".." then p.dropLast else p ++ [step]

structure Disk where
  /-- The working directory, from which relative paths start. -/
  working : Place := []
  /-- What is at each place; no place is listed twice, and the way to the working directory need not
  be listed. -/
  nodes : List (Place × Node) := []
  /-- Failures to come, one entry for each attempted change; a change without a failure of its own
  goes by the state of the disk. -/
  outages : List (Option FileFault) := []
  deriving DecidableEq, Repr

namespace Disk

def topLevel : List String :=
  ["bin", "boot", "dev", "etc", "home", "lib", "media", "mnt", "opt", "proc", "root", "run", "sbin",
   "srv", "sys", "tmp", "usr", "var"]

/-- A disk with an empty working directory. Besides the directories at the top it has the device
that reads as an empty file. -/
def fresh : Disk :=
  { working := ["tmp", "work"]
    nodes := (["dev", "null"], .file (.text ""))
      :: topLevel.map fun name => ([name], .directory) }

/-- What is at a place. All the way to the working directory there are directories. -/
def node? (d : Disk) (place : Place) : Option Node :=
  if place.isPrefixOf d.working then some .directory else d.nodes.lookup place

def walk (d : Disk) (here : Place) : List String → Except FileFault Place
  | [] => .ok here
  | step :: rest =>
    match d.node? here with
    | some .directory =>
      if Path.maxNameLength < step.utf8ByteSize then .error .nameTooLong
      else d.walk (here.enter step) rest
    | some (.file _) => .error .notADirectory
    | none => .error .notFound

def locate (d : Disk) (path : String) : Except FileFault Place :=
  if path.toList.contains '\x00' then .error .nullInPath
  else if path = "" then .error .notFound
  else if Path.maxLength < path.utf8ByteSize then .error .nameTooLong
  else d.walk (if Path.isAbsolute path then [] else d.working) (Path.steps path)

def read (d : Disk) (path : String) : Except FileFault String := do
  let place ← d.locate path
  match d.node? place with
  | none => .error .notFound
  | some .directory => .error .isADirectory
  | some (.file content) =>
    if Path.endsInSlash path then .error .notADirectory
    else
      match content with
      | .text text => .ok text
      | .binary _ => .error .notText

def clear (d : Disk) (place : Place) : Disk :=
  { d with nodes := d.nodes.filter fun e => e.1 != place }

def put (d : Disk) (place : Place) (node : Node) : Disk :=
  { d with nodes := (place, node) :: (d.clear place).nodes }

def written (d : Disk) (path text : String) : Except FileFault Disk := do
  let place ← d.locate path
  if d.node? place = some .directory ∨ Path.endsInSlash path then .error .isADirectory
  else .ok (d.put place (.file (.text text)))

/-- The disk with a file under another path, in place of a file that is there. -/
def renamed (d : Disk) (source target : String) : Except FileFault Disk := do
  let place ← d.locate source
  let goal ← d.locate target
  if Path.isNameless source ∨ Path.isNameless target then .error .busy
  else
    match d.node? place with
    | none => .error .notFound
    | some .directory => .error .isADirectory
    | some (.file content) =>
      if Path.endsInSlash source ∨ Path.endsInSlash target then .error .notADirectory
      else if d.node? goal = some .directory then .error .isADirectory
      else .ok ((d.clear place).put goal (.file content))

/-- Attempts a change. A failed one leaves the files alone. -/
def attempt (d : Disk) (change : Disk → Except FileFault Disk) : Except FileFault Unit × Disk :=
  let left := { d with outages := d.outages.tail }
  match d.outages with
  | some fault :: _ => (.error fault, left)
  | _ =>
    match change left with
    | .ok d => (.ok (), d)
    | .error fault => (.error fault, left)

def write (d : Disk) (path text : String) : Except FileFault Unit × Disk :=
  d.attempt (·.written path text)

def rename (d : Disk) (source target : String) : Except FileFault Unit × Disk :=
  d.attempt (·.renamed source target)

def listing (d : Disk) : List (String × Node) :=
  d.nodes.filterMap fun (place, node) =>
    match place.getLast? with
    | some name => if place.dropLast = d.working then some (name, node) else none
    | none => none

end Disk

end StackComputer
