import StackComputer.Command

/-!
The command on the files of the system.
-/

namespace StackComputer

/-- More steps than any run can take in practice. -/
def patience : Nat := 0x4000000000000000

def fileFault (e : IO.Error) : FileFault :=
  match e with
  | .noFileOrDirectory .. => .notFound
  | .resourceBusy .. => .busy
  | .inappropriateType _ code _ =>
    if code = 20 ∨ code = -20 then .notADirectory
    else if code = 21 ∨ code = -21 then .isADirectory
    else .other (toString e)
  | .invalidArgument _ code _ =>
    if code = 36 ∨ code = -36 then .nameTooLong else .other (toString e)
  | e => .other (toString e)

def attemptIO {α : Type} (act : IO α) : IO (Except FileFault α) := do
  try return .ok (← act)
  catch e => return .error (fileFault e)

def readText (path : String) : IO (Except FileFault String) := do
  match ← attemptIO (IO.FS.readBinFile path) with
  | .error fault => return .error fault
  | .ok bytes =>
    match String.fromUTF8? bytes with
    | some text => return .ok text
    | none => return .error .notText

def writeStore (s : Store) : IO (Except FileFault Unit) := attemptIO do
  IO.FS.writeFile (Path.temporary s.path) s.catalogue.text
  IO.FS.rename (Path.temporary s.path) s.path

def printReport (r : Report) : IO UInt32 := do
  for line in r.errorLines do IO.eprintln line
  IO.print r.outputText
  return r.status.toUInt32

end StackComputer

open StackComputer

def main (args : List String) : IO UInt32 := do
  match CommandLine.parse? args with
  | none =>
    IO.eprintln "usage: [--store PATH] [--strict] [--format json|plain] VERB ARGUMENTS"
    printReport .refused
  | some i =>
    match i.respond patience (← readText i.source) with
    | .finish report => printReport report
    | .write s report => printReport (report (← writeStore s))
    | .unfinished => return 1
