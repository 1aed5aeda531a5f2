import Amd64.Runner.Session

namespace Amd64

/-!
# The command line

Reads the image, runs it, prints what is to be printed and writes the trace. All decisions are made in
`Runner.Options` and `Runner.Session`.
-/

/-- What the system says about a failed operation on a file, if it has a number for it. -/
def fileProblem (e : IO.Error) : String :=
  match e with
  | .noFileOrDirectory _ code details => numbered details code
  | .noSuchThing _ code details => numbered details code
  | .permissionDenied _ code details => numbered details code
  | .inappropriateType _ code details => numbered details code
  | .invalidArgument _ code details => numbered details code
  | .resourceExhausted _ code details => numbered details code
  | .alreadyExists _ code details => numbered details code
  | .otherError code details => numbered details code
  | e => toString e
where
  /-- The system's words and number. -/
  numbered (details : String) (code : UInt32) : String :=
    details ++ " (os error " ++ toString code.toNat ++ ")"

/-- The contents of a file. -/
def readImage (name : String) : IO (Except String ByteArray) := do
  match ← (IO.FS.readBinFile name).toBaseIO with
  | .ok bytes => return .ok bytes
  | .error e => return .error (fileProblem e)

/-- Creates the file of a trace, if a trace is asked for, and says why if it cannot. -/
def createTrace (o : Options) : IO (Option String) := do
  match o.trace with
  | none => return none
  | some name =>
    match ← (IO.FS.writeBinFile name ByteArray.empty).toBaseIO with
    | .ok _ => return none
    | .error e => return some (fileProblem e)

/-- Runs an image. -/
def runFile (o : Options) : IO RunReport := do
  match o.session (← readImage o.image) with
  | .error e => return .failure e none
  | .ok s =>
    let problem ← createTrace o
    return s.report o problem

/-- Writes a report, and the trace to the file of the name. -/
def emit (r : RunReport) (trace : Option String) : IO UInt32 := do
  match trace, r.trace with
  | some name, some bytes => IO.FS.writeBinFile name bytes
  | _, _ => pure ()
  IO.print r.stdout
  IO.eprint r.stderr
  return r.code.toUInt32

end Amd64

/-- Runs the image that the command line names. -/
def main (args : List String) : IO UInt32 := do
  match Amd64.Options.parse args with
  | .error e => Amd64.emit (.usage e) none
  | .ok o => Amd64.emit (← Amd64.runFile o) o.trace
