import Amd64.Instruction.Opcode
import Amd64.Text.Number
import Amd64.Text.Quoted
import Amd64.Text.Terminal

namespace Amd64

/-!
# Command-line options of the runner

* `Options`         — what the command line says;
* `Options.parse`   — reads a command line, or says what is wrong with it;
* `UsageError`      — what may be wrong.

An option's value follows it, as the next argument or behind an equals sign. A value that is an argument of
its own is taken into account when the next argument begins, so an unknown argument is reported before a bad
value directly in front of it. Behind two dashes no argument is an option.
-/

/-- What the command line says. -/
structure Options where
  /-- Name of the file with the code. -/
  image : String
  /-- Where the code is put. -/
  base : UInt64
  /-- Where execution starts, if not at the base. -/
  entry : Option UInt64
  heapSize : UInt64
  stackAddress : UInt64
  stackSize : UInt64
  /-- Greatest number of instructions. -/
  maxInsts : UInt64
  intrinsics : List (Intrinsic × UInt64)
  /-- Name of the file for a trace. -/
  trace : Option String
  dumpState : Bool
deriving DecidableEq

/-- Options with a value. -/
inductive OptionName where
  | base | entry | heapSize | stackAddress | stackSize | maxInsts | intrinsic | trace
deriving DecidableEq, Inhabited

namespace OptionName

/-- All options with a value. -/
def all : List OptionName :=
  [base, entry, heapSize, stackAddress, stackSize, maxInsts, intrinsic, trace]

/-- The option as it is written, without the dashes. -/
def long : OptionName → String
  | base => "base"
  | entry => "entry"
  | heapSize => "heap-size"
  | stackAddress => "stack-address"
  | stackSize => "stack-size"
  | maxInsts => "max-insts"
  | intrinsic => "intrinsic"
  | trace => "trace"

/-- Name of the value. -/
def valueName : OptionName → String
  | base => "BASE"
  | entry => "ENTRY"
  | heapSize => "HEAP_SIZE"
  | stackAddress => "STACK_ADDRESS"
  | stackSize => "STACK_SIZE"
  | maxInsts => "MAX_INSTS"
  | intrinsic => "NAME=ADDR"
  | trace => "TRACE"

/-- The option with its value in messages. -/
def display (o : OptionName) : String :=
  "--" ++ o.long ++ " <" ++ o.valueName ++ ">"

/-- The option of a name. -/
def ofLong? (s : String) : Option OptionName :=
  all.find? fun o => o.long = s

end OptionName

/-- What may be wrong with a command line. -/
inductive UsageError where
  /-- The command line asks for help. -/
  | help
  | unexpectedArgument (arg : String)
  | missingValue (display : String)
  | repeated (display : String)
  | unexpectedValue (value display : String)
  | invalidValue (value display problem : String)
  | missingImage
deriving DecidableEq, Inhabited

/-- The error in words. What the user typed is shown without commands to a terminal; the problem with a value
quotes it, and needs no such care. -/
def UsageError.message : UsageError → String
  | help => "help was asked for"
  | unexpectedArgument arg => "unexpected argument '" ++ visibleText arg ++ "' found"
  | missingValue display => "a value is required for '" ++ display ++ "' but none was supplied"
  | repeated display => "the argument '" ++ display ++ "' cannot be used multiple times"
  | unexpectedValue value display =>
    "unexpected value '" ++ visibleText value ++ "' for '" ++ display ++ "' found; no more were expected"
  | invalidValue value display problem =>
    "invalid value '" ++ visibleText value ++ "' for '" ++ display ++ "': " ++ problem
  | missingImage => "the following required arguments were not provided:"

/-! ### Values -/

/-- A number as the value of an option. -/
def parseNumberValue (s : String) : Except String UInt64 :=
  match parseNumber s with
  | .ok n => .ok n
  | .error e => .error ("invalid number " ++ quoted s ++ ": " ++ e.message)

/-- A routine and an address with an equals sign between them. -/
def parseIntrinsicValue (s : String) : Except String (Intrinsic × UInt64) := do
  let cs := s.toList
  let name := String.ofList (cs.takeWhile (· ≠ '='))
  match cs.dropWhile (· ≠ '=') with
  | [] => throw ("expected NAME=ADDR, got " ++ quoted s)
  | _ :: addr =>
    let some id := Intrinsic.ofName? name | throw ("unknown intrinsic " ++ quoted name)
    return (id, ← parseNumberValue (String.ofList addr))

/-- Options that were read so far. -/
structure PartialOptions where
  image : Option String
  base : Option UInt64
  entry : Option UInt64
  heapSize : Option UInt64
  stackAddress : Option UInt64
  stackSize : Option UInt64
  maxInsts : Option UInt64
  intrinsics : List (Intrinsic × UInt64)
  trace : Option String
  dumpState : Bool
deriving DecidableEq

namespace PartialOptions

/-- No option. -/
def empty : PartialOptions :=
  ⟨none, none, none, none, none, none, none, [], none, false⟩

/-- Whether an option that may be given once was given. -/
def has (p : PartialOptions) : OptionName → Bool
  | .base => p.base.isSome
  | .entry => p.entry.isSome
  | .heapSize => p.heapSize.isSome
  | .stackAddress => p.stackAddress.isSome
  | .stackSize => p.stackSize.isSome
  | .maxInsts => p.maxInsts.isSome
  | .intrinsic => false
  | .trace => p.trace.isSome

/-- Takes the value of an option; the error says what is wrong with the value. -/
def store (p : PartialOptions) (o : OptionName) (value : String) :
    Except String PartialOptions := do
  match o with
  | .base => return { p with base := some (← parseNumberValue value) }
  | .entry => return { p with entry := some (← parseNumberValue value) }
  | .heapSize => return { p with heapSize := some (← parseNumberValue value) }
  | .stackAddress => return { p with stackAddress := some (← parseNumberValue value) }
  | .stackSize => return { p with stackSize := some (← parseNumberValue value) }
  | .maxInsts =>
    match parseDecimal value with
    | .ok n => return { p with maxInsts := some n }
    | .error e => throw e.message
  | .intrinsic => return { p with intrinsics := p.intrinsics ++ [← parseIntrinsicValue value] }
  | .trace => return { p with trace := some value }

/-- Takes the value of an option. An option is given once, the name of a file is not empty, and the value
has to make sense. -/
def assign (p : PartialOptions) (o : OptionName) (value : String) :
    Except UsageError PartialOptions :=
  if p.has o then .error (.repeated o.display)
  else if o = .trace ∧ value = "" then .error (.missingValue o.display)
  else
    match p.store o value with
    | .ok q => .ok q
    | .error problem => .error (.invalidValue value o.display problem)

/-- Takes the name of the image. -/
def assignImage (p : PartialOptions) (value : String) : Except UsageError PartialOptions :=
  if value = "" then .error (.missingValue "<IMAGE>") else .ok { p with image := some value }

/-- Takes the option that asks for the final state. -/
def assignDump (p : PartialOptions) : Except UsageError PartialOptions :=
  if p.dumpState then .error (.repeated "--dump-state") else .ok { p with dumpState := true }

/-- All options, with defaults for those that were not given. -/
def complete (p : PartialOptions) : Except UsageError Options :=
  match p.image with
  | none => .error .missingImage
  | some image =>
    .ok {
      image := image
      base := p.base.getD 0x400000
      entry := p.entry
      heapSize := p.heapSize.getD 0
      stackAddress := p.stackAddress.getD 0x7ffffffff000
      stackSize := p.stackSize.getD 0x800000
      maxInsts := p.maxInsts.getD 100000000
      intrinsics := p.intrinsics
      trace := p.trace
      dumpState := p.dumpState }

end PartialOptions

/-! ### Arguments -/

/-- What an argument that was begun waits for. -/
inductive Pending where
  | nothing
  /-- An option without its value. -/
  | option (o : OptionName)
  /-- An option with its value, which was not looked at yet. -/
  | optionValue (o : OptionName) (value : String)
  /-- The name of the image, which was not looked at yet. -/
  | image (value : String)
deriving DecidableEq, Inhabited

/-- Finishes an argument that was begun. -/
def Pending.resolve (pending : Pending) (p : PartialOptions) : Except UsageError PartialOptions :=
  match pending with
  | nothing => .ok p
  | option o => .error (.missingValue o.display)
  | optionValue o value => p.assign o value
  | image value => p.assignImage value

/-- What was read of a command line. -/
structure ArgumentState where
  options : PartialOptions
  pending : Pending
  /-- Whether an image was named. -/
  hasImage : Bool
  /-- Whether two dashes were met. -/
  onlyNames : Bool

namespace ArgumentState

/-- Nothing. -/
def initial : ArgumentState := ⟨.empty, .nothing, false, false⟩

/-- Finishes an argument that was begun. -/
def resolve (s : ArgumentState) : Except UsageError ArgumentState :=
  match s.pending.resolve s.options with
  | .ok options => .ok { s with options := options, pending := .nothing }
  | .error e => .error e

/-- An argument that is no option: a value, or the image. -/
def addName (s : ArgumentState) (arg : String) : Except UsageError ArgumentState :=
  match s.pending, s.onlyNames with
  | .option o, false => .ok { s with pending := .optionValue o arg }
  | _, _ => do
    if s.hasImage then throw (.unexpectedArgument arg)
    let s ← s.resolve
    return { s with pending := .image arg, hasImage := true }

/-- A flag without a value. -/
def addFlag (s : ArgumentState) (name : String) (value : Option String)
    (act : PartialOptions → Except UsageError PartialOptions) :
    Except UsageError ArgumentState := do
  match value with
  | some v => throw (.unexpectedValue v ("--" ++ name))
  | none =>
    let s ← s.resolve
    return { s with options := ← act s.options }

/-- An option with two dashes, and its value if an equals sign is in the argument. -/
def addLong (s : ArgumentState) (name : String) (value : Option String) :
    Except UsageError ArgumentState := do
  if name = "help" then s.addFlag name value fun _ => .error .help
  else if name = "dump-state" then s.addFlag name value PartialOptions.assignDump
  else
    let some o := OptionName.ofLong? name | throw (.unexpectedArgument ("--" ++ name))
    let s ← s.resolve
    match value with
    | some v => return { s with options := ← s.options.assign o v }
    | none => return { s with pending := .option o }

/-- An option with one dash. -/
def addShort (s : ArgumentState) (letter : Char) : Except UsageError ArgumentState := do
  if letter = 'h' then
    let _ ← s.resolve
    throw .help
  else throw (.unexpectedArgument (String.ofList ['-', letter]))

/-- Takes an argument into account. -/
def add (s : ArgumentState) (arg : String) : Except UsageError ArgumentState :=
  if s.onlyNames then s.addName arg
  else
    match arg.toList with
    | ['-', '-'] => .ok { s with onlyNames := true }
    | '-' :: '-' :: cs =>
      let name := String.ofList (cs.takeWhile (· ≠ '='))
      match cs.dropWhile (· ≠ '=') with
      | [] => s.addLong name none
      | _ :: value => s.addLong name (some (String.ofList value))
    | '-' :: letter :: _ => s.addShort letter
    | _ => s.addName arg

end ArgumentState

/-- Reads a command line. -/
def Options.parse (args : List String) : Except UsageError Options := do
  let s ← args.foldlM ArgumentState.add .initial
  let s ← s.resolve
  s.options.complete

end Amd64
