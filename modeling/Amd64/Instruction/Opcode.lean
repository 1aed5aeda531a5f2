import Amd64.Width

namespace Amd64

/-!
# Families of operations

The operations that share an operand form are grouped into families: integer arithmetic, shifts,
multiplication and division, flags, strings, and the vector families of the legacy and of the VEX
encodings. Each member has a mnemonic.
-/

/-- Two-operand integer arithmetic that keeps its result. -/
inductive ArithOp where
  | add | or | adc | sbb | and | sub | xor
deriving DecidableEq, Inhabited

namespace ArithOp

/-- The operation of a three-bit opcode extension. The number 7 stands for a comparison, which keeps no
result. -/
def ofDigit? (d : Fin 8) : Option ArithOp :=
  match d.val with
  | 0 => some add
  | 1 => some or
  | 2 => some adc
  | 3 => some sbb
  | 4 => some and
  | 5 => some sub
  | 6 => some xor
  | _ => none

/-- Mnemonic. -/
def mnemonic : ArithOp → String
  | add => "add"
  | or => "or"
  | adc => "adc"
  | sbb => "sbb"
  | and => "and"
  | sub => "sub"
  | xor => "xor"

end ArithOp

/-- Shifts and rotations. -/
inductive ShiftOp where
  | rol | ror | shl | shr | sar
deriving DecidableEq, Inhabited

/-- Mnemonic. -/
def ShiftOp.mnemonic : ShiftOp → String
  | rol => "rol"
  | ror => "ror"
  | shl => "shl"
  | shr => "shr"
  | sar => "sar"

/-- Where the count of a shift comes from. -/
inductive ShiftCount where
  | imm (n : UInt8)
  | cl
deriving DecidableEq, Inhabited

/-- Multiplication and division of the double-width accumulator. -/
inductive MulDivOp where
  | mul | imul | div | idiv
deriving DecidableEq, Inhabited

/-- Mnemonic. -/
def MulDivOp.mnemonic : MulDivOp → String
  | mul => "mul"
  | imul => "imul"
  | div => "div"
  | idiv => "idiv"

/-- Instructions that change one flag. -/
inductive FlagOp where
  | clc | stc | cmc | cld | std
deriving DecidableEq, Inhabited

/-- Mnemonic. -/
def FlagOp.mnemonic : FlagOp → String
  | clc => "clc"
  | stc => "stc"
  | cmc => "cmc"
  | cld => "cld"
  | std => "std"

/-- String instructions. -/
inductive StringOp where
  | movs | cmps | stos | lods | scas
deriving DecidableEq, Inhabited

namespace StringOp

/-- Mnemonic without the letter of the width. -/
def mnemonic : StringOp → String
  | movs => "movs"
  | cmps => "cmps"
  | stos => "stos"
  | lods => "lods"
  | scas => "scas"

/-- Whether the operation compares, so that a repetition may stop early. -/
def compares : StringOp → Bool
  | cmps => true
  | scas => true
  | _ => false

end StringOp

/-- How often a string instruction is repeated. -/
inductive Repeat where
  /-- Once. -/
  | none
  /-- As often as the count register says. -/
  | rep
  /-- At most that often, while the compared values are equal. -/
  | repe
  /-- At most that often, while the compared values differ. -/
  | repne
deriving DecidableEq, Inhabited

/-- Name as it stands before a mnemonic. -/
def Repeat.name : Repeat → String
  | none => ""
  | rep => "rep"
  | repe => "repe"
  | repne => "repne"

/-- Precision of a floating-point number. -/
inductive Precision where
  | single
  | double
deriving DecidableEq, Inhabited

/-- Letter of the precision in mnemonics. -/
def Precision.letter : Precision → String
  | single => "s"
  | double => "d"

/-- Letter of an element width in mnemonics. -/
def Width.letter : Width → String
  | w8 => "b"
  | w16 => "w"
  | w32 => "d"
  | w64 => "q"

/-- Moves of 128 bits, which differ in their mnemonics only. -/
inductive PackedMove where
  | movaps | movups | movapd | movupd | movdqa | movdqu
deriving DecidableEq, Inhabited

/-- Mnemonic. -/
def PackedMove.mnemonic : PackedMove → String
  | movaps => "movaps"
  | movups => "movups"
  | movapd => "movapd"
  | movupd => "movupd"
  | movdqa => "movdqa"
  | movdqu => "movdqu"

/-- Bitwise operations on 128 bits. -/
inductive LogicOp where
  | pxor | pand | pandn | por | xorps | xorpd | andps | andpd | orps | orpd
deriving DecidableEq, Inhabited

/-- Mnemonic. -/
def LogicOp.mnemonic : LogicOp → String
  | pxor => "pxor"
  | pand => "pand"
  | pandn => "pandn"
  | por => "por"
  | xorps => "xorps"
  | xorpd => "xorpd"
  | andps => "andps"
  | andpd => "andpd"
  | orps => "orps"
  | orpd => "orpd"

/-- Operations on the lanes of two vectors. -/
inductive LaneOp where
  | add | sub | cmpeq
deriving DecidableEq, Inhabited

/-- Mnemonic without the letter of the lane width. -/
def LaneOp.mnemonic : LaneOp → String
  | add => "padd"
  | sub => "psub"
  | cmpeq => "pcmpeq"

/-- Shifts of the lanes of a vector. -/
inductive LaneShift where
  | left | right | arithmetic
deriving DecidableEq, Inhabited

/-- Mnemonic without the letter of the lane width. -/
def LaneShift.mnemonic : LaneShift → String
  | left => "psll"
  | right => "psrl"
  | arithmetic => "psra"

/-- Floating-point arithmetic on one number. -/
inductive FloatOp where
  | add | sub | mul | div | sqrt
deriving DecidableEq, Inhabited

/-- Mnemonic without the letters of the number format. -/
def FloatOp.mnemonic : FloatOp → String
  | add => "add"
  | sub => "sub"
  | mul => "mul"
  | div => "div"
  | sqrt => "sqrt"

/-- Vector operations in the legacy encoding. -/
inductive SseOp where
  /-- Moves 128 bits. -/
  | movePacked (form : PackedMove)
  /-- Moves one floating-point number. -/
  | moveScalar (p : Precision)
  /-- Moves 32 bits and zeroes the rest of a vector register. -/
  | movd
  /-- Moves 64 bits and zeroes the rest of a vector register. -/
  | movq
  | logic (op : LogicOp)
  | lanes (op : LaneOp) (lane : Width)
  /-- Collects the top bits of the bytes of a vector. -/
  | moveMask
  | shiftLanes (op : LaneShift) (lane : Width)
  /-- Shifts 128 bits by whole bytes. -/
  | shiftBytes (op : LaneShift)
  | float (op : FloatOp) (p : Precision)
  /-- Compares two numbers. The two mnemonics differ in which NaN raise exceptions, and no exception is
  raised here. -/
  | compare (ordered : Bool) (p : Precision)
  /-- Converts a signed integer of the given width. -/
  | ofInteger (p : Precision) (w : Width)
  /-- Converts to a signed integer of the given width, toward zero. -/
  | toInteger (p : Precision) (w : Width)
  /-- Converts single to double precision. -/
  | widen
  /-- Converts double to single precision. -/
  | narrow
deriving DecidableEq, Inhabited

/-- Mnemonic. -/
def SseOp.mnemonic : SseOp → String
  | movePacked form => form.mnemonic
  | moveScalar p => "movs" ++ p.letter
  | movd => "movd"
  | movq => "movq"
  | logic op => op.mnemonic
  | lanes op lane => op.mnemonic ++ lane.letter
  | moveMask => "pmovmskb"
  | shiftLanes op lane => op.mnemonic ++ lane.letter
  | shiftBytes op => op.mnemonic ++ "dq"
  | float op p => op.mnemonic ++ "s" ++ p.letter
  | compare true p => "comis" ++ p.letter
  | compare false p => "ucomis" ++ p.letter
  | ofInteger p _ => "cvtsi2s" ++ p.letter
  | toInteger p _ => "cvtts" ++ p.letter ++ "2si"
  | widen => "cvtss2sd"
  | narrow => "cvtsd2ss"

/-- Three-operand vector operations in the VEX encoding. -/
inductive VexOp where
  | vpxor | vpaddq
deriving DecidableEq, Inhabited

/-- Mnemonic. -/
def VexOp.mnemonic : VexOp → String
  | vpxor => "vpxor"
  | vpaddq => "vpaddq"

/-- Routines that the machine performs in place of guest code. -/
inductive Intrinsic where
  | strlen | strchrnul | memcpy | memset
deriving DecidableEq, Inhabited

namespace Intrinsic

/-- All routines. -/
def all : List Intrinsic := [strlen, strchrnul, memcpy, memset]

/-- Name of the routine. -/
def name : Intrinsic → String
  | strlen => "strlen"
  | strchrnul => "strchrnul"
  | memcpy => "memcpy"
  | memset => "memset"

/-- The routine of a name. -/
def ofName? (s : String) : Option Intrinsic :=
  all.find? fun i => i.name = s

@[simp] theorem ofName?_name (i : Intrinsic) : ofName? i.name = some i := by
  cases i <;> rfl

end Intrinsic

end Amd64
