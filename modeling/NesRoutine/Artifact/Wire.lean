/-! Reading and writing the parts of a binary format: little-endian numbers of
fixed width, one byte for a truth value or for the presence of an optional
value, four bytes for the alternative of a choice, eight for a length. -/
namespace NesRoutine.Artifact

/-- Why bytes are not in the format, or cannot be written. -/
inductive FormatError where
  /-- The input ended, or the output takes no more. -/
  | ended (writing : Bool)
  /-- A directory stands where the input should be. -/
  | directory
  | invalidBool (found : UInt8)
  | invalidTag (found : UInt8)
  | invalidVariant (found count : Nat)
  | tooLarge
  deriving DecidableEq, Repr, Inhabited

def FormatError.message : FormatError → String
  | ended false => "io error: failed to fill whole buffer"
  | ended true => "io error: failed to write whole buffer"
  | directory => "io error: Is a directory (os error 21)"
  | invalidBool found =>
    s!"invalid u8 while decoding bool, expected 0 or 1, found {found.toNat}"
  | invalidTag found => s!"tag for enum is not valid, found {found.toNat}"
  | invalidVariant found count =>
    s!"invalid value: integer `{found}`, expected variant index 0 <= i < {count}"
  | tooLarge => "the size limit has been reached"

/-- What is left to read, and how many bytes may still be read. -/
structure Input where
  bytes : List UInt8
  room : Nat
  deriving DecidableEq, Repr

abbrev Decoder := StateT Input (Except FormatError)

def encodeNat : Nat → Nat → List UInt8
  | 0, _ => []
  | width + 1, n => UInt8.ofNat n :: encodeNat width (n / 256)

namespace Decoder

/-- The size limit is looked at before a number is read. -/
def reserve (n : Nat) : Decoder Unit := fun i =>
  if i.room < n then .error .tooLarge else .ok ((), { i with room := i.room - n })

def take : Decoder UInt8 := fun i =>
  match i.bytes with
  | [] => .error (.ended false)
  | b :: bytes => .ok (b, { i with bytes })

def takeNat : Nat → Decoder Nat
  | 0 => pure 0
  | width + 1 => do
    let b ← take
    let high ← takeNat width
    return b.toNat + 256 * high

def nat (width : Nat) : Decoder Nat := do
  reserve width
  takeNat width

def u8 : Decoder UInt8 := do return UInt8.ofNat (← nat 1)

def u16 : Decoder UInt16 := do return UInt16.ofNat (← nat 2)

def u32 : Decoder UInt32 := do return UInt32.ofNat (← nat 4)

def bool : Decoder Bool := do
  match ← u8 with
  | 0 => return false
  | 1 => return true
  | b => throw (.invalidBool b)

def option (d : Decoder α) : Decoder (Option α) := do
  match ← u8 with
  | 0 => return none
  | 1 => return some (← d)
  | b => throw (.invalidTag b)

/-- The number of an alternative out of `count`. -/
def variant (count : Nat) : Decoder Nat := do
  let n ← nat 4
  if n < count then return n else throw (.invalidVariant n count)

/-- One of the listed values, by its position. -/
def oneOf (values : List α) : Decoder α := do
  let n ← nat 4
  match values[n]? with
  | some value => return value
  | none => throw (.invalidVariant n values.length)

/-- `n` more values, after the reversed `done`. -/
def repeatInto (d : Decoder α) : Nat → List α → Decoder (List α)
  | 0, done => return done.reverse
  | n + 1, done => do repeatInto d n ((← d) :: done)

def list (d : Decoder α) : Decoder (List α) := do repeatInto d (← nat 8) []

end Decoder

def encodeU8 (v : UInt8) : List UInt8 := encodeNat 1 v.toNat

def encodeU16 (v : UInt16) : List UInt8 := encodeNat 2 v.toNat

def encodeU32 (v : UInt32) : List UInt8 := encodeNat 4 v.toNat

def encodeBool (v : Bool) : List UInt8 := encodeNat 1 v.toNat

def encodeOption (encode : α → List UInt8) : Option α → List UInt8
  | none => encodeNat 1 0
  | some v => encodeNat 1 1 ++ encode v

def encodeVariant (n : Nat) : List UInt8 := encodeNat 4 n

def encodeList (encode : α → List UInt8) (vs : List α) : List UInt8 :=
  encodeNat 8 vs.length ++ vs.flatMap encode

end NesRoutine.Artifact
