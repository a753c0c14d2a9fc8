/-! Hexadecimal text of bytes and addresses, upper case in messages and lower
case in dumps. -/
namespace NesRoutine.Hex

/-- The digits of `n`, padded with zeros to at least `width`. -/
def lower (width n : Nat) : String :=
  let digits := Nat.toDigits 16 n
  String.ofList (List.replicate (width - digits.length) '0' ++ digits)

def upper (width n : Nat) : String := (lower width n).map Char.toUpper

def byte (b : UInt8) : String := upper 2 b.toNat

def word (w : UInt16) : String := upper 4 w.toNat

/-- An address the way every message writes it: `$8000`. -/
def address (a : UInt16) : String := "$" ++ word a

/-- Two lower-case digits for each byte. -/
def dump (bytes : List UInt8) : String :=
  String.join (bytes.map fun b => lower 2 b.toNat)

def digitValue (c : Char) : Nat :=
  if c.isDigit then c.toNat - '0'.toNat else c.toLower.toNat - 'a'.toNat + 10

/-- The bytes that a dump shows. -/
def bytes (text : String) : List UInt8 := go text.toList where
  go : List Char → List UInt8
    | hi :: lo :: rest => UInt8.ofNat (16 * digitValue hi + digitValue lo) :: go rest
    | _ => []

/-- The runs of bytes that are not zero, each with the offset it starts at. -/
def runs (bytes : List UInt8) : List (Nat × String) := go 0 [] bytes where
  go (offset : Nat) : List UInt8 → List UInt8 → List (Nat × String)
    | [], [] => []
    | run, [] => [(offset - run.length, dump run.reverse)]
    | [], 0 :: bs => go (offset + 1) [] bs
    | run, 0 :: bs => (offset - run.length, dump run.reverse) :: go (offset + 1) [] bs
    | run, b :: bs => go (offset + 1) (b :: run) bs

end NesRoutine.Hex
