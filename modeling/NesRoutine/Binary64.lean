/-! Double-precision numbers as their 64 bits, read from decimals and integers by
exact arithmetic and written with the fewest digits that read back. -/
namespace NesRoutine

structure Binary64 where
  bits : UInt64
  deriving DecidableEq, Repr, Inhabited

namespace Binary64

def signPlace : Nat := 1 <<< 63
def fractionCount : Nat := 1 <<< 52
def infinityCode : Nat := 2047 * fractionCount

/-- The bits below the sign; they order the magnitudes. -/
def magnitude (x : Binary64) : Nat := x.bits.toNat % signPlace

def isNegative (x : Binary64) : Bool := signPlace ≤ x.bits.toNat

def ofMagnitude (negative : Bool) (code : Nat) : Binary64 :=
  ⟨UInt64.ofNat (if negative then code + signPlace else code)⟩

def infinity (negative : Bool) : Binary64 := ofMagnitude negative infinityCode

def nan (negative : Bool) : Binary64 := ofMagnitude negative (infinityCode + fractionCount / 2)

def isNan (x : Binary64) : Bool := infinityCode < x.magnitude

def isFinite (x : Binary64) : Bool := x.magnitude < infinityCode

/-- Finite, and greater than either zero. -/
def isPositive (x : Binary64) : Bool := x.isFinite && !x.isNegative && x.magnitude != 0

/-- A quotient rounded to the nearest integer, a half to the even neighbour. -/
def roundDiv (num den : Nat) : Nat :=
  let q := num / den
  let r := num % den
  if 2 * r < den ∨ 2 * r = den ∧ q % 2 = 0 then q else q + 1

/-- The largest `e` with `2 ^ e ≤ num / den`. -/
def floorLog (num den : Nat) : Int :=
  let e : Int := num.log2 - den.log2
  if den * Nat.pow 2 e.toNat ≤ num * Nat.pow 2 (-e).toNat then e else e - 1

/-- The nearest number to `num / den`, with ties to even. Grid points are
multiples of `2 ^ s`, where `s` leaves 53 digits but is at least -1074, and the
code of the `q`-th of them is `q` plus 2 ^ 52 for every step of `s`. -/
def ofRatio (negative : Bool) (num den : Nat) : Binary64 :=
  if num = 0 then
    ofMagnitude negative 0
  else
    let s := max (floorLog num den - 52) (-1074)
    let q := roundDiv (num * Nat.pow 2 (-s).toNat) (den * Nat.pow 2 s.toNat)
    ofMagnitude negative (min ((s + 1074).toNat * fractionCount + q) infinityCode)

/-- The nearest number to `digits * 10 ^ exponent`. Powers beyond the range of
the format are not computed. -/
def ofDecimal (negative : Bool) (digits : Nat) (exponent : Int) : Binary64 :=
  let width : Int := (Nat.toDigits 10 digits).length
  if digits = 0 ∨ width + exponent < -330 then
    ofMagnitude negative 0
  else if 330 < width + exponent then
    infinity negative
  else
    ofRatio negative (digits * Nat.pow 10 exponent.toNat) (Nat.pow 10 (-exponent).toNat)

def ofInt (n : Int) : Binary64 := ofRatio (n < 0) n.natAbs 1

/-- A finite number is `significand * 2 ^ scale`, up to its sign. -/
def significand (x : Binary64) : Nat :=
  let fraction := x.magnitude % fractionCount
  if x.magnitude < fractionCount then fraction else fraction + fractionCount

def scale (x : Binary64) : Int :=
  if x.magnitude < fractionCount then -1074 else (x.magnitude / fractionCount : Nat) - 1075

/-- The magnitude of a finite number as a quotient. -/
def ratio (x : Binary64) : Nat × Nat :=
  (x.significand * Nat.pow 2 x.scale.toNat, Nat.pow 2 (-x.scale).toNat)

/-- The largest `e` with `10 ^ e ≤ num / den`. -/
def floorLog10 (num den : Nat) : Int :=
  if den ≤ num then (Nat.toDigits 10 (num / den)).length - 1
  else -(Nat.toDigits 10 ((den - 1) / num)).length

/-- A decimal of so many digits that reads back as the magnitude of a finite
number: the nearer neighbour, or else the other. -/
def decimal? (x : Binary64) (places : Nat) : Option (Nat × Int) :=
  let (num, den) := x.ratio
  let exponent := floorLog10 num den - (places - 1 : Nat)
  let num := num * Nat.pow 10 (-exponent).toNat
  let den := den * Nat.pow 10 exponent.toNat
  let near := roundDiv num den
  let far := 2 * (num / den) + 1 - near
  let reads (digits : Nat) : Bool := (ofDecimal false digits exponent).magnitude == x.magnitude
  let trimmed (digits : Nat) : Nat × Int :=
    if digits = Nat.pow 10 places then (1, exponent + places) else (digits, exponent)
  if reads near then some (trimmed near) else if reads far then some (trimmed far) else none

/-- The fewest digits that read back as the magnitude of a finite number, and
the power of ten of the last. Seventeen always do. -/
def shortest (x : Binary64) : Nat × Int :=
  if x.magnitude = 0 then (0, 0)
  else ((List.range 17).findSome? fun n => x.decimal? (n + 1)).getD (0, 0)

/-- Positional text, with a point and at least one digit on either side of it. -/
def text (x : Binary64) : String :=
  let sign := if x.isNegative then "-" else ""
  if x.isNan then "NaN"
  else if !x.isFinite then sign ++ "inf"
  else
    let (digits, exponent) := x.shortest
    let whole := Nat.toDigits 10 (digits * Nat.pow 10 exponent.toNat)
    let places := (-exponent).toNat
    let padded := List.replicate (places + 1 - whole.length) '0' ++ whole
    let point := padded.length - places
    let fraction := if places = 0 then ['0'] else padded.drop point
    sign ++ String.ofList (padded.take point) ++ "." ++ String.ofList fraction

end Binary64
end NesRoutine
