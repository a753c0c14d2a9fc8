import NesRoutine.Toml.Cursor
import NesRoutine.Toml.Value

/-! Numbers and dates. -/
namespace NesRoutine.Toml.Cursor

def digitsValue (base : Nat) (digits : List Char) : Nat :=
  digits.foldl (fun n d =>
    base * n + (if d.isDigit then d.toNat - '0'.toNat else d.toLower.toNat - 'a'.toNat + 10)) 0

/-- Digits of a class, where single underscores may stand between two of them;
nothing if no digit stands here. -/
def digits? (c : Cursor) (p : Char → Bool) (what : Option String) :
    Except Error (Option (List Char × Cursor)) := do
  match c.rest with
  | first :: _ =>
    if p first then
      let (rest, c) ← c.advance.many fun c =>
        match c.rest with
        | '_' :: d :: _ =>
          if p d then .ok (some (d, c.advanceBy 2))
          else .error (c.advance.malformed what ["digit"])
        | ['_'] => .error (c.advance.malformed what ["digit"])
        | d :: _ => .ok (if p d then some (d, c.advance) else none)
        | [] => .ok none
      .ok (some (first :: rest, c))
    else
      .ok none
  | [] => .ok none

def sign (c : Cursor) : Bool × Cursor :=
  match c.rest with
  | '-' :: _ => (true, c.advance)
  | '+' :: _ => (false, c.advance)
  | _ => (false, c)

/-- The digits of a decimal integer; a leading zero stands alone. -/
def decimal? (c : Cursor) : Except Error (Option (List Char × Cursor)) :=
  match c.rest with
  | '0' :: _ => .ok (some (['0'], c.advance))
  | _ => c.digits? Char.isDigit (some "integer")

def maxInteger : Nat := (1 <<< 63) - 1

/-- An integer in base 16, 8 or 2, behind its mark. -/
def based (c : Cursor) (base : Nat) (p : Char → Bool) (what : String) : Except Error (Value × Cursor) := do
  match ← (c.advanceBy 2).digits? p (some what) with
  | none => .error ((c.advanceBy 2).malformed (some what))
  | some (digits, rest) =>
    let n := digitsValue base digits
    if maxInteger < n then .error (c.fail .integerTooLarge) else .ok (.integer n, rest)

/-- The signed value of an exponent, if one stands here. -/
def exponent? (c : Cursor) : Except Error (Option (Int × Cursor)) := do
  match c.rest with
  | d :: _ =>
    if d == 'e' || d == 'E' then
      let (negative, c) := c.advance.sign
      match ← c.digits? Char.isDigit (some "floating-point number") with
      | none => .error (c.malformed (some "floating-point number"))
      | some (digits, c) =>
        let n : Int := digitsValue 10 digits
        .ok (some (if negative then -n else n, c))
    else
      .ok none
  | [] => .ok none

/-- A float whose digits are known. Too large a positive one is refused. -/
def floatOf (start c : Cursor) (negative : Bool) (digits : List Char) (exponent : Int) :
    Except Error (Value × Cursor) :=
  let x := Binary64.ofDecimal negative (digitsValue 10 digits) exponent
  if x = .infinity false then .error (start.malformed (some "floating-point number"))
  else .ok (.float x, c)

def number (start : Cursor) : Except Error (Value × Cursor) := do
  let (negative, c) := start.sign
  if let some c := c.after? "inf".toList then
    return (.float (.infinity negative), c)
  if let some c := c.after? "nan".toList then
    return (.float (.nan negative), c)
  match start.rest with
  | '0' :: 'x' :: _ => return ← start.based 16 (fun d => d.isDigit || ('a' ≤ d.toLower && d.toLower ≤ 'f')) "hexadecimal integer"
  | '0' :: 'o' :: _ => return ← start.based 8 (fun d => '0' ≤ d && d ≤ '7') "octal integer"
  | '0' :: 'b' :: _ => return ← start.based 2 (fun d => d == '0' || d == '1') "binary integer"
  | _ => pure ()
  match ← c.decimal? with
  | none => .error (c.malformed (some "integer"))
  | some (whole, c) =>
    if let some (exponent, c) := ← c.exponent? then
      return ← floatOf start c negative whole exponent
    match c.rest with
    | '.' :: _ =>
      match ← c.advance.digits? Char.isDigit (some "floating-point number") with
      | none => .error (c.advance.malformed (some "floating-point number") ["digit"])
      | some (fraction, c) =>
        let (exponent, c) := (← c.exponent?).getD (0, c)
        floatOf start c negative (whole ++ fraction) (exponent - fraction.length)
    | _ =>
      let n : Int := digitsValue 10 whole
      if negative then
        if maxInteger + 1 < n then .error (start.fail .integerTooSmall) else .ok (.integer (-n), c)
      else
        if maxInteger < n then .error (start.fail .integerTooLarge) else .ok (.integer n, c)

/-- Exactly so many digits. -/
def fixed? (c : Cursor) (width : Nat) : Option (Nat × Cursor) :=
  let digits := (c.rest.takeWhile Char.isDigit).take width
  if digits.length = width then some (digitsValue 10 digits, c.advanceBy width) else none

/-- Digits within bounds. -/
def bounded? (c : Cursor) (width lo hi : Nat) : Option (Nat × Cursor) :=
  (c.fixed? width).filter fun (n, _) => lo ≤ n ∧ n ≤ hi

def daysIn (year month : Nat) : Nat :=
  if month = 2 then
    if year % 4 = 0 ∧ (year % 100 ≠ 0 ∨ year % 400 = 0) then 29 else 28
  else if month ∈ [4, 6, 9, 11] then 30
  else 31

/-- A date. Behind four digits and a dash, nothing else can stand. -/
def date? (c : Cursor) : Except Error (Option Cursor) := do
  let some (year, c) := c.fixed? 4 | return none
  let some c := c.after? ['-'] | return none
  let wrong (c : Cursor) : Error := c.malformed (some "date-time")
  let some (month, c) := c.bounded? 2 1 12 | throw (wrong c)
  let some c := c.after? ['-'] | throw (wrong c)
  let some (day, rest) := c.bounded? 2 1 31 | throw (wrong c)
  if daysIn year month < day then throw (c.fail .outOfRange)
  return some rest

/-- A time of day. Behind two digits and a colon, nothing else can stand. -/
def time? (c : Cursor) : Except Error (Option Cursor) := do
  let some (_, c) := c.bounded? 2 0 23 | return none
  let some c := c.after? [':'] | return none
  let wrong (c : Cursor) : Error := c.malformed (some "date-time")
  let some (_, c) := c.bounded? 2 0 59 | throw (wrong c)
  let some c := c.after? [':'] | throw (wrong c)
  let some (_, c) := c.bounded? 2 0 60 | throw (wrong c)
  match c.rest with
  | '.' :: d :: _ => return some (if d.isDigit then c.advance.skipWhile Char.isDigit else c)
  | _ => return some c

/-- The text behind an offset from universal time, if one stands here. -/
def zone (c : Cursor) : Except Error Cursor := do
  match c.rest with
  | 'Z' :: _ | 'z' :: _ => return c.advance
  | '+' :: _ | '-' :: _ =>
    let c := c.advance
    let wrong (c : Cursor) : Error := c.malformed (some "time offset")
    let some (_, c) := c.bounded? 2 0 23 | throw (wrong c)
    let some c := c.after? [':'] | throw (wrong c)
    let some (_, c) := c.bounded? 2 0 59 | throw (wrong c)
    return c
  | _ => return c

/-- A date, a time, or both, the latter with an offset or without. -/
def datetime? (c : Cursor) : Except Error (Option Cursor) := do
  let some date ← c.date? | c.time?
  match date.rest with
  | d :: _ =>
    if d == 'T' || d == 't' || d == ' ' then
      match ← date.advance.time? with
      | some time => return some (← time.zone)
      | none => return some date
    else
      return some date
  | [] => return some date

/-- A number or a date; the cursor stands at a sign or a digit. -/
def numeric (c : Cursor) : Except Error (Value × Cursor) := do
  match ← c.datetime? with
  | some rest =>
    let text := c.rest.take (c.rest.length - rest.rest.length)
    return (.datetime (String.ofList text), rest)
  | none => c.number

end NesRoutine.Toml.Cursor
