import NesRoutine.Toml.Cursor

/-! Strings: basic ones with escapes and literal ones without, on one line or
on several. -/
namespace NesRoutine.Toml.Cursor

/-- The value of a run of hexadecimal digits of the given length. -/
def hexValue? (digits : List Char) (width : Nat) : Option Nat :=
  if digits.length ≠ width then none
  else digits.foldlM (fun n d =>
    if d.isDigit then some (16 * n + (d.toNat - '0'.toNat))
    else if 'a' ≤ d.toLower ∧ d.toLower ≤ 'f' then some (16 * n + (d.toLower.toNat - 'a'.toNat + 10))
    else none) 0

def isHexDigit (d : Char) : Bool := d.isDigit || ('a' ≤ d.toLower && d.toLower ≤ 'f')

def scalar? (n : Nat) : Option Char := if h : n.isValidChar then some (Char.ofNatAux n h) else none

/-- A code point given by its number. -/
def codePoint (c : Cursor) (width : Nat) : Except Error (Char × Cursor) :=
  let digits := (c.rest.takeWhile isHexDigit).take width
  match (hexValue? digits width).bind scalar? with
  | some d => .ok (d, c.advanceBy width)
  | none =>
    .error ((c.advanceBy digits.length).malformed (some s!"unicode {width}-digit hex code"))

/-- The character behind a backslash. -/
def escape (c : Cursor) : Except Error (Char × Cursor) :=
  let next := c.advance
  match c.rest with
  | 'b' :: _ => .ok ('\x08', next)
  | 'f' :: _ => .ok ('\x0c', next)
  | 'n' :: _ => .ok ('\n', next)
  | 'r' :: _ => .ok ('\r', next)
  | 't' :: _ => .ok ('\t', next)
  | 'u' :: _ => next.codePoint 4
  | 'U' :: _ => next.codePoint 8
  | '\\' :: _ => .ok ('\\', next)
  | '"' :: _ => .ok ('"', next)
  | [] => .error (c.malformed none)
  | _ =>
    .error (next.malformed (some "escape sequence")
      ["`b`", "`f`", "`n`", "`r`", "`t`", "`u`", "`U`", "`\\`", "`\"`"])

/-- A string in double quotes; the cursor stands at the first. -/
def basicString (c : Cursor) : Except Error (String × Cursor) := do
  let (chars, c) ← c.advance.many fun c =>
    match c.rest with
    | '\\' :: _ => (c.advance.escape).map some
    | '"' :: _ => .ok none
    | d :: _ => .ok (if isText d then some (d, c.advance) else none)
    | [] => .ok none
  match c.rest with
  | '"' :: _ => .ok (String.ofList chars, c.advance)
  | _ => .error (c.malformed (some "basic string"))

/-- A string in single quotes. -/
def literalString (c : Cursor) : Except Error (String × Cursor) :=
  let (chars, c) := c.advance.takeWhile fun d => isText d && d ≠ '\''
  match c.rest with
  | '\'' :: _ => .ok (String.ofList chars, c.advance)
  | _ => .error (c.malformed (some "literal string"))

/-- A line break right behind the opening quotes does not count. -/
def skipFirstNewline (c : Cursor) : Cursor := c.afterNewline?.getD c

/-- Closes a string on several lines: up to two quotes may stand before the
three that end it. -/
def closeLines (c : Cursor) (quote : Char) (chars : List Char) (what : String) : Except Error (String × Cursor) :=
  let quotes := (c.rest.takeWhile (· == quote)).length
  if quotes < 3 then
    .error (c.malformed (some what))
  else
    let extra := min (quotes - 3) 2
    .ok (String.ofList (chars ++ List.replicate extra quote), c.advanceBy (extra + 3))

/-- Skips blanks and line breaks. -/
def skipSpace (c : Cursor) : Cursor := go c.rest.length c where
  go : Nat → Cursor → Cursor
    | 0, c => c
    | fuel + 1, c =>
      match c.afterNewline? with
      | some c => go fuel c
      | none => if c.rest.head?.any isBlank then go fuel c.advance else c

/-- A backslash at the end of a line swallows all space up to the next text. -/
def afterJoin? (c : Cursor) : Option Cursor := c.advance.skipBlanks.afterNewline?.map skipSpace

/-- One or two quotes, or a line break, or a character of a string on several lines. -/
def lineChunk? (c : Cursor) (quote : Char) : Option (List Char × Cursor) :=
  let quotes := c.rest.takeWhile (· == quote)
  match c.rest, c.afterNewline? with
  | _, some c => some (['\n'], c)
  | [], _ => none
  | d :: _, none =>
    if d == quote then
      if quotes.length < 3 then some (quotes, c.advanceBy quotes.length) else none
    else if isText d then some ([d], c.advance)
    else none

def basicLines (c : Cursor) : Except Error (String × Cursor) := do
  let (chunks, c) ← (c.advanceBy 3).skipFirstNewline.many fun c =>
    match c.rest with
    | '\\' :: _ =>
      match c.afterJoin? with
      | some c => .ok (some ([], c))
      | none => (c.advance.escape).map fun (d, c) => some ([d], c)
    | _ => .ok (c.lineChunk? '"')
  c.closeLines '"' chunks.flatten "multiline basic string"

def literalLines (c : Cursor) : Except Error (String × Cursor) := do
  let (chunks, c) ← (c.advanceBy 3).skipFirstNewline.many fun c => .ok (c.lineChunk? '\'')
  c.closeLines '\'' chunks.flatten "multiline literal string"

/-- A string of any kind; the cursor stands at its first quote. -/
def string (c : Cursor) : Except Error (String × Cursor) :=
  if "\"\"\"".toList.isPrefixOf c.rest then c.basicLines
  else if "'''".toList.isPrefixOf c.rest then c.literalLines
  else if c.rest.head? == some '"' then c.basicString
  else c.literalString

end NesRoutine.Toml.Cursor
