import NesRoutine.Toml.Error

/-! Except Error (a × Cursor) text from the front while counting its bytes. -/
namespace NesRoutine.Toml

structure Cursor where
  rest : List Char
  /-- How many bytes stand before the rest. -/
  offset : Nat := 0
  deriving Repr, Inhabited

namespace Cursor

def advance (c : Cursor) : Cursor :=
  match c.rest with
  | [] => c
  | d :: rest => { rest, offset := c.offset + d.utf8Size }

def advanceBy (c : Cursor) : Nat → Cursor
  | 0 => c
  | n + 1 => c.advance.advanceBy n

/-- The leading characters of a class. -/
def takeWhile (c : Cursor) (p : Char → Bool) : List Char × Cursor :=
  let taken := c.rest.takeWhile p
  (taken, c.advanceBy taken.length)

def skipWhile (c : Cursor) (p : Char → Bool) : Cursor := (c.takeWhile p).2

/-- The text behind a word, if it stands here. -/
def after? (c : Cursor) (word : List Char) : Option Cursor :=
  if word.isPrefixOf c.rest then some (c.advanceBy word.length) else none

/-- An error at the next character. -/
def fail (c : Cursor) (complaint : Complaint) : Error :=
  let width := (c.rest.head?.map Char.utf8Size).getD 0
  { complaint, span := ⟨c.offset, c.offset + width⟩ }

def malformed (c : Cursor) (what : Option String) (expected : List String := []) : Error :=
  c.fail (.malformed what expected)

/-- Repeats a reader that takes at least one character each time it answers. -/
def many (c : Cursor) (read : Cursor → Except Error (Option (α × Cursor))) : Except Error (List α × Cursor) :=
  go c.rest.length c
where
  go : Nat → Cursor → Except Error (List α × Cursor)
    | 0, c => .ok ([], c)
    | fuel + 1, c => do
      match ← read c with
      | none => .ok ([], c)
      | some (a, c) =>
        let (rest, c) ← go fuel c
        .ok (a :: rest, c)

def isBlank (d : Char) : Bool := d == ' ' || d == '\t'

def skipBlanks (c : Cursor) : Cursor := c.skipWhile isBlank

/-- The text behind a line break. -/
def afterNewline? (c : Cursor) : Option Cursor :=
  match c.rest with
  | '\n' :: _ => some c.advance
  | '\r' :: '\n' :: _ => some (c.advanceBy 2)
  | _ => none

/-- Tabs and everything above the control characters may stand in comments and
strings. -/
def isText (d : Char) : Bool := d == '\t' || (' ' ≤ d && d ≠ '\x7f')

/-- The text behind a comment, if one stands here. -/
def skipComment (c : Cursor) : Cursor :=
  match c.rest with
  | '#' :: _ => c.skipWhile isText
  | _ => c

/-- Skips blanks, comments and line breaks. -/
def skipLines (c : Cursor) : Except Error (Unit × Cursor) := do
  let (_, c) ← c.many fun c =>
    match c.rest with
    | '#' :: _ =>
      match (c.skipComment).afterNewline? with
      | some c => .ok (some ((), c))
      | none => .error (c.skipComment.malformed none)
    | d :: _ =>
      if isBlank d then .ok (some ((), c.skipBlanks))
      else .ok (c.afterNewline?.map ((), ·))
    | [] => .ok none
  .ok ((), c)

/-- The rest of a line after its statement. -/
def endLine (c : Cursor) : Except Error (Unit × Cursor) :=
  let c := c.skipBlanks.skipComment
  match c.rest, c.afterNewline? with
  | [], _ => .ok ((), c)
  | _, some c => .ok ((), c)
  | _, none => .error (c.malformed none ["newline", "`#`"])

end Cursor
end NesRoutine.Toml
