import NesRoutine.Toml.Quoted
import NesRoutine.Toml.Scalar
import NesRoutine.Toml.Table

/-! The grammar of values, and of the lines that make up a document. -/
namespace NesRoutine.Toml

/-- A line of a document that says something. -/
inductive Statement where
  | entry (path : List Key) (last : Key) (span : Span) (value : Value)
  | header (path : List Key) (last : Key) (span : Span)
  | listHeader (path : List Key) (last : Key) (span : Span)
  deriving Inhabited

/-- Keys of this many parts, and values nested so deeply, are refused. -/
def depthLimit : Nat := 80

namespace Cursor

def isBare (d : Char) : Bool :=
  ('a' ≤ d && d ≤ 'z') || ('A' ≤ d && d ≤ 'Z') || d.isDigit || d == '-' || d == '_'

/-- One part of a key. -/
def keyPart (c : Cursor) : Except Error (Key × Cursor) := do
  let finish (name : String) (rest : Cursor) : Key × Cursor :=
    ({ name, span := ⟨c.offset, rest.offset⟩ }, rest)
  match c.rest with
  | '"' :: _ =>
    let (name, rest) ← c.basicString
    return finish name rest
  | '\'' :: _ =>
    let (name, rest) ← c.literalString
    return finish name rest
  | _ =>
    let (name, rest) := c.takeWhile isBare
    if name.isEmpty then throw (c.malformed (some "key"))
    return finish (String.ofList name) rest

/-- Whether a key part could start here. -/
def startsKey (c : Cursor) : Bool :=
  c.rest.head?.any fun d => isBare d || d == '"' || d == '\''

/-- A key of one or more parts, the last apart from those before it. -/
def key (start : Cursor) : Except Error ((List Key × Key) × Cursor) := do
  let (first, c) ← start.skipBlanks.keyPart
  let (others, c) ← c.skipBlanks.many fun c =>
    match c.rest with
    | '.' :: _ =>
      let c := c.advance.skipBlanks
      if c.startsKey then c.keyPart.map fun (k, c) => some (k, c.skipBlanks) else .ok none
    | _ => .ok none
  let parts := first :: others
  if depthLimit ≤ parts.length then throw (start.fail .tooDeep)
  return ((parts.dropLast, others.getLast?.getD first), c)

/-- The sign between a key and its value. -/
def equals (c : Cursor) : Except Error (Unit × Cursor) :=
  match c.rest with
  | '=' :: _ => .ok ((), c.advance)
  | _ => .error (c.malformed none ["`.`", "`=`"])

/-- Whether a value could start here. -/
def startsValue (c : Cursor) : Bool :=
  c.rest.head?.any fun d => d.isDigit || "+-\"'[\x7btfin".toList.contains d

/-- Items and commas up to a closing bracket; a comma may stand behind the last item. -/
def items (c : Cursor) (value : Cursor → Except Error (Value × Cursor)) : Except Error (List Value × Cursor) := do
  let item (c : Cursor) : Except Error (Option (Value × Cursor)) := do
    let ((), c) ← c.skipLines
    if !c.startsValue then return none
    let (v, c) ← value c
    let ((), c) ← c.skipLines
    match c.rest with
    | ',' :: _ => return some (v, c.advance)
    | ']' :: _ => return some (v, c)
    | _ => throw (c.malformed (some "array") ["`]`"])
  let (values, c) ← c.many item
  let ((), c) ← c.skipLines
  match c.rest with
  | ']' :: _ => return (values, c.advance)
  | _ => throw (c.malformed (some "array") ["`]`"])

/-- The entries of a table written out on one line; no comma stands behind the last. -/
def inlineEntries (c : Cursor) (value : Cursor → Except Error (Value × Cursor)) : Except Error (List Entry × Cursor) := do
  let opened := c
  let pair (c : Cursor) : Except Error ((List Key × Key × Option Span × Value) × Cursor) := do
    let ((path, last), c) ← c.key
    let ((), c) ← c.equals
    let c := c.skipBlanks
    let (v, rest) ← value c
    return ((path, last, some ⟨c.offset, rest.offset⟩, v), rest.skipBlanks)
  let more (c : Cursor) : Except Error (Option ((List Key × Key × Option Span × Value) × Cursor)) :=
    match c.rest with
    | ',' :: _ =>
      if c.advance.skipBlanks.startsKey then (pair c.advance).map some else .ok none
    | _ => .ok none
  let (pairs, c) ← if c.skipBlanks.startsKey then do
      let (first, c) ← pair c
      let (others, c) ← c.many more
      pure (first :: others, c)
    else pure ([], c.skipBlanks)
  match c.rest with
  | '}' :: _ =>
    match pairs.foldlM (fun entries (path, last, span, v) =>
        Table.insertInline entries path (last, span, v)) [] with
    | .ok entries => return (entries, c.advance)
    | .error complaint => throw (opened.fail complaint)
  | _ => throw (c.malformed (some "inline table") ["`\x7d`"])

/-- A value. `depth` is how many brackets may still be opened. -/
def value (depth : Nat) (c : Cursor) : Except Error (Value × Cursor) :=
  let word (text : String) (v : Value) : Except Error (Value × Cursor) :=
    match c.after? text.toList with
    | some c => .ok (v, c)
    | none => .error (c.malformed (some "string") ["`\"`", "`'`"])
  match depth, c.rest with
  | _, [] => .error (c.malformed none)
  | 0, '[' :: _ | 0, '{' :: _ => .error (c.fail .tooDeep)
  | depth + 1, '[' :: _ => (c.advance.items (value depth)).map fun (vs, c) => (.array vs, c)
  | depth + 1, '{' :: _ =>
    (c.advance.inlineEntries (value depth)).map fun (es, c) => (.table .inline es, c)
  | _, '"' :: _ | _, '\'' :: _ => c.string.map fun (s, c) => (.string s, c)
  | _, 't' :: _ => word "true" (.boolean true)
  | _, 'f' :: _ => word "false" (.boolean false)
  | _, 'i' :: _ => word "inf" (.float (.infinity false))
  | _, 'n' :: _ => word "nan" (.float (.nan false))
  | _, '_' :: _ => .error (c.malformed (some "integer") ["leading digit"])
  | _, '.' :: _ => .error (c.malformed (some "floating-point number") ["leading digit"])
  | _, d :: _ =>
    if d.isDigit || d == '+' || d == '-' then c.numeric
    else .error (c.malformed (some "string") ["`\"`", "`'`"])

/-- A header between single or double brackets, and the rest of its line. -/
def header (start : Cursor) : Except Error (Statement × Cursor) := do
  let doubled := ['[', '['].isPrefixOf start.rest
  let close := if doubled then "]]" else "]"
  let ((path, last), c) ← (start.advanceBy close.length).key
  match c.after? close.toList with
  | none => throw (c.malformed (some "table header") ["`.`", s!"`{close}`"])
  | some c =>
    let span : Span := ⟨start.offset, c.offset⟩
    let ((), c) ← c.endLine
    return (if doubled then .listHeader path last span else .header path last span, c)

/-- A key with its value, and the rest of its line. -/
def entry (start : Cursor) : Except Error (Statement × Cursor) := do
  let ((path, last), c) ← start.key
  let ((), c) ← c.equals
  let c := c.skipBlanks
  let (v, rest) ← value (depthLimit - 1) c
  let ((), next) ← rest.endLine
  return (.entry path last ⟨c.offset, rest.offset⟩ v, next)

/-- The next statement, if there is one, with the place where it starts. -/
def statement? (c : Cursor) : Except Error (Option ((Cursor × Statement) × Cursor)) := do
  let (_, c) ← c.skipBlanks.many fun c =>
    match c.rest with
    | '#' :: _ => c.endLine.map fun ((), c) => some ((), c.skipBlanks)
    | _ => .ok (c.afterNewline?.map fun c => ((), c.skipBlanks))
  match c.rest with
  | [] => return none
  | '[' :: _ =>
    let (s, rest) ← c.header
    return some ((c, s), rest)
  | '\r' :: _ => throw (c.malformed none)
  | _ =>
    let (s, rest) ← c.entry
    return some ((c, s), rest)

end Cursor
end NesRoutine.Toml
