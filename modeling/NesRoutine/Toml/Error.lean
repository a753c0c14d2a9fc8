/-! Why a TOML document is refused, where in the text, and how that is shown. -/
namespace NesRoutine.Toml

/-- A range of byte offsets into a text. -/
structure Span where
  start : Nat
  stop : Nat
  deriving DecidableEq, Repr, Inhabited

/-- Why a value does not fit the field it is given for. -/
inductive Misfit where
  | wrongType (found expected : String)
  | wrongInteger (n : Int) (expected : String)
  | unknownVariant (name : String) (known : List String)
  | notVariant
  | noVariant
  | manyVariants
  /-- A variant without contents was given some. -/
  | contents
  | notContents (found : String)
  deriving DecidableEq, Repr, Inhabited

def Misfit.message : Misfit → String
  | wrongType found expected => s!"invalid type: {found}, expected {expected}"
  | wrongInteger n expected => s!"invalid value: integer `{n}`, expected {expected}"
  | unknownVariant name known =>
    let names := " or ".intercalate (known.map fun v => s!"`{v}`")
    s!"unknown variant `{name}`, expected {names}"
  | notVariant => "wanted string or table"
  | noVariant => "wanted exactly 1 element, found 0 elements"
  | manyVariants => "wanted exactly 1 element, more than 1 element"
  | contents => "expected empty table"
  | notContents found => s!"expected table, found {found}"

inductive Complaint where
  /-- What was being read, if it has a name, and what could have stood here. -/
  | malformed (what : Option String) (expected : List String)
  | integerTooLarge
  | integerTooSmall
  | outOfRange
  | tooDeep
  /-- The table is given by its path where it is known. -/
  | duplicateKey (key : String) (table : Option (List String))
  | extendsValue (path : List String) (kind : String)
  | misfit (cause : Misfit)
  deriving DecidableEq, Repr, Inhabited

def Complaint.message : Complaint → String
  | malformed what expected =>
    let what := what.toList.map ("invalid " ++ ·)
    let expected := if expected.isEmpty then [] else ["expected " ++ ", ".intercalate expected]
    "\n".intercalate (what ++ expected)
  | integerTooLarge => "number too large to fit in target type"
  | integerTooSmall => "number too small to fit in target type"
  | outOfRange => "value is out of range"
  | tooDeep => "recursion limit exceeded"
  | duplicateKey key none => s!"duplicate key `{key}`"
  | duplicateKey key (some []) => s!"duplicate key `{key}` in document root"
  | duplicateKey key (some path) =>
    let table := ".".intercalate path
    s!"duplicate key `{key}` in table `{table}`"
  | extendsValue path kind =>
    let key := ".".intercalate path
    s!"dotted key `{key}` attempted to extend non-table type ({kind})"
  | misfit cause => cause.message

structure Error where
  complaint : Complaint
  span : Span
  deriving DecidableEq, Repr, Inhabited

/-- The number and the text of the line that holds a byte offset, and where it
starts. -/
def lineAt (offset : Nat) : List String → Nat → Nat → Nat × String × Nat
  | [], number, start => (number, "", start)
  | [line], number, start => (number, line, start)
  | line :: lines, number, start =>
    let next := start + line.utf8ByteSize + 1
    if offset < next then (number, line, start) else lineAt offset lines (number + 1) next

/-- The number of characters in the first `bytes` bytes, if those are whole
characters. -/
def charCount? (bytes : Nat) : List Char → Option Nat
  | [] => if bytes = 0 then some 0 else none
  | c :: cs =>
    if bytes = 0 then some 0
    else if bytes < c.utf8Size then none
    else (charCount? (bytes - c.utf8Size) cs).map (· + 1)

/-- Shows the offending line with the span marked below it. Columns count
characters; a span that starts on a character of several bytes is placed by its
bytes. The end of the text belongs to its last line. -/
def Error.text (source : String) (e : Error) : String :=
  let offset := min e.span.start (source.utf8ByteSize - 1)
  let (line, content, start) := lineAt offset (source.splitOn "\n") 0 0
  let bytes := offset - start
  let characters := charCount? (bytes + 1) (content.toList ++ ['\n'])
  let column := (characters.map (· - 1)).getD bytes + (e.span.start - offset)
  let number := toString (line + 1)
  let margin := String.ofList (List.replicate (number.length + 1) ' ') ++ "|"
  let marks := max 1 (min (e.span.stop - e.span.start) (content.utf8ByteSize - column))
  let indent := String.ofList (List.replicate (column + 1) ' ')
  s!"TOML parse error at line {number}, column {column + 1}\n{margin}\n{number} | {content}\n"
    ++ margin ++ indent ++ String.ofList (List.replicate marks '^') ++ "\n"
    ++ e.complaint.message ++ "\n"

end NesRoutine.Toml
