import NesRoutine.Binary64
import NesRoutine.Toml.Error

/-! The values of a TOML document. -/
namespace NesRoutine.Toml

/-- A part of a dotted key, and where it stands. -/
structure Key where
  name : String
  span : Span
  deriving DecidableEq, Repr, Inhabited

/-- How a table came about, which decides how it may be added to. -/
inductive Origin where
  /-- Written out as a value. -/
  | inline
  /-- Opened by a header of its own. -/
  | header
  /-- Only named on the way to another table by a header. -/
  | parent
  /-- Made by a dotted key. -/
  | dotted
  deriving DecidableEq, Repr, Inhabited

inductive Value where
  | string (text : String)
  | integer (n : Int)
  | float (x : Binary64)
  | boolean (b : Bool)
  | datetime (text : String)
  | array (items : List Value)
  /-- Each entry has a key, the span of its value if it has one, and its value. -/
  | table (origin : Origin) (entries : List (Key × Option Span × Value))
  /-- Tables collected under double headers; the last is the one that is added to. -/
  | tables (earlier : List (List (Key × Option Span × Value)))
      (last : List (Key × Option Span × Value))
  deriving Inhabited

abbrev Entry := Key × Option Span × Value

namespace Value

def kind : Value → String
  | string _ => "string"
  | integer _ => "integer"
  | float _ => "float"
  | boolean _ => "boolean"
  | datetime _ => "datetime"
  | array _ => "array"
  | table .inline _ => "inline table"
  | table .. => "table"
  | tables .. => "array of tables"

/-- Text in quotes, with quotes, backslashes and control characters escaped. -/
def quote (text : String) : String :=
  let escaped := text.toList.map fun c =>
    if c == '"' then "\\\""
    else if c == '\\' then "\\\\"
    else if c == '\n' then "\\n"
    else if c == '\r' then "\\r"
    else if c == '\t' then "\\t"
    else if c.toNat = 0 then "\\0"
    else if c < ' ' ∨ c.toNat = 0x7F then
      "\\u\x7b" ++ String.ofList (Nat.toDigits 16 c.toNat) ++ "\x7d"
    else c.toString
  "\"" ++ String.join escaped ++ "\""

/-- The words for a value that was not expected. -/
def found : Value → String
  | string text => "string " ++ quote text
  | integer n => s!"integer `{n}`"
  | float x => s!"floating point `{x.text}`"
  | boolean b => s!"boolean `{b}`"
  | array _ | tables .. => "sequence"
  | datetime _ | table .. => "map"

end Value
end NesRoutine.Toml
