/-! The one-line text of a record: its name, then its fields in braces. -/
namespace NesRoutine

def recordText (name : String) (fields : List (String × String)) : String :=
  let items := fields.map fun (field, value) => field ++ ": " ++ value
  name ++ " \x7b " ++ ", ".intercalate items ++ " \x7d"

end NesRoutine
