import NesRoutine.Toml.Value

/-! Tables under construction: what dotted keys and headers may add to them. -/
namespace NesRoutine.Toml.Table

def get? (entries : List Entry) (name : String) : Option (Option Span × Value) :=
  (entries.find? fun e => e.1.name == name).map (·.2)

/-- Gives a key a new value in its old place, or a place at the end. -/
def set (entries : List Entry) (key : Key) (span : Option Span) (value : Value) : List Entry :=
  if entries.any fun e => e.1.name == key.name then
    entries.map fun e => if e.1.name == key.name then (e.1, span, value) else e
  else
    entries ++ [(key, span, value)]

def erase (entries : List Entry) (name : String) : List Entry :=
  entries.filter fun e => e.1.name != name

/-- Adds an entry that must be new. -/
def add (table : Option (List String)) (entries : List Entry) (entry : Entry) :
    Except Complaint (List Entry) :=
  if (get? entries entry.1.name).isSome then .error (.duplicateKey entry.1.name table)
  else .ok (entries ++ [entry])

/-- Changes the table at the end of a path of headers, making the tables on the
way that are not there. `walked` is the path so far. -/
def atHeader (entries : List Entry) (walked : List String) : List Key →
    (List Entry → Except Complaint (List Entry)) → Except Complaint (List Entry)
  | [], f => f entries
  | key :: path, f => do
    let walked := walked ++ [key.name]
    match get? entries key.name with
    | none => return set entries key none (.table .parent (← atHeader [] walked path f))
    | some (_, .table .inline inner) =>
      throw (.extendsValue walked (Value.table .inline inner).kind)
    | some (span, .table origin inner) =>
      return set entries key span (.table origin (← atHeader inner walked path f))
    | some (span, .tables earlier last) =>
      return set entries key span (.tables earlier (← atHeader last walked path f))
    | some (_, v) => throw (.extendsValue walked v.kind)

/-- Changes the table at the end of a dotted key. A table that has a header of
its own is closed to dotted keys, and the table reached has to be one that dotted
keys made. -/
def atDotted (origin : Origin) (entries : List Entry) (walked : List String) : List Key → Key →
    (List Entry → Except Complaint (List Entry)) → Except Complaint (List Entry)
  | [], last, f => if origin = .dotted then f entries else .error (.duplicateKey last.name none)
  | key :: path, last, f => do
    let walked := walked ++ [key.name]
    match get? entries key.name with
    | none => return set entries key none (.table .dotted (← atDotted .dotted [] walked path last f))
    | some (_, .table .inline inner) =>
      throw (.extendsValue walked (Value.table .inline inner).kind)
    | some (_, .table .header _) => throw (.duplicateKey key.name none)
    | some (span, .table origin inner) =>
      return set entries key span (.table origin (← atDotted origin inner walked path last f))
    | some (span, .tables earlier inner) =>
      return set entries key span (.tables earlier (← atDotted .header inner walked path last f))
    | some (_, v) => throw (.extendsValue walked v.kind)

/-- Adds an entry under a dotted key. -/
def insert (table : Option (List String)) (entries : List Entry) (path : List Key)
    (entry : Entry) : Except Complaint (List Entry) :=
  if path.isEmpty then add table entries entry
  else atDotted .dotted entries [] path entry.1 fun inner => add table inner entry

def insertInline (entries : List Entry) (path : List Key) (entry : Entry) :
    Except Complaint (List Entry) :=
  insert none entries path entry

/-- Opens a table: a new one, or one that so far only stood on the way to others. -/
def openTable (entries : List Entry) (path : List Key) (last : Key) (span : Span) :
    Except Complaint (List Entry) :=
  atHeader entries [] path fun inner =>
    match get? inner last.name with
    | none => .ok (inner ++ [(last, some span, .table .header [])])
    | some (_, .table .parent old) =>
      .ok (erase inner last.name ++ [(last, some span, .table .header old)])
    | some _ => .error (.duplicateKey last.name (some (path.map Key.name)))

/-- Opens one more table of a list of tables. -/
def openListed (entries : List Entry) (path : List Key) (last : Key) (span : Span) :
    Except Complaint (List Entry) :=
  atHeader entries [] path fun inner =>
    match get? inner last.name with
    | none => .ok (inner ++ [(last, some span, .tables [] [])])
    | some (old, .tables earlier current) =>
      .ok (set inner last old (.tables (earlier ++ [current]) []))
    | some _ => .error (.duplicateKey last.name (some (path.map Key.name)))

end NesRoutine.Toml.Table
