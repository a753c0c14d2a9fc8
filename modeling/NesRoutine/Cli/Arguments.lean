import NesRoutine.Config

/-! The command line. -/
namespace NesRoutine.Cli

structure CompileOptions where
  rom : String
  output : Option String := none
  deriving DecidableEq, Repr, Inhabited

structure RunOptions where
  rom : String
  config : Option String := none
  mode : Option TimingMode := none
  cache : Option String := none
  frames : Option Nat := none
  seconds : Binary64 := .ofInt 5
  dumpState : Bool := false
  deriving DecidableEq, Repr, Inhabited

inductive Command where
  | compile (options : CompileOptions)
  | run (options : RunOptions)
  | help
  deriving DecidableEq, Repr, Inhabited

/-- The arguments make no command. -/
inductive UsageError where
  | unknown (argument : String)
  | unexpected (argument : String)
  | missingValue (option : String)
  | unneededValue (option : String)
  | repeated (option : String)
  | invalidValue (option value : String)
  | missing (what : String)
  deriving DecidableEq, Repr, Inhabited

def UsageError.message : UsageError → String
  | unknown a => s!"unexpected argument '{a}' found"
  | unexpected a => s!"unexpected argument '{a}' found"
  | missingValue o => s!"a value is required for '{o}' but none was supplied"
  | unneededValue o => s!"unexpected value for '{o}' found; no more were expected"
  | repeated o => s!"the argument '{o}' cannot be used multiple times"
  | invalidValue o v => s!"invalid value '{v}' for '{o}'"
  | missing what => s!"the following required argument was not provided: {what}"

/-- An option of a command. -/
structure Switch where
  long : String
  short : Option Char
  takesValue : Bool
  /-- Whether it may be given more than once. -/
  repeatable : Bool := false
  deriving DecidableEq, Repr, Inhabited

def Switch.name (s : Switch) : String := "--" ++ s.long

/-- Allowed before the command and within it. -/
def commonSwitches : List Switch :=
  [⟨"verbose", some 'v', false, true⟩, ⟨"help", some 'h', false, false⟩]

def compileSwitches : List Switch := ⟨"output", some 'o', true, false⟩ :: commonSwitches

def runSwitches : List Switch :=
  [⟨"config", some 'c', true, false⟩, ⟨"mode", some 'm', true, false⟩,
   ⟨"cache", none, true, false⟩, ⟨"frames", some 'f', true, false⟩,
   ⟨"seconds", some 's', true, false⟩, ⟨"dump-state", some 'd', false, false⟩] ++ commonSwitches

/-- What was found on a command line: the options with their values, and the
words that belong to none. -/
structure Found where
  options : List (Switch × String) := []
  words : List String := []
  deriving Inhabited

namespace Found

def has (f : Found) (long : String) : Bool := f.options.any fun (s, _) => s.long == long

def get? (f : Found) (long : String) : Option String :=
  (f.options.find? fun (s, _) => s.long == long).map Prod.snd

def add (f : Found) (s : Switch) (value : String) : Except UsageError Found :=
  if f.has s.long && !s.repeatable then .error (.repeated s.name)
  else .ok { f with options := f.options ++ [(s, value)] }

end Found

/-- Whether an argument can only be an option. A dash alone is a word. -/
def isOption (argument : String) : Bool := argument.startsWith "-" && argument ≠ "-"

/-- The value an option takes from the argument behind it. -/
def nextValue (s : Switch) : List String → Except UsageError (String × List String)
  | [] => .error (.missingValue s.name)
  | value :: rest => if isOption value then .error (.missingValue s.name) else .ok (value, rest)

/-- Reads a cluster of one-letter options. The first that takes a value takes the
rest of the cluster, less an equals sign, or else the argument behind it. -/
def readCluster (switches : List Switch) (found : Found) (rest : List String) :
    List Char → Except UsageError (Found × List String)
  | [] => .ok (found, rest)
  | c :: cs =>
    match switches.find? fun s => s.short == some c with
    | none => .error (.unknown ("-" ++ c.toString))
    | some s =>
      if s.takesValue then
        match cs with
        | [] => do
          let (value, rest) ← nextValue s rest
          return (← found.add s value, rest)
        | '=' :: value => return (← found.add s (String.ofList value), rest)
        | value => return (← found.add s (String.ofList value), rest)
      else do
        readCluster switches (← found.add s "") rest cs

/-- Reads an option given by its long name, with a value behind an equals sign or
in the argument behind it. -/
def readLong (switches : List Switch) (found : Found) (rest : List String) (text : String) :
    Except UsageError (Found × List String) := do
  let name := String.ofList (text.toList.takeWhile (· ≠ '='))
  let attached := (text.toList.dropWhile (· ≠ '=')).tail?.map String.ofList
  let some s := switches.find? fun s => s.long == name | throw (.unknown ("--" ++ name))
  if s.takesValue then
    let (value, rest) ← attached.elim (nextValue s rest) fun value => .ok (value, rest)
    return (← found.add s value, rest)
  else
    if attached.isSome then throw (.unneededValue s.name)
    return (← found.add s "", rest)

/-- Reads arguments until they end, or until `stops` holds of a word. Behind two
dashes all are words. Fuel is the number of arguments. -/
def readArguments (switches : List Switch) (stops : String → Bool) :
    Nat → Found → List String → Except UsageError (Found × List String)
  | 0, found, rest => .ok (found, rest)
  | _, found, [] => .ok (found, [])
  | fuel + 1, found, argument :: rest => do
    if argument = "--" then
      return ({ found with words := found.words ++ rest }, [])
    else if argument.startsWith "--" then
      let (found, rest) ← readLong switches found rest (String.ofList (argument.toList.drop 2))
      readArguments switches stops fuel found rest
    else if isOption argument then
      let (found, rest) ← readCluster switches found rest argument.toList.tail
      readArguments switches stops fuel found rest
    else if stops argument then
      return (found, argument :: rest)
    else
      readArguments switches stops fuel { found with words := found.words ++ [argument] } rest

def digitsOf (cs : List Char) : Nat := cs.foldl (fun n c => 10 * n + (c.toNat - '0'.toNat)) 0

/-- A whole number below 2 ^ 64; a plus sign may stand before it. -/
def natural? (text : String) : Option Nat :=
  let digits := match text.toList with
    | '+' :: rest => rest
    | all => all
  if !digits.isEmpty && digits.all Char.isDigit && digitsOf digits < 1 <<< 64 then
    some (digitsOf digits)
  else none

/-- The digits, then what follows. -/
def splitDigits (cs : List Char) : List Char × List Char :=
  (cs.takeWhile Char.isDigit, cs.dropWhile Char.isDigit)

/-- An exponent up to the end, or nothing at all. -/
def exponent? : List Char → Option Int
  | [] => some 0
  | mark :: rest =>
    let (negative, digits) := match rest with
      | '-' :: rest => (true, rest)
      | '+' :: rest => (false, rest)
      | rest => (false, rest)
    if mark.toLower = 'e' ∧ digits ≠ [] ∧ digits.all Char.isDigit then
      some (if negative then -(digitsOf digits : Int) else digitsOf digits)
    else
      none

/-- A decimal number, or one of the words for infinity and for no number. -/
def number? (text : String) : Option Binary64 :=
  let (negative, body) := match text.toList with
    | '-' :: rest => (true, rest)
    | '+' :: rest => (false, rest)
    | all => (false, all)
  let word := String.ofList (body.map Char.toLower)
  if word = "inf" ∨ word = "infinity" then some (.infinity negative)
  else if word = "nan" then some (.nan negative)
  else
    let (whole, rest) := splitDigits body
    let (fraction, rest) := match rest with
      | '.' :: rest => splitDigits rest
      | rest => ([], rest)
    if whole.isEmpty && fraction.isEmpty then none
    else (exponent? rest).map fun exponent =>
      .ofDecimal negative (digitsOf (whole ++ fraction)) (exponent - fraction.length)

/-- A path; it may not be empty. -/
def path (what text : String) : Except UsageError String :=
  if text.isEmpty then .error (.invalidValue what text) else .ok text

/-- The value of an option, if it was given. -/
def valueOf (found : Found) (long : String) (read : String → Option α) :
    Except UsageError (Option α) :=
  match found.get? long with
  | none => .ok none
  | some text =>
    match read text with
    | some a => .ok (some a)
    | none => .error (.invalidValue ("--" ++ long) text)

def path? (text : String) : Option String := if text.isEmpty then none else some text

/-- The one word a command takes. -/
def romOf (found : Found) : Except UsageError String :=
  match found.words with
  | [] => .error (.missing "<ROM>")
  | [rom] => path "<ROM>" rom
  | _ :: extra :: _ => .error (.unexpected extra)

def compileOf (found : Found) : Except UsageError CompileOptions := do
  return { rom := ← romOf found, output := ← valueOf found "output" path? }

def runOf (found : Found) : Except UsageError RunOptions := do
  return {
    rom := ← romOf found
    config := ← valueOf found "config" path?
    mode := ← valueOf found "mode" fun name => (TimingMode.ofName name).toOption
    cache := ← valueOf found "cache" path?
    frames := ← valueOf found "frames" natural?
    seconds := (← valueOf found "seconds" number?).getD (.ofInt 5)
    dumpState := found.has "dump-state" }

/-- The command that the arguments give. -/
def Command.ofArguments (arguments : List String) : Except UsageError Command := do
  let fuel := arguments.length
  let (common, rest) ← readArguments commonSwitches (fun _ => true) fuel {} arguments
  if common.has "help" then return .help
  match rest with
  | [] => throw (.missing "<COMMAND>")
  | "compile" :: rest =>
    let (found, _) ← readArguments compileSwitches (fun _ => false) fuel {} rest
    if found.has "help" then return .help
    return .compile (← compileOf found)
  | "run" :: rest =>
    let (found, _) ← readArguments runSwitches (fun _ => false) fuel {} rest
    if found.has "help" then return .help
    return .run (← runOf found)
  | "help" :: _ => return .help
  | word :: _ => throw (.unknown word)

end NesRoutine.Cli
