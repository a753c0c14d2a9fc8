import NesRoutine.Instruction
import Std.Data.TreeSet

/-! A routine is the code reachable from an entry address without passing a
call, a return, a software interrupt or an indirect jump. Branch and jump
targets are followed breadth-first, and both ways out of a branch are taken. -/
namespace NesRoutine

structure Routine where
  entry : UInt16
  /-- In the order of discovery. -/
  instructions : List Instruction
  /-- Every branch target, jump target and pointer cell. -/
  targets : Std.TreeSet UInt16

namespace Routine

/-- What a search has found so far. -/
structure Search where
  found : Array Instruction := #[]
  visited : Std.TreeSet UInt16 := {}
  targets : Std.TreeSet UInt16 := {}

def Search.add (s : Search) (i : Instruction) : Search where
  found := s.found.push i
  visited := s.visited.insert i.address
  targets := s.targets.insertMany i.target.toList

/-- Takes pending addresses in turn; an address may be pending many times and
is decoded once. -/
def explore (regions : List CodeRegion) :
    Nat → List UInt16 → Search → Except DecodeError Search
  | 0, _, s => .ok s
  | _ + 1, [], s => .ok s
  | fuel + 1, address :: pending, s =>
    if s.visited.contains address then
      explore regions fuel pending s
    else
      match decodeAt regions address with
      | .error e => .error e
      | .ok i => explore regions fuel (pending ++ i.successors) (s.add i)

/-- Each of the 65536 addresses is decoded at most once and then makes at most
two more pending, so the search ends within this many turns. -/
def searchBound : Nat := 2 * 65536 + 1

/-- Recovers the routine at `entry`, or reports the first address that does not
decode. -/
def discover (regions : List CodeRegion) (entry : UInt16) : Except DecodeError Routine :=
  match explore regions searchBound [entry] {} with
  | .error e => .error e
  | .ok s => .ok { entry, instructions := s.found.toList, targets := s.targets }

/-- `a` stands no later than `b` when addresses from the entry on come before
those below it. -/
def precedes (entry : UInt16) (a b : Instruction) : Bool :=
  if a.address < entry ↔ b.address < entry then a.address ≤ b.address else b.address < entry

/-- The instructions from the entry upward, then those below the entry. -/
def ordered (r : Routine) : List Instruction := r.instructions.mergeSort (precedes r.entry)

end Routine
end NesRoutine
