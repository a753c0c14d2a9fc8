/-! The processor status byte and its eight flags. -/
namespace NesRoutine

inductive Flag where
  | carry | zero | interruptDisable | decimal | brk | unused | overflow | negative
  deriving DecidableEq, Repr, Inhabited

namespace Flag

def all : List Flag :=
  [carry, zero, interruptDisable, decimal, brk, unused, overflow, negative]

theorem all_ctorIdx (f : Flag) : all[f.ctorIdx]? = some f := by cases f <;> rfl

def name : Flag → String
  | carry => "Carry"
  | zero => "Zero"
  | interruptDisable => "InterruptDisable"
  | decimal => "Decimal"
  | brk => "Break"
  | unused => "Unused"
  | overflow => "Overflow"
  | negative => "Negative"

/-- The bit of the status byte that holds the flag. -/
def mask : Flag → UInt8
  | carry => 0x01
  | zero => 0x02
  | interruptDisable => 0x04
  | decimal => 0x08
  | brk => 0x10
  | unused => 0x20
  | overflow => 0x40
  | negative => 0x80

end Flag

structure Status where
  bits : UInt8
  deriving DecidableEq, Repr, Inhabited

namespace Status

/-- After power-up and reset: interrupts disabled, the unused bit set. -/
def initial : Status := ⟨0x24⟩

def get (s : Status) (f : Flag) : Bool := s.bits &&& f.mask != 0

def set (s : Status) (f : Flag) (on : Bool) : Status :=
  ⟨if on then s.bits ||| f.mask else s.bits &&& ~~~f.mask⟩

/-- The byte pushed by `PHP` and `BRK`. -/
def pushedBySoftware (s : Status) : UInt8 := s.bits ||| 0x30

/-- The byte pushed by an interrupt line. -/
def pushedByHardware (s : Status) : UInt8 := (s.bits ||| 0x20) &&& 0xEF

/-- A status byte taken from the stack by `RTI`. -/
def ofPopped (b : UInt8) : Status := ⟨(b &&& 0xEF) ||| 0x20⟩

/-- One letter for each flag that is set, from bit 7 down. -/
def text (s : Status) : String :=
  let letters : List (UInt8 × Char) :=
    [(0x80, 'N'), (0x40, 'V'), (0x20, 'U'), (0x10, 'B'),
     (0x08, 'D'), (0x04, 'I'), (0x02, 'Z'), (0x01, 'C')]
  String.ofList (letters.map fun (mask, c) => if s.bits &&& mask != 0 then c else '-')

end Status
end NesRoutine
