/-! The serial protocol of a standard controller. A high strobe latches the held
buttons and rewinds; while it stays high every read answers button A. With the
strobe low, reads give A, B, Select, Start, Up, Down, Left, Right in turn, and
1 from then on. -/
namespace NesRoutine

structure Controller where
  /-- One bit for each button that is held, A lowest. -/
  held : UInt8 := 0
  latched : UInt8 := 0
  /-- How many buttons have been read since the latch. -/
  position : Nat := 0
  strobe : Bool := false
  deriving DecidableEq, Repr, Inhabited

namespace Controller

def hold (c : Controller) (buttons : UInt8) : Controller := { c with held := buttons }

def press (c : Controller) (buttons : UInt8) : Controller := c.hold (c.held ||| buttons)

def release (c : Controller) (buttons : UInt8) : Controller := c.hold (c.held &&& ~~~buttons)

def setStrobe (c : Controller) (high : Bool) : Controller :=
  if high then
    { c with strobe := true, latched := c.held, position := 0 }
  else
    { c with strobe := false }

/-- Only bit 0 of a written byte reaches the strobe line. -/
def write (c : Controller) (value : UInt8) : Controller := c.setStrobe (value &&& 1 != 0)

def read (c : Controller) : UInt8 × Controller :=
  if c.strobe then (c.held &&& 1, c)
  else if 8 ≤ c.position then (1, c)
  else ((c.latched >>> UInt8.ofNat c.position) &&& 1, { c with position := c.position + 1 })

end Controller
end NesRoutine
