import NesRoutine.Word

/-! What the processor can observe of the picture unit: the dot counter,
vertical blank and eight registers over 16 KB of video memory and 256 bytes of
sprite memory. A line has 341 dots, a frame 262 lines, and vertical blank
starts on line 241. -/
namespace NesRoutine

namespace Ppu

def dotsPerLine : Int := 341
def vblankLine : Int := 241
def linesPerFrame : Int := 262

/-- What a dot brings about. The end of vertical blank is the end of the frame. -/
inductive Event where
  | nothing | vblankStarted | frameComplete
  deriving DecidableEq, Repr, Inhabited

def vblankStartedBit : UInt8 := 0x01
def vblankEndedBit : UInt8 := 0x02
def frameCompleteBit : UInt8 := 0x04

/-- The set of changes that the event is. -/
def Event.bits : Event → UInt8
  | nothing => 0
  | vblankStarted => vblankStartedBit
  | frameComplete => vblankEndedBit ||| frameCompleteBit

structure State where
  control : UInt8 := 0
  mask : UInt8 := 0
  status : UInt8 := 0
  oamAddress : UInt8 := 0
  vramAddress : UInt16 := 0
  scrollX : UInt8 := 0
  scrollY : UInt8 := 0
  scanline : Int := 0
  cycle : Int := 0
  inVblank : Bool := false
  deriving DecidableEq, Repr, Inhabited

namespace State

def nmiEnable (s : State) : Bool := s.control &&& 0x80 != 0

/-- How far an access to the data register moves the video memory address. -/
def increment (s : State) : UInt16 := if s.control &&& 0x04 != 0 then 32 else 1

def rendering (s : State) : Bool := s.mask &&& 0x18 != 0

def vblankFlag (s : State) : Bool := s.status &&& 0x80 != 0

def setVblankFlag (s : State) (on : Bool) : State :=
  { s with status := if on then s.status ||| 0x80 else s.status &&& 0x7F }

def advance (s : State) : State := { s with vramAddress := s.vramAddress + s.increment }

end State
end Ppu

structure Ppu where
  vram : Vector UInt8 0x4000 := Vector.replicate 0x4000 0
  oam : Vector UInt8 256 := Vector.replicate 256 0
  state : Ppu.State := {}
  /-- The next write to the scroll or address register is the second of its pair. -/
  secondWrite : Bool := false
  readBuffer : UInt8 := 0
  frameComplete : Bool := false
  deriving DecidableEq, Inhabited

namespace Ppu

/-- Clears everything but video memory. -/
def reset (p : Ppu) : Ppu := { vram := p.vram }

def restore (p : Ppu) (state : State) : Ppu := { p with state }

/-- One dot. -/
def step (p : Ppu) : Event × Ppu :=
  let s := p.state
  if s.cycle + 1 < dotsPerLine then
    (.nothing, { p with state := { s with cycle := s.cycle + 1 } })
  else
    let line := s.scanline + 1
    if line = vblankLine then
      let s := { s with cycle := 0, scanline := line, inVblank := true }
      (.vblankStarted, { p with state := s.setVblankFlag true })
    else if linesPerFrame ≤ line then
      let s := { s with cycle := 0, scanline := 0, inVblank := false }
      (.frameComplete, { p with state := s.setVblankFlag false, frameComplete := true })
    else
      (.nothing, { p with state := { s with cycle := 0, scanline := line } })

/-- Runs `n` dots; the answer lists those that brought something about, counted
from 0. -/
def run (n : Nat) (p : Ppu) : List (Nat × Event) × Ppu := go n 0 p where
  go : Nat → Nat → Ppu → List (Nat × Event) × Ppu
    | 0, _, p => ([], p)
    | n + 1, i, p =>
      match p.step with
      | (.nothing, p) => go n (i + 1) p
      | (event, p) =>
        let (events, p) := go n (i + 1) p
        ((i, event) :: events, p)

/-- Whether a frame was completed since this was last asked. -/
def takeFrameComplete (p : Ppu) : Bool × Ppu := (p.frameComplete, { p with frameComplete := false })

/-- Video memory has 14 address bits. -/
def vramCell (address : UInt16) : Fin 0x4000 := Fin.ofNat 0x4000 address.toNat

def oamCell (address : UInt8) : Fin 256 := ⟨address.toNat, address.toNat_lt⟩

/-- Where the palette starts; reads from it do not pass through the buffer. -/
def paletteStart : Nat := 0x3F00

/-- The data register answers the buffered byte and refills the buffer. -/
def readData (p : Ppu) : UInt8 × Ppu :=
  let cell := vramCell p.state.vramAddress
  let value := p.vram[cell]
  let answer := if paletteStart ≤ cell.val then value else p.readBuffer
  (answer, { p with readBuffer := value, state := p.state.advance })

/-- Reading the status clears its vertical blank flag and the write pairing. -/
def readStatus (p : Ppu) : UInt8 × Ppu :=
  (p.state.status, { p with state := p.state.setVblankFlag false, secondWrite := false })

def readRegister (p : Ppu) (address : UInt16) : UInt8 × Ppu :=
  match (address &&& 7).toNat with
  | 2 => p.readStatus
  | 4 => (p.oam[oamCell p.state.oamAddress], p)
  | 7 => p.readData
  | _ => (0, p)

def writeOam (p : Ppu) (value : UInt8) : Ppu :=
  { p with
    oam := p.oam.set (oamCell p.state.oamAddress) value
    state := { p.state with oamAddress := p.state.oamAddress + 1 } }

/-- Horizontal scroll, then vertical. -/
def writeScroll (p : Ppu) (value : UInt8) : Ppu :=
  let state :=
    if p.secondWrite then { p.state with scrollY := value } else { p.state with scrollX := value }
  { p with state, secondWrite := !p.secondWrite }

/-- Six high bits, then the low byte. -/
def writeAddress (p : Ppu) (value : UInt8) : Ppu :=
  let old := p.state.vramAddress
  let vramAddress :=
    if p.secondWrite then word value (highByte old) else word (lowByte old) (value &&& 0x3F)
  { p with state := { p.state with vramAddress }, secondWrite := !p.secondWrite }

def writeData (p : Ppu) (value : UInt8) : Ppu :=
  { p with
    vram := p.vram.set (vramCell p.state.vramAddress) value
    state := p.state.advance }

/-- The eight registers repeat through their whole address range. -/
def writeRegister (p : Ppu) (address : UInt16) (value : UInt8) : Ppu :=
  match (address &&& 7).toNat with
  | 0 => { p with state := { p.state with control := value } }
  | 1 => { p with state := { p.state with mask := value } }
  | 3 => { p with state := { p.state with oamAddress := value } }
  | 4 => p.writeOam value
  | 5 => p.writeScroll value
  | 6 => p.writeAddress value
  | 7 => p.writeData value
  | _ => p

end Ppu

/-- The register in `$2000-$2007` that an address in `$2000-$3FFF` reaches. -/
def ppuRegister (address : UInt16) : UInt16 := 0x2000 ||| (address &&& 7)

end NesRoutine
