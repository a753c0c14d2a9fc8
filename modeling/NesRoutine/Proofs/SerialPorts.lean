import NesRoutine.Proofs.Hardware
import NesRoutine.Proofs.MemoryMap

/-! The serial protocol of the two controller ports, under any traffic on the bus. A port
keeps four fields; its answers are told here from the whole past of its own signals: the
buttons held on it, its reads, and the strobe that both ports share. -/
namespace NesRoutine

namespace Controller

/-- What reaches a controller. -/
inductive Signal where
  | hold (buttons : UInt8)
  | strobe (high : Bool)
  | read
  deriving DecidableEq, Repr

namespace Signal

def apply (c : Controller) : Signal → Controller
  | hold buttons => c.hold buttons
  | strobe high => c.setStrobe high
  | read => c.read.2

def buttons : Signal → Option UInt8
  | hold buttons => some buttons
  | _ => none

def level : Signal → Option Bool
  | strobe high => some high
  | _ => none

end Signal

/-- A new controller after some signals, the latest first. -/
def after : List Signal → Controller
  | [] => {}
  | s :: past => s.apply (after past)

def lastHeld (past : List Signal) : UInt8 := (past.findSome? Signal.buttons).getD 0

def lastStrobe (past : List Signal) : Bool := (past.findSome? Signal.level).getD false

/-- The buttons that were held when the strobe was last raised, or raised again. -/
def heldAtLatch (past : List Signal) : UInt8 := lastHeld (past.dropWhile (· ≠ .strobe true))

/-- How many reads were made since the strobe was last raised, without those it was still
high for. -/
def shifted : List Signal → Nat
  | [] => 0
  | .strobe high :: past => if high then 0 else shifted past
  | .read :: past => if lastStrobe past then shifted past else shifted past + 1
  | .hold _ :: past => shifted past

/-- What the protocol lets the next read answer. -/
def answer (past : List Signal) : UInt8 :=
  if lastStrobe past then
    ((lastHeld past).toNat.testBit 0).toUInt8
  else if shifted past < 8 then
    ((heldAtLatch past).toNat.testBit (shifted past)).toUInt8
  else
    1

/-- The fields of the controller agree with its past. Reads past the last button are no
longer counted. -/
structure Tracks (past : List Signal) (c : Controller) : Prop where
  held : c.held = lastHeld past
  strobe : c.strobe = lastStrobe past
  latched : c.latched = heldAtLatch past
  position : c.position = min 8 (shifted past)

namespace Tracks

variable {past : List Signal} {c : Controller}

theorem hold (tracks : Tracks past c) (buttons : UInt8) :
    Tracks (.hold buttons :: past) (c.hold buttons) where
  held := rfl
  strobe := tracks.strobe
  latched := tracks.latched
  position := tracks.position

theorem setStrobe (tracks : Tracks past c) (high : Bool) :
    Tracks (.strobe high :: past) (c.setStrobe high) := by
  cases high with
  | true => exact ⟨tracks.held, rfl, tracks.held, rfl⟩
  | false => exact ⟨tracks.held, rfl, tracks.latched, tracks.position⟩

theorem read (tracks : Tracks past c) : Tracks (.read :: past) c.read.2 := by
  have position := tracks.position
  rw [Controller.read]
  by_cases high : c.strobe = true
  · rw [if_pos high]
    refine ⟨tracks.held, tracks.strobe, tracks.latched, ?_⟩
    rw [shifted, if_pos (tracks.strobe ▸ high), position]
  · have counted : shifted (.read :: past) = shifted past + 1 := by
      rw [shifted, if_neg (tracks.strobe ▸ high)]
    rw [if_neg high]
    by_cases done : 8 ≤ c.position
    · have stays : c.position = min 8 (shifted (.read :: past)) := by omega
      rw [if_pos done]
      exact ⟨tracks.held, tracks.strobe, tracks.latched, stays⟩
    · have next : c.position + 1 = min 8 (shifted (.read :: past)) := by omega
      rw [if_neg done]
      exact ⟨tracks.held, tracks.strobe, tracks.latched, next⟩

theorem apply (tracks : Tracks past c) (s : Signal) : Tracks (s :: past) (s.apply c) := by
  cases s with
  | hold buttons => exact tracks.hold buttons
  | strobe high => exact tracks.setStrobe high
  | read => exact tracks.read

end Tracks

theorem tracks_after (past : List Signal) : Tracks past (after past) := by
  induction past with
  | nil => exact ⟨rfl, rfl, rfl, rfl⟩
  | cons s past ih => exact ih.apply s

theorem shiftRight_and_one (v : UInt8) {k : Nat} (small : k < 8) :
    (v >>> UInt8.ofNat k) &&& 1 = (v.toNat.testBit k).toUInt8 := by
  have amount : (UInt8.ofNat k).toNat % 8 = k := by
    rw [UInt8.toNat_ofNat']
    omega
  have shift : ((v >>> UInt8.ofNat k) &&& 1).toNat = v.toNat / 2 ^ k % 2 := by
    rw [UInt8.toNat_and, UInt8.toNat_shiftRight, amount, Nat.shiftRight_eq_div_pow]
    exact Nat.and_one_is_mod _
  rw [← UInt8.toNat_inj, shift, Nat.testBit_eq_decide_div_mod_eq]
  rcases Nat.mod_two_eq_zero_or_one (v.toNat / 2 ^ k) with even | odd
  · rw [even]
    rfl
  · rw [odd]
    rfl

theorem Tracks.read_answer {past : List Signal} {c : Controller} (tracks : Tracks past c) :
    c.read.1 = answer past := by
  have position := tracks.position
  rw [Controller.read, answer, ← tracks.strobe, ← tracks.held, ← tracks.latched]
  by_cases high : c.strobe = true
  · rw [if_pos high, if_pos high]
    exact shiftRight_and_one c.held (k := 0) (by decide)
  · rw [if_neg high, if_neg high]
    by_cases done : 8 ≤ c.position
    · rw [if_pos done, if_neg (by omega)]
    · have place : shifted past = c.position := by omega
      rw [if_neg done, if_pos (by omega), place]
      exact shiftRight_and_one c.latched (by omega)

end Controller

open Controller (Signal)

inductive Port where
  | first | second
  deriving DecidableEq, Repr

namespace Port

def address : Port → UInt16
  | first => SystemBus.joypad1
  | second => SystemBus.joypad2

def player : Port → Nat
  | first => 0
  | second => 1

end Port

namespace Hardware

open SystemBus (joypad1 joypad2)

def port (h : Hardware) : Port → Controller
  | .first => h.bus.port1
  | .second => h.bus.port2

/-- What a port gets of the traffic. A read of a word reads two addresses, and both ports
hear what is written at the first one's. -/
def Traffic.signal (port : Port) : Traffic → Option Signal
  | read a => if a = port.address then some .read else none
  | readWord a => if a = port.address ∨ a + 1 = port.address then some .read else none
  | write a value => if a = joypad1 then some (.strobe (value.toNat.testBit 0)) else none
  | holdButtons player buttons => if player = port.player then some (.hold buttons) else none
  | stepPpu => none

/-- What a port becomes by what it gets, if anything. -/
def heard (c : Controller) (s : Option Signal) : Controller := (s.map (Signal.apply c)).getD c

theorem read_port (h : Hardware) (port : Port) :
    (h.read port.address).1 = (h.port port).read.1 := by
  cases port <;> rfl

/-- A read is heard where it is made, and nowhere else. -/
theorem port_read (h : Hardware) (port : Port) (a : UInt16) :
    (h.read a).2.port port = heard (h.port port) ((Traffic.read a).signal port) := by
  by_cases own : a = port.address
  · subst own
    rw [Traffic.signal, if_pos rfl]
    cases port <;> rfl
  · rw [Traffic.signal, if_neg own]
    simp only [Hardware.read, SystemBus.read]
    split
    · cases port <;> rfl
    · split
      next first =>
        cases port with
        | first => exact absurd first own
        | second => rfl
      · split
        next second =>
          cases port with
          | first => rfl
          | second => exact absurd second own
        · cases port <;> rfl

theorem port_readWord (h : Hardware) (port : Port) (a : UInt16) :
    (h.readWord a).2.port port = heard (h.port port) ((Traffic.readWord a).signal port) := by
  have twice : (h.readWord a).2.port port = ((h.read a).2.read (a + 1)).2.port port := rfl
  rw [twice, port_read, port_read]
  simp only [Traffic.signal]
  by_cases low : a = port.address
  · have high : a + 1 ≠ port.address := by
      subst low
      cases port <;> decide
    rw [if_pos low, if_neg high, if_pos (.inl low)]
    rfl
  · rw [if_neg low]
    simp only [low, false_or]
    rfl

theorem port_write (h : Hardware) (port : Port) (a : UInt16) (value : UInt8) :
    (h.write a value).port port = heard (h.port port) ((Traffic.write a value).signal port) := by
  simp only [Hardware.write, Traffic.signal, SystemBus.write]
  by_cases strobe : a = joypad1
  · subst strobe
    have high : (value &&& 1 != 0) = value.toNat.testBit 0 := mask_bit value 1 (i := 0) rfl
    rw [if_pos rfl, ← high]
    cases port <;> rfl
  · rw [if_neg strobe]
    split
    · cases port <;> rfl
    · cases port <;> rfl

theorem port_holdButtons (h : Hardware) (port : Port) (player : Nat) (buttons : UInt8) :
    (h.holdButtons player buttons).port port =
      heard (h.port port) ((Traffic.holdButtons player buttons).signal port) := by
  -- the first player, the second, and one who has no port
  rcases player with _ | _ | player
  · cases port <;> rfl
  · cases port <;> rfl
  · cases port <;> rfl

theorem port_apply (h : Hardware) (port : Port) (t : Traffic) :
    (t.apply h).port port = heard (h.port port) (t.signal port) := by
  cases t with
  | read a => exact h.port_read port a
  | write a value => exact h.port_write port a value
  | readWord a => exact h.port_readWord port a
  | stepPpu => cases port <;> rfl
  | holdButtons player buttons => exact h.port_holdButtons port player buttons

/-- A port has gone through its own signals, whatever else was on the bus. -/
theorem port_afterTraffic (image : Array UInt8) (past : List Traffic) (port : Port) :
    (afterTraffic image past).port port = Controller.after (past.filterMap (Traffic.signal port)) := by
  induction past with
  | nil => cases port <;> rfl
  | cons t past ih =>
    rw [afterTraffic, port_apply, ih, List.filterMap_cons]
    cases t.signal port <;> rfl

/-- The answer of a port is the one that the serial protocol gives to its own signals. So
the image and whatever does not reach the port have no part in it. -/
theorem serial_ports (image : Array UInt8) (past : List Traffic) (port : Port) :
    let signals := past.filterMap (Traffic.signal port)
    ((afterTraffic image past).read port.address).1 = Controller.answer signals ∧
    ∀ (other : Array UInt8) (past' : List Traffic),
      past'.filterMap (Traffic.signal port) = signals →
      ((afterTraffic other past').read port.address).1 =
        ((afterTraffic image past).read port.address).1 := by
  intro signals
  have answers (image : Array UInt8) (past : List Traffic) :
      ((afterTraffic image past).read port.address).1 =
        Controller.answer (past.filterMap (Traffic.signal port)) := by
    rw [read_port, port_afterTraffic]
    exact (Controller.tracks_after _).read_answer
  refine ⟨answers image past, ?_⟩
  intro other past' same
  rw [answers, answers, same]

/-- B and Right were held at the latch. A read under the high strobe shifts nothing, so the
second read under the low one gives B, though B was let go before it; and the first port
has no part in it. -/
theorem serial_ports_let_go :
    let past : List Traffic := [.read joypad2, .write joypad2 1, .read joypad1, .holdButtons 1 0,
      .write joypad1 0x40, .read joypad2, .holdButtons 0 0xFF, .write joypad1 0x41,
      .holdButtons 1 0x82]
    let past' : List Traffic := [.stepPpu, .readWord joypad1, .holdButtons 1 0, .write joypad1 0,
      .read joypad2, .write joypad1 1, .write joypad2 1, .holdButtons 1 0x82]
    ((afterTraffic #[] past).read joypad2).1 = 1 ∧
    ((afterTraffic #[0xEA] past').read joypad2).1 = 1 := by
  intro past past'
  have given : Controller.answer (past.filterMap (Traffic.signal .second)) = 1 := by
    simp only [past]
    decide
  have same : past'.filterMap (Traffic.signal .second) = past.filterMap (Traffic.signal .second) :=
    rfl
  obtain ⟨answer, alone⟩ := serial_ports #[] past .second
  exact ⟨answer.trans given, (alone #[0xEA] past' same).trans (answer.trans given)⟩

/-- Of all reads since the strobe was last high, those under it do not count: with B alone
held, the second read after the latch is the first under the low strobe, and gives A. -/
theorem read_under_strobe_not_counted :
    let past : List Traffic :=
      [.write joypad1 0, .read joypad1, .write joypad1 1, .holdButtons 0 0x02]
    let signals := past.filterMap (Traffic.signal .first)
    Controller.lastStrobe signals = false ∧
    (signals.takeWhile (· ≠ .strobe true)).count .read = 1 ∧
    (Controller.heldAtLatch signals).toNat.testBit 1 = true ∧
    ((afterTraffic #[] past).read joypad1).1 = 0 := by
  decide

end Hardware
end NesRoutine
