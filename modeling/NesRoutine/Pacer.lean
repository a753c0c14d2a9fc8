import NesRoutine.Emulator

/-! Running an emulator in real time. A driver runs whole frames: at the ticks
of a timer, or as fast as the nominal clock of the processor allows. Times are in
nanoseconds. -/
namespace NesRoutine

def millisecond : Nat := 1000000
def second : Nat := 1000 * millisecond

inductive Driver where
  /-- Acts once an interval. -/
  | ticking (interval next : Nat)
  /-- Acts when the clock has caught up with the cycles that were run since
  `base`, a time and a cycle count. -/
  | paced (clock : Binary64) (base : Option (Nat × Nat)) (next : Nat)
  deriving DecidableEq, Repr, Inhabited

/-- When a driver acts next. -/
def Driver.next : Driver → Nat
  | ticking _ next => next
  | paced _ _ next => next

/-- How long so many cycles take, if that can be told in 64-bit seconds. -/
def cycleTime? (clock : Binary64) (cycles : Nat) : Option Nat :=
  let (num, den) := clock.ratio
  let time := cycles * den * second / num
  if time < (1 <<< 63) * second then some time else none

structure Pacer where
  mode : TimingMode
  emulator : Emulator
  /-- The driver at work; none before the start and after it has stopped. -/
  driver : Option Driver := none
  deriving Inhabited

namespace Pacer

def isRunning (p : Pacer) : Bool := p.driver.isSome

/-- When something happens next. -/
def due? (p : Pacer) : Option Nat := p.driver.map Driver.next

def newDriver (mode : TimingMode) (config : Config) (now : Nat) : Driver :=
  match mode with
  | .eventDriven =>
    let interval := config.frameInterval * millisecond
    .ticking interval (now + interval)
  | .cycleAccurate => .paced config.cpuClock none now

/-- Starts the emulator and a driver for it. Nothing happens while a driver is at
work; one whose emulator was stopped is replaced. -/
def start (p : Pacer) (now : Nat) : Pacer :=
  if p.isRunning && p.emulator.running then p
  else
    { p with
      emulator := p.emulator.start
      driver := some (newDriver p.mode p.emulator.config now) }

def stop (p : Pacer) : Pacer := { p with emulator := p.emulator.stop, driver := none }

/-- Paused frames are looked at again after this time. -/
def pauseTime : Nat := 10 * millisecond

/-- Runs a frame. If it fails, the emulator stops and the driver leaves. -/
def frame (p : Pacer) (next : Emulator → Option Driver) : Pacer :=
  match p.emulator.frame with
  | (.ok (), emulator) => { p with driver := next emulator, emulator }
  | (.error _, emulator) => { p with driver := none, emulator := emulator.stop }

/-- Lets the driver act. It leaves when the emulator was stopped. -/
def act (p : Pacer) (now : Nat) : Pacer :=
  match p.driver with
  | none => p
  | some driver =>
    if !p.emulator.running then { p with driver := none }
    else match driver, p.emulator.paused with
      | .ticking interval _, true => { p with driver := some (.ticking interval (now + interval)) }
      | .ticking interval _, false => p.frame fun _ => some (.ticking interval (now + interval))
      | .paced clock _ _, true => { p with driver := some (.paced clock none (now + pauseTime)) }
      | .paced clock base _, false =>
        let cycles := p.emulator.totalCycles
        let base := (base.filter fun (_, first) => first ≤ cycles).getD (now, cycles)
        p.frame fun e => (cycleTime? clock (e.totalCycles - base.2)).map fun time =>
          .paced clock (some base) (max now (base.1 + time))

end Pacer

/-- A clock that can be read and waited for. -/
structure Clock (m : Type → Type) where
  now : m Nat
  sleepUntil : Nat → m Unit

/-- A clock of its own, on which only looking at it takes time. -/
def Clock.counting : Clock (StateM Nat) where
  now := modifyGet fun t => (t, t + millisecond)
  sleepUntil time := modify (max time)

namespace Pacer

variable {m : Type → Type} [Monad m]

/-- Lets the driver act when it is due, until something holds or the deadline is
reached; the answer says whether it holds. Fuel bounds the looks at the clock. -/
def waitFor (clock : Clock m) (deadline : Nat) (holds : Pacer → Bool) :
    Nat → Pacer → m (Bool × Pacer)
  | 0, p => return (holds p, p)
  | fuel + 1, p => do
    if holds p then return (true, p)
    let now ← clock.now
    if deadline ≤ now then return (false, p)
    match p.due? with
    | none =>
      clock.sleepUntil deadline
      return (false, p)
    | some due =>
      if now < due then
        clock.sleepUntil (min due deadline)
        p.waitFor clock deadline holds fuel
      else
        (p.act now).waitFor clock deadline holds fuel

end Pacer
end NesRoutine
