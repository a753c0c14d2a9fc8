import NesRoutine.Proofs.Frame

/-! The dot counter of the picture unit. A frame has 341 dots on each of 262 lines; dots
are counted from a reset on, and where the counter stands tells what each dot brings
about. No register of the picture unit leads to the counter, so the processor cannot
move it. -/
namespace NesRoutine

namespace Ppu

/-- Where the dot counter stands. -/
def State.counter (s : State) : Int × Int := (s.scanline, s.cycle)

/-- What the dot of this number brings about: a frame is 89342 dots, and its vertical
blank starts 82181 dots into it. -/
def dueAt (dot : Nat) : Event :=
  if dot % 89342 = 82181 then .vblankStarted
  else if dot % 89342 = 0 then .frameComplete
  else .nothing

/-- The counter stands where this many dots lead it. -/
def At (dots : Nat) (s : State) : Prop :=
  0 ≤ s.cycle ∧ s.cycle < dotsPerLine ∧ 0 ≤ s.scanline ∧ s.scanline < linesPerFrame ∧
    s.scanline * dotsPerLine + s.cycle = (dots % 89342 : Nat)

theorem at_start : At 0 {} := by
  refine ⟨?_, ?_, ?_, ?_, ?_⟩ <;> decide

/-- Only the two counters matter. -/
theorem At.congr {s s' : State} (stands : At dots s) (same : s'.counter = s.counter) :
    At dots s' := by
  obtain ⟨line, cycle⟩ := Prod.mk.inj same
  rw [At, line, cycle]
  exact stands

/-- A dot goes along its line or begins the next one, and then it may be the first of
the vertical blank or of a frame. -/
theorem step_cases (p : Ppu) :
    let s := p.state
    let s' := p.step.2.state
    (s.cycle + 1 < dotsPerLine ∧ p.step.1 = .nothing ∧ s'.cycle = s.cycle + 1 ∧
      s'.scanline = s.scanline) ∨
    (dotsPerLine ≤ s.cycle + 1 ∧ s'.cycle = 0 ∧
      ((s.scanline + 1 = vblankLine ∧ p.step.1 = .vblankStarted ∧ s'.scanline = vblankLine) ∨
      (s.scanline + 1 ≠ vblankLine ∧ linesPerFrame ≤ s.scanline + 1 ∧
        p.step.1 = .frameComplete ∧ s'.scanline = 0) ∨
      (s.scanline + 1 ≠ vblankLine ∧ s.scanline + 1 < linesPerFrame ∧ p.step.1 = .nothing ∧
        s'.scanline = s.scanline + 1))) := by
  intro s s'
  by_cases along : s.cycle + 1 < dotsPerLine
  · left
    simp only [s', step]
    rw [if_pos along]
    exact ⟨along, rfl, rfl, rfl⟩
  · right
    refine ⟨Int.not_lt.mp along, ?_⟩
    simp only [s', step]
    rw [if_neg along]
    by_cases blank : s.scanline + 1 = vblankLine
    · rw [if_pos blank]
      exact ⟨rfl, .inl ⟨blank, rfl, blank⟩⟩
    · rw [if_neg blank]
      by_cases last : linesPerFrame ≤ s.scanline + 1
      · rw [if_pos last]
        exact ⟨rfl, .inr (.inl ⟨blank, last, rfl, rfl⟩)⟩
      · rw [if_neg last]
        exact ⟨rfl, .inr (.inr ⟨blank, Int.not_le.mp last, rfl, rfl⟩)⟩

/-- One dot moves the counter on by one, and brings about what is due. -/
theorem At.step {p : Ppu} (stands : At dots p.state) :
    p.step.1 = dueAt (dots + 1) ∧ At (dots + 1) p.step.2.state := by
  have cases := p.step_cases
  simp only [At, dotsPerLine, linesPerFrame, vblankLine] at *
  rw [dueAt]
  rcases cases with ⟨along, event, cycle, line⟩ | ⟨wraps, cycle,
    ⟨blank, event, line⟩ | ⟨other, last, event, line⟩ | ⟨other, inside, event, line⟩⟩
  · rw [event, if_neg (by omega), if_neg (by omega)]
    exact ⟨rfl, by omega⟩
  · rw [event, if_pos (by omega)]
    exact ⟨rfl, by omega⟩
  · rw [event, if_neg (by omega), if_pos (by omega)]
    exact ⟨rfl, by omega⟩
  · rw [event, if_neg (by omega), if_neg (by omega)]
    exact ⟨rfl, by omega⟩

theorem counter_readRegister (p : Ppu) (a : UInt16) :
    (p.readRegister a).2.state.counter = p.state.counter := by
  rw [readRegister]
  split
  · rfl
  · rfl
  · rfl
  · rfl

theorem counter_writeRegister (p : Ppu) (a : UInt16) (v : UInt8) :
    (p.writeRegister a v).state.counter = p.state.counter := by
  have scroll : (p.writeScroll v).state.counter = p.state.counter := by
    cases second : p.secondWrite <;> simp [writeScroll, second, State.counter]
  rw [writeRegister]
  split
  · rfl
  · rfl
  · rfl
  · rfl
  · exact scroll
  · rfl
  · rfl
  · rfl

end Ppu

namespace Hardware

def counter (h : Hardware) : Int × Int := h.bus.ppu.state.counter

/-- No address on the bus leads to the dot counter. -/
theorem counter_outOfReach : OutOfReach counter where
  cpu _ _ := rfl
  read h a := by
    simp only [counter, Hardware.read, SystemBus.read]
    split
    · exact Ppu.counter_readRegister _ a
    · split
      · rfl
      · split
        · rfl
        · rfl
  write h a v := by
    simp only [counter, Hardware.write, SystemBus.write]
    split
    · exact Ppu.counter_writeRegister _ a v
    · split
      · rfl
      · rfl

end Hardware
end NesRoutine
