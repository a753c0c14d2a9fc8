import NesRoutine.Proofs.PictureClock

/-! The timing of the picture unit under any traffic. Three of its fields tell of events
in the past: whether it is in the vertical blank, the flag of its status that reading the
status clears, and the note that a frame is complete, which is cleared when it is asked
for. Whatever is read, written and asked between two dots, they agree with the history of
the unit. -/
namespace NesRoutine.Ppu

/-- One use of the unit, with its answer; that to a dot is the set of changes it brought
about. -/
inductive Record where
  | dot (changes : UInt8)
  | read (a : UInt16) (value : UInt8)
  | write (a : UInt16) (value : UInt8)
  | asked (complete : Bool)
  deriving DecidableEq, Repr

/-- What happened to a unit since it was new or was reset, the latest first. -/
inductive History : List Record → Ppu → Prop where
  | new : History [] {}
  | reset (p : Ppu) : History [] p.reset
  | step (history : History past p) : History (.dot p.step.1.bits :: past) p.step.2
  | read (history : History past p) (a : UInt16) :
      History (.read a (p.readRegister a).1 :: past) (p.readRegister a).2
  | write (history : History past p) (a : UInt16) (value : UInt8) :
      History (.write a value :: past) (p.writeRegister a value)
  | ask (history : History past p) :
      History (.asked p.takeFrameComplete.1 :: past) p.takeFrameComplete.2

def Record.isDot : Record → Bool
  | dot _ => true
  | _ => false

/-- The record is of a dot, and the change is one of those it brought about. -/
def Record.reports (bit : UInt8) : Record → Bool
  | dot changes => changes &&& bit != 0
  | _ => false

/-- The status is the third of eight registers, which repeat. -/
def Record.readsStatus : Record → Bool
  | read a _ => a.toNat % 8 == 2
  | _ => false

def Record.isAsked : Record → Bool
  | asked _ => true
  | _ => false

def dots (past : List Record) : Nat := past.countP Record.isDot

/-- The status was not read since the vertical blank last started. -/
def StatusUnread (past : List Record) : Prop :=
  ∀ r ∈ past.takeWhile (!·.reports vblankStartedBit), r.readsStatus = false

/-- A frame was completed since this was last asked. -/
def FrameSince (past : List Record) : Prop :=
  ∃ r ∈ past.takeWhile (!·.isAsked), r.reports frameCompleteBit = true

theorem dueAt_nothing {n : Nat} (due : .nothing = dueAt n) :
    n % 89342 ≠ 82181 ∧ n % 89342 ≠ 0 := by
  unfold dueAt at due
  split at due
  · cases due
  · split at due
    · cases due
    next started ended => exact ⟨started, ended⟩

theorem dueAt_vblankStarted {n : Nat} (due : .vblankStarted = dueAt n) : n % 89342 = 82181 := by
  unfold dueAt at due
  split at due
  next started => exact started
  · split at due <;> cases due

theorem dueAt_frameComplete {n : Nat} (due : .frameComplete = dueAt n) : n % 89342 = 0 := by
  unfold dueAt at due
  split at due
  · cases due
  · split at due
    next ended => exact ended
    · cases due

theorem bits_dueAt (n : Nat) :
    (dueAt n).bits =
      if n % 89342 = 82181 then 0x01 else if n % 89342 = 0 then 0x02 ||| 0x04 else 0 := by
  unfold dueAt
  split
  · rfl
  · split <;> rfl

section Past

variable {past : List Record} {r : Record}

theorem dots_dot (changes : UInt8) (past : List Record) :
    dots (.dot changes :: past) = dots past + 1 :=
  List.countP_cons_of_pos rfl

theorem dots_cons (noDot : r.isDot = false) (past : List Record) : dots (r :: past) = dots past :=
  List.countP_cons_of_neg (by simp [noDot])

theorem statusUnread_started (started : r.reports vblankStartedBit = true) :
    StatusUnread (r :: past) := by
  simp [StatusUnread, started]

theorem statusUnread_cons (other : r.reports vblankStartedBit = false) :
    StatusUnread (r :: past) ↔ r.readsStatus = false ∧ StatusUnread past := by
  simp [StatusUnread, other]

theorem frameSince_asked (complete : Bool) : ¬ FrameSince (.asked complete :: past) := by
  simp [FrameSince, Record.isAsked]

theorem frameSince_cons (other : r.isAsked = false) :
    FrameSince (r :: past) ↔ r.reports frameCompleteBit = true ∨ FrameSince past := by
  simp [FrameSince, other]

end Past

section Registers

theorem toNat_register (a : UInt16) : (a &&& 7).toNat = a.toNat % 8 := by
  rw [UInt16.toNat_and]
  exact Nat.and_two_pow_sub_one_eq_mod a.toNat 3

theorem vblankFlag_setVblankFlag (s : State) (on : Bool) :
    (s.setVblankFlag on).vblankFlag = on := by
  have set : (0x80 : UInt8).toNat.testBit 7 = true := by decide
  have clear : (0x7F : UInt8).toNat.testBit 7 = false := by decide
  rw [State.vblankFlag, mask_bit _ 0x80 (i := 7) rfl, State.setVblankFlag]
  cases on with
  | true => rw [if_pos rfl, UInt8.toNat_or, Nat.testBit_or, set, Bool.or_true]
  | false => rw [if_neg Bool.false_ne_true, UInt8.toNat_and, Nat.testBit_and, clear, Bool.and_false]

/-- The fields that tell of the past. -/
def memo (p : Ppu) : Bool × Bool × Bool := (p.state.inVblank, p.state.vblankFlag, p.frameComplete)

theorem of_memo {p : Ppu} (same : p.memo = (blank, flag, frame)) :
    p.state.inVblank = blank ∧ p.state.vblankFlag = flag ∧ p.frameComplete = frame := by
  simpa only [memo, Prod.mk.injEq] using same

/-- Reading the status clears its flag; no other register that is read bears on the past. -/
theorem memo_readRegister (p : Ppu) (a : UInt16) :
    (p.readRegister a).2.memo =
      (p.state.inVblank, p.state.vblankFlag && a.toNat % 8 != 2, p.frameComplete) := by
  rw [readRegister, toNat_register]
  split
  next status =>
    rw [status, memo, readStatus, vblankFlag_setVblankFlag]
    simp [State.setVblankFlag]
  next other => simp [other, memo]
  next other =>
    simp [other, memo, readData, State.advance, State.vblankFlag]
  next other _ _ =>
    have elsewhere : (a.toNat % 8 != 2) = true := bne_iff_ne.mpr other
    rw [elsewhere, Bool.and_true, memo]

theorem memo_writeRegister (p : Ppu) (a : UInt16) (value : UInt8) :
    (p.writeRegister a value).memo = p.memo := by
  have scroll : (p.writeScroll value).memo = p.memo := by
    cases second : p.secondWrite <;> simp [writeScroll, second, memo, State.vblankFlag]
  rw [writeRegister]
  split
  · rfl
  · rfl
  · rfl
  · rfl
  · exact scroll
  · rfl
  · rfl
  · rfl

/-- A dot that brings nothing about leaves these fields as they are. -/
theorem memo_step (p : Ppu) :
    (p.step.1 = .nothing ∧ p.step.2.memo = p.memo) ∨
    (p.step.1 = .vblankStarted ∧ p.step.2.memo = (true, true, p.frameComplete)) ∨
    (p.step.1 = .frameComplete ∧ p.step.2.memo = (false, false, true)) := by
  simp only [step]
  by_cases along : p.state.cycle + 1 < dotsPerLine
  · rw [if_pos along]
    exact .inl ⟨rfl, rfl⟩
  · rw [if_neg along]
    by_cases blank : p.state.scanline + 1 = vblankLine
    · rw [if_pos blank, memo, vblankFlag_setVblankFlag]
      exact .inr (.inl ⟨rfl, rfl⟩)
    · rw [if_neg blank]
      by_cases last : linesPerFrame ≤ p.state.scanline + 1
      · rw [if_pos last, memo, vblankFlag_setVblankFlag]
        exact .inr (.inr ⟨rfl, rfl⟩)
      · rw [if_neg last]
        exact .inl ⟨rfl, rfl⟩

end Registers

/-- The fields of the unit agree with its past. -/
structure InStep (past : List Record) (p : Ppu) : Prop where
  clock : At (dots past) p.state
  blank : p.state.inVblank = true ↔ 82181 ≤ dots past % 89342
  flag : p.state.vblankFlag = true ↔ p.state.inVblank = true ∧ StatusUnread past
  frame : p.frameComplete = true ↔ FrameSince past

namespace InStep

variable {past : List Record} {p : Ppu}

theorem reset (p : Ppu) : InStep [] p.reset where
  clock := at_start
  blank := by simp [Ppu.reset, dots]
  flag := by simp [Ppu.reset, State.vblankFlag]
  frame := by simp [Ppu.reset, FrameSince]

/-- The blank lasts from its first dot to the end of the frame, so a dot that brings
nothing about leaves it where it was. -/
theorem step (inStep : InStep past p) : InStep (.dot p.step.1.bits :: past) p.step.2 := by
  obtain ⟨due, clock⟩ := inStep.clock.step
  have counted (changes : UInt8) := dots_dot changes past
  rcases p.memo_step with ⟨event, memo⟩ | ⟨event, memo⟩ | ⟨event, memo⟩
  · obtain ⟨blank, flag, frame⟩ := of_memo memo
    rw [event] at due ⊢
    have inside := dueAt_nothing due
    refine ⟨by rwa [counted], ?_, ?_, ?_⟩
    · rw [blank, inStep.blank, counted]
      omega
    · rw [flag, blank, inStep.flag, statusUnread_cons rfl]
      simp [Record.readsStatus]
    · rw [frame, inStep.frame, frameSince_cons rfl]
      simp [Record.reports, Event.bits]
  · obtain ⟨blank, flag, frame⟩ := of_memo memo
    rw [event] at due ⊢
    have started := dueAt_vblankStarted due
    refine ⟨by rwa [counted], ?_, ?_, ?_⟩
    · simp [blank, counted, started]
    · simp [flag, blank, statusUnread_started (r := .dot Event.vblankStarted.bits) rfl]
    · have other : (Record.dot Event.vblankStarted.bits).reports frameCompleteBit = false := rfl
      rw [frame, inStep.frame, frameSince_cons rfl, other]
      simp
  · obtain ⟨blank, flag, frame⟩ := of_memo memo
    rw [event] at due ⊢
    have ended := dueAt_frameComplete due
    have complete : (Record.dot Event.frameComplete.bits).reports frameCompleteBit = true := rfl
    refine ⟨by rwa [counted], ?_, ?_, ?_⟩
    · simp [blank, counted, ended]
    · simp [flag, blank]
    · rw [frame, frameSince_cons rfl, complete]
      simp

/-- A use of the registers leaves the clock alone, and if it bears on the past at all, it
reads the status. -/
theorem use (inStep : InStep past p) {r : Record} {q : Ppu} (noDot : r.isDot = false)
    (noAsk : r.isAsked = false) (counter : q.state.counter = p.state.counter)
    (memo : q.memo = (p.state.inVblank, p.state.vblankFlag && !r.readsStatus, p.frameComplete)) :
    InStep (r :: past) q := by
  obtain ⟨blank, flag, frame⟩ := of_memo memo
  have unchanged (bit : UInt8) : r.reports bit = false := by
    cases r with
    | dot changes => cases noDot
    | read | write | asked => rfl
  have counted := dots_cons noDot past
  refine ⟨?_, ?_, ?_, ?_⟩
  · rw [counted]
    exact inStep.clock.congr counter
  · rw [blank, inStep.blank, counted]
  · rw [blank, flag, statusUnread_cons (unchanged _), Bool.and_eq_true, inStep.flag,
      Bool.not_eq_true', and_assoc, and_comm (a := StatusUnread past)]
  · rw [frame, inStep.frame, frameSince_cons noAsk, unchanged]
    simp

theorem ask (inStep : InStep past p) (complete : Bool) :
    InStep (.asked complete :: past) p.takeFrameComplete.2 := by
  have counted := dots_cons (r := .asked complete) rfl past
  refine ⟨?_, ?_, ?_, ?_⟩
  · rw [counted]
    exact inStep.clock
  · rw [counted]
    exact inStep.blank
  · have unread : StatusUnread (.asked complete :: past) ↔ StatusUnread past := by
      rw [statusUnread_cons rfl]
      simp [Record.readsStatus]
    rw [unread]
    exact inStep.flag
  · simp [takeFrameComplete, frameSince_asked]

end InStep

namespace History

variable {past : List Record} {p : Ppu}

theorem inStep (history : History past p) : InStep past p := by
  induction history with
  | new => exact .reset {}
  | reset p => exact .reset p
  | step _ ih => exact ih.step
  | @read _ p _ a ih => exact ih.use rfl rfl (p.counter_readRegister a) (p.memo_readRegister a)
  | @write _ p _ a value ih =>
    have unread : (Record.write a value).readsStatus = false := rfl
    refine ih.use rfl rfl (p.counter_writeRegister a value) ?_
    rw [p.memo_writeRegister, unread, Bool.not_false, Bool.and_true, memo]
  | ask _ ih => exact ih.ask _

/-- Whatever stands in the past of a unit was its latest use once. -/
theorem earlier (history : History (newer ++ past) p) : ∃ q, History past q := by
  induction newer generalizing p with
  | nil => exact ⟨p, history⟩
  | cons r newer ih =>
    cases history with
    | step history => exact ih history
    | read history => exact ih history
    | write history => exact ih history
    | ask history => exact ih history

/-- A unit can be left alone for any number of dots. -/
theorem exists_dots (n : Nat) : ∃ past p, History past p ∧ dots past = n := by
  induction n with
  | zero => exact ⟨[], {}, .new, rfl⟩
  | succ n ih =>
    obtain ⟨past, p, history, counted⟩ := ih
    exact ⟨_, _, history.step, by rw [dots_dot, counted]⟩

theorem dot_due (history : History (.dot changes :: past) p) :
    changes = (dueAt (dots past + 1)).bits := by
  cases history with
  | step history => rw [history.inStep.clock.step.1]

theorem asked_iff (history : History (.asked complete :: past) p) :
    complete = true ↔ FrameSince past := by
  cases history with
  | ask history => exact history.inStep.frame

end History

/-- After `n` dots the counter stands at `n` in its frame. Dot `82181` of each frame
answered that the vertical blank started (bit 0), the last one that it ended and that the
frame is complete (bits 1 and 2), and every other that nothing changed. The vertical blank,
the flag of the status and all answers about complete frames are those of the past. -/
theorem picture_timing {past : List Record} {p : Ppu} (history : History past p) :
    let n := dots past
    let s := p.state
    (s.scanline * 341 + s.cycle = (n % 89342 : Nat) ∧ 0 ≤ s.cycle ∧ s.cycle < 341 ∧
      0 ≤ s.scanline ∧ s.scanline < 262) ∧
    (s.inVblank = true ↔ 241 ≤ s.scanline) ∧
    (∀ newer changes older, past = newer ++ .dot changes :: older →
      changes =
        if (dots older + 1) % 89342 = 82181 then 0x01
        else if (dots older + 1) % 89342 = 0 then 0x02 ||| 0x04
        else 0) ∧
    (s.vblankFlag = true ↔ s.inVblank = true ∧ StatusUnread past) ∧
    ∀ newer complete older, past = newer ++ .asked complete :: older →
      (complete = true ↔ FrameSince older) := by
  have inStep := history.inStep
  obtain ⟨left, right, top, bottom, position⟩ := inStep.clock
  simp only [dotsPerLine, linesPerFrame] at left right top bottom position
  have blank : p.state.inVblank = true ↔ 241 ≤ p.state.scanline := by
    rw [inStep.blank]
    omega
  refine ⟨⟨position, left, right, top, bottom⟩, blank, ?_, inStep.flag, ?_⟩
  · rintro newer changes older rfl
    obtain ⟨q, history⟩ := history.earlier
    exact history.dot_due.trans (bits_dueAt _)
  · rintro newer complete older rfl
    obtain ⟨q, history⟩ := history.earlier
    exact history.asked_iff

/-- Dot 82181 answers 1 and sets the flag; a read of the status, through the last of its
mirrors, clears it, and the blank goes on. -/
theorem picture_timing_first_blank :
    ∃ past p, History (.dot 1 :: past) p ∧ dots past = 82180 ∧ p.state.scanline = 241 ∧
      p.state.vblankFlag = true ∧
      History (.read 0x3FFA (p.readRegister 0x3FFA).1 :: .dot 1 :: past)
        (p.readRegister 0x3FFA).2 ∧
      (p.readRegister 0x3FFA).2.state.inVblank = true ∧
      (p.readRegister 0x3FFA).2.state.vblankFlag = false := by
  obtain ⟨past, p, before, counted⟩ := History.exists_dots 82180
  have answer : p.step.1.bits = 1 := by
    obtain ⟨-, -, answers, -⟩ := picture_timing before.step
    rw [answers [] _ past rfl, counted]
    rfl
  have history := before.step
  rw [answer] at history
  obtain ⟨⟨position, left, right, -⟩, blank, -, flag, -⟩ := picture_timing history
  rw [dots_dot, counted] at position
  have line : p.step.2.state.scanline = 241 := by omega
  have inBlank := blank.mpr (by omega)
  have later := history.read 0x3FFA
  obtain ⟨⟨position', left', right', -⟩, blank', -, flag', -⟩ := picture_timing later
  rw [dots_cons rfl, dots_dot, counted] at position'
  refine ⟨past, p.step.2, history, counted, line,
    flag.mpr ⟨inBlank, statusUnread_started rfl⟩, later, blank'.mpr (by omega), ?_⟩
  rw [Bool.eq_false_iff, ne_eq, flag', statusUnread_cons rfl]
  simp [Record.readsStatus]

end NesRoutine.Ppu
