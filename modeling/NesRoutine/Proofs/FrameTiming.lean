import NesRoutine.Emulator
import NesRoutine.Proofs.Coherence
import NesRoutine.Proofs.Discovery.BreadthFirst
import NesRoutine.Proofs.PictureClock

/-! Frame timing. A step of the emulator is three dots, and the processor cannot move
the dot counter; so the number of steps alone tells where the picture unit stands, which
frames are complete, and at the end of which steps there is an interrupt or a report. -/
namespace NesRoutine

namespace Hardware

/-- Three bytes are pushed. -/
theorem nmi_ne (h : Hardware) : h.nmi ≠ h := by
  intro same
  have sp := (h.enter_sameStack h.pc h.status.pushedByHardware Cpu.nmiVector).sp
  rw [← h.nmi_eq, same] at sp
  have pushed := h.sp_pushed [h.status.pushedByHardware, lowByte h.pc, highByte h.pc]
  rw [← sp] at pushed
  have three : UInt8.ofNat 3 ≠ 0 := by decide
  exact three (UInt8.left_eq_add.mp pushed.symm)

/-- The hardware after this many dots. -/
def afterDots (h : Hardware) : Nat → Hardware
  | 0 => h
  | n + 1 => (h.afterDots n).stepPpu.2

theorem at_afterDots {h : Hardware} (stands : Ppu.At m h.bus.ppu.state) (n : Nat) :
    Ppu.At (m + n) (h.afterDots n).bus.ppu.state := by
  induction n with
  | zero => exact stands
  | succ n ih => exact ih.step.2

end Hardware

namespace Dispatcher

theorem step_dispatcher (d : Dispatcher) (h : Hardware) :
    (d.step h).2.1 = (d.dispatch h.pc h).2.1 := by
  rw [step]
  split
  next dispatched => rw [dispatched]
  next dispatched => rw [dispatched]
  next dispatched => rw [dispatched]

theorem policy_dispatch (d : Dispatcher) (a : UInt16) (h : Hardware) :
    (d.dispatch a h).2.1.policy = d.policy := by
  rw [dispatch]
  split
  · rfl
  · split
    · rfl
    · split <;> rfl

end Dispatcher

namespace Emulator

/-- One of the three dots of the `k`-th step is at this place in a frame. -/
def Meets (place k : Nat) : Prop := ∃ dot ∈ [3 * k - 2, 3 * k - 1, 3 * k], dot % 89342 = place

instance : Decidable (Meets place k) := inferInstanceAs (Decidable (∃ dot ∈ _, _))

theorem meets_succ (dots : m = 3 * n) : Meets place (n + 1) ↔
    (m + 1) % 89342 = place ∨ (m + 2) % 89342 = place ∨ (m + 3) % 89342 = place := by
  simp [Meets, Nat.mul_add, dots]

/-- What a dot of this number adds to the history. -/
def frameEvents (dot : Nat) : Array Event :=
  if dot % 89342 = 0 then #[.frame (dot / 89342)] else #[]

/-- The emulator after the dot of this number. -/
def afterDot (e : Emulator) (dot : Nat) : Emulator :=
  { e with
    hardware := e.hardware.stepPpu.2
    frameCount := dot / 89342
    events := e.events ++ frameEvents dot }

theorem dot_eq {e : Emulator} (stands : Ppu.At m e.hardware.bus.ppu.state)
    (counted : e.frameCount = m / 89342) :
    e.dot = (decide ((m + 1) % 89342 = 82181), e.afterDot (m + 1)) := by
  obtain ⟨event, _⟩ := stands.step
  have stepped : e.hardware.stepPpu = (Ppu.dueAt (m + 1), e.hardware.stepPpu.2) :=
    Prod.ext event rfl
  rw [dot, stepped, Ppu.dueAt, afterDot, frameEvents]
  by_cases blank : (m + 1) % 89342 = 82181
  · have same : (m + 1) / 89342 = e.frameCount := by omega
    have later : (m + 1) % 89342 ≠ 0 := by omega
    rw [if_pos blank, if_neg later]
    simp [blank, same]
  · rw [if_neg blank]
    by_cases last : (m + 1) % 89342 = 0
    · have next : (m + 1) / 89342 = e.frameCount + 1 := by omega
      rw [if_pos last, if_pos last]
      simp [emit, next, last]
    · have same : (m + 1) / 89342 = e.frameCount := by omega
      rw [if_neg last, if_neg last]
      simp [blank, same]

theorem frameEvents_of_end (last : d % 89342 = 0) : frameEvents d = #[.frame (d / 89342)] :=
  if_pos last

theorem frameEvents_of_ne (within : d % 89342 ≠ 0) : frameEvents d = #[] := if_neg within

/-- Three dots pass at most one end of a frame. -/
theorem frameEvents_three [Decidable p]
    (met : p ↔ (m + 1) % 89342 = 0 ∨ (m + 2) % 89342 = 0 ∨ (m + 3) % 89342 = 0) :
    frameEvents (m + 1) ++ frameEvents (m + 2) ++ frameEvents (m + 3) =
      if p then #[.frame ((m + 3) / 89342)] else #[] := by
  by_cases first : (m + 1) % 89342 = 0
  · have same : (m + 1) / 89342 = (m + 3) / 89342 := by omega
    rw [if_pos (met.mpr (.inl first)), frameEvents_of_end first, frameEvents_of_ne (by omega),
      frameEvents_of_ne (by omega), same]
    rfl
  · rw [frameEvents_of_ne first]
    by_cases second : (m + 2) % 89342 = 0
    · have same : (m + 2) / 89342 = (m + 3) / 89342 := by omega
      rw [if_pos (met.mpr (.inr (.inl second))), frameEvents_of_end second,
        frameEvents_of_ne (by omega), same]
      rfl
    · rw [frameEvents_of_ne second]
      by_cases third : (m + 3) % 89342 = 0
      · rw [if_pos (met.mpr (.inr (.inr third))), frameEvents_of_end third]
        rfl
      · have unmet : ¬ p := by
          rw [met]
          omega
        rw [if_neg unmet, frameEvents_of_ne third]
        rfl

/-- What the dots of a step do, when there were `n` steps before it. -/
theorem dots_eq {e : Emulator} (stands : Ppu.At (3 * n) e.hardware.bus.ppu.state)
    (counted : e.frameCount = 3 * n / 89342) :
    e.dots = { e with
      hardware := if Meets 82181 (n + 1) then (e.hardware.afterDots 3).nmi
        else e.hardware.afterDots 3
      frameCount := 3 * (n + 1) / 89342
      events := e.events ++
        if Meets 0 (n + 1) then #[.frame (3 * (n + 1) / 89342)] else #[] } := by
  have total : 3 * (n + 1) = 3 * n + 3 := rfl
  have blank : Meets 82181 (n + 1) ↔ _ := meets_succ rfl
  have ends : Meets 0 (n + 1) ↔ _ := meets_succ rfl
  rw [total, ← frameEvents_three ends]
  generalize 3 * n = m at *
  have first := dot_eq stands counted
  have second : (e.afterDot (m + 1)).dot = (decide ((m + 2) % 89342 = 82181), _) :=
    dot_eq stands.step.2 rfl
  have third : ((e.afterDot (m + 1)).afterDot (m + 2)).dot =
      (decide ((m + 3) % 89342 = 82181), _) := dot_eq stands.step.2.step.2 rfl
  simp only [dots, first, second, third, blank, Bool.or_eq_true, decide_eq_true_eq, or_assoc,
    ← Array.append_assoc]
  split
  · rfl
  · rfl

/-- At which step the next report is due, after `n` steps. -/
def nextReport (interval n : Nat) : Nat := interval * (n / interval + 1)

theorem nextReport_le (positive : interval ≠ 0) :
    nextReport interval n ≤ n + 1 ↔ interval ∣ n + 1 := by
  rw [nextReport, Nat.mul_comm, ← Nat.le_div_iff_mul_le (Nat.pos_of_ne_zero positive), Nat.succ_div]
  split
  next divides => simp [divides]
  next misses => simp [misses]

theorem nextReport_succ (interval n : Nat) : nextReport interval (n + 1) =
    nextReport interval n + if interval ∣ n + 1 then interval else 0 := by
  rw [nextReport, nextReport, Nat.succ_div]
  split
  · rw [Nat.add_right_comm, Nat.mul_add _ _ 1, Nat.mul_one]
  · rfl

theorem signedInterval_eq {config : Config} (small : config.statsInterval ≤ 0x7FFFFFFFFFFFFFFF) :
    signedInterval config = config.statsInterval := by
  have size : (1 <<< 64 : Nat) = 0x10000000000000000 := by decide
  apply Int.bmod_eq_of_le_mul_two
  · rw [size]
    omega
  · rw [size]
    omega

/-- What counting a step does, if the next report is due when it should be. -/
theorem count_eq {e : Emulator} (small : e.config.statsInterval ≤ 0x7FFFFFFFFFFFFFFF)
    (due : e.nextStats = nextReport e.config.statsInterval e.totalCycles) :
    e.count = { e with
      totalCycles := e.totalCycles + 1
      nextStats := nextReport e.config.statsInterval (e.totalCycles + 1)
      events := e.events ++
        if e.config.statsInterval ≠ 0 ∧ e.config.statsInterval ∣ e.totalCycles + 1 then
          #[.stats { e with totalCycles := e.totalCycles + 1 }.stats]
        else #[] } := by
  simp only [count, due, Int.ofNat_le, signedInterval_eq small, nextReport_succ]
  by_cases off : e.config.statsInterval = 0
  · simp [off]
  · simp only [nextReport_le off]
    by_cases divides : e.config.statsInterval ∣ e.totalCycles + 1
    · have reported := And.intro off divides
      rw [if_pos reported, if_pos divides, if_pos reported, emit, Array.push_eq_append]
      rfl
    · have silent : ¬ (e.config.statsInterval ≠ 0 ∧ e.config.statsInterval ∣ e.totalCycles + 1) :=
        fun reported => divides reported.2
      rw [if_neg silent, if_neg divides, if_neg silent, Array.append_empty]
      rfl

theorem step_ok {e e' : Emulator} (ok : e.step = (.ok (), e')) :
    ∃ dispatcher hardware, e.dispatcher.step e.hardware = (.ok (), dispatcher, hardware) ∧
      e' = { e with dispatcher, hardware }.dots.count := by
  rw [step] at ok
  split at ok
  · cases ok
  next dispatcher hardware stepped =>
    cases ok
    exact ⟨dispatcher, hardware, stepped, rfl⟩

/-- The hardware when the processor and the three dots of a step are through, before an
interrupt is delivered. -/
def shown (e : Emulator) : Hardware := (e.dispatcher.step e.hardware).2.2.afterDots 3

/-- What the `k`-th step does, and when. -/
structure Punctual (interval k : Nat) (e e' : Emulator) : Prop where
  interrupt : e'.hardware = if Meets 82181 k then e.shown.nmi else e.shown
  events : e'.events = e.events ++
    (if Meets 0 k then #[.frame (3 * k / 89342)] else #[]) ++
    (if interval ≠ 0 ∧ interval ∣ k then #[.stats e'.stats] else #[])

/-- All counters stand where `n` steps lead them, and the compiler has no code from
outside. -/
structure OnTime (config : Config) (n : Nat) (e : Emulator) : Prop where
  config_eq : e.config = config
  used : ∃ regions budget, e.dispatcher.compiler.Reachable regions {} none budget
  total : e.totalCycles = n
  stands : Ppu.At (3 * n) e.hardware.bus.ppu.state
  counted : e.frameCount = 3 * n / 89342
  due : e.nextStats = nextReport config.statsInterval n

namespace OnTime

variable {config : Config} {e e' : Emulator}

/-- Whether it succeeds or not, a step of the processor leaves the dot counter alone. -/
theorem stepped (time : OnTime config n e) :
    Ppu.At (3 * n) (e.dispatcher.step e.hardware).2.2.bus.ppu.state := by
  obtain ⟨regions, budget, used⟩ := time.used
  have kept := Dispatcher.step_keeps Hardware.counter_outOfReach used (by simp)
    (by intro _ _ _ _ known; cases known) e.hardware
  exact time.stands.congr kept

theorem step (time : OnTime config n e) (small : config.statsInterval ≤ 0x7FFFFFFFFFFFFFFF)
    (ok : e.step = (.ok (), e')) :
    OnTime config (n + 1) e' ∧ Punctual config.statsInterval (n + 1) e e' := by
  obtain ⟨dispatcher, hardware, stepped, rfl⟩ := step_ok ok
  have stands := time.stepped
  obtain ⟨rfl, ⟨regions, budget, used⟩, total, _, counted, due⟩ := time
  have used' := Dispatcher.step_used used e.hardware
  rw [stepped] at stands used'
  have passed := Hardware.at_afterDots stands 3
  have dots := dots_eq (e := { e with dispatcher, hardware }) stands counted
  have count := count_eq (e := { e with dispatcher, hardware }.dots) (by rw [dots]; exact small)
    (by rw [dots]; exact total ▸ due)
  rw [dots] at count ⊢
  rw [count]
  dsimp only
  rw [total]
  constructor
  · refine ⟨rfl, ⟨regions, budget, used'⟩, rfl, ?_, rfl, rfl⟩
    dsimp only
    split
    · exact passed.congr (Hardware.counter_outOfReach.nmi _)
    · exact passed
  · constructor
    · rw [shown, stepped]
    · rfl

theorem failed (time : OnTime config n e) (failed : e.step = (.error cause, e')) :
    OnTime config n e' ∧ e'.events = e.events := by
  have stands := time.stepped
  obtain ⟨config_eq, ⟨regions, budget, used⟩, total, _, counted, due⟩ := time
  have used' := Dispatcher.step_used used e.hardware
  rw [Emulator.step] at failed
  split at failed
  next dispatcher hardware stepped =>
    cases failed
    rw [stepped] at stands used'
    exact ⟨⟨config_eq, ⟨regions, budget, used'⟩, total, stands, counted, due⟩, rfl⟩
  · cases failed

/-- What is noted down has nothing to do with time. -/
theorem log (time : OnTime config n e) (r : LogRecord) : OnTime config n (e.log r) := by
  obtain ⟨config_eq, ⟨regions, budget, used⟩, total, stands, counted, due⟩ := time
  exact ⟨config_eq, ⟨regions, budget, used.log r⟩, total, stands, counted, due⟩

theorem emit (time : OnTime config n e) (event : Event) : OnTime config n (e.emit event) := by
  obtain ⟨config_eq, used, total, stands, counted, due⟩ := time
  exact ⟨config_eq, used, total, stands, counted, due⟩

theorem switch (time : OnTime config n e) (running paused ranBefore : Bool) :
    OnTime config n { e with running, paused, ranBefore } := by
  obtain ⟨config_eq, used, total, stands, counted, due⟩ := time
  exact ⟨config_eq, used, total, stands, counted, due⟩

end OnTime

theorem loaded_used {compiler : Compiler} (used : compiler.Reachable regions {} none budget)
    (config : Config) (cache : Option (List UInt8)) :
    (ofCartridge.loaded config cache compiler).2.Reachable regions {} none budget := by
  unfold ofCartridge.loaded
  cases cache with
  | none => exact used
  | some bytes =>
    cases config.cachePath with
    | none => exact used
    | some path =>
      have load := used.load bytes
      dsimp only
      split
      next count after found =>
        rw [found] at load
        exact load.log _
      next m after found =>
        rw [found] at load
        exact (load.log _).log _
      next e after _ found =>
        rw [found] at load
        exact load

theorem at_reset (h : Hardware) : Ppu.At 0 h.reset.bus.ppu.state := by
  let cleared : Hardware :=
    { h with bus := { h.bus with memory := h.bus.memory.reset, ppu := h.bus.ppu.reset } }
  exact Ppu.at_start.congr (Hardware.counter_outOfReach.readWord cleared Cpu.resetVector)

/-- A new emulator has taken no steps. -/
theorem ofCartridge_onTime {cartridge : Cartridge} {config : Config}
    {cache : Option (List UInt8)} {journal : Journal}
    (made : (ofCartridge cartridge config cache journal).1 = .ok e)
    (small : config.statsInterval ≤ 0x7FFFFFFFFFFFFFFF) :
    OnTime config 0 e ∧ e.events = #[] := by
  let fresh : Compiler := { regions := cartridge.codeRegions, journal }
  have plain : fresh.Reachable cartridge.codeRegions {} none fresh.budget := .fresh journal
  have used := loaded_used plain config cache
  rw [ofCartridge] at made
  split at made
  · cases made
  · dsimp only at made
    split at made
    · cases made
    next after found =>
      rw [found] at used
      cases made
      refine ⟨⟨rfl, ⟨_, _, used.log _⟩, rfl, at_reset _, rfl, ?_⟩, rfl⟩
      dsimp only
      rw [signedInterval_eq small, nextReport, Nat.zero_div, Nat.zero_add, Nat.mul_one]

/-- What becomes of an emulator, and the steps that succeed on the way, each with the
emulator before and after it. Between steps anyone may hold buttons, start, stop and pause
the emulator, and use its dispatcher in any other way; nobody else resets or changes the
hardware. -/
inductive Played (first : Emulator) : List (Emulator × Emulator) → Emulator → Prop where
  | start : Played first [] first
  | step (played : Played first taken e) (ok : e.step = (.ok (), e')) :
      Played first (taken ++ [(e, e')]) e'
  | failed (played : Played first taken e) (failed : e.step = (.error cause, e')) :
      Played first taken e'
  | hold (played : Played first taken e) (player : Nat) (buttons : UInt8) :
      Played first taken { e with hardware := e.hardware.holdButtons player buttons }
  | started (played : Played first taken e) : Played first taken e.start
  | stopped (played : Played first taken e) : Played first taken e.stop
  | paused (played : Played first taken e) (ok : e.setPaused on = .ok e') : Played first taken e'
  | otherUse (played : Played first taken e) {d : Dispatcher}
      (used : d.compiler.Reachable regions {} none budget) :
      Played first taken { e with dispatcher := d }

/-- The number of the frame that an event reports. -/
def Event.frame? : Event → Option Nat
  | .frame count => some count
  | _ => none

/-- The frames that were reported, in order. -/
def framesSeen (e : Emulator) : List Nat := e.events.toList.filterMap Event.frame?

/-- How many of these steps ended with an interrupt. -/
def interrupts (taken : List (Emulator × Emulator)) : Nat :=
  taken.countP fun (e, e') => e'.hardware = e.shown.nmi

namespace Punctual

variable {e e' : Emulator}

theorem framesSeen_eq (punctual : Punctual interval k e e') :
    e'.framesSeen = e.framesSeen ++ if Meets 0 k then [3 * k / 89342] else [] := by
  rw [framesSeen, framesSeen, punctual.events]
  have reports : (if interval ≠ 0 ∧ interval ∣ k then #[.stats e'.stats] else #[]).toList.filterMap
      Event.frame? = [] := by
    split
    · rfl
    · rfl
  rw [Array.toList_append, Array.toList_append, List.filterMap_append, List.filterMap_append,
    reports, List.append_nil]
  split
  · rfl
  · rfl

theorem interrupted_iff (punctual : Punctual interval k e e') :
    e'.hardware = e.shown.nmi ↔ Meets 82181 k := by
  rw [punctual.interrupt]
  split
  next met => simp [met]
  next unmet => simp [unmet, (Hardware.nmi_ne _).symm]

end Punctual

/-- Three dots end at most one frame. -/
theorem frames_three [Decidable p]
    (ends : p ↔ (m + 1) % 89342 = 0 ∨ (m + 2) % 89342 = 0 ∨ (m + 3) % 89342 = 0) :
    (m + 3) / 89342 = m / 89342 + if p then 1 else 0 := by
  split
  next met =>
    have := ends.mp met
    omega
  next unmet =>
    have := mt ends.mpr unmet
    omega

/-- Three dots start at most one vertical blank; the first starts 7161 dots before the
end of a frame. -/
theorem blanks_three [Decidable p]
    (starts : p ↔ (m + 1) % 89342 = 82181 ∨ (m + 2) % 89342 = 82181 ∨ (m + 3) % 89342 = 82181) :
    (m + 3 + 7161) / 89342 = (m + 7161) / 89342 + if p then 1 else 0 := by
  split
  next met =>
    have := starts.mp met
    omega
  next unmet =>
    have := mt starts.mpr unmet
    omega

/-- All that has been said of the steps so far. -/
structure Kept (config : Config) (taken : List (Emulator × Emulator)) (e : Emulator) : Prop where
  time : OnTime config taken.length e
  seen : e.framesSeen = List.range' 1 (3 * taken.length / 89342)
  delivered : interrupts taken = (3 * taken.length + 7161) / 89342
  punctual : ∀ k before after, taken[k]? = some (before, after) →
    Punctual config.statsInterval (k + 1) before after

namespace Kept

variable {config : Config} {taken : List (Emulator × Emulator)} {e e' : Emulator}

theorem step (kept : Kept config taken e) (small : config.statsInterval ≤ 0x7FFFFFFFFFFFFFFF)
    (ok : e.step = (.ok (), e')) : Kept config (taken ++ [(e, e')]) e' := by
  obtain ⟨time, seen, delivered, earlier⟩ := kept
  obtain ⟨time, punctual⟩ := time.step small ok
  have length : (taken ++ [(e, e')]).length = taken.length + 1 := List.length_append
  constructor
  · rw [length]
    exact time
  · rw [length, punctual.framesSeen_eq, seen, Nat.mul_add, frames_three (meets_succ rfl)]
    split
    · rw [List.range'_1_concat, Nat.add_comm 1]
    · rw [List.append_nil, Nat.add_zero]
  · rw [length, Nat.mul_add, blanks_three (meets_succ rfl), ← delivered, interrupts,
      List.countP_append, ← interrupts]
    simp only [List.countP_singleton, punctual.interrupted_iff, decide_eq_true_eq]
  · intro k before after found
    by_cases old : k < taken.length
    · rw [List.getElem?_append_left old] at found
      exact earlier k before after found
    · obtain rfl : k = taken.length := by
        have bound := (List.getElem?_eq_some_iff.mp found).1
        omega
      rw [List.getElem?_concat_length] at found
      cases found
      exact punctual

/-- Between steps nothing happens that has to do with time. -/
theorem aside (kept : Kept config taken e) (time : OnTime config taken.length e')
    (seen : e'.framesSeen = e.framesSeen) : Kept config taken e' :=
  ⟨time, seen.trans kept.seen, kept.delivered, kept.punctual⟩

end Kept

theorem ppu_holdButtons (h : Hardware) (player : Nat) (buttons : UInt8) :
    (h.holdButtons player buttons).bus.ppu = h.bus.ppu := by
  simp only [Hardware.holdButtons]
  split <;> rfl

theorem Played.kept {cartridge : Cartridge} {config : Config} {cache : Option (List UInt8)}
    {journal : Journal} (made : (ofCartridge cartridge config cache journal).1 = .ok first)
    (small : config.statsInterval ≤ 0x7FFFFFFFFFFFFFFF) (played : Played first taken e) :
    Kept config taken e := by
  induction played with
  | start =>
    obtain ⟨time, silent⟩ := ofCartridge_onTime made small
    refine ⟨time, ?_, rfl, ?_⟩
    · rw [framesSeen, silent]
      rfl
    · intro k before after found
      cases found
  | step _ ok ih => exact ih.step small ok
  | failed _ failed ih =>
    obtain ⟨time, same⟩ := ih.time.failed failed
    exact ih.aside time (by rw [framesSeen, framesSeen, same])
  | hold _ player buttons ih =>
    obtain ⟨config_eq, used, total, stands, counted, due⟩ := ih.time
    rw [← ppu_holdButtons _ player buttons] at stands
    exact ih.aside ⟨config_eq, used, total, stands, counted, due⟩ rfl
  | started _ ih =>
    rw [Emulator.start]
    split
    · exact ih
    · exact ih.aside ((ih.time.switch true false _).log _) rfl
  | stopped _ ih =>
    rw [stop]
    split
    · refine ih.aside (((ih.time.switch false false true).log _).emit .stopped) ?_
      simp [framesSeen, emit, Event.frame?, log]
    · exact ih
  | paused _ ok ih =>
    rw [setPaused] at ok
    split at ok
    · cases ok
      exact ih.aside (ih.time.switch _ _ _) rfl
    · cases ok
  | otherUse _ used ih =>
    obtain ⟨config_eq, _, total, stands, counted, due⟩ := ih.time
    exact ih.aside ⟨config_eq, ⟨_, _, used⟩, total, stands, counted, due⟩ rfl

theorem dot_dispatcher (e : Emulator) : e.dot.2.dispatcher = e.dispatcher := by
  rw [dot]
  dsimp only
  split <;> rfl

theorem dots_dispatcher (e : Emulator) : e.dots.dispatcher = e.dispatcher := by
  have passed : e.dot.2.dot.2.dot.2.dispatcher = e.dispatcher := by
    rw [dot_dispatcher, dot_dispatcher, dot_dispatcher]
  rw [dots]
  dsimp only
  split
  · exact passed
  · exact passed

theorem count_dispatcher (e : Emulator) : e.count.dispatcher = e.dispatcher := by
  rw [count]
  dsimp only
  split <;> rfl

/-- Only the processor uses the dispatcher. -/
theorem step_dispatcher (e : Emulator) :
    e.step.2.dispatcher = (e.dispatcher.dispatch e.hardware.pc e.hardware).2.1 := by
  rw [← Dispatcher.step_dispatcher, step]
  split
  next stepped => rw [stepped]
  next stepped => rw [stepped, count_dispatcher, dots_dispatcher]

/-- No step fails where failures are marked. -/
theorem step_markAbsent {e : Emulator} (policy : e.dispatcher.policy = .markAbsent) :
    ∃ e', e.step = (.ok (), e') := by
  have passed (a : UInt16) (h : Hardware) :
      ∃ ran d h', e.dispatcher.dispatch a h = (.ok ran, d, h') := by
    rw [Dispatcher.dispatch]
    split
    · exact ⟨_, _, _, rfl⟩
    · split
      · exact ⟨_, _, _, rfl⟩
      · rw [policy]
        exact ⟨_, _, _, rfl⟩
  obtain ⟨ran, d, h, dispatched⟩ := passed e.hardware.pc e.hardware
  rw [step, Dispatcher.step, dispatched]
  cases ran with
  | false => exact ⟨_, rfl⟩
  | true => exact ⟨_, rfl⟩

/-- A step keeps a unit for PC, where there is a routine. -/
theorem step_compiles {e e' : Emulator} (ok : e.step = (.ok (), e'))
    (coherent : e.dispatcher.compiler.Coherent regions debugger budget)
    (unmarked : e.dispatcher.isAbsent e.hardware.pc = false)
    (discovered : Routine.discover regions e.hardware.pc = .ok r) :
    e'.dispatcher.compiler.isCompiled e.hardware.pc = true := by
  have kept : (e.dispatcher.compiler.run e.hardware.pc e.hardware).2.1.isCompiled
      e.hardware.pc = true := by
    rcases coherent.getOrCompile e.hardware.pc with ⟨_, unknown, _⟩ | ⟨u, _, _, answer, _⟩
    · cases unknown.symm.trans discovered
    · exact Compiler.isCompiled_run (congrArg Prod.fst answer) e.hardware
  have same := e.step_dispatcher
  rw [ok] at same
  rw [same]
  rcases e.dispatcher.dispatch_compiler e.hardware.pc e.hardware with
    ⟨marked, _⟩ | ⟨_, ran | ⟨_, ran⟩⟩
  · cases marked.symm.trans unmarked
  · rw [ran]
    exact kept
  · rw [ran]
    exact kept

theorem policy_step {e e' : Emulator} (ok : e.step = (.ok (), e'))
    (policy : e.dispatcher.policy = onFailure) : e'.dispatcher.policy = onFailure := by
  have same := e.step_dispatcher
  rw [ok] at same
  rw [same, Dispatcher.policy_dispatch, policy]

/-- Where failures are marked, a run can go on for any number of steps. -/
theorem Played.more (played : Played first taken e)
    (policy : e.dispatcher.policy = .markAbsent) (n : Nat) :
    ∃ more e', Played first (taken ++ more) e' ∧ more.length = n ∧
      e'.dispatcher.policy = .markAbsent := by
  induction n with
  | zero => exact ⟨[], e, (List.append_nil taken).symm ▸ played, rfl, policy⟩
  | succ n ih =>
    obtain ⟨more, e₁, played, length, policy⟩ := ih
    obtain ⟨e₂, ok⟩ := step_markAbsent policy
    refine ⟨more ++ [(e₁, e₂)], e₂, ?_, by simp [length], policy_step ok policy⟩
    rw [← List.append_assoc]
    exact played.step ok

/-- Two banks of returns, but for the high byte of the reset vector. -/
def returns : Array UInt8 := Array.replicate 0x7FFD 0x60 ++ #[0x80, 0x60, 0x60]

theorem size_returns : returns.size = 0x8000 := by
  rw [returns, Array.size_append, Array.size_replicate]
  rfl

theorem getD_returns (inside : k < 0x7FFD) : returns.getD k 0 = 0x60 := by
  rw [returns, Array.getD_eq_getD_getElem?,
    Array.getElem?_append_left (by rwa [Array.size_replicate]), Array.getElem?_replicate,
    if_pos inside]
  rfl

theorem returns_vector : word (returns.getD 0x7FFC 0) (returns.getD 0x7FFD 0) = 0x8060 := by
  have high : returns.getD 0x7FFD 0 = 0x80 := by
    rw [returns, Array.getD_eq_getD_getElem?,
      Array.getElem?_append_right (by rw [Array.size_replicate]), Array.size_replicate]
    rfl
  rw [getD_returns (by decide), high]
  rfl

section Returning

variable {image : Array UInt8} (size : image.size = 0x8000)
include size

theorem not_one_bank : ¬ image.size = prgBankSize := by
  rw [size]
  decide

theorem reset_pc : (Hardware.ofPrg image).reset.pc =
    word (image.getD 0x7FFC 0) (image.getD 0x7FFD 0) := by
  have vector : (Hardware.ofPrg image).reset.pc =
      word (Memory.readPrg { prg := image } 0xFFFC) (Memory.readPrg { prg := image } 0xFFFD) := rfl
  have two := not_one_bank size
  rw [vector, Memory.readPrg, Memory.readPrg, if_neg two, if_neg two]
  rfl

/-- A return is a routine of its own. -/
theorem discover_returning (code : image.getD 0x60 0 = 0x60) :
    ∃ r, Routine.discover (Cartridge.ofPrg image).codeRegions 0x8060 = .ok r := by
  have regions : (Cartridge.ofPrg image).codeRegions = [⟨0x8000, image⟩] :=
    congrArg (_ :: ·) (if_neg (not_one_bank size))
  have covered : CodeRegion.contains ⟨0x8000, image⟩ 0x8060 = true := by
    rw [CodeRegion.contains_iff, size]
    simp only [UInt16.reduceToNat]
    omega
  have offset : (0x8060 : UInt16).toNat - (0x8000 : UInt16).toNat = 0x60 := rfl
  have known : Opcode.lookup 0x60 =
      some { mnemonic := .rts, mode := .implied, cycles := 6 } := by decide +kernel
  have one : Opcode.size { mnemonic := .rts, mode := .implied, cycles := 6 } = 1 := rfl
  have enough : ¬ image.size - 0x60 < 1 := by omega
  obtain ⟨i, decoded, nowhere, last⟩ : ∃ i, decodeAt [⟨0x8000, image⟩] 0x8060 = .ok i ∧
      i.target = none ∧ i.endsPath = true := by
    simp only [decodeAt, List.find?_cons, covered, offset, code, known, one, if_neg enough]
    exact ⟨_, rfl, rfl, rfl⟩
  rw [regions]
  refine Routine.discover_ok_iff.mpr ?_
  intro a reached
  obtain rfl : a = 0x8060 := by
    induction reached with
    | entry => rfl
    | target _ found target ih =>
      subst ih
      cases found.symm.trans decoded
      cases nowhere.symm.trans target
    | next _ found continues ih =>
      subst ih
      cases found.symm.trans decoded
      cases last.symm.trans continues
  exact ⟨i, decoded⟩

end Returning

/-- After `n` steps of any program: so many cycles are counted, the picture unit stands at
that dot, the frames reported are numbered from 1 on, and so many interrupts have been
delivered. Each step does what is due at it, neither earlier nor later. -/
theorem frame_timing {cartridge : Cartridge} {config : Config} {cache : Option (List UInt8)}
    {journal : Journal} (made : (ofCartridge cartridge config cache journal).1 = .ok first)
    (small : config.statsInterval ≤ 0x7FFFFFFFFFFFFFFF) (played : Played first taken e) :
    let n := taken.length
    let ppu := e.hardware.bus.ppu.state
    e.totalCycles = n ∧
      ppu.scanline * 341 + ppu.cycle = (3 * n % 89342 : Nat) ∧
      e.frameCount = 3 * n / 89342 ∧
      e.framesSeen = List.range' 1 (3 * n / 89342) ∧
      interrupts taken = (3 * n + 7161) / 89342 ∧
      ∀ k before after, taken[k]? = some (before, after) →
        Punctual config.statsInterval (k + 1) before after := by
  intro n ppu
  obtain ⟨time, seen, delivered, punctual⟩ := played.kept made small
  obtain ⟨_, _, _, _, position⟩ := time.stands
  exact ⟨time.total, position, time.counted, seen, delivered, punctual⟩

/-- A run past the end of the first frame, of a program that returns from `$8060` to RAM, where
there is no code. The frame ends at the step at which the third report is due. -/
theorem frame_timing_reported : ∃ image first e₁ more e,
    (ofCartridge (.ofPrg image) { statsInterval := 9927 } none).1 = .ok first ∧
      first.step = (.ok (), e₁) ∧ e₁.dispatcher.compiler.isCompiled 0x8060 = true ∧
      Played first ((first, e₁) :: more) e ∧ e.totalCycles = 29781 ∧ e.framesSeen = [1] ∧
      interrupts ((first, e₁) :: more) = 1 ∧
      ∃ before after, more[29779]? = some (before, after) ∧
        after.events = before.events ++ #[.frame 1] ++ #[.stats after.stats] := by
  obtain ⟨image, size, code, vector⟩ : ∃ image : Array UInt8, image.size = 0x8000 ∧
      image.getD 0x60 0 = 0x60 ∧ word (image.getD 0x7FFC 0) (image.getD 0x7FFD 0) = 0x8060 :=
    ⟨returns, size_returns, getD_returns (by decide), returns_vector⟩
  obtain ⟨r, discovered⟩ := discover_returning size code
  obtain ⟨first, made, compiler, unmarked, policy, start⟩ : ∃ first,
      (ofCartridge (.ofPrg image) { statsInterval := 9927 } none).1 = .ok first ∧
      first.dispatcher.compiler.Coherent (Cartridge.ofPrg image).codeRegions none (1 <<< 60) ∧
      first.dispatcher.isAbsent 0x8060 = false ∧
      first.dispatcher.policy = .markAbsent ∧ first.hardware.pc = 0x8060 :=
    ⟨_, rfl, (Compiler.Coherent.start {}).log _, by simp [Dispatcher.isAbsent], rfl,
      (reset_pc size).trans vector⟩
  obtain ⟨e₁, ok⟩ := step_markAbsent policy
  have compiled := step_compiles ok compiler (start ▸ unmarked) (start ▸ discovered)
  rw [start] at compiled
  have played : Played first [(first, e₁)] e₁ := .step .start ok
  obtain ⟨more, e, played, length, -⟩ := played.more (policy_step ok policy) 29780
  have total : ([(first, e₁)] ++ more).length = 29781 := by simp [length]
  obtain ⟨cycles, -, -, seen, delivered, punctual⟩ := frame_timing made (by decide) played
  rw [total] at cycles seen delivered
  have last : 29779 < more.length := by omega
  have found := List.getElem?_eq_getElem last
  have there : ([(first, e₁)] ++ more)[29780]? = some more[29779] := by
    rw [List.getElem?_append_right (by simp)]
    exact found
  have due : Punctual 9927 29781 more[29779].1 more[29779].2 := punctual 29780 _ _ there
  have ends : Meets 0 29781 := by decide
  have reports : 9927 ≠ 0 ∧ 9927 ∣ 29781 := by decide
  refine ⟨image, first, e₁, more, e, made, ok, compiled, played, cycles, seen, delivered,
    more[29779].1, more[29779].2, found, ?_⟩
  rw [due.events, if_pos ends, if_pos reports]

end Emulator
end NesRoutine
