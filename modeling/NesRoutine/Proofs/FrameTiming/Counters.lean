import NesRoutine.Proofs.FrameTiming

/-! The counters of the emulator as words of 64 bits. They count the steps of a run beside the
emulator, whose numbers have no bound, and agree with it until the next report would be due
beyond their range. -/
namespace NesRoutine
namespace Emulator

/-- The counters as machine words: those of cycles are signed. -/
structure Counters where
  cycles : Int64 := 0
  frames : UInt64 := 0
  nextStats : Int64
  deriving DecidableEq, Repr

namespace Counters

def dot (c : Counters) : Ppu.Event → Counters
  | .frameComplete => { c with frames := c.frames + 1 }
  | .nothing | .vblankStarted => c

/-- Counts a step; the answer says whether a report is due. -/
def count (interval : Nat) (c : Counters) : Bool × Counters :=
  let c := { c with cycles := c.cycles + 1 }
  if interval ≠ 0 ∧ c.nextStats ≤ c.cycles then
    (true, { c with nextStats := c.nextStats + Int64.ofNat interval })
  else
    (false, c)

/-- The dots that follow the hardware are counted first, then the step. -/
def step (interval : Nat) (c : Counters) (h : Hardware) : Bool × Counters :=
  let c := c.dot h.stepPpu.1
  let c := c.dot (h.afterDots 1).stepPpu.1
  let c := c.dot (h.afterDots 2).stepPpu.1
  c.count interval

/-- The counters after these steps of an emulator, and at which of them a report was due. -/
def after (interval : Nat) (taken : List (Emulator × Emulator)) : List Bool × Counters :=
  taken.foldl add ([], { nextStats := Int64.ofNat interval })
where
  add (past : List Bool × Counters) (taken : Emulator × Emulator) : List Bool × Counters :=
    let counted := past.2.step interval (taken.1.dispatcher.step taken.1.hardware).2.2
    (past.1 ++ [counted.1], counted.2)

/-- The words stand for the numbers that `n` steps lead to. -/
structure Stand (interval n : Nat) (c : Counters) : Prop where
  cycles : c.cycles.toInt = n
  frames : c.frames.toNat = 3 * n / 89342
  nextStats : c.nextStats.toInt = nextReport interval n

variable {interval n : Nat} {c : Counters}

theorem toInt_add_of_fits {a b : Int64} {x y : Nat} (left : a.toInt = x) (right : b.toInt = y)
    (fits : x + y ≤ 0x7FFFFFFFFFFFFFFF) : (a + b).toInt = (x + y : Nat) := by
  rw [Int64.toInt_add, left, right]
  apply Int.bmod_eq_of_le_mul_two
  · omega
  · omega

theorem frames_dot (counted : c.frames.toNat = m / 89342)
    (fits : m / 89342 < 0xFFFFFFFFFFFFFFFF) :
    (c.dot (Ppu.dueAt (m + 1))).frames.toNat = (m + 1) / 89342 := by
  rw [Ppu.dueAt]
  by_cases blank : (m + 1) % 89342 = 82181
  · rw [if_pos blank, dot, counted]
    omega
  · rw [if_neg blank]
    by_cases last : (m + 1) % 89342 = 0
    · have one : (1 : UInt64).toNat = 1 := rfl
      rw [if_pos last, dot]
      dsimp only
      rw [UInt64.toNat_add, counted, one]
      omega
    · rw [if_neg last, dot, counted]
      omega

theorem dot_others (c : Counters) (event : Ppu.Event) :
    (c.dot event).cycles = c.cycles ∧ (c.dot event).nextStats = c.nextStats := by
  cases event <;> exact ⟨rfl, rfl⟩

/-- A report is due when the emulator makes one. -/
theorem count_exact (cycles : c.cycles.toInt = n)
    (due : c.nextStats.toInt = nextReport interval n)
    (fits : n + 1 + interval ≤ 0x7FFFFFFFFFFFFFFF) :
    (c.count interval).1 = decide (interval ≠ 0 ∧ interval ∣ n + 1) ∧
      (c.count interval).2.frames = c.frames ∧
      (c.count interval).2.cycles.toInt = (n + 1 : Nat) ∧
      (c.count interval).2.nextStats.toInt = nextReport interval (n + 1) := by
  have next : (c.cycles + 1).toInt = (n + 1 : Nat) := toInt_add_of_fits cycles rfl (by omega)
  have late : c.nextStats ≤ c.cycles + 1 ↔ nextReport interval n ≤ n + 1 := by
    rw [Int64.le_iff_toInt_le, due, next, Int.ofNat_le]
  simp only [count, late]
  by_cases off : interval = 0
  · simp [off, next, due, nextReport]
  · simp only [nextReport_le off]
    by_cases divides : interval ∣ n + 1
    · have reported := And.intro off divides
      have word : (Int64.ofNat interval).toInt = interval := Int64.toInt_ofNat_of_lt (by omega)
      have reached := (nextReport_le off).mpr divides
      rw [if_pos reported, nextReport_succ, if_pos divides]
      exact ⟨by simp [reported], rfl, next, toInt_add_of_fits due word (by omega)⟩
    · rw [if_neg (fun reported => divides reported.2), nextReport_succ, if_neg divides]
      exact ⟨by simp [divides], rfl, next, due⟩

theorem Stand.step {h : Hardware} (stand : Stand interval n c)
    (stands : Ppu.At (3 * n) h.bus.ppu.state) (fits : n + 1 + interval ≤ 0x7FFFFFFFFFFFFFFF) :
    (c.step interval h).1 = decide (interval ≠ 0 ∧ interval ∣ n + 1) ∧
      Stand interval (n + 1) (c.step interval h).2 := by
  obtain ⟨cycles, frames, due⟩ := stand
  have first : h.stepPpu.1 = _ := stands.step.1
  have second : (h.afterDots 1).stepPpu.1 = _ := (Hardware.at_afterDots stands 1).step.1
  have third : (h.afterDots 2).stepPpu.1 = _ := (Hardware.at_afterDots stands 2).step.1
  rw [Counters.step, first, second, third]
  have counted := frames_dot (frames_dot (frames_dot frames (by omega)) (by omega)) (by omega)
  obtain ⟨reports, same, next, due⟩ := @count_exact interval n
    (((c.dot _).dot _).dot _) (by simp only [dot_others, cycles])
    (by simp only [dot_others, due]) fits
  exact ⟨reports, next, (congrArg UInt64.toNat same).trans counted, due⟩

end Counters

theorem Played.counters {cartridge : Cartridge} {config : Config} {cache : Option (List UInt8)}
    {journal : Journal} (made : (ofCartridge cartridge config cache journal).1 = .ok first)
    (fits : taken.length + config.statsInterval ≤ 0x7FFFFFFFFFFFFFFF)
    (played : Played first taken e) :
    let interval := config.statsInterval
    let after := Counters.after interval taken
    after.1 = (List.range taken.length).map (fun k => decide (interval ≠ 0 ∧ interval ∣ k + 1)) ∧
      after.2.Stand interval taken.length := by
  induction played with
  | start =>
    have word : (Int64.ofNat config.statsInterval).toInt = config.statsInterval :=
      Int64.toInt_ofNat_of_lt (by omega)
    refine ⟨rfl, rfl, rfl, word.trans ?_⟩
    rw [nextReport, List.length_nil, Nat.zero_div, Nat.zero_add, Nat.mul_one]
  | @step taken e e' played ok ih =>
    rw [List.length_append, List.length_singleton] at fits ⊢
    obtain ⟨reports, stand⟩ := ih (by omega)
    have time := (played.kept made (by omega)).time
    obtain ⟨due, stand⟩ := stand.step time.stepped fits
    have added : Counters.after config.statsInterval (taken ++ [(e, e')]) =
        Counters.after.add config.statsInterval (Counters.after config.statsInterval taken)
          (e, e') :=
      List.foldl_concat _ _ _ _
    dsimp only
    rw [added, List.range_succ, List.map_append, ← reports]
    exact ⟨congrArg (_ ++ [·]) due, stand⟩
  | failed _ _ ih | hold _ _ _ ih | started _ ih | stopped _ ih | paused _ _ ih | otherUse _ _ ih =>
    exact ih fits

/-- As long as the next report is due within the range of a signed 64-bit number, counters of
64 bits are those of the emulator, and they call for a report when it makes one. -/
theorem counters_exact {cartridge : Cartridge} {config : Config} {cache : Option (List UInt8)}
    {journal : Journal} (made : (ofCartridge cartridge config cache journal).1 = .ok first)
    (played : Played first taken e)
    (fits : taken.length + config.statsInterval ≤ 0x7FFFFFFFFFFFFFFF) :
    let (reports, c) := Counters.after config.statsInterval taken
    c.cycles.toInt = e.totalCycles ∧ c.frames.toNat = e.frameCount ∧
      c.nextStats.toInt = e.nextStats ∧
      reports = (List.range taken.length).map
        fun k => decide (config.statsInterval ≠ 0 ∧ config.statsInterval ∣ k + 1) := by
  obtain ⟨reports, cycles, frames, due⟩ := played.counters made fits
  have time := (played.kept made (by omega)).time
  rw [← time.total] at cycles
  rw [← time.counted] at frames
  rw [← time.due] at due
  exact ⟨cycles, frames, due, reports⟩

end Emulator
end NesRoutine
