import Mathlib.Data.Int.ModEq
import NesRoutine.Proofs.Flags
import NesRoutine.Proofs.Numerals
import NesRoutine.Proofs.Site

/-! Sums and differences of numbers of many bytes. A column adds two bytes and a carry; a
chain of columns from the lowest byte to the highest adds the numbers. Subtraction adds the
complement, so its chains are chains of additions as well. -/
namespace NesRoutine

open Interpreter Interpreter.Machine

namespace Hardware

/-- Z and N describe the byte. -/
structure Describes (h : Hardware) (v : UInt8) : Prop where
  zero : h.flag .zero = decide (v = 0)
  negative : h.flag .negative = decide (0x80 ≤ v)

/-- A has been replaced by the sum of two bytes and a carry. -/
structure Summed (x m : UInt8) (carry : Bool) (h : Hardware) : Prop where
  total : (h.register .a).toNat + 256 * (h.flag .carry).toNat = x.toNat + m.toNat + carry.toNat
  overflow : h.flag .overflow = overflows (signed x + signed m + carry.toNat)
  describes : h.Describes (h.register .a)

theorem summed_add (h : Hardware) (m : UInt8) :
    Summed (h.register .a) m (h.flag .carry) (add m h).2 := by
  let a := h.register .a
  let c := (h.flag .carry).toNat
  let marked := (h.setFlag .carry (decide (0xFF < a.toNat + m.toNat + c))).setFlag .overflow
    (overflows (signed a + signed m + c))
  have flags (f : Flag) : (add m h).2.flag f =
      if f = .negative then decide (0x80 ≤ a + m + UInt8.ofNat c)
      else if f = .zero then decide (a + m + UInt8.ofNat c = 0) else marked.flag f := by
    have added : add m h = describe (a + m + UInt8.ofNat c) (marked.setRegister .a _) := rfl
    rw [added, describe_eq, flag_setZeroNegative]
    rfl
  constructor
  · have := a.toNat_lt
    have := m.toNat_lt
    have : c < 2 := (h.flag .carry).toNat_lt
    have sum : (add m h).2.register .a = a + m + UInt8.ofNat c := rfl
    have carry : (add m h).2.flag .carry = decide (0xFF < a.toNat + m.toNat + c) := by
      refine (flags .carry).trans ?_
      simp only [marked, flag_setFlag]
      rfl
    change _ = a.toNat + m.toNat + c
    rw [sum, carry, UInt8.toNat_add, UInt8.toNat_add, UInt8.toNat_ofNat']
    by_cases carries : 0xFF < a.toNat + m.toNat + c
    · rw [decide_eq_true carries, Bool.toNat_true]
      omega
    · rw [decide_eq_false carries, Bool.toNat_false]
      omega
  · refine (flags .overflow).trans ?_
    simp only [marked, flag_setFlag]
    rfl
  · exact ⟨flags .zero, flags .negative⟩

end Hardware

namespace Interpreter

/-- To read the operand concerns the bus alone. -/
theorem operand_cpu (i : Instruction) (h : Hardware) : (operand i h).2.cpu = h.cpu := by
  cases mode : i.mode <;> simp [operand, address, pointer, mode] <;> rfl

end Interpreter

namespace Site

/-- What is done here is to add to A what `f` makes of the operand. -/
def Adds (f : UInt8 → UInt8) (site : Site) : Prop :=
  ∃ es, site.code = es.map .effect ∧
    Effect.Realize es (do add (f (← operand site.instruction)))

theorem adds_adc {site : Site} (adc : site.instruction.mnemonic = .adc) : site.Adds id := by
  refine ⟨[.addWithCarry site.instruction.operand], ?_, ?_⟩
  · simp [code, Instruction.lowerBody, adc]
  · exact Effect.realize_add (Instruction.reads_operand _)

theorem adds_sbc {site : Site} (sbc : site.instruction.mnemonic = .sbc) :
    site.Adds (~~~·) := by
  refine ⟨[.complement site.instruction.operand .work, .addWithCarry .work], ?_, ?_⟩
  · simp [code, Instruction.lowerBody, sbc]
  · have realize := Effect.realize_subtract (Instruction.reads_operand site.instruction)
    simpa only [subtract_eq] using realize

theorem Adds.passes {f : UInt8 → UInt8} {site : Site} (adds : site.Adds f)
    (debugger : Option Debugger) (s : Run) : ∃ s', site.Passes debugger s s' := by
  obtain ⟨es, lowered, realize⟩ := adds
  obtain ⟨s', passes, _⟩ := exists_passes lowered realize debugger s
  exact ⟨s', passes⟩

theorem Adds.summed {f : UInt8 → UInt8} {site : Site} (adds : site.Adds f)
    (passes : site.Passes debugger s s') :
    Hardware.Summed (s.hardware.register .a) (f (operand site.instruction s.hardware).1)
      (s.hardware.flag .carry) s'.hardware := by
  obtain ⟨es, lowered, realize⟩ := adds
  have cpu := operand_cpu site.instruction s.hardware
  have summed := (operand site.instruction s.hardware).2.summed_add
    (f (operand site.instruction s.hardware).1)
  rw [passes.hardware lowered realize]
  simp only [Hardware.register, Hardware.flag, Hardware.status, cpu] at summed
  exact summed

end Site

/-- The lowest column leaves its result below the sum of the others. -/
theorem twosComplement_column {x m r : UInt8} {carry out : Bool} {xs ms : List UInt8}
    (column : r.toNat + 256 * out.toNat = x.toNat + m.toNat + carry.toNat) (more : xs ≠ [])
    (more' : ms ≠ []) :
    twosComplement (x :: xs) + twosComplement (m :: ms) + carry.toNat =
      r.toNat + 256 * (twosComplement xs + twosComplement ms + out.toNat) := by
  rw [twosComplement_cons x more, twosComplement_cons m more']
  omega

/-- A byte for A, and the code that is passed with it. -/
structure Link where
  x : UInt8
  site : Site

/-- The operand of a link, and what is left in A. -/
structure Column where
  operand : UInt8
  result : UInt8

/-- The code of the links is passed in turn, each with its byte in A. In between anything
may change but the carry. -/
inductive Chained (debugger : Option Debugger) : List Link → Run → List Column → Run → Prop where
  | nil {s} : Chained debugger [] s [] s
  | cons {link links s t t' columns s'} (loaded : t.hardware.register .a = link.x)
      (carried : t.hardware.flag .carry = s.hardware.flag .carry)
      (passes : link.site.Passes debugger t t') (rest : Chained debugger links t' columns s') :
      Chained debugger (link :: links) s
        (⟨(operand link.site.instruction t.hardware).1, t'.hardware.register .a⟩ :: columns) s'

namespace Chained

variable {debugger : Option Debugger} {links : List Link} {s s' : Run} {columns : List Column}
  {f : UInt8 → UInt8}

theorem exists_chained (adds : ∀ l ∈ links, l.site.Adds f) (s : Run) :
    ∃ columns s', Chained debugger links s columns s' := by
  induction links generalizing s with
  | nil => exact ⟨[], s, .nil⟩
  | cons link links ih =>
    let loaded : Run := { s with hardware := s.hardware.setRegister .a link.x }
    obtain ⟨first, others⟩ := List.forall_mem_cons.mp adds
    obtain ⟨t, passes⟩ := first.passes debugger loaded
    obtain ⟨columns, s', rest⟩ := ih others t
    exact ⟨_, s', .cons (t := loaded) rfl rfl passes rest⟩

theorem length_columns (chained : Chained debugger links s columns s') :
    columns.length = links.length := by
  induction chained with
  | nil => rfl
  | cons _ _ _ _ ih => exact congrArg (· + 1) ih

/-- Each carry that goes out of a column comes into the next. -/
theorem total (adds : ∀ l ∈ links, l.site.Adds f) (chained : Chained debugger links s columns s') :
    littleEndian (columns.map (·.result)) + 256 ^ links.length * (s'.hardware.flag .carry).toNat =
      littleEndian (links.map (·.x)) + littleEndian ((columns.map (·.operand)).map f) +
        (s.hardware.flag .carry).toNat := by
  induction chained with
  | nil => simp
  | cons loaded carried passes rest ih =>
    obtain ⟨first, others⟩ := List.forall_mem_cons.mp adds
    obtain ⟨column, -, -⟩ := first.summed passes
    have higher := ih others
    rw [loaded, carried] at column
    simp only [List.map_cons, littleEndian_cons, List.length_cons, Nat.pow_succ']
    rw [Nat.mul_assoc]
    omega

theorem overflow (adds : ∀ l ∈ links, l.site.Adds f) (chained : Chained debugger links s columns s')
    (nonempty : links ≠ []) :
    s'.hardware.flag .overflow = true ↔
      ¬ FitsIn links.length (twosComplement (links.map (·.x)) +
        twosComplement ((columns.map (·.operand)).map f) + (s.hardware.flag .carry).toNat) := by
  induction chained with
  | nil => exact absurd rfl nonempty
  | @cons link links s t t' columns s' loaded carried passes rest ih =>
    obtain ⟨first, others⟩ := List.forall_mem_cons.mp adds
    obtain ⟨column, overflow, -⟩ := first.summed passes
    rw [loaded, carried] at column overflow
    by_cases last : links = []
    · subst last
      cases rest
      simp only [List.length_singleton, List.map_cons, List.map_nil, twosComplement_singleton,
        fitsIn_one, overflow, Bool.not_eq_false]
    · have more : links.length ≠ 0 := List.length_eq_zero_iff.not.mpr last
      have xs : links.map (·.x) ≠ [] := by
        rw [← List.length_pos_iff, List.length_map]
        omega
      have ms : (columns.map (·.operand)).map f ≠ [] := by
        rw [← List.length_pos_iff, List.length_map, List.length_map, rest.length_columns]
        omega
      rw [List.map_cons, List.map_cons, List.map_cons, twosComplement_column column xs ms,
        List.length_cons, fitsIn_succ more]
      exact ih others last

/-- Z and N are those of the highest byte. -/
theorem describes (adds : ∀ l ∈ links, l.site.Adds f)
    (chained : Chained debugger links s columns s') (nonempty : links ≠ []) :
    ∃ last, (columns.map (·.result)).getLast? = some last ∧ s'.hardware.Describes last := by
  induction chained with
  | nil => exact absurd rfl nonempty
  | @cons link links s t t' columns s' loaded carried passes rest ih =>
    obtain ⟨first, others⟩ := List.forall_mem_cons.mp adds
    by_cases last : links = []
    · subst last
      cases rest
      exact ⟨_, rfl, (first.summed passes).describes⟩
    · obtain ⟨highest, found, described⟩ := ih others last
      refine ⟨highest, ?_, described⟩
      rw [List.map_cons, List.getLast?_cons, found]
      rfl

/-- What is added to subtract a number is one less than what the number lacks of a power
of 256. -/
theorem difference (adds : ∀ l ∈ links, l.site.Adds (~~~·))
    (chained : Chained debugger links s columns s') :
    ((littleEndian (columns.map (·.result)) : Nat) : Int) ≡ littleEndian (links.map (·.x)) -
        littleEndian (columns.map (·.operand)) - (1 - (s.hardware.flag .carry).toNat)
          [ZMOD 256 ^ links.length] ∧
      (s'.hardware.flag .carry = true ↔ littleEndian (columns.map (·.operand)) +
        (1 - (s.hardware.flag .carry).toNat) ≤ littleEndian (links.map (·.x))) := by
  have total := chained.total adds
  have complement := littleEndian_complement (columns.map (·.operand))
  have bound := littleEndian_lt (columns.map (·.result))
  have carry := (s.hardware.flag .carry).toNat_le
  rw [List.length_map, chained.length_columns] at complement bound
  constructor
  · rw [Int.modEq_iff_dvd]
    refine ⟨(s'.hardware.flag .carry).toNat - 1, ?_⟩
    rw [mul_sub, mul_one]
    zify at total complement
    omega
  · cases out : s'.hardware.flag .carry with
    | false =>
      rw [out, Bool.toNat_false] at total
      simp only [Bool.false_eq_true, false_iff]
      omega
    | true =>
      rw [out, Bool.toNat_true] at total
      simp only [true_iff]
      omega

theorem difference_overflow (adds : ∀ l ∈ links, l.site.Adds (~~~·))
    (chained : Chained debugger links s columns s') (nonempty : links ≠ []) :
    s'.hardware.flag .overflow = true ↔
      ¬ FitsIn links.length (twosComplement (links.map (·.x)) -
        twosComplement (columns.map (·.operand)) - (1 - (s.hardware.flag .carry).toNat)) := by
  have ys : columns.map (·.operand) ≠ [] := by
    rw [← List.length_pos_iff, List.length_map, chained.length_columns]
    exact List.length_pos_iff.mpr nonempty
  rw [chained.overflow adds nonempty, twosComplement_complement ys]
  have same (x y c : Int) : x + (-1 - y) + c = x - y - (1 - c) := by omega
  rw [same]

end Chained

/-- A chain of additions adds numbers of any length, with a carry in and out, and a chain of
subtractions subtracts them, with a borrow; V tells whether the signed result has no place
in as many bytes. -/
theorem carry_chains (debugger : Option Debugger) (links : List Link) (s : Run)
    (nonempty : links ≠ []) :
    let n := links.length
    let c := (s.hardware.flag .carry).toNat
    let X := links.map (·.x)
    ((∀ l ∈ links, l.site.instruction.mnemonic = .adc) →
      (∃ columns s', Chained debugger links s columns s') ∧
      ∀ columns s', Chained debugger links s columns s' →
        let Y := columns.map (·.operand)
        let R := columns.map (·.result)
        R.length = n ∧
        littleEndian R + 256 ^ n * (s'.hardware.flag .carry).toNat =
          littleEndian X + littleEndian Y + c ∧
        (s'.hardware.flag .overflow = true ↔
          ¬ FitsIn n (twosComplement X + twosComplement Y + c)) ∧
        ∃ last, R.getLast? = some last ∧ s'.hardware.Describes last) ∧
    ((∀ l ∈ links, l.site.instruction.mnemonic = .sbc) →
      (∃ columns s', Chained debugger links s columns s') ∧
      ∀ columns s', Chained debugger links s columns s' →
        let Y := columns.map (·.operand)
        let R := columns.map (·.result)
        R.length = n ∧
        (littleEndian R : Int) ≡ littleEndian X - littleEndian Y - (1 - c) [ZMOD 256 ^ n] ∧
        (s'.hardware.flag .carry = true ↔ littleEndian Y + (1 - c) ≤ littleEndian X) ∧
        (s'.hardware.flag .overflow = true ↔
          ¬ FitsIn n (twosComplement X - twosComplement Y - (1 - c))) ∧
        ∃ last, R.getLast? = some last ∧ s'.hardware.Describes last) := by
  intro n c X
  constructor
  · intro additions
    have adds : ∀ l ∈ links, l.site.Adds id := fun l member => Site.adds_adc (additions l member)
    refine ⟨Chained.exists_chained adds s, ?_⟩
    intro columns s' chained Y R
    have length : R.length = n := (List.length_map _).trans chained.length_columns
    have total := chained.total adds
    have overflow := chained.overflow adds nonempty
    rw [List.map_id] at total overflow
    exact ⟨length, total, overflow, chained.describes adds nonempty⟩
  · intro subtractions
    have adds : ∀ l ∈ links, l.site.Adds (~~~·) :=
      fun l member => Site.adds_sbc (subtractions l member)
    refine ⟨Chained.exists_chained adds s, ?_⟩
    intro columns s' chained Y R
    have length : R.length = n := (List.length_map _).trans chained.length_columns
    obtain ⟨difference, borrow⟩ := chained.difference adds
    exact ⟨length, difference, borrow, chained.difference_overflow adds nonempty,
      chained.describes adds nonempty⟩

/-- The least signed number of two bytes, less one, in a compiled routine and with D set:
a borrow goes from the first byte to the second, and the difference has no place. -/
theorem carry_chains_borrowed :
    ∃ r, Routine.discover [⟨0x8000, #[0xE9, 0x01, 0xE9, 0x00, 0x60]⟩] 0x8000 = .ok r ∧
      ∃ u, CodeUnit.generate (fun _ => none) 0x8000 r.lower = .ok u ∧
        ∃ low high : Site, low.unit = u ∧ high.unit = u ∧
          let h := (({} : Hardware).setFlag .carry true).setFlag .decimal true
          ∃ columns s', Chained none [⟨0x00, low⟩, ⟨0x80, high⟩] { hardware := h } columns s' ∧
            columns.map (·.operand) = [1, 0] ∧ littleEndian (columns.map (·.result)) = 0x7FFF ∧
            s'.hardware.flag .carry = true ∧ s'.hardware.flag .overflow = true := by
  let regions : List CodeRegion := [⟨0x8000, #[0xE9, 0x01, 0xE9, 0x00, 0x60]⟩]
  let subtract (a : UInt16) (v : UInt8) : Instruction := {
    address := a, opcode := 0xE9, mnemonic := .sbc, mode := .immediate, operand1 := some v
    operand2 := none, target := none, isBranch := false, cycles := 2 }
  have first : decodeAt regions 0x8000 = .ok (subtract 0x8000 1) := by decide +kernel
  have second : decodeAt regions 0x8002 = .ok (subtract 0x8002 0) := by decide +kernel
  obtain ⟨r, u, discovered, generated, exact, linked⟩ :=
    @Routine.exists_linked regions 0x8000 (by decide +kernel)
  let low := linked.site ((exact.mem_iff _).mpr ⟨_, .entry, first⟩)
  let high := linked.site ((exact.mem_iff _).mpr ⟨_, .next .entry first rfl, second⟩)
  refine ⟨r, discovered, u, generated, low, high, rfl, rfl, ?_⟩
  intro h
  have subtractions : ∀ l ∈ [Link.mk 0x00 low, ⟨0x80, high⟩],
      l.site.instruction.mnemonic = .sbc := by
    simp only [List.mem_cons, List.not_mem_nil, or_false, forall_eq_or_imp, forall_eq]
    exact ⟨rfl, rfl⟩
  obtain ⟨⟨columns, s', chained⟩, all⟩ :=
    (carry_chains none [⟨0x00, low⟩, ⟨0x80, high⟩] { hardware := h } (by simp)).2 subtractions
  obtain ⟨length, difference, borrow, overflow, -⟩ := all columns s' chained
  have operands : columns.map (·.operand) = [1, 0] := by
    cases chained with
    | cons _ _ _ rest =>
      cases rest with
      | cons _ _ _ rest =>
        cases rest
        rfl
  have carry : h.flag .carry = true := by decide
  have bound := littleEndian_lt (columns.map (·.result))
  rw [operands] at difference borrow overflow
  refine ⟨columns, s', chained, operands, ?_, ?_, ?_⟩
  · rw [length] at bound
    simp [carry, Int.modEq_iff_dvd] at difference bound
    omega
  · rw [borrow]
    simp [carry]
  · rw [overflow]
    simp [carry, FitsIn, twosComplement_eq]

end NesRoutine
