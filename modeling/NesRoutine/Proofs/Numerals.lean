import Mathlib.Data.Nat.Digits.Lemmas
import NesRoutine.Proofs.Interpreter

/-! Numbers of several bytes, the lowest byte first, as they are and in two's complement.
Each is its lowest byte and 256 times the number that the other bytes are. -/
namespace NesRoutine

/-- The number that bytes are, the lowest byte first. -/
def littleEndian (bytes : List UInt8) : Nat := Nat.ofDigits 256 (bytes.map UInt8.toNat)

@[simp] theorem littleEndian_nil : littleEndian [] = 0 := rfl

@[simp] theorem littleEndian_cons (b : UInt8) (bytes : List UInt8) :
    littleEndian (b :: bytes) = b.toNat + 256 * littleEndian bytes :=
  Nat.ofDigits_cons

theorem littleEndian_append (low high : List UInt8) :
    littleEndian (low ++ high) = littleEndian low + 256 ^ low.length * littleEndian high := by
  simp [littleEndian, Nat.ofDigits_append]

theorem digits_lt (bytes : List UInt8) : ∀ d ∈ bytes.map UInt8.toNat, d < 256 := by
  intro d member
  obtain ⟨b, -, rfl⟩ := List.mem_map.mp member
  exact b.toNat_lt

theorem littleEndian_lt (bytes : List UInt8) : littleEndian bytes < 256 ^ bytes.length := by
  have bound := Nat.ofDigits_lt_base_pow_length (by decide) (digits_lt bytes)
  rwa [List.length_map] at bound

/-- As many bytes that are the same number are the same bytes. -/
theorem littleEndian_inj {bytes others : List UInt8} (length : bytes.length = others.length)
    (same : littleEndian bytes = littleEndian others) : bytes = others := by
  have digits := Nat.ofDigits_inj_of_len_eq (by decide) (by simpa using length) (digits_lt bytes)
    (digits_lt others) same
  exact List.map_injective_iff.mpr (fun _ _ => UInt8.toNat_inj.mp) digits

theorem littleEndian_complement (bytes : List UInt8) :
    littleEndian (bytes.map (~~~·)) + littleEndian bytes + 1 = 256 ^ bytes.length := by
  induction bytes with
  | nil => rfl
  | cons b bytes ih =>
    have byte : (~~~b).toNat + b.toNat = 255 := by
      have := b.toNat_lt
      simp
      omega
    simp only [List.map_cons, littleEndian_cons, List.length_cons, Nat.pow_succ]
    omega

/-- The number that bytes are in two's complement. -/
def twosComplement (bytes : List UInt8) : Int :=
  (littleEndian bytes : Int).bmod (256 ^ bytes.length)

/-- The number has a place among the signed numbers of `n` bytes. -/
def FitsIn (n : Nat) (z : Int) : Prop := -256 ^ n ≤ 2 * z ∧ 2 * z < 256 ^ n

theorem twosComplement_eq (bytes : List UInt8) :
    twosComplement bytes =
      if 2 * littleEndian bytes < 256 ^ bytes.length then (littleEndian bytes : Int)
      else littleEndian bytes - (256 ^ bytes.length : Nat) := by
  have bound := littleEndian_lt bytes
  rw [twosComplement, Int.bmod_def]
  generalize littleEndian bytes = value at *
  generalize 256 ^ bytes.length = size at *
  rw [Int.emod_eq_of_lt (by omega) (by omega)]
  split <;> split <;> omega

theorem twosComplement_singleton (b : UInt8) : twosComplement [b] = Interpreter.signed b := by
  have := b.toNat_lt
  simp only [twosComplement_eq, Interpreter.signed, UInt8.lt_iff_toNat_lt, littleEndian_cons,
    littleEndian_nil, List.length_singleton, UInt8.reduceToNat]
  split <;> split <;> omega

theorem pow_eq_double {n : Nat} (nonzero : n ≠ 0) : 256 ^ n = 2 * 2 ^ (8 * n - 1) := by
  have bits : 8 * n = 8 * n - 1 + 1 := by omega
  calc
    256 ^ n = 2 ^ (8 * n) := (Nat.pow_mul 2 8 n).symm
    _ = 2 * 2 ^ (8 * n - 1) := by rw [bits, Nat.pow_succ']; rfl

theorem testBit_top {n x : Nat} (nonzero : n ≠ 0) (bound : x < 256 ^ n) :
    x.testBit (8 * n - 1) = decide (2 ^ (8 * n - 1) ≤ x) := by
  rw [pow_eq_double nonzero, Nat.mul_comm] at bound
  have small := Nat.div_lt_of_lt_mul bound
  have reached := Nat.le_div_iff_mul_le (x := 1) (y := x) (Nat.two_pow_pos (8 * n - 1))
  rw [Nat.testBit_eq_decide_div_mod_eq, decide_eq_decide]
  generalize x / 2 ^ (8 * n - 1) = quotient at *
  omega

/-- Only the highest byte has a sign. -/
theorem twosComplement_cons (b : UInt8) {bytes : List UInt8} (nonempty : bytes ≠ []) :
    twosComplement (b :: bytes) = b.toNat + 256 * twosComplement bytes := by
  have := b.toNat_lt
  have size := pow_eq_double (List.length_pos_iff.mpr nonempty).ne'
  simp only [twosComplement_eq, littleEndian_cons, List.length_cons, Nat.pow_succ, size]
  split <;> split <;> omega

theorem twosComplement_complement {bytes : List UInt8} (nonempty : bytes ≠ []) :
    twosComplement (bytes.map (~~~·)) = -1 - twosComplement bytes := by
  have sum := littleEndian_complement bytes
  have size := pow_eq_double (List.length_pos_iff.mpr nonempty).ne'
  simp only [twosComplement_eq, List.length_map, size] at sum ⊢
  split <;> split <;> omega

theorem fitsIn_one (z : Int) : FitsIn 1 z ↔ Interpreter.overflows z = false := by
  simp only [FitsIn, Interpreter.overflows, decide_eq_false_iff_not]
  omega

/-- Whether a number fits is decided by its higher bytes. -/
theorem fitsIn_succ {n : Nat} (nonzero : n ≠ 0) (b : UInt8) (z : Int) :
    FitsIn (n + 1) (b.toNat + 256 * z) ↔ FitsIn n z := by
  have := b.toNat_lt
  have size : (256 : Int) ^ n = 2 * 2 ^ (8 * n - 1) := by exact_mod_cast pow_eq_double nonzero
  simp only [FitsIn, pow_succ, size]
  omega

end NesRoutine
