import Mathlib.Data.Nat.Bitwise
import NesRoutine.Checksum

/-! Which changes the checksum notices. The register of the checksum is a polynomial
over the field of two elements, and a shift multiplies it by `x`, modulo the polynomial
of the checksum. Shifts are linear and lose nothing, so a byte that is changed once leaves
a trace in the register that no number of further bytes removes. A byte that is changed
twice leaves the sum of two traces; that these do not cancel depends on how far apart the
two places are. -/
namespace NesRoutine.Checksum

/-- A coefficient of the register; the highest bit is that of `1`. -/
def bit (c : UInt32) (i : Nat) : Bool := c.toBitVec.getLsbD i

theorem ext_bit {a b : UInt32} (same : ∀ i < 32, bit a i = bit b i) : a = b :=
  UInt32.toBitVec_inj.mp (BitVec.eq_of_getLsbD_eq same)

theorem bit_xor (a b : UInt32) (i : Nat) : bit (a ^^^ b) i = (bit a i ^^ bit b i) := by
  rw [bit, UInt32.toBitVec_xor, BitVec.getLsbD_xor, bit, bit]

theorem bit_zero (i : Nat) : bit 0 i = false := BitVec.getLsbD_zero

theorem bit_above (c : UInt32) {i : Nat} (above : 32 ≤ i) : bit c i = false :=
  BitVec.getLsbD_of_ge _ _ above

/-- The bit that falls out of the register decides whether the polynomial is added. -/
theorem bit_shift (c : UInt32) (i : Nat) :
    bit (shift c) i = (bit c (i + 1) ^^ (bit c 0 && bit polynomial i)) := by
  have moved : bit (c >>> 1) i = bit c (i + 1) := by
    rw [Nat.add_comm]
    exact BitVec.getLsbD_ushiftRight c.toBitVec 1 i
  have low : c &&& 1 = 1 ↔ bit c 0 = true := by
    have masked : (c &&& 1).toBitVec = (BitVec.ofBool (bit c 0)).setWidth 32 :=
      BitVec.and_one_eq_setWidth_ofBool_getLsbD
    rw [← UInt32.toBitVec_inj, masked]
    cases bit c 0 <;> decide
  rw [shift]
  split
  next set => rw [low.mp set, Bool.true_and, bit_xor, moved]
  next clear =>
    have clear : bit c 0 = false := by simpa [low] using clear
    rw [clear, Bool.false_and, Bool.xor_false, moved]

theorem shift_xor (a b : UInt32) : shift (a ^^^ b) = shift a ^^^ shift b := by
  apply ext_bit
  intro i _
  simp only [bit_xor, bit_shift]
  generalize bit a (i + 1) = a', bit b (i + 1) = b', bit polynomial i = p
  cases bit a 0 <;> cases bit b 0 <;> cases p <;> simp

theorem eq_zero_of_shift {c : UInt32} (gone : shift c = 0) : c = 0 := by
  have gone (i : Nat) : bit (shift c) i = false := by
    rw [gone, bit_zero]
  have clear : bit c 0 = false := by
    -- only the polynomial can set the highest bit, so it was not added
    have last := gone 31
    rw [bit_shift, bit_above c (Nat.le_refl 32), Bool.false_xor] at last
    have set : bit polynomial 31 = true := by decide
    rwa [set, Bool.and_true] at last
  apply ext_bit
  intro i _
  rw [bit_zero]
  cases i with
  | zero => exact clear
  | succ i => simpa [bit_shift, clear] using gone i

theorem eq_zero_of_xor_eq {c d : UInt32} (same : c = c ^^^ d) : d = 0 := by
  have none : c ^^^ 0 = c ^^^ d := by rwa [UInt32.xor_zero]
  exact ((UInt32.xor_right_inj c).mp none).symm

theorem iterate_xor (n : Nat) (a b : UInt32) :
    shift^[n] (a ^^^ b) = shift^[n] a ^^^ shift^[n] b := by
  induction n with
  | zero => rfl
  | succ n ih => simp only [Function.iterate_succ_apply', ih, shift_xor]

theorem eq_zero_of_iterate {n : Nat} {c : UInt32} (gone : shift^[n] c = 0) : c = 0 := by
  induction n with
  | zero => exact gone
  | succ n ih =>
    rw [Function.iterate_succ_apply'] at gone
    exact ih (eq_zero_of_shift gone)

section Products

/-- The polynomial `1`. -/
def one : UInt32 := 0x80000000

/-- The product of `b` with the `n` lowest terms of `a`. -/
def product : Nat → UInt32 → UInt32 → UInt32
  | 0, _, _ => 0
  | n + 1, a, b => (if bit a 31 then b else 0) ^^^ shift (product n (a <<< 1) b)

theorem product_shift (n : Nat) (a b : UInt32) :
    product n a (shift b) = shift (product n a b) := by
  induction n generalizing a with
  | zero =>
    rw [product, product]
    decide
  | succ n ih =>
    rw [product, product, ih, shift_xor]
    split
    · rfl
    · rfl

theorem product_iterate (n k : Nat) (a b : UInt32) :
    product n a (shift^[k] b) = shift^[k] (product n a b) := by
  induction k with
  | zero => rfl
  | succ k ih =>
    rw [Function.iterate_succ_apply', Function.iterate_succ_apply', product_shift, ih]

theorem product_xor (n : Nat) (a b b' : UInt32) :
    product n a (b ^^^ b') = product n a b ^^^ product n a b' := by
  induction n generalizing a with
  | zero => simp only [product, UInt32.xor_self]
  | succ n ih =>
    rw [product, product, product, ih, shift_xor]
    split
    · ac_rfl
    · simp only [UInt32.zero_xor]

theorem product_zero (n : Nat) (a : UInt32) : product n a 0 = 0 := by
  have twice := product_xor n a 0 0
  rwa [UInt32.xor_self, UInt32.xor_self] at twice

/-- Multiplying by `a` and by `b` can be done in either order. -/
theorem product_product (n m : Nat) (a b c : UInt32) :
    product n a (product m b c) = product m b (product n a c) := by
  induction n generalizing a with
  | zero => rw [product, product, product_zero]
  | succ n ih =>
    rw [product, product, ih, product_xor, product_shift]
    split
    · rfl
    · rw [product_zero]

theorem bit_one (i : Nat) : bit one i = decide (i = 31) := by
  have power : one.toBitVec = BitVec.twoPow 32 31 := rfl
  rw [bit, power, BitVec.getLsbD_twoPow]
  simp [eq_comm]

theorem bit_double (a : UInt32) (i : Nat) :
    bit (a <<< 1) (i + 1) = (decide (i + 1 < 32) && bit a i) := by
  have moved : bit (a <<< 1) (i + 1) =
      (decide (i + 1 < 32) && !decide (i + 1 < 1) && bit a (i + 1 - 1)) :=
    BitVec.getLsbD_shiftLeft a.toBitVec 1
  simpa using moved

/-- The lowest terms of a polynomial, which are its highest bits. -/
theorem bit_product_one {n : Nat} (few : n ≤ 32) (a : UInt32) (i : Nat) :
    bit (product n a one) i = (decide (32 ≤ i + n) && bit a i) := by
  induction n generalizing a i with
  | zero =>
    rw [product, bit_zero]
    by_cases above : 32 ≤ i
    · rw [bit_above a above, Bool.and_false]
    · rw [Nat.add_zero, decide_eq_false above, Bool.false_and]
  | succ n ih =>
    have lower := ih (Nat.le_of_succ_le few) (a <<< 1)
    have clear : bit (product n (a <<< 1) one) 0 = false := by
      rw [lower, Nat.zero_add, decide_eq_false (Nat.not_le.mpr few), Bool.false_and]
    have head : bit (if bit a 31 then one else 0) i = (decide (i = 31) && bit a i) := by
      by_cases top : i = 31
      · subst top
        cases bit a 31 <;> decide
      · split
        · rw [bit_one, decide_eq_false top, Bool.false_and]
        · rw [bit_zero, decide_eq_false top, Bool.false_and]
    rw [product, bit_xor, head, bit_shift, clear, Bool.false_and, Bool.xor_false, lower,
      bit_double, Nat.add_right_comm i 1 n]
    by_cases top : i = 31
    · simp [top]
      omega
    · by_cases below : i + 1 < 32
      · simp [top, below, Nat.add_assoc]
      · simp [top, below, bit_above a (by omega : 32 ≤ i)]

theorem product_one (a : UInt32) : product 32 a one = a := by
  apply ext_bit
  intro i _
  rw [bit_product_one (Nat.le_refl 32), decide_eq_true (Nat.le_add_left 32 i), Bool.true_and]

/-- `k` shifts multiply by the `k`-th power of `x`. -/
theorem iterate_eq_product (k : Nat) (c : UInt32) :
    shift^[k] c = product 32 c (shift^[k] one) := by
  rw [product_iterate, product_one]

theorem iterate_two_pow (k : Nat) :
    shift^[2 ^ k] one = (fun power => product 32 power power)^[k] (shift one) := by
  induction k with
  | zero => rfl
  | succ k ih =>
    rw [Function.iterate_succ_apply', ← ih, ← iterate_eq_product, ← Function.iterate_add_apply,
      Nat.pow_succ, Nat.mul_two]

/-- The power of `x` for a distance of one bank and the base address before it. -/
theorem iterate_bank : shift^[8 * 16386] one = 0x1BFCF7B4 := by
  have sum : 8 * 16386 = 2 ^ 4 + 2 ^ 17 := by decide
  rw [sum, Function.iterate_add_apply, iterate_eq_product, iterate_two_pow, iterate_two_pow]
  decide +kernel

/-- At this distance no trace cancels itself: `x ^ 131088 + 1` has an inverse. -/
theorem eq_zero_of_iterate_bank {c : UInt32} (same : shift^[8 * 16386] c = c) : c = 0 := by
  have inverse : product 32 0xBC2FC329 (0x1BFCF7B4 ^^^ one) = one := by decide +kernel
  have cancelled : product 32 c (0x1BFCF7B4 ^^^ one) = 0 := by
    rw [product_xor, product_one, ← iterate_bank, ← iterate_eq_product, same, UInt32.xor_self]
  calc
    c = product 32 c one := (product_one c).symm
    _ = product 32 c (product 32 0xBC2FC329 (0x1BFCF7B4 ^^^ one)) := by rw [inverse]
    _ = product 32 0xBC2FC329 (product 32 c (0x1BFCF7B4 ^^^ one)) := product_product _ _ _ _ _
    _ = 0 := by rw [cancelled, product_zero]

end Products

section Bytes

/-- What was in the register besides is shifted along. -/
theorem update_xor (c d : UInt32) (b : UInt8) : update (c ^^^ d) b = update c b ^^^ shift^[8] d := by
  have moved : c ^^^ d ^^^ b.toUInt32 = c ^^^ b.toUInt32 ^^^ d := by ac_rfl
  have shifted (c : UInt32) : update c b = shift^[8] (c ^^^ b.toUInt32) := rfl
  rw [shifted, shifted, moved, iterate_xor]

theorem foldl_update_xor (bytes : List UInt8) (c d : UInt32) :
    bytes.foldl update (c ^^^ d) = bytes.foldl update c ^^^ shift^[8 * bytes.length] d := by
  induction bytes generalizing c d with
  | nil => rfl
  | cons b bytes ih =>
    rw [List.foldl_cons, update_xor, ih, ← Function.iterate_add_apply, List.foldl_cons,
      List.length_cons, Nat.mul_succ]

/-- A changed byte leaves a trace of its own, whatever is in the register. -/
theorem update_changed (c : UInt32) (b b' : UInt8) :
    update c b' = update c b ^^^ shift^[8] (b ^^^ b').toUInt32 := by
  have trace : c ^^^ b'.toUInt32 = c ^^^ b.toUInt32 ^^^ (b ^^^ b').toUInt32 := by
    rw [UInt8.toUInt32_xor, UInt32.xor_assoc, ← UInt32.xor_assoc b.toUInt32, UInt32.xor_self,
      UInt32.zero_xor]
  have shifted (b : UInt8) : update c b = shift^[8] (c ^^^ b.toUInt32) := rfl
  rw [shifted, shifted, trace, iterate_xor]

theorem updateRegion_xor (c d : UInt32) (r : CodeRegion) :
    updateRegion (c ^^^ d) r = updateRegion c r ^^^ shift^[8 * (r.bytes.size + 2)] d := by
  simp only [updateRegion, update_xor, ← Array.foldl_toList, foldl_update_xor,
    ← Function.iterate_add_apply, Array.length_toList]
  rfl

end Bytes

/-- The two images have the same size and differ in exactly one byte. -/
def OneByteApart (p q : Array UInt8) : Prop := p.size = q.size ∧ ∃! i : Nat, p[i]? ≠ q[i]?

theorem OneByteApart.split {p q : Array UInt8} (apart : OneByteApart p q) :
    ∃ before b b' after, b ≠ b' ∧ p.toList = before ++ b :: after ∧
      q.toList = before ++ b' :: after := by
  obtain ⟨size, i, differs, only⟩ := apart
  have inside : i < p.size := by
    by_contra outside
    apply differs
    rw [Array.getElem?_eq_none (by omega), Array.getElem?_eq_none (by omega)]
  have inside' : i < q.size := size ▸ inside
  have patched : q.toList = p.toList.set i q[i] := by
    apply List.ext_getElem?
    intro k
    rw [List.getElem?_set, Array.getElem?_toList, Array.getElem?_toList, Array.length_toList]
    by_cases here : i = k
    · subst here
      rw [if_pos rfl, if_pos inside, Array.getElem?_eq_getElem inside']
    · rw [if_neg here]
      by_contra differs
      exact here (only k (Ne.symm differs)).symm
  have bounded : i < p.toList.length := inside
  have whole := List.take_append_drop i p.toList
  rw [List.drop_eq_getElem_cons bounded] at whole
  refine ⟨p.toList.take i, p[i], q[i], p.toList.drop (i + 1), ?_, ?_, ?_⟩
  · intro same
    apply differs
    rw [Array.getElem?_eq_getElem inside, Array.getElem?_eq_getElem inside', same]
  · exact whole.symm
  · rw [patched, List.set_eq_take_append_cons_drop, if_pos bounded]

/-- A byte that is changed in a region leaves a trace that does not depend on what came
before. -/
theorem OneByteApart.trace {p q : Array UInt8} (apart : OneByteApart p q) :
    ∃ d, d ≠ 0 ∧ ∀ (c : UInt32) (base : UInt16),
      updateRegion c ⟨base, q⟩ = updateRegion c ⟨base, p⟩ ^^^ d := by
  obtain ⟨before, b, b', after, changed, hp, hq⟩ := apart.split
  refine ⟨shift^[8 * after.length] (shift^[8] (b ^^^ b').toUInt32), ?_, ?_⟩
  · intro gone
    have byte : (b ^^^ b').toUInt32 = (0 : UInt8).toUInt32 :=
      eq_zero_of_iterate (eq_zero_of_iterate gone)
    exact changed (UInt8.xor_eq_zero_iff.mp (UInt8.toUInt32_inj.mp byte))
  · intro c base
    simp only [updateRegion, ← Array.foldl_toList, hp, hq, List.foldl_append, List.foldl_cons]
    rw [update_changed _ b b', foldl_update_xor]

end NesRoutine.Checksum
