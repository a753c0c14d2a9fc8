import NesRoutine.Proofs.Hardware

/-! The status byte as eight flags. What is done to the byte is told flag by flag,
and a byte is known once its flags are. -/
namespace NesRoutine

theorem Flag.exists_ctorIdx {i : Nat} (bound : i < 8) : ∃ f : Flag, f.ctorIdx = i := by
  have listed : ∀ i : Fin 8, (all.get i).ctorIdx = i := by decide
  exact ⟨_, listed ⟨i, bound⟩⟩

namespace Status

variable (s : Status) (f g : Flag)

theorem get_eq_testBit : s.get f = s.bits.toNat.testBit f.ctorIdx :=
  mask_bit s.bits f.mask (by cases f <;> rfl)

@[simp] theorem get_or (b c : UInt8) : get ⟨b ||| c⟩ f = (get ⟨b⟩ f || get ⟨c⟩ f) := by
  simp only [get_eq_testBit, UInt8.toNat_or, Nat.testBit_or]

@[simp] theorem get_and (b c : UInt8) : get ⟨b &&& c⟩ f = (get ⟨b⟩ f && get ⟨c⟩ f) := by
  simp only [get_eq_testBit, UInt8.toNat_and, Nat.testBit_and]

@[simp] theorem get_set (on : Bool) : (s.set f on).get g = if f = g then on else s.get g := by
  have mask : get ⟨f.mask⟩ g = decide (f = g) := by cases f <;> cases g <;> rfl
  have rest : get ⟨~~~f.mask⟩ g = !decide (f = g) := by cases f <;> cases g <;> rfl
  cases on with
  | true =>
    rw [set, if_pos rfl, get_or, mask]
    by_cases same : f = g <;> simp [same]
  | false =>
    rw [set, if_neg Bool.false_ne_true, get_and, rest]
    by_cases same : f = g <;> simp [same]

theorem ext_get {s t : Status} (same : ∀ f, s.get f = t.get f) : s = t := by
  obtain ⟨b⟩ := s
  obtain ⟨c⟩ := t
  refine congrArg mk (UInt8.toNat_inj.mp (Nat.eq_of_testBit_eq fun i => ?_))
  by_cases inside : i < 8
  · obtain ⟨f, rfl⟩ := Flag.exists_ctorIdx inside
    rw [← get_eq_testBit ⟨b⟩ f, ← get_eq_testBit ⟨c⟩ f, same f]
  · have beyond : 2 ^ 8 ≤ 2 ^ i := Nat.pow_le_pow_right (by decide) (by omega)
    rw [Nat.testBit_lt_two_pow (Nat.lt_of_lt_of_le b.toNat_lt beyond),
      Nat.testBit_lt_two_pow (Nat.lt_of_lt_of_le c.toNat_lt beyond)]

/-- The break bit of a byte taken from the stack is ignored, and the unused bit set. -/
theorem ofPopped_eq (b : UInt8) : ofPopped b = (set ⟨b⟩ .brk false).set .unused true := rfl

theorem pushedByHardware_eq : mk s.pushedByHardware = (s.set .unused true).set .brk false := rfl

theorem pushedBySoftware_eq : mk s.pushedBySoftware = (s.set .brk true).set .unused true :=
  congrArg mk (UInt8.or_assoc s.bits 0x10 0x20).symm

/-- Whoever pushed a status byte, what is restored from it is the same. -/
theorem ofPopped_pushed :
    ofPopped s.pushedByHardware = (s.set .brk false).set .unused true ∧
      ofPopped s.pushedBySoftware = (s.set .brk false).set .unused true := by
  simp only [ofPopped_eq, pushedByHardware_eq, pushedBySoftware_eq]
  constructor
  · exact ext_get fun f => by cases f <;> simp
  · exact ext_get fun f => by cases f <;> simp

end Status

namespace Hardware

variable (h : Hardware)

theorem flag_setFlag (f g : Flag) (on : Bool) :
    (h.setFlag f on).flag g = if f = g then on else h.flag g :=
  h.status.get_set f g on

theorem flag_setZeroNegative (v : UInt8) (f : Flag) :
    (h.setZeroNegative v).flag f =
      if f = .negative then decide (0x80 ≤ v) else if f = .zero then decide (v = 0)
      else h.flag f := by
  simp only [setZeroNegative, sign_bit, flag_setFlag]
  cases f <;> rfl

end Hardware
end NesRoutine
