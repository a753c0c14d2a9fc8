import Mathlib.Algebra.BigOperators.Group.List.Basic
import Mathlib.Data.List.Nodup
import NesRoutine.Artifact.Wire

/-! What the parts of the binary format mean. A decoder codes for written forms
when it returns a value exactly if the input begins with a written form of it,
and takes the bytes and the room of that form. Decoders run one after another
code for written forms put together. -/
namespace NesRoutine.Artifact

theorem length_encodeNat (width n : Nat) : (encodeNat width n).length = width := by
  induction width generalizing n with
  | zero => rfl
  | succ width ih => rw [encodeNat, List.length_cons, ih]

namespace Decoder

theorem bind_ok {d : Decoder α} {k : α → Decoder β} {i j : Input} {v : β} :
    (d >>= k) i = .ok (v, j) ↔ ∃ a m, d i = .ok (a, m) ∧ k a m = .ok (v, j) := by
  change Except.bind (d i) (fun p => k p.1 p.2) = _ ↔ _
  cases d i with
  | error e => simp [Except.bind]
  | ok p => simp [Except.bind, Prod.ext_iff]

theorem pure_ok {a v : α} {i j : Input} :
    (pure a : Decoder α) i = .ok (v, j) ↔ a = v ∧ i = j := by
  change Except.ok (a, i) = .ok (v, j) ↔ _
  simp

theorem take_ok {i j : Input} :
    take i = .ok (b, j) ↔ i.bytes = b :: j.bytes ∧ i.room = j.room := by
  obtain ⟨bytes, room⟩ := i
  cases bytes with
  | nil => simp [take]
  | cons b' bytes =>
    cases j
    simp [take, and_assoc]

theorem reserve_ok {i j : Input} : reserve n i = .ok (done, j) ↔
    i.bytes = j.bytes ∧ i.room = n + j.room := by
  obtain ⟨bytes, room⟩ := i
  obtain ⟨bytes', room'⟩ := j
  by_cases short : room < n
  · simp [reserve, short]
    omega
  · simp [reserve, short]
    omega

theorem takeNat_ok {i j : Input} : takeNat width i = .ok (n, j) ↔
    n < 256 ^ width ∧ i.bytes = encodeNat width n ++ j.bytes ∧ i.room = j.room := by
  induction width generalizing i j n with
  | zero =>
    rw [takeNat, pure_ok]
    cases i
    cases j
    simp [encodeNat, eq_comm]
  | succ width ih =>
    simp only [takeNat, bind_ok, take_ok, ih, pure_ok, encodeNat, Nat.pow_succ]
    constructor
    · rintro ⟨b, m, ⟨bytes, room⟩, high, m', ⟨bound, bytes', room'⟩, rfl, rfl⟩
      have := b.toNat_lt
      have low : UInt8.ofNat (b.toNat + 256 * high) = b := by
        apply UInt8.toNat_inj.mp
        simp
      have up : (b.toNat + 256 * high) / 256 = high := by omega
      refine ⟨by omega, ?_, by omega⟩
      rw [low, up, bytes, bytes', List.cons_append]
    · rintro ⟨bound, bytes, room⟩
      refine ⟨UInt8.ofNat n, ⟨encodeNat width (n / 256) ++ j.bytes, j.room⟩, ⟨bytes, room⟩,
        n / 256, j, ⟨by omega, rfl, rfl⟩, ?_, rfl⟩
      rw [UInt8.toNat_ofNat']
      omega

/-- The decoder reads the values that `W` relates to bytes. A length has eight
bytes, and the room is below what these can count. -/
def Codes (d : Decoder α) (W : α → List UInt8 → Prop) : Prop :=
  ∀ (i : Input) (v : α) (j : Input), i.room < 2 ^ 64 →
    (d i = .ok (v, j) ↔
      ∃ bytes, W v bytes ∧ i.bytes = bytes ++ j.bytes ∧ i.room = bytes.length + j.room)

variable {d : Decoder α} {k : α → Decoder β} {W : α → List UInt8 → Prop}

/-- Only forms that the room can hold matter. -/
theorem Codes.congr_short {W' : α → List UInt8 → Prop} (codes : Codes d W)
    (same : ∀ v bytes, bytes.length < 2 ^ 64 → (W v bytes ↔ W' v bytes)) : Codes d W' := by
  intro i v j room
  rw [codes i v j room]
  refine exists_congr fun bytes => and_congr_left fun ⟨_, taken⟩ => ?_
  exact same v bytes (by omega)

theorem Codes.congr {W' : α → List UInt8 → Prop} (codes : Codes d W)
    (same : ∀ v bytes, W v bytes ↔ W' v bytes) : Codes d W' :=
  codes.congr_short fun v bytes _ => same v bytes

theorem codes_pure (a : α) : Codes (pure a) fun v bytes => a = v ∧ [] = bytes := by
  intro i v j _
  rw [pure_ok]
  cases i
  cases j
  simp

theorem codes_throw (e : FormatError) : Codes (throw e : Decoder α) fun _ _ => False := by
  intro i v j _
  change Except.error e = .ok (v, j) ↔ _
  simp

theorem Codes.bind {W' : α → List UInt8 → β → List UInt8 → Prop} (first : Codes d W)
    (rest : ∀ a x, W a x → Codes (k a) (W' a x)) :
    Codes (d >>= k) fun v bytes => ∃ a x y, W a x ∧ W' a x v y ∧ x ++ y = bytes := by
  intro i v j room
  rw [bind_ok]
  constructor
  · rintro ⟨a, m, read, read'⟩
    obtain ⟨x, written, bytes, taken⟩ := (first i a m room).mp read
    obtain ⟨y, written', bytes', taken'⟩ := (rest a x written m v j (by omega)).mp read'
    refine ⟨x ++ y, ⟨a, x, y, written, written', rfl⟩, ?_, ?_⟩
    · rw [bytes, bytes', List.append_assoc]
    · rw [List.length_append]
      omega
  · rintro ⟨_, ⟨a, x, y, written, written', rfl⟩, bytes, taken⟩
    rw [List.length_append] at taken
    refine ⟨a, ⟨y ++ j.bytes, y.length + j.room⟩, ?_, ?_⟩
    · rw [first _ _ _ room]
      exact ⟨x, written, by rw [bytes, List.append_assoc], by simp only; omega⟩
    · rw [rest a x written _ _ _ (by simp only; omega)]
      exact ⟨y, written', rfl, rfl⟩

section Fields

variable {encode : α → List UInt8} {encode' : γ → List UInt8} {encode'' : δ → List UInt8}
  {d' : Decoder γ} {d'' : Decoder δ}

theorem Codes.map (codes : Codes d (encode · = ·)) (f : α → β) :
    Codes (do return f (← d)) fun v bytes => ∃ a, f a = v ∧ encode a = bytes := by
  refine (codes.bind fun a _ _ => codes_pure (f a)).congr fun v bytes => ?_
  constructor
  · rintro ⟨a, _, _, rfl, ⟨rfl, rfl⟩, rfl⟩
    exact ⟨a, rfl, (List.append_nil _).symm⟩
  · rintro ⟨a, rfl, rfl⟩
    exact ⟨a, _, _, rfl, ⟨rfl, rfl⟩, List.append_nil _⟩

theorem Codes.map₂ (codes : Codes d (encode · = ·)) (codes' : Codes d' (encode' · = ·))
    (f : α → γ → β) : Codes (do return f (← d) (← d')) fun v bytes =>
      ∃ a b, f a b = v ∧ encode a ++ encode' b = bytes := by
  refine (codes.bind fun a _ _ => codes'.map (f a)).congr fun v bytes => ?_
  constructor
  · rintro ⟨a, _, _, rfl, ⟨b, rfl, rfl⟩, rfl⟩
    exact ⟨a, b, rfl, rfl⟩
  · rintro ⟨a, b, rfl, rfl⟩
    exact ⟨a, _, _, rfl, ⟨b, rfl, rfl⟩, rfl⟩

theorem Codes.map₃ (codes : Codes d (encode · = ·)) (codes' : Codes d' (encode' · = ·))
    (codes'' : Codes d'' (encode'' · = ·)) (f : α → γ → δ → β) :
    Codes (do return f (← d) (← d') (← d'')) fun v bytes =>
      ∃ a b c, f a b c = v ∧ encode a ++ encode' b ++ encode'' c = bytes := by
  refine (codes.bind fun a _ _ => codes'.map₂ codes'' (f a)).congr fun v bytes => ?_
  constructor
  · rintro ⟨a, _, _, rfl, ⟨b, c, rfl, rfl⟩, rfl⟩
    exact ⟨a, b, c, rfl, List.append_assoc _ _ _⟩
  · rintro ⟨a, b, c, rfl, rfl⟩
    exact ⟨a, _, _, rfl, ⟨b, c, rfl, rfl⟩, (List.append_assoc _ _ _).symm⟩

end Fields

/-- What is read first is a part of the value, and decides how to go on. -/
theorem Codes.choice {encode : β → List UInt8} (first : Codes d W) (part : β → α)
    (starts : ∀ v, ∃ x, W (part v) x ∧ x <+: encode v)
    (rest : ∀ a x, W a x → Codes (k a) fun v bytes => part v = a ∧ encode v = x ++ bytes) :
    Codes (d >>= k) (encode · = ·) := by
  refine (first.bind rest).congr ?_
  intro v bytes
  constructor
  · rintro ⟨a, x, y, _, ⟨_, whole⟩, rfl⟩
    exact whole
  · rintro rfl
    obtain ⟨x, written, y, whole⟩ := starts v
    exact ⟨part v, x, y, written, ⟨rfl, whole.symm⟩, whole⟩

theorem codes_nat (width : Nat) :
    Codes (nat width) fun n bytes => n < 256 ^ width ∧ encodeNat width n = bytes := by
  intro i n j room
  simp only [nat, bind_ok, reserve_ok, takeNat_ok]
  constructor
  · rintro ⟨_, m, ⟨bytes, room⟩, bound, bytes', room'⟩
    exact ⟨_, ⟨bound, rfl⟩, bytes ▸ bytes', by rw [length_encodeNat]; omega⟩
  · rintro ⟨_, ⟨bound, rfl⟩, bytes, room⟩
    rw [length_encodeNat] at room
    exact ⟨(), ⟨i.bytes, j.room⟩, ⟨rfl, room⟩, bound, bytes, rfl⟩

/-- A word that stands for a number is read as that number is. -/
theorem codes_word {toNat : α → Nat} {ofNat : Nat → α} (bound : ∀ v, toNat v < 256 ^ width)
    (ofNat_toNat : ∀ v, ofNat (toNat v) = v)
    (toNat_ofNat : ∀ n, toNat (ofNat n) = n % 256 ^ width) :
    Codes (do return ofNat (← nat width)) fun v bytes => encodeNat width (toNat v) = bytes := by
  refine (codes_nat width).choice toNat (fun v => ⟨_, ⟨bound v, rfl⟩, List.prefix_rfl⟩) ?_
  rintro n _ ⟨small, rfl⟩
  refine (codes_pure _).congr fun v bytes => ?_
  constructor
  · rintro ⟨rfl, rfl⟩
    simp [toNat_ofNat, Nat.mod_eq_of_lt small]
  · rintro ⟨rfl, whole⟩
    simpa [ofNat_toNat] using whole

theorem codes_u8 : Codes u8 (encodeU8 · = ·) :=
  codes_word UInt8.toNat_lt (fun _ => UInt8.ofNat_toNat) fun _ => UInt8.toNat_ofNat'

theorem codes_u16 : Codes u16 (encodeU16 · = ·) :=
  codes_word UInt16.toNat_lt (fun _ => UInt16.ofNat_toNat) fun _ => UInt16.toNat_ofNat'

theorem codes_u32 : Codes u32 (encodeU32 · = ·) :=
  codes_word UInt32.toNat_lt (fun _ => UInt32.ofNat_toNat) fun _ => UInt32.toNat_ofNat'

theorem codes_bool : Codes bool (encodeBool · = ·) := by
  refine codes_u8.choice (fun v => if v then 1 else 0) ?_ ?_
  · intro v
    cases v with
    | false => exact ⟨_, rfl, List.prefix_rfl⟩
    | true => exact ⟨_, rfl, List.prefix_rfl⟩
  · rintro b _ rfl
    split
    · refine (codes_pure _).congr fun v bytes => ?_
      cases v <;> simp [encodeBool, encodeU8, eq_comm]
    · refine (codes_pure _).congr fun v bytes => ?_
      cases v <;> simp [encodeBool, encodeU8, eq_comm]
    · refine (codes_throw _).congr fun v bytes => ?_
      cases v <;> simp_all [eq_comm]

theorem codes_option {encode : α → List UInt8} (codes : Codes d (encode · = ·)) :
    Codes (option d) (encodeOption encode · = ·) := by
  refine codes_u8.choice (fun v => if v.isSome then 1 else 0) ?_ ?_
  · intro v
    cases v with
    | none => exact ⟨_, rfl, List.prefix_rfl⟩
    | some a => exact ⟨_, rfl, List.prefix_append _ _⟩
  · rintro b _ rfl
    split
    · refine (codes_pure _).congr fun v bytes => ?_
      cases v <;> simp [encodeOption, encodeU8, eq_comm]
    · refine (codes.bind fun a _ _ => codes_pure (some a)).congr fun v bytes => ?_
      cases v <;> simp [encodeOption, encodeU8, eq_comm]
    · refine (codes_throw _).congr fun v bytes => ?_
      cases v <;> simp_all [eq_comm]

theorem codes_variant (few : count ≤ 256 ^ 4) :
    Codes (variant count) fun n bytes => n < count ∧ encodeVariant n = bytes := by
  have rest (n : Nat) (x : List UInt8) (_ : n < 256 ^ 4 ∧ encodeNat 4 n = x) :
      Codes (if n < count then pure n else throw (.invalidVariant n count))
        fun v bytes => n < count ∧ n = v ∧ [] = bytes := by
    split
    next known => exact (codes_pure n).congr fun v bytes => by simp [known]
    next unknown => exact (codes_throw _).congr fun v bytes => by simp [unknown]
  refine ((codes_nat 4).bind rest).congr fun n bytes => ?_
  constructor
  · rintro ⟨_, _, _, ⟨_, rfl⟩, ⟨known, rfl, rfl⟩, rfl⟩
    exact ⟨known, (List.append_nil _).symm⟩
  · rintro ⟨known, rfl⟩
    exact ⟨n, _, [], ⟨by omega, rfl⟩, ⟨known, rfl, rfl⟩, List.append_nil _⟩

theorem codes_oneOf {values : List α} {index : α → Nat} (few : values.length ≤ 256 ^ 4)
    (distinct : values.Nodup) (listed : ∀ v, values[index v]? = some v) :
    Codes (oneOf values) fun v bytes => encodeVariant (index v) = bytes := by
  have within v : index v < values.length := (List.getElem?_eq_some_iff.mp (listed v)).1
  refine (codes_nat 4).choice index
    (fun v => ⟨_, ⟨Nat.lt_of_lt_of_le (within v) few, rfl⟩, List.prefix_rfl⟩) ?_
  rintro n _ ⟨_, rfl⟩
  cases found : values[n]? with
  | none =>
    refine (codes_throw _).congr fun v bytes => ?_
    simp only [false_iff, not_and]
    rintro rfl
    simp [listed] at found
  | some value =>
    refine (codes_pure value).congr fun v bytes => ?_
    constructor
    · rintro ⟨rfl, rfl⟩
      have same :=
        (List.getElem?_inj (within value) distinct).mp ((listed value).trans found.symm)
      exact ⟨same, by simp [encodeVariant, same]⟩
    · rintro ⟨rfl, whole⟩
      rw [listed, Option.some_inj] at found
      exact ⟨found.symm, by simpa [encodeVariant] using whole⟩

theorem codes_repeatInto {encode : α → List UInt8} (codes : Codes d (encode · = ·)) (n : Nat)
    (done : List α) : Codes (repeatInto d n done) fun vs bytes =>
      ∃ more, more.length = n ∧ done.reverse ++ more = vs ∧ more.flatMap encode = bytes := by
  induction n generalizing done with
  | zero =>
    refine (codes_pure _).congr fun vs bytes => ?_
    simp
  | succ n ih =>
    refine (codes.bind fun a _ _ => ih (a :: done)).congr fun vs bytes => ?_
    constructor
    · rintro ⟨a, _, _, rfl, ⟨more, rfl, rfl, rfl⟩, rfl⟩
      exact ⟨a :: more, rfl, by simp, by simp⟩
    · rintro ⟨more, length, rfl, rfl⟩
      obtain ⟨a, more, rfl⟩ := List.exists_cons_of_length_eq_add_one length
      exact ⟨a, _, _, rfl, ⟨more, by simpa using length, by simp, rfl⟩, by simp⟩

theorem codes_list {encode : α → List UInt8} (codes : Codes d (encode · = ·))
    (nonempty : ∀ v, encode v ≠ []) : Codes (list d) (encodeList encode · = ·) := by
  refine ((codes_nat 8).bind fun n _ _ => codes_repeatInto codes n []).congr_short ?_
  intro vs bytes short
  constructor
  · rintro ⟨_, _, _, ⟨_, rfl⟩, ⟨more, rfl, rfl, rfl⟩, rfl⟩
    rfl
  · rintro rfl
    -- each value takes a byte, so that the length is below the room
    have length : vs.length ≤ (vs.flatMap encode).length := by
      rw [List.length_flatMap, ← List.length_map (fun v => (encode v).length)]
      refine List.length_le_sum_of_one_le _ ?_
      intro n member
      obtain ⟨v, _, rfl⟩ := List.mem_map.mp member
      exact List.length_pos_iff.mpr (nonempty v)
    simp only [encodeList, List.length_append, length_encodeNat] at short
    exact ⟨vs.length, _, _, ⟨by omega, rfl⟩, ⟨vs, rfl, rfl, rfl⟩, rfl⟩

end Decoder
end NesRoutine.Artifact
