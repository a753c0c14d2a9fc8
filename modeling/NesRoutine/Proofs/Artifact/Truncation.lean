import NesRoutine.Compiler.Cache
import NesRoutine.Proofs.Artifact.Code

/-! What is cut off is not taken for something shorter. A decoder that has not come to
the end of its input goes the same way when more bytes stand there, so a written form
of which bytes are missing can only be found to end too early. -/
namespace NesRoutine.Artifact

/-- The input with more bytes at its end. -/
def Input.extend (i : Input) (more : List UInt8) : Input := { i with bytes := i.bytes ++ more }

namespace Decoder

/-- Unless it comes to the end of its input, the decoder answers the same with more
bytes there, and leaves these. -/
def Stable (d : Decoder α) : Prop :=
  ∀ (i : Input) (more : List UInt8),
    match d i with
    | .ok (v, j) => d (i.extend more) = .ok (v, j.extend more)
    | .error e => e = .ended false ∨ d (i.extend more) = .error e

variable {d : Decoder α} {k : α → Decoder β}

theorem stable_pure (a : α) : Stable (pure a) := fun _ _ => rfl

theorem stable_throw (e : FormatError) : Stable (throw e : Decoder α) := fun _ _ => .inr rfl

theorem Stable.bind (first : Stable d) (rest : ∀ a, Stable (k a)) : Stable (d >>= k) := by
  intro i more
  have start := first i more
  have sequence (i : Input) : (d >>= k) i = Except.bind (d i) (fun p => k p.1 p.2) := rfl
  rw [sequence, sequence]
  cases read : d i with
  | error e =>
    rw [read] at start
    rcases start with ended | same
    · exact .inl ended
    · rw [same]
      exact .inr rfl
  | ok p =>
    rw [read] at start
    rw [start]
    exact rest p.1 p.2 more

theorem stable_reserve (n : Nat) : Stable (reserve n) := by
  intro i more
  by_cases short : i.room < n
  · simp [reserve, Input.extend, short]
  · simp [reserve, Input.extend, short]

theorem stable_take : Stable take := by
  intro i more
  obtain ⟨bytes, room⟩ := i
  cases bytes with
  | nil => exact .inl rfl
  | cons b bytes => rfl

theorem stable_takeNat (width : Nat) : Stable (takeNat width) := by
  induction width with
  | zero => exact stable_pure 0
  | succ width ih => exact stable_take.bind fun _ => ih.bind fun _ => stable_pure _

theorem stable_nat (width : Nat) : Stable (nat width) :=
  (stable_reserve width).bind fun _ => stable_takeNat width

theorem stable_u8 : Stable u8 := (stable_nat 1).bind fun _ => stable_pure _

theorem stable_u16 : Stable u16 := (stable_nat 2).bind fun _ => stable_pure _

theorem stable_u32 : Stable u32 := (stable_nat 4).bind fun _ => stable_pure _

theorem stable_bool : Stable bool := by
  refine stable_u8.bind fun b => ?_
  split
  · exact stable_pure _
  · exact stable_pure _
  · exact stable_throw _

theorem stable_option (stable : Stable d) : Stable (option d) := by
  refine stable_u8.bind fun b => ?_
  split
  · exact stable_pure _
  · exact stable.bind fun _ => stable_pure _
  · exact stable_throw _

theorem stable_variant (count : Nat) : Stable (variant count) := by
  refine (stable_nat 4).bind fun n => ?_
  split
  · exact stable_pure _
  · exact stable_throw _

theorem stable_oneOf (values : List α) : Stable (oneOf values) := by
  refine (stable_nat 4).bind fun n => ?_
  split
  · exact stable_pure _
  · exact stable_throw _

theorem stable_repeatInto (stable : Stable d) (n : Nat) (done : List α) :
    Stable (repeatInto d n done) := by
  induction n generalizing done with
  | zero => exact stable_pure _
  | succ n ih => exact stable.bind fun _ => ih _

theorem stable_list (stable : Stable d) : Stable (list d) :=
  (stable_nat 8).bind fun n => stable_repeatInto stable n []

end Decoder

open Decoder

theorem stable_value : Stable decodeValue := by
  have indexed : Stable (option decodeRegister) := stable_option (stable_oneOf _)
  refine (stable_variant 7).bind fun n => ?_
  split
  · exact stable_u8.bind fun _ => stable_pure _
  · exact (stable_oneOf _).bind fun _ => stable_pure _
  · exact (stable_oneOf _).bind fun _ => stable_pure _
  · exact stable_pure _
  · exact stable_u16.bind fun _ => indexed.bind fun _ => stable_bool.bind fun _ => stable_pure _
  · exact stable_u8.bind fun _ => indexed.bind fun _ => stable_bool.bind fun _ => stable_pure _
  · exact stable_u8.bind fun _ => stable_pure _

theorem stable_label : Stable decodeLabel := by
  refine (stable_variant 2).bind fun n => ?_
  split
  · exact stable_u16.bind fun _ => stable_pure _
  · exact stable_u16.bind fun _ => stable_u8.bind fun _ => stable_pure _

theorem stable_fields (kind : MicroOp.Kind) : Stable (decodeFields kind) := by
  have one (make : Value → MicroOp) : Stable (do return make (← decodeValue)) :=
    stable_value.bind fun _ => stable_pure _
  have two (make : Value → Value → MicroOp) :
      Stable (do return make (← decodeValue) (← decodeValue)) :=
    stable_value.bind fun _ => one _
  have word (make : UInt16 → MicroOp) : Stable (do return make (← u16)) :=
    stable_u16.bind fun _ => stable_pure _
  have mark (make : Label → MicroOp) : Stable (do return make (← decodeLabel)) :=
    stable_label.bind fun _ => stable_pure _
  cases kind with
  | copy | compare => exact two _
  | unary => exact (stable_variant 1).bind fun _ => two _
  | binary => exact (stable_oneOf _).bind fun _ => stable_value.bind fun _ => two _
  | addWithCarry | bitTest | updateZeroNegative | pushStackValue | popStackValue => exact one _
  | shift => exact (stable_oneOf _).bind fun _ => one _
  | label | jump => exact mark _
  | jumpIfZero | jumpIfNotZero => exact stable_value.bind fun _ => mark _
  | callFunction => exact stable_u16.bind fun _ => word _
  | jumpToAddress | jumpIndirect | softwareInterrupt => exact word _
  | returnFromSubroutine | returnFromInterrupt => exact stable_pure _
  | hookPoint => exact stable_u32.bind fun _ => stable_pure _

theorem stable_microOp : Stable decodeMicroOp :=
  (stable_oneOf _).bind fun kind => stable_fields kind

theorem stable_instruction : Stable decodeInstruction :=
  stable_u16.bind fun _ => stable_u8.bind fun _ => (stable_oneOf _).bind fun _ =>
    (stable_oneOf _).bind fun _ => (stable_option stable_u8).bind fun _ =>
    (stable_option stable_u8).bind fun _ => (stable_option stable_u16).bind fun _ =>
    stable_bool.bind fun _ => stable_u8.bind fun _ => stable_pure _

theorem stable_lowered : Stable decodeLowered :=
  stable_instruction.bind fun _ => (stable_list stable_microOp).bind fun _ => stable_pure _

theorem stable_unit : Stable decodeUnit :=
  stable_u16.bind fun _ => (stable_list stable_lowered).bind fun _ => stable_pure _

theorem stable_artifact : Stable decoder :=
  stable_u32.bind fun _ => stable_u32.bind fun _ => stable_u32.bind fun _ =>
    (stable_list stable_unit).bind fun _ => stable_pure _

/-- With the missing bytes the decoder would take all; so without them it does not
come to a result of its own, and the only other thing it can find is the end. -/
theorem decode_truncated {a : Artifact} (fits : a.encode.length ≤ sizeLimit)
    (cut : bytes <+: a.encode) (missing : bytes ≠ a.encode) :
    decode bytes = .error (.ended false) := by
  obtain ⟨more, whole⟩ := cut
  obtain ⟨rest, room, split, read⟩ : Takes a.encode a.encode a :=
    takes_iff.mpr ⟨rfl, List.prefix_rfl, fits⟩
  have nothing : rest = [] := List.self_eq_append_right.mp split
  have stable := stable_artifact { bytes, room := sizeLimit } more
  have extended : Input.extend { bytes, room := sizeLimit } more =
      { bytes := a.encode, room := sizeLimit } := by
    rw [Input.extend, whole]
  have reads : decoder { bytes := a.encode, room := sizeLimit } =
      .ok (a, { bytes := rest, room }) := read
  rw [extended, reads] at stable
  change (decoder { bytes, room := sizeLimit }).map Prod.fst = _
  cases early : decoder { bytes, room := sizeLimit } with
  | error e =>
    rw [early] at stable
    rcases stable with rfl | other
    · rfl
    · cases other
  | ok p =>
    rw [early] at stable
    have left : rest = p.2.bytes ++ more :=
      congrArg (fun q : Artifact × Input => q.2.bytes) (Except.ok.inj stable)
    have complete : more = [] := (List.append_eq_nil_iff.mp (left.symm.trans nothing)).2
    rw [complete, List.append_nil] at whole
    exact absurd whole missing

end NesRoutine.Artifact

namespace NesRoutine.Compiler
open Artifact

/-- Whatever is missing at the end of a written artifact, even if whole units are, a
compiler finds that the input ended, and is as it was. -/
theorem load_truncated (a : Artifact) (fits : a.encode.length ≤ sizeLimit) (bytes : List UInt8)
    (cut : bytes <+: a.encode) (missing : bytes ≠ a.encode) (c : Compiler) :
    c.load bytes = (.error (.cacheFormat (.ended false)), c) := by
  rw [load, decode_truncated fits cut missing]

/-- A return, saved for an address. -/
def returnAt (a : UInt16) : SavedUnit where
  entry := a
  instructions := [⟨{ (default : Instruction) with address := a }, [.exit .returnFromSubroutine]⟩]

/-- Two units are announced and the first of them is there in full. -/
theorem load_truncated_between : ∃ (a : Artifact) (bytes : List UInt8),
    a.units = [returnAt 0x8000, returnAt 0x9000] ∧
      bytes ++ encodeUnit (returnAt 0x9000) = a.encode ∧ a.encode.length ≤ sizeLimit ∧
      ∀ c : Compiler, c.load bytes = (.error (.cacheFormat (.ended false)), c) := by
  let a : Artifact := ⟨expectedMagic, expectedVersion, 0, [returnAt 0x8000, returnAt 0x9000]⟩
  let bytes := encodeU32 a.magic ++ encodeU32 a.version ++ encodeU32 a.checksum ++
    (encodeNat 8 2 ++ encodeUnit (returnAt 0x8000))
  have whole : bytes ++ encodeUnit (returnAt 0x9000) = a.encode := by
    simp [bytes, a, encode, encodeList]
  have fits : a.encode.length ≤ sizeLimit := by decide
  refine ⟨a, bytes, rfl, whole, fits, load_truncated a fits bytes ⟨_, whole⟩ ?_⟩
  intro complete
  rw [complete, List.append_right_eq_self] at whole
  cases whole

end NesRoutine.Compiler
