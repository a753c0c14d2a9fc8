import NesRoutine.Artifact
import NesRoutine.Proofs.Artifact.Wire

/-! Every value of the saved code has one written form, which its decoder reads
back, and reads nothing else. -/
namespace NesRoutine.Artifact
open Decoder

theorem codes_register : Codes decodeRegister (encodeRegister · = ·) :=
  codes_oneOf (by decide) (by decide) Register.all_ctorIdx

theorem codes_flag : Codes decodeFlag (encodeFlag · = ·) :=
  codes_oneOf (by decide) (by decide) Flag.all_ctorIdx

theorem codes_value : Codes decodeValue (encodeValue · = ·) := by
  refine (codes_variant (by decide)).choice Value.ctorIdx ?_ ?_
  · intro v
    refine ⟨_, ⟨?_, rfl⟩, ?_⟩
    · cases v <;> simp [Value.ctorIdx]
    · cases v <;> simp [encodeValue, Value.ctorIdx]
  · rintro n _ ⟨bound, rfl⟩
    match n with
    | 0 =>
      refine (codes_u8.map Value.constant).congr fun v bytes => ?_
      cases v <;> simp [encodeValue, Value.ctorIdx]
    | 1 =>
      refine (codes_register.map Value.register).congr fun v bytes => ?_
      cases v <;> simp [encodeValue, Value.ctorIdx]
    | 2 =>
      refine (codes_flag.map Value.flag).congr fun v bytes => ?_
      cases v <;> simp [encodeValue, Value.ctorIdx]
    | 3 =>
      refine (codes_pure Value.status).congr fun v bytes => ?_
      cases v <;> simp [encodeValue, Value.ctorIdx]
    | 4 =>
      refine (codes_u16.map₃ (codes_option codes_register) codes_bool Value.memory).congr
        fun v bytes => ?_
      cases v <;> simp [encodeValue, Value.ctorIdx, -Bool.exists_bool]
    | 5 =>
      refine (codes_u8.map₃ (codes_option codes_register) codes_bool Value.indirect).congr
        fun v bytes => ?_
      cases v <;> simp [encodeValue, Value.ctorIdx, -Bool.exists_bool]
    | 6 =>
      refine (codes_u8.map Value.scratch).congr fun v bytes => ?_
      cases v <;> simp [encodeValue, Value.ctorIdx]

theorem codes_label : Codes decodeLabel (encodeLabel · = ·) := by
  refine (codes_variant (by decide)).choice Label.ctorIdx ?_ ?_
  · intro l
    refine ⟨_, ⟨?_, rfl⟩, ?_⟩
    · cases l <;> simp [Label.ctorIdx]
    · cases l <;> simp [encodeLabel, Label.ctorIdx]
  · rintro n _ ⟨bound, rfl⟩
    match n with
    | 0 =>
      refine (codes_u16.map Label.instruction).congr fun l bytes => ?_
      cases l <;> simp [encodeLabel, Label.ctorIdx]
    | 1 =>
      refine (codes_u16.map₂ codes_u8 Label.inner).congr fun l bytes => ?_
      cases l <;> simp [encodeLabel, Label.ctorIdx]

theorem codes_binaryOp :
    Codes (oneOf BinaryOp.all) fun op bytes => encodeVariant op.ctorIdx = bytes :=
  codes_oneOf (by decide) (by decide) BinaryOp.all_ctorIdx

theorem codes_shiftKind :
    Codes (oneOf ShiftKind.all) fun kind bytes => encodeVariant kind.ctorIdx = bytes :=
  codes_oneOf (by decide) (by decide) ShiftKind.all_ctorIdx

/-- After its kind, a micro-operation is read from its fields. -/
theorem codes_fields (kind : MicroOp.Kind) :
    Codes (decodeFields kind) fun m bytes => m.kind = kind ∧ encodeFields m = bytes := by
  cases kind with
  | copy =>
    refine (codes_value.map₂ codes_value fun s t => MicroOp.effect (.copy s t)).congr
      fun m bytes => ?_
    fun_cases MicroOp.kind m <;> simp [encodeFields]
  | unary =>
    have single := @codes_variant 1 (by decide)
    refine (single.bind fun _ _ _ => codes_value.map₂ codes_value fun s t =>
      MicroOp.effect (.complement s t)).congr fun m bytes => ?_
    fun_cases MicroOp.kind m <;> simp [encodeFields]
  | binary =>
    refine (codes_binaryOp.bind fun op _ _ => codes_value.map₃ codes_value codes_value
      fun l r t => MicroOp.effect (.binary op l r t)).congr fun m bytes => ?_
    fun_cases MicroOp.kind m <;> simp [encodeFields]
  | addWithCarry =>
    refine (codes_value.map fun v => MicroOp.effect (.addWithCarry v)).congr fun m bytes => ?_
    fun_cases MicroOp.kind m <;> simp [encodeFields]
  | compare =>
    refine (codes_value.map₂ codes_value fun l r => MicroOp.effect (.compare l r)).congr
      fun m bytes => ?_
    fun_cases MicroOp.kind m <;> simp [encodeFields]
  | shift =>
    refine (codes_shiftKind.bind fun kind _ _ => codes_value.map
      fun t => MicroOp.effect (.shift kind t)).congr fun m bytes => ?_
    fun_cases MicroOp.kind m <;> simp [encodeFields]
  | bitTest =>
    refine (codes_value.map fun v => MicroOp.effect (.bitTest v)).congr fun m bytes => ?_
    fun_cases MicroOp.kind m <;> simp [encodeFields]
  | updateZeroNegative =>
    refine (codes_value.map fun v => MicroOp.effect (.setZeroNegative v)).congr fun m bytes => ?_
    fun_cases MicroOp.kind m <;> simp [encodeFields]
  | label =>
    refine (codes_label.map MicroOp.label).congr fun m bytes => ?_
    fun_cases MicroOp.kind m <;> simp [encodeFields]
  | jump =>
    refine (codes_label.map MicroOp.goto).congr fun m bytes => ?_
    fun_cases MicroOp.kind m <;> simp [encodeFields]
  | jumpIfZero =>
    refine (codes_value.map₂ codes_label (MicroOp.branch true)).congr fun m bytes => ?_
    fun_cases MicroOp.kind m <;> simp [encodeFields]
  | jumpIfNotZero =>
    refine (codes_value.map₂ codes_label (MicroOp.branch false)).congr fun m bytes => ?_
    fun_cases MicroOp.kind m <;> simp [encodeFields]
  | pushStackValue =>
    refine (codes_value.map fun v => MicroOp.effect (.push v)).congr fun m bytes => ?_
    fun_cases MicroOp.kind m <;> simp [encodeFields]
  | popStackValue =>
    refine (codes_value.map fun v => MicroOp.effect (.pop v)).congr fun m bytes => ?_
    fun_cases MicroOp.kind m <;> simp [encodeFields]
  | callFunction =>
    refine (codes_u16.map₂ codes_u16 fun t r => MicroOp.exit (.call t r)).congr fun m bytes => ?_
    fun_cases MicroOp.kind m <;> simp [encodeFields]
  | jumpToAddress =>
    refine (codes_u16.map fun a => MicroOp.exit (.jump a)).congr fun m bytes => ?_
    fun_cases MicroOp.kind m <;> simp [encodeFields]
  | jumpIndirect =>
    refine (codes_u16.map fun a => MicroOp.exit (.jumpIndirect a)).congr fun m bytes => ?_
    fun_cases MicroOp.kind m <;> simp [encodeFields]
  | returnFromSubroutine =>
    refine (codes_pure (MicroOp.exit .returnFromSubroutine)).congr fun m bytes => ?_
    fun_cases MicroOp.kind m <;> simp [encodeFields]
  | returnFromInterrupt =>
    refine (codes_pure (MicroOp.exit .returnFromInterrupt)).congr fun m bytes => ?_
    fun_cases MicroOp.kind m <;> simp [encodeFields]
  | softwareInterrupt =>
    refine (codes_u16.map fun a => MicroOp.exit (.softwareInterrupt a)).congr fun m bytes => ?_
    fun_cases MicroOp.kind m <;> simp [encodeFields]
  | hookPoint =>
    refine (codes_u32.map fun t => MicroOp.effect (.hook t)).congr fun m bytes => ?_
    fun_cases MicroOp.kind m <;> simp [encodeFields]

theorem codes_microOp : Codes decodeMicroOp (encodeMicroOp · = ·) := by
  have kinds :
      Codes (oneOf MicroOp.Kind.all) fun kind bytes => encodeVariant kind.ctorIdx = bytes :=
    codes_oneOf (by decide) (by decide) MicroOp.Kind.all_ctorIdx
  refine kinds.choice MicroOp.kind (fun m => ⟨_, rfl, List.prefix_append _ _⟩) ?_
  rintro kind _ rfl
  refine (codes_fields kind).congr fun m bytes => and_congr_right ?_
  rintro rfl
  rw [encodeMicroOp, List.append_cancel_left_eq]

theorem codes_mnemonic :
    Codes (oneOf Mnemonic.all) fun m bytes => encodeVariant m.ctorIdx = bytes :=
  codes_oneOf (by decide) (by decide) Mnemonic.all_ctorIdx

theorem codes_mode :
    Codes (oneOf AddressingMode.all) fun m bytes => encodeVariant m.ctorIdx = bytes :=
  codes_oneOf (by decide) (by decide) AddressingMode.all_ctorIdx

theorem codes_instruction : Codes decodeInstruction (encodeInstruction · = ·) := by
  refine (codes_u16.bind fun address _ _ => codes_u8.bind fun opcode _ _ =>
    codes_mnemonic.bind fun mnemonic _ _ => codes_mode.bind fun mode _ _ =>
    (codes_option codes_u8).bind fun operand1 _ _ => (codes_option codes_u8).bind
    fun operand2 _ _ => (codes_option codes_u16).map₃ codes_bool codes_u8
    (Instruction.mk address opcode mnemonic mode operand1 operand2)).congr fun i bytes => ?_
  cases i
  simp [encodeInstruction, -Bool.exists_bool]

theorem codes_lowered : Codes decodeLowered (encodeLowered · = ·) := by
  have nonempty m : encodeMicroOp m ≠ [] := by
    simp [encodeMicroOp, encodeVariant, encodeNat]
  refine (codes_instruction.map₂ (codes_list codes_microOp nonempty) Lowered.mk).congr ?_
  intro x bytes
  cases x
  simp [encodeLowered]

theorem codes_unit : Codes decodeUnit (encodeUnit · = ·) := by
  have nonempty x : encodeLowered x ≠ [] := by
    simp [encodeLowered, encodeInstruction, encodeU16, encodeNat]
  refine (codes_u16.map₂ (codes_list codes_lowered nonempty) SavedUnit.mk).congr ?_
  intro u bytes
  cases u
  simp [encodeUnit]

theorem codes_artifact : Codes decoder (encode · = ·) := by
  have nonempty u : encodeUnit u ≠ [] := by
    simp [encodeUnit, encodeU16, encodeNat]
  refine (codes_u32.bind fun magic _ _ => codes_u32.map₃ codes_u32
    (codes_list codes_unit nonempty) (Artifact.mk magic)).congr ?_
  intro a bytes
  cases a
  simp [encode]

/-- The decoder takes the bytes `taken` from the front of `bytes` and returns `a`. -/
def Takes (bytes taken : List UInt8) (a : Artifact) : Prop :=
  ∃ rest room, bytes = taken ++ rest ∧
    decoder.run { bytes, room := sizeLimit } = .ok (a, { bytes := rest, room })

/-- What is taken is the written form, if the limit leaves room for it. -/
theorem takes_iff {bytes taken : List UInt8} {a : Artifact} : Takes bytes taken a ↔
    taken = a.encode ∧ a.encode <+: bytes ∧ a.encode.length ≤ sizeLimit := by
  have room : sizeLimit < 2 ^ 64 := by decide
  constructor
  · rintro ⟨rest, left, split, read⟩
    obtain ⟨_, rfl, split', size⟩ := (codes_artifact _ a _ room).mp read
    have same : taken ++ rest = a.encode ++ rest := split.symm.trans split'
    refine ⟨List.append_cancel_right same, ⟨rest, split'.symm⟩, ?_⟩
    simp only at size
    omega
  · rintro ⟨rfl, ⟨rest, split⟩, fits⟩
    refine ⟨rest, sizeLimit - a.encode.length, split.symm, ?_⟩
    refine (codes_artifact _ a _ room).mpr ⟨a.encode, rfl, split.symm, ?_⟩
    exact (Nat.add_sub_cancel' fits).symm

theorem decode_ok_iff {bytes : List UInt8} {a : Artifact} :
    decode bytes = .ok a ↔ ∃ taken, Takes bytes taken a := by
  have room : sizeLimit < 2 ^ 64 := by decide
  rw [decode]
  constructor
  · intro decoded
    cases read : decoder.run { bytes, room := sizeLimit } with
    | error e => simp [read, Except.map] at decoded
    | ok result =>
      obtain ⟨a', rest, left⟩ := result
      rw [read] at decoded
      cases decoded
      obtain ⟨taken, _, split, _⟩ := (codes_artifact _ a' _ room).mp read
      exact ⟨taken, rest, left, split, read⟩
  · rintro ⟨taken, rest, left, _, read⟩
    rw [read]
    rfl

/-- An artifact is decoded from exactly those bytes that begin with its written
form, and this is what the decoder takes of them. -/
theorem decode_iff_encode_prefix (a : Artifact) (bytes : List UInt8) :
    (decode bytes = .ok a ↔ a.encode <+: bytes ∧ a.encode.length ≤ sizeLimit) ∧
      ∀ taken, Takes bytes taken a ↔ taken = a.encode ∧ decode bytes = .ok a := by
  have decoded : decode bytes = .ok a ↔ a.encode <+: bytes ∧ a.encode.length ≤ sizeLimit := by
    simp only [decode_ok_iff, takes_iff, exists_eq_left]
  refine ⟨decoded, ?_⟩
  intro taken
  rw [decoded, takes_iff]

/-- An artifact that is written is read back, whatever follows it. -/
theorem decode_write {a : Artifact} (written : a.write = .ok bytes) (rest : List UInt8) :
    decode (bytes ++ rest) = .ok a := by
  simp only [write] at written
  split at written
  · cases written
  next fits =>
    cases written
    refine decode_ok_iff.mpr ⟨a.encode, takes_iff.mpr ⟨rfl, List.prefix_append _ rest, ?_⟩⟩
    exact Nat.le_of_not_lt fits

end NesRoutine.Artifact
