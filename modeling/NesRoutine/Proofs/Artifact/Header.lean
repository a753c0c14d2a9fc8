import NesRoutine.Emulator
import NesRoutine.Proofs.Artifact.Code

/-! Bytes of another format or version. Their header tells, but it is looked at after the
units behind it are decoded: bytes are passed over as foreign only if what follows the
header can be read as units of this version, and are malformed otherwise. -/
namespace NesRoutine.Artifact

theorem exists_encodeNat (bytes : List UInt8) :
    ∃ n < 256 ^ bytes.length, encodeNat bytes.length n = bytes := by
  induction bytes with
  | nil => exact ⟨0, by decide, rfl⟩
  | cons b bytes ih =>
    obtain ⟨high, bound, written⟩ := ih
    have small : b.toNat < 256 := b.toNat_lt
    refine ⟨b.toNat + 256 * high, ?_, ?_⟩
    · rw [List.length_cons, Nat.pow_succ]
      omega
    · have low : UInt8.ofNat (b.toNat + 256 * high) = b := by
        apply UInt8.toNat_inj.mp
        rw [UInt8.toNat_ofNat']
        omega
      have rest : (b.toNat + 256 * high) / 256 = high := by omega
      rw [List.length_cons, encodeNat, low, rest, written]

theorem length_encodeU32 (v : UInt32) : (encodeU32 v).length = 4 := length_encodeNat 4 _

/-- Any four bytes are a word. -/
theorem exists_encodeU32 {bytes : List UInt8} (four : bytes.length = 4) :
    ∃ v, encodeU32 v = bytes := by
  obtain ⟨n, bound, written⟩ := exists_encodeNat bytes
  rw [four] at bound written
  refine ⟨UInt32.ofNat n, ?_⟩
  have same : (UInt32.ofNat n).toNat = n := UInt32.toNat_ofNat_of_lt' bound
  rw [encodeU32, same, written]

theorem encodeU32_injective : Function.Injective encodeU32 := by
  intro v w same
  have read (v : UInt32) :
      Decoder.u32 { bytes := encodeU32 v, room := 4 } = .ok (v, { bytes := [], room := 0 }) :=
    (Decoder.codes_u32 _ v _ (by simp)).mpr ⟨_, rfl, (List.append_nil _).symm, rfl⟩
  have equal := read w
  rw [← same, read v] at equal
  cases equal
  rfl

def encodeHeader (magic version checksum : UInt32) : List UInt8 :=
  encodeU32 magic ++ encodeU32 version ++ encodeU32 checksum

theorem length_encodeHeader (magic version checksum : UInt32) :
    (encodeHeader magic version checksum).length = 12 := by
  simp [encodeHeader, length_encodeU32]

theorem exists_header {bytes : List UInt8} (long : 12 ≤ bytes.length) :
    ∃ magic version checksum, encodeU32 magic = bytes.take 4 ∧
      encodeU32 version = (bytes.drop 4).take 4 ∧
      encodeHeader magic version checksum ++ bytes.drop 12 = bytes := by
  obtain ⟨magic, first⟩ := @exists_encodeU32 (bytes.take 4) (by grind)
  obtain ⟨version, second⟩ := @exists_encodeU32 ((bytes.drop 4).take 4) (by grind)
  obtain ⟨checksum, third⟩ := @exists_encodeU32 ((bytes.drop 8).take 4) (by grind)
  refine ⟨magic, version, checksum, first, second, ?_⟩
  have rest (n : Nat) : (bytes.drop n).take 4 ++ bytes.drop (n + 4) = bytes.drop n := by
    rw [← List.drop_drop, List.take_append_drop]
  calc encodeHeader magic version checksum ++ bytes.drop 12
    _ = bytes.take 4 ++ ((bytes.drop 4).take 4 ++ ((bytes.drop 8).take 4 ++ bytes.drop 12)) := by
      rw [encodeHeader, first, second, third, List.append_assoc, List.append_assoc]
    _ = bytes := by
      rw [rest 8, rest 4, List.take_append_drop]

/-- What follows the header begins with units in their written form, and the limit
leaves room for them. -/
def HoldsUnits (body : List UInt8) (units : List SavedUnit) : Prop :=
  encodeList encodeUnit units <+: body ∧ 12 + (encodeList encodeUnit units).length ≤ sizeLimit

theorem encode_eq_header (a : Artifact) :
    a.encode = encodeHeader a.magic a.version a.checksum ++ encodeList encodeUnit a.units := rfl

theorem holdsUnits_iff {a : Artifact} {body : List UInt8} :
    HoldsUnits body a.units ↔
      a.encode <+: encodeHeader a.magic a.version a.checksum ++ body ∧
        a.encode.length ≤ sizeLimit := by
  rw [HoldsUnits, encode_eq_header, List.prefix_append_right_inj, List.length_append,
    length_encodeHeader]

/-- Before units the header can be any. -/
theorem decode_header (magic version checksum : UInt32) {units : List SavedUnit}
    (holds : HoldsUnits body units) :
    decode (encodeHeader magic version checksum ++ body) =
      .ok ⟨magic, version, checksum, units⟩ := by
  let a : Artifact := ⟨magic, version, checksum, units⟩
  obtain ⟨start, fits⟩ := holdsUnits_iff (a := a).mp holds
  exact decode_ok_iff.mpr ⟨a.encode, takes_iff.mpr ⟨rfl, start, fits⟩⟩

theorem holdsUnits_of_decode {bytes : List UInt8} {a : Artifact} (decoded : decode bytes = .ok a) :
    HoldsUnits (bytes.drop 12) a.units := by
  obtain ⟨taken, takes⟩ := decode_ok_iff.mp decoded
  obtain ⟨rfl, ⟨rest, whole⟩, fits⟩ := takes_iff.mp takes
  refine holdsUnits_iff.mpr ⟨⟨rest, ?_⟩, fits⟩
  rw [← whole, encode_eq_header, List.append_assoc, List.drop_left' (length_encodeHeader _ _ _)]

end NesRoutine.Artifact

namespace NesRoutine.Compiler
open Artifact

variable {bytes : List UInt8}

theorem load_header {magic version : UInt32}
    (foreign : magic ≠ expectedMagic ∨ version ≠ expectedVersion) (checksum : UInt32)
    {units : List SavedUnit} (holds : HoldsUnits body units) (c : Compiler) :
    let m : Mismatch := if magic = expectedMagic then .version version else .magic
    c.load (encodeHeader magic version checksum ++ body) = (.error (.cacheMismatch m), c) := by
  intro m
  rw [load, decode_header magic version checksum holds]
  by_cases own : magic = expectedMagic
  · have other : version ≠ expectedVersion := foreign.resolve_left (not_not_intro own)
    simp [mismatch?, m, own, other]
  · simp [mismatch?, m, own]

theorem load_malformed (malformed : ∀ units, ¬HoldsUnits (bytes.drop 12) units) :
    ∃ e, ∀ c : Compiler, c.load bytes = (.error (.cacheFormat e), c) := by
  cases decoded : decode bytes with
  | ok a => exact absurd (holdsUnits_of_decode decoded) (malformed a.units)
  | error e =>
    refine ⟨e, fun c => ?_⟩
    rw [load, decoded]

end NesRoutine.Compiler

namespace NesRoutine.Emulator
open Artifact

section
variable {bytes : List UInt8} {config : Config} {path : String}
  (valid : config.validate = .ok ()) (cached : config.cachePath = some path)
  (cartridge : Cartridge) (journal : Journal)
include valid cached

/-- With a cache that does not match, an emulator starts without units. -/
theorem ofCartridge_mismatch
    (found : ∀ c : Compiler, c.load bytes = (.error (.cacheMismatch m), c)) :
    ∃ e, (ofCartridge cartridge config (some bytes) journal).1 = .ok e ∧
      e.dispatcher.compiler.units = ∅ := by
  simp only [ofCartridge, valid, ofCartridge.loaded, cached, found]
  exact ⟨_, rfl, rfl⟩

theorem ofCartridge_malformed
    (found : ∀ c : Compiler, c.load bytes = (.error (.cacheFormat e), c)) :
    (ofCartridge cartridge config (some bytes) journal).1 =
      .error (.compiler (.cacheFormat e)) := by
  simp only [ofCartridge, valid, ofCartridge.loaded, cached, found]

end

/-- Bytes of another format or version do not match, and an emulator does without them,
if units of this version follow the header. If not, they are malformed for a compiler,
and there is no emulator. -/
theorem load_foreign (bytes : List UInt8) (long : 12 ≤ bytes.length)
    (foreign : bytes.take 4 ≠ encodeU32 expectedMagic ∨
      (bytes.drop 4).take 4 ≠ encodeU32 expectedVersion)
    (config : Config) (path : String) (valid : config.validate = .ok ())
    (cached : config.cachePath = some path) :
    ((∃ units, HoldsUnits (bytes.drop 12) units) →
      ∃ v, encodeU32 v = (bytes.drop 4).take 4 ∧
        let m : Mismatch := if bytes.take 4 = encodeU32 expectedMagic then .version v else .magic
        (∀ c : Compiler, c.load bytes = (.error (.cacheMismatch m), c)) ∧
        ∀ cartridge journal, ∃ e, (ofCartridge cartridge config (some bytes) journal).1 = .ok e ∧
          e.dispatcher.compiler.units = ∅) ∧
    ((∀ units, ¬HoldsUnits (bytes.drop 12) units) →
      ∃ e, (∀ c : Compiler, c.load bytes = (.error (.cacheFormat e), c)) ∧
        ∀ cartridge journal, (ofCartridge cartridge config (some bytes) journal).1 =
          .error (.compiler (.cacheFormat e))) := by
  constructor
  · rintro ⟨units, holds⟩
    obtain ⟨magic, version, checksum, first, second, whole⟩ := exists_header long
    rw [← first, ← second] at foreign ⊢
    simp only [encodeU32_injective.eq_iff, ne_eq] at foreign ⊢
    have found := Compiler.load_header foreign checksum holds
    rw [whole] at found
    exact ⟨version, rfl, found, fun cartridge journal =>
      ofCartridge_mismatch valid cached cartridge journal found⟩
  · intro malformed
    obtain ⟨e, found⟩ := Compiler.load_malformed malformed
    exact ⟨e, found, fun cartridge journal =>
      ofCartridge_malformed valid cached cartridge journal found⟩

/-- The theorem at a later version, with an empty list of units and with nothing at all
behind the header. -/
theorem load_foreign_later : ∃ (config : Config) (header bytes : List UInt8),
    header = encodeHeader expectedMagic 2 0 ∧ bytes = header ++ encodeList encodeUnit [] ∧
      (∀ c : Compiler, c.load bytes = (.error (.cacheMismatch (.version 2)), c)) ∧
      (∀ cartridge journal, ∃ e, (ofCartridge cartridge config (some bytes) journal).1 = .ok e ∧
        e.dispatcher.compiler.units = ∅) ∧
      ∃ e, ∀ c : Compiler, c.load header = (.error (.cacheFormat e), c) := by
  let header := encodeHeader expectedMagic 2 0
  let bytes := header ++ encodeList encodeUnit []
  let config : Config := { cachePath := some "units" }
  have holds : HoldsUnits (bytes.drop 12) [] := ⟨List.prefix_rfl, by decide⟩
  have bare (units : List SavedUnit) : ¬HoldsUnits (header.drop 12) units := by
    rintro ⟨start, _⟩
    have short := start.length_le
    rw [encodeList, List.length_append, length_encodeNat] at short
    exact absurd short (by simp [header, length_encodeHeader])
  obtain ⟨v, found, loads, starts⟩ := (load_foreign bytes (by decide) (.inr (by decide)) config
    "units" rfl rfl).1 ⟨[], holds⟩
  have second : v = 2 := encodeU32_injective found
  obtain ⟨e, fails, _⟩ := (load_foreign header (by decide) (.inr (by decide)) config
    "units" rfl rfl).2 bare
  subst second
  exact ⟨config, header, bytes, rfl, rfl, loads, starts, e, fails⟩

/-- A later version is not recognised by its header alone. -/
theorem load_later_bodiless :
    let bytes := encodeHeader expectedMagic 2 0
    12 ≤ bytes.length ∧ (bytes.drop 4).take 4 ≠ encodeU32 expectedVersion ∧
      (∀ c : Compiler, c.load bytes = (.error (.cacheFormat (.ended false)), c)) ∧
      ∀ cartridge journal,
        (ofCartridge cartridge { cachePath := some "units" } (some bytes) journal).1 =
          .error (.compiler (.cacheFormat (.ended false))) := by
  have found (c : Compiler) : c.load (encodeHeader expectedMagic 2 0) =
      (.error (.cacheFormat (.ended false)), c) := rfl
  refine ⟨by decide, by decide, found, fun cartridge journal => ?_⟩
  exact ofCartridge_malformed rfl rfl cartridge journal found

end NesRoutine.Emulator
