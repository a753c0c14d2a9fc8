import NesRoutine.Cartridge
import NesRoutine.Proofs.Checksum
import NesRoutine.Proofs.Coherence

/-! Saved code does not outlive its image. When one byte of the image is changed, the
checksum of its code regions changes, and what was saved for the old image is refused for
the new one. An image of one bank is in the checksum twice, and so is the change. -/
namespace NesRoutine

namespace Checksum

theorem codeRegions_bank {image : Array UInt8} (bank : image.size = prgBankSize) :
    (Cartridge.ofPrg image).codeRegions = [⟨0x8000, image⟩, ⟨0xC000, image⟩] := by
  simp [Cartridge.codeRegions, Cartridge.ofPrg, bank]

theorem codeRegions_single {image : Array UInt8} (other : image.size ≠ prgBankSize) :
    (Cartridge.ofPrg image).codeRegions = [⟨0x8000, image⟩] := by
  simp [Cartridge.codeRegions, Cartridge.ofPrg, other]

theorem OneByteApart.regions_ne {p q : Array UInt8} (apart : OneByteApart p q) :
    regions (Cartridge.ofPrg p).codeRegions ≠ regions (Cartridge.ofPrg q).codeRegions := by
  obtain ⟨d, changed, trace⟩ := apart.trace
  obtain ⟨size, -⟩ := apart
  intro same
  apply changed
  by_cases bank : p.size = prgBankSize
  · -- the first trace is shifted through the second region, at whose end the second joins it
    rw [codeRegions_bank bank, codeRegions_bank (size ▸ bank)] at same
    simp only [regions, UInt32.not_inj, List.foldl_cons, List.foldl_nil, trace, updateRegion_xor,
      bank, UInt32.xor_assoc] at same
    have sum := eq_zero_of_xor_eq same
    exact eq_zero_of_iterate_bank (UInt32.xor_eq_zero_iff.mp sum)
  · rw [codeRegions_single bank, codeRegions_single (size ▸ bank)] at same
    simp only [regions, UInt32.not_inj, List.foldl_cons, List.foldl_nil, trace] at same
    exact eq_zero_of_xor_eq same

theorem oneByteApart_set {p : Array UInt8} {i : Nat} (inside : i < p.size) {b : UInt8}
    (changed : p[i] ≠ b) : OneByteApart p (p.set i b) := by
  refine ⟨(Array.size_set inside).symm, i, ?_, ?_⟩
  · simpa [Array.getElem?_eq_getElem inside] using changed
  · intro k differs
    by_contra elsewhere
    apply differs
    rw [Array.getElem?_set_ne _ (Ne.symm elsewhere)]

end Checksum

namespace Compiler

variable {c : Compiler}

theorem load_other_code (saved : (c.save room).1 = .ok (count, bytes)) (c' : Compiler)
    (other : Checksum.regions c.regions ≠ Checksum.regions c'.regions) :
    c'.load bytes = (.error (.cacheMismatch
      (.checksum (Checksum.regions c.regions) (Checksum.regions c'.regions))), c') := by
  have refused : c.artifact.mismatch? (Checksum.regions c'.regions) =
      some (.checksum (Checksum.regions c.regions) (Checksum.regions c'.regions)) := by
    simp [artifact, Artifact.mismatch?, other]
  rw [load, decode_saved saved]
  simp only [refused]

/-- What any compiler over the one image saves is refused by any compiler over the
other, for the checksum, and nothing changes in the latter. -/
theorem patched_image_refused {p q : Array UInt8} (apart : Checksum.OneByteApart p q) :
    let code := (Cartridge.ofPrg p).codeRegions
    let patched := (Cartridge.ofPrg q).codeRegions
    Checksum.regions code ≠ Checksum.regions patched ∧
      ∀ (c c' : Compiler) (room : Option Nat) (count : Nat) (bytes : List UInt8),
        c.regions = code → c'.regions = patched → (c.save room).1 = .ok (count, bytes) →
        c'.load bytes = (.error (.cacheMismatch
          (.checksum (Checksum.regions code) (Checksum.regions patched))), c') := by
  intro code patched
  refine ⟨apart.regions_ne, ?_⟩
  intro c c' room count bytes before after saved
  have differ : Checksum.regions c.regions ≠ Checksum.regions c'.regions := by
    rw [before, after]
    exact apart.regions_ne
  rw [load_other_code saved c' differ, before, after]

/-- A return at `$8000`, made into a unit. -/
def returning : Compiler := (Compiler.getOrCompile { regions := [⟨0x8000, #[0x60]⟩] } 0x8000).2

/-- A bank full of returns, with the unit of the first, and the bank with its last byte
changed. -/
theorem patched_image_refused_bank : ∃ (p q : Array UInt8) (c c' : Compiler) (bytes : List UInt8),
    p = Array.replicate prgBankSize 0x60 ∧ q = p.setIfInBounds 0x3FFF 0x40 ∧
      c.regions = (Cartridge.ofPrg p).codeRegions ∧ c'.regions = (Cartridge.ofPrg q).codeRegions ∧
      c.isCompiled 0x8000 = true ∧ (c.save none).1 = .ok (1, bytes) ∧
      ∃ m, c'.load bytes = (.error (.cacheMismatch m), c') := by
  obtain ⟨p, bank⟩ : ∃ p, p = Array.replicate prgBankSize (0x60 : UInt8) := ⟨_, rfl⟩
  obtain ⟨units, kept⟩ : ∃ units, units = returning.units := ⟨_, rfl⟩
  let c : Compiler := { regions := (Cartridge.ofPrg p).codeRegions, units }
  have inside : 0x3FFF < p.size := by simp [bank, prgBankSize]
  have apart := Checksum.oneByteApart_set inside (b := 0x40) (by simp [bank])
  have patched : p.set 0x3FFF 0x40 = p.setIfInBounds 0x3FFF 0x40 := by
    rw [Array.setIfInBounds, dif_pos inside]
  have compiled : units.contains 0x8000 = true := by
    rw [kept]
    decide +kernel
  have count : returning.savedUnits.length = 1 := by decide +kernel
  have short : 12 + (Artifact.encodeList Artifact.encodeUnit returning.savedUnits).length ≤
      Artifact.sizeLimit := by decide +kernel
  have same : c.savedUnits = returning.savedUnits := by
    rw [savedUnits, savedUnits, ← kept]
  have saved : (c.save none).1 = .ok (1, c.artifact.encode) := by
    rw [← same] at short count
    rw [save_short short, count]
  exact ⟨p, _, c, { regions := _ }, _, bank, patched, rfl, rfl, compiled, saved, _,
    (patched_image_refused apart).2 c _ none 1 _ rfl rfl saved⟩

end Compiler
end NesRoutine
