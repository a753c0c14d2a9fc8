import NesRoutine.Proofs.PictureTraffic

/-! Video memory through the data register of the picture unit. Bytes are written one after
another from a base address on, and read again from the same base through the read buffer,
which lags one byte behind except in the palette. The address register grows past the 14
bits of video memory, so a transfer may run over the end of memory and, on its way, in and
out of the palette. -/
namespace NesRoutine.Ppu

/-- A use of a register. -/
inductive Access where
  | read (a : UInt16)
  | write (a : UInt16) (value : UInt8)
  deriving DecidableEq, Repr

def Access.apply (p : Ppu) : Access → Ppu
  | read a => (p.readRegister a).2
  | write a value => p.writeRegister a value

/-- The unit after some accesses. -/
def after (p : Ppu) (accesses : List Access) : Ppu := accesses.foldl Access.apply p

/-- What the reads among some accesses answer. -/
def answers (p : Ppu) : List Access → List UInt8
  | [] => []
  | .read a :: rest => (p.readRegister a).1 :: (p.readRegister a).2.answers rest
  | .write a value :: rest => (p.writeRegister a value).answers rest

/-- Reading the status makes the next write to the address register the first of its pair. -/
def seek (a : UInt16) : List Access :=
  [.read 0x2002, .write 0x2006 (highByte a), .write 0x2006 (lowByte a)]

def store (bytes : List UInt8) : List Access := bytes.map (.write 0x2007)

def fetch (n : Nat) : List Access := List.replicate n (.read 0x2007)

/-- How far an access to the data register moves the address under a control byte. -/
def stride (control : UInt8) : Nat := if control.toNat.testBit 2 then 32 else 1

/-- The cell that many bytes from the start of video memory, which repeats. -/
def cellAt (position : Nat) : Fin 0x4000 := ⟨position % 0x4000, Nat.mod_lt _ (by decide)⟩

theorem after_append (p : Ppu) (first rest : List Access) :
    p.after (first ++ rest) = (p.after first).after rest :=
  List.foldl_append

/-- The next access to the data register goes to this place and moves on by this much. -/
structure Poised (p : Ppu) (place step : Nat) : Prop where
  address : p.state.vramAddress.toNat = place
  increment : p.state.increment.toNat = step

namespace Poised

variable {p q : Ppu} {place n : Nat}

theorem cell (poised : p.Poised place n) : vramCell p.state.vramAddress = cellAt place := by
  rw [vramCell, poised.address]
  rfl

theorem advance (poised : p.Poised place n) (advanced : q.state = p.state.advance)
    (room : place + n < 0x10000) : q.Poised (place + n) n := by
  obtain ⟨rfl, rfl⟩ := poised
  constructor
  · rw [advanced, State.advance, UInt16.toNat_add, Nat.mod_eq_of_lt room]
  · rw [advanced]
    rfl

end Poised

theorem highByte_masked {a : UInt16} (inside : a < 0x4000) : highByte a &&& 0x3F = highByte a := by
  have small : a.toNat / 256 < 64 := by
    rw [UInt16.lt_iff_toNat_lt] at inside
    simp only [UInt16.reduceToNat] at inside
    omega
  apply UInt8.toNat_inj.mp
  rw [UInt8.toNat_and]
  refine (Nat.and_two_pow_sub_one_eq_mod _ 6).trans (Nat.mod_eq_of_lt ?_)
  simp [highByte, Nat.shiftRight_eq_div_pow]
  omega

/-- Two writes after a read of the status set the whole address. -/
theorem after_seek (p : Ppu) {a : UInt16} (inside : a < 0x4000) :
    (p.after (seek a)).state.vramAddress = a := by
  have written : (p.after (seek a)).state.vramAddress = word (lowByte a)
      (highByte (word (lowByte p.state.vramAddress) (highByte a &&& 0x3F))) := rfl
  rw [written, highByte_word, highByte_masked inside, word_bytes]

theorem poised_seek (p : Ppu) {a : UInt16} (inside : a < 0x4000) :
    (p.after (seek a)).Poised a.toNat p.state.increment.toNat :=
  ⟨congrArg UInt16.toNat (p.after_seek inside), rfl⟩

theorem increment_control (p : Ppu) (control : UInt8) :
    (p.writeRegister 0x2000 control).state.increment.toNat = stride control := by
  have written : (p.writeRegister 0x2000 control).state.increment =
      if control &&& 0x04 != 0 then 32 else 1 := rfl
  rw [written, mask_bit control 0x04 (i := 2) rfl, stride]
  cases control.toNat.testBit 2 <;> rfl

theorem cellAt_ne {place distance : Nat} (away : 0 < distance) (near : distance < 0x4000) :
    cellAt (place + distance) ≠ cellAt place := by
  intro same
  have places : (place + distance) % 0x4000 = place % 0x4000 := congrArg Fin.val same
  omega

section Transfer

variable {p : Ppu} {place step : Nat}

/-- A write to the data register changes one cell. -/
theorem vram_write (poised : p.Poised place step) (b : UInt8) (c : Fin 0x4000) :
    (p.writeRegister 0x2007 b).vram.get c = if cellAt place = c then b else p.vram.get c := by
  have written : (p.writeRegister 0x2007 b).vram.get c =
      (p.vram.set (vramCell p.state.vramAddress) b)[c.val] := rfl
  rw [written, ← poised.cell, Vector.getElem_set]
  simp only [Fin.ext_iff]
  rfl

/-- Bytes that are stored one after another stand in the cells they were stored to, and all
other cells are as before. The cells are different because together they are no more than
video memory. -/
theorem vram_store {bytes : List UInt8} (poised : p.Poised place step) (moves : 0 < step)
    (room : bytes.length * step ≤ 0x4000) (low : place + bytes.length * step < 0x10000) :
    (∀ k (inside : k < bytes.length),
      (p.after (store bytes)).vram.get (cellAt (place + k * step)) = bytes[k]) ∧
    ∀ c, (∀ k < bytes.length, cellAt (place + k * step) ≠ c) →
      (p.after (store bytes)).vram.get c = p.vram.get c := by
  induction bytes generalizing p place with
  | nil => exact ⟨fun k inside => absurd inside (Nat.not_lt_zero k), fun c _ => rfl⟩
  | cons b bytes ih =>
    have length : (bytes.length + 1) * step = bytes.length * step + step := Nat.succ_mul _ _
    rw [List.length_cons, length] at room low
    have next (k : Nat) : place + step + k * step = place + (k + 1) * step := by
      rw [Nat.succ_mul]
      omega
    obtain ⟨stored, others⟩ := ih (p := p.writeRegister 0x2007 b)
      (poised.advance rfl (by omega)) (by omega) (by omega)
    simp only [next, vram_write poised] at stored others
    have apart (k : Nat) (inside : k < bytes.length) :
        cellAt (place + (k + 1) * step) ≠ cellAt place := by
      have within : (k + 1) * step ≤ bytes.length * step := Nat.mul_le_mul_right step inside
      exact cellAt_ne (Nat.mul_pos (Nat.succ_pos k) moves) (by omega)
    constructor
    · intro k inside
      cases k with
      | zero =>
        rw [Nat.zero_mul, Nat.add_zero]
        exact (others _ apart).trans (if_pos rfl)
      | succ k => exact stored k (Nat.lt_of_succ_lt_succ inside)
    · intro c other
      have first : cellAt place ≠ c := by simpa using other 0 (Nat.succ_pos _)
      exact (others c fun k inside => other (k + 1) (Nat.succ_lt_succ inside)).trans (if_neg first)

theorem readBuffer_store (p : Ppu) (bytes : List UInt8) :
    (p.after (store bytes)).readBuffer = p.readBuffer := by
  induction bytes generalizing p with
  | nil => rfl
  | cons b bytes ih => exact ih _

theorem increment_store (p : Ppu) (bytes : List UInt8) :
    (p.after (store bytes)).state.increment = p.state.increment := by
  induction bytes generalizing p with
  | nil => rfl
  | cons b bytes ih => exact ih _

theorem vram_fetch (p : Ppu) (n : Nat) : (p.after (fetch n)).vram = p.vram := by
  induction n generalizing p with
  | zero => rfl
  | succ n ih => exact ih _

theorem length_fetch (p : Ppu) (n : Nat) : (p.answers (fetch n)).length = n := by
  induction n generalizing p with
  | zero => rfl
  | succ n ih => exact congrArg Nat.succ (ih _)

/-- A read of the palette answers with its own cell, any other with the byte that was read
before it. -/
theorem answers_fetch (poised : p.Poised place step) {n k : Nat} (low : place + n * step < 0x10000)
    (inside : k < n) :
    (p.answers (fetch n))[k]? = some
      (if 0x3F00 ≤ (place + k * step) % 0x4000 then p.vram.get (cellAt (place + k * step))
       else if k = 0 then p.readBuffer
       else p.vram.get (cellAt (place + (k - 1) * step))) := by
  induction n generalizing p place k with
  | zero => exact absurd inside (Nat.not_lt_zero k)
  | succ n ih =>
    have value : p.vram[vramCell p.state.vramAddress] = p.vram.get (cellAt place) :=
      congrArg p.vram.get poised.cell
    have cell : (vramCell p.state.vramAddress).val = place % 0x4000 := congrArg Fin.val poised.cell
    rw [Nat.succ_mul] at low
    cases k with
    | zero =>
      have answer : (p.answers (fetch (n + 1)))[0]? = some p.readData.1 := rfl
      rw [answer, readData, value, cell, Nat.zero_mul, Nat.add_zero, if_pos rfl]
      rfl
    | succ k =>
      have rest : (p.answers (fetch (n + 1)))[k + 1]? = (p.readData.2.answers (fetch n))[k]? := rfl
      have buffer : p.readData.2.readBuffer = p.vram.get (cellAt place) := value
      have memory : p.readData.2.vram = p.vram := rfl
      have next (k : Nat) : place + step + k * step = place + (k + 1) * step := by
        rw [Nat.succ_mul]
        omega
      rw [rest, ih (poised.advance rfl (by omega)) (by omega) (Nat.lt_of_succ_lt_succ inside),
        buffer, memory]
      cases k with
      | zero => simp
      | succ k => simp [next]

end Transfer

/-- What has no part in a transfer: sprite memory and its address, mask, scroll, the dot
counter, the vertical blank and the note that a frame is complete. -/
def aside (p : Ppu) : Vector UInt8 256 × Bool × State :=
  (p.oam, p.frameComplete, { p.state with control := 0, status := 0, vramAddress := 0 })

theorem aside_after {accesses : List Access}
    (quiet : ∀ x ∈ accesses, ∀ p, (x.apply p).aside = p.aside) (p : Ppu) : (p.after accesses).aside = p.aside := by
  induction accesses generalizing p with
  | nil => rfl
  | cons x rest ih =>
    obtain ⟨first, others⟩ := List.forall_mem_cons.mp quiet
    exact (ih others _).trans (first p)

theorem aside_seek (a : UInt16) : ∀ x ∈ seek a, ∀ p, (x.apply p).aside = p.aside := by
  intro x member p
  simp only [seek, List.mem_cons, List.not_mem_nil, or_false] at member
  rcases member with rfl | rfl | rfl
  · rfl
  · rfl
  · rfl

theorem aside_store (bytes : List UInt8) : ∀ x ∈ store bytes, ∀ p, (x.apply p).aside = p.aside := by
  intro x member p
  obtain ⟨b, -, rfl⟩ := List.mem_map.mp member
  rfl

theorem aside_fetch (n : Nat) : ∀ x ∈ fetch n, ∀ p, (x.apply p).aside = p.aside := by
  intro x member p
  rw [List.eq_of_mem_replicate member]
  rfl

theorem stride_pos (control : UInt8) : 0 < stride control := by
  rw [stride]
  split <;> decide

/-- Bytes that are stored from a base on are fetched again from the same base. A read of the
palette gives the byte of its own cell, any other the byte before it, and the first the one
that was in the buffer. No other cell of video memory is changed, and at no point of the
transfer anything that has no part in it. -/
theorem data_port_transfer (p : Ppu) (control : UInt8) (a : UInt16) (inside : a < 0x4000)
    (bytes : List UInt8) (room : bytes.length * stride control ≤ 0x4000) :
    let filling := .write 0x2000 control :: seek a ++ store bytes ++ seek a
    let fetching := fetch bytes.length
    let place (k : Nat) := a.toNat + k * stride control
    let answers := (p.after filling).answers fetching
    let memory := (p.after (filling ++ fetching)).vram
    (answers.length = bytes.length ∧
      ∀ k < bytes.length, answers[k]? =
        if 0x3F00 ≤ place k % 0x4000 then bytes[k]?
        else if k = 0 then some p.readBuffer
        else bytes[k - 1]?) ∧
    (∀ k (stored : k < bytes.length), memory.get (cellAt (place k)) = bytes[k]) ∧
    (∀ c, (∀ k < bytes.length, cellAt (place k) ≠ c) → memory.get c = p.vram.get c) ∧
    ∀ begun, begun <+: filling ++ fetching → (p.after begun).aside = p.aside := by
  intro filling fetching place answers memory
  have base : a.toNat < 0x4000 := UInt16.lt_iff_toNat_lt.mp inside
  let ready := p.after (.write 0x2000 control :: seek a)
  have filled : p.after filling = (ready.after (store bytes)).after (seek a) := by
    rw [after_append, after_append]
  have before : ready.Poised a.toNat (stride control) :=
    p.increment_control control ▸ poised_seek _ inside
  have again : (p.after filling).Poised a.toNat (stride control) := by
    rw [filled, ← before.increment, ← increment_store ready bytes]
    exact poised_seek _ inside
  -- seeking touches neither memory nor the buffer
  have held : (p.after filling).vram = (ready.after (store bytes)).vram := by
    rw [filled]
    rfl
  have buffer : (p.after filling).readBuffer = p.readBuffer := by
    rw [filled]
    exact readBuffer_store ready bytes
  have kept : memory = (ready.after (store bytes)).vram := by
    rw [← held]
    exact (congrArg vram (after_append p filling fetching)).trans (vram_fetch _ _)
  obtain ⟨stored, others⟩ := vram_store before (stride_pos control) room (by omega)
  refine ⟨⟨length_fetch _ _, ?_⟩, ?_, ?_, ?_⟩
  · intro k inside
    rw [answers_fetch again (by omega) inside, held, buffer, stored k inside]
    by_cases palette : 0x3F00 ≤ place k % 0x4000
    · rw [if_pos palette, if_pos palette, List.getElem?_eq_getElem inside]
    · rw [if_neg palette, if_neg palette]
      cases k with
      | zero => rfl
      | succ k =>
        have earlier : k < bytes.length := by omega
        simp [stored k earlier, List.getElem?_eq_getElem earlier]
  · intro k inside
    rw [kept]
    exact stored k inside
  · intro c other
    rw [kept]
    exact others c other
  · intro begun first
    refine aside_after (fun x member => ?_) p
    have listed := first.subset member
    simp only [filling, List.mem_append, List.mem_cons] at listed
    rcases listed with (((rfl | sought) | written) | sought) | read
    · exact fun _ => rfl
    · exact aside_seek a x sought
    · exact aside_store bytes x written
    · exact aside_seek a x sought
    · exact aside_fetch _ x read

/-- Three bytes, 32 cells apart, of which the first goes to the end of the palette and the
others over the end of video memory. -/
theorem data_port_transfer_wrapped :
    let filling := .write 0x2000 0x04 :: seek 0x3FE0 ++ store [7, 8, 9] ++ seek 0x3FE0
    let memory := (({} : Ppu).after (filling ++ fetch 3)).vram
    (({} : Ppu).after filling).answers (fetch 3) = [7, 7, 8] ∧
      memory.get 0x00 = 8 ∧ memory.get 0x20 = 9 ∧ memory.get 0x10 = 0 := by
  obtain ⟨⟨length, read⟩, stored, others, -⟩ :=
    data_port_transfer {} 0x04 0x3FE0 (by decide) [7, 8, 9] (by decide)
  refine ⟨List.ext_getElem? fun k => ?_, stored 1 (by decide), stored 2 (by decide), ?_⟩
  · by_cases inside : k < 3
    · have few : k = 0 ∨ k = 1 ∨ k = 2 := by omega
      refine (read k inside).trans ?_
      rcases few with rfl | rfl | rfl <;> decide
    · have past : 3 ≤ k := Nat.le_of_not_lt inside
      exact (List.getElem?_eq_none (length.le.trans past)).trans (List.getElem?_eq_none past).symm
  · refine (others 0x10 ?_).trans (Vector.getElem_replicate _)
    decide

end NesRoutine.Ppu
