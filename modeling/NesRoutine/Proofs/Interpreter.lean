import NesRoutine.Hardware
import NesRoutine.Instruction

/-! The processor as its manual describes it: what each instruction does to the
registers, the flags and the bus. An operand is reached by the low and the high
byte of its pointer, is read once and then written once. There is no decimal
mode. Compiled units are measured against this interpreter: all it shares with
them is how the hardware reads and writes its bus, registers and flags. -/
namespace NesRoutine.Interpreter

/-- A part of an instruction, acting on the hardware. -/
abbrev Machine := StateM Hardware

namespace Machine

def read (address : UInt16) : Machine UInt8 := modifyGet (·.read address)

def write (address : UInt16) (value : UInt8) : Machine Unit := modify (·.write address value)

def register (r : Register) : Machine UInt8 := do return (← get).register r

def setRegister (r : Register) (value : UInt8) : Machine Unit := modify (·.setRegister r value)

def flag (f : Flag) : Machine Bool := do return (← get).flag f

def setFlag (f : Flag) (on : Bool) : Machine Unit := modify (·.setFlag f on)

def status : Machine UInt8 := do return (← get).status.bits

def setStatus (bits : UInt8) : Machine Unit := modify (·.setStatus ⟨bits⟩)

def pc : Machine UInt16 := do return (← get).pc

def setPc (address : UInt16) : Machine Unit := modify (·.setPc address)

section Apply
variable (h : Hardware)

@[simp] theorem pure_apply (a : α) : (pure a : Machine α) h = (a, h) := rfl

@[simp] theorem bind_apply (m : Machine α) (f : α → Machine β) :
    (m >>= f) h = f (m h).1 (m h).2 := rfl

@[simp] theorem modify_apply (f : Hardware → Hardware) : (modify f : Machine Unit) h = ((), f h) :=
  rfl

@[simp] theorem read_apply (address : UInt16) : read address h = h.read address := rfl

@[simp] theorem write_apply (address : UInt16) (value : UInt8) :
    write address value h = ((), h.write address value) := rfl

@[simp] theorem register_apply (r : Register) : register r h = (h.register r, h) := rfl

@[simp] theorem setRegister_apply (r : Register) (value : UInt8) :
    setRegister r value h = ((), h.setRegister r value) := rfl

@[simp] theorem flag_apply (f : Flag) : flag f h = (h.flag f, h) := rfl

@[simp] theorem setFlag_apply (f : Flag) (on : Bool) : setFlag f on h = ((), h.setFlag f on) := rfl

@[simp] theorem status_apply : status h = (h.status.bits, h) := rfl

@[simp] theorem setStatus_apply (bits : UInt8) : setStatus bits h = ((), h.setStatus ⟨bits⟩) := rfl

@[simp] theorem pc_apply : pc h = (h.pc, h) := rfl

@[simp] theorem setPc_apply (address : UInt16) : setPc address h = ((), h.setPc address) := rfl

end Apply

/-- The stack is page 1; it grows downward. -/
def push (value : UInt8) : Machine Unit := do
  let sp ← register .sp
  write (0x0100 + sp.toUInt16) value
  setRegister .sp (sp - 1)

def pull : Machine UInt8 := do
  let sp ← register .sp
  setRegister .sp (sp + 1)
  read (0x0100 + (sp + 1).toUInt16)

def pushWord (value : UInt16) : Machine Unit := do
  push (highByte value)
  push (lowByte value)

def pullWord : Machine UInt16 := do
  let lo ← pull
  let hi ← pull
  return word lo hi

/-- Z and N describe a result. -/
def describe (value : UInt8) : Machine Unit := do
  setFlag .zero (decide (value = 0))
  setFlag .negative (decide (0x80 ≤ value))

/-- The address a zero page pointer holds. The pointer does not leave its page. -/
def pointer (p : UInt8) : Machine UInt16 := do
  let lo ← read p.toUInt16
  let hi ← read (p + 1).toUInt16
  return word lo hi

end Machine

open Machine

/-- A byte in two's complement. -/
def signed (b : UInt8) : Int := if b < 0x80 then b.toNat else (b.toNat : Int) - 0x100

/-- Whether a number has no place in a signed byte. -/
def overflows (n : Int) : Bool := decide (n < -0x80 ∨ 0x7F < n)

/-- Where the operand lies in memory. -/
def address (i : Instruction) : Machine UInt16 :=
  match i.mode with
  | .zeroPage => return i.operandByte.toUInt16
  | .zeroPageX => do return (i.operandByte + (← register .x)).toUInt16
  | .zeroPageY => do return (i.operandByte + (← register .y)).toUInt16
  | .absoluteX => do return i.operandWord + (← register .x).toUInt16
  | .absoluteY => do return i.operandWord + (← register .y).toUInt16
  | .indexedIndirect => do pointer (i.operandByte + (← register .x))
  | .indirectIndexed => do
    let index ← register .y
    return (← pointer i.operandByte) + index.toUInt16
  | _ => return i.operandWord

def operand (i : Instruction) : Machine UInt8 :=
  match i.mode with
  | .accumulator | .implied => register .a
  | .immediate | .relative => return i.operandByte
  | _ => do read (← address i)

def load (r : Register) (value : UInt8) : Machine Unit := do
  setRegister r value
  describe value

def store (i : Instruction) (value : UInt8) : Machine Unit := do write (← address i) value

/-- Replaces the operand by what `f` makes of it, in the accumulator or in memory. -/
def update (i : Instruction) (f : UInt8 → Machine UInt8) : Machine Unit :=
  if i.mode = .accumulator then do
    setRegister .a (← f (← register .a))
  else do
    let place ← address i
    let old ← read place
    let new ← f old
    write place new

/-- `A + m + C`. The carry is the ninth bit of the sum; overflow is judged by the
signed sum. -/
def add (m : UInt8) : Machine Unit := do
  let a ← register .a
  let carry := (← flag .carry).toNat
  setFlag .carry (decide (0xFF < a.toNat + m.toNat + carry))
  setFlag .overflow (overflows (signed a + signed m + carry))
  load .a (a + m + UInt8.ofNat carry)

/-- `A - m - (1 - C)`. The carry is set when nothing is borrowed. -/
def subtract (m : UInt8) : Machine Unit := do
  let a ← register .a
  let borrow := (!(← flag .carry)).toNat
  setFlag .carry (decide (m.toNat + borrow ≤ a.toNat))
  setFlag .overflow (overflows (signed a - signed m - borrow))
  load .a (a - m - UInt8.ofNat borrow)

def compare (value m : UInt8) : Machine Unit := do
  setFlag .carry (decide (m ≤ value))
  describe (value - m)

def bitTest (m : UInt8) : Machine Unit := do
  setFlag .zero (decide ((← register .a) &&& m = 0))
  setFlag .negative (m.toNat.testBit 7)
  setFlag .overflow (m.toNat.testBit 6)

/-- Doubles a byte; `low` enters below and the top bit goes to the carry. -/
def shiftUp (low : Bool) (value : UInt8) : Machine UInt8 := do
  let result := UInt8.ofNat (2 * value.toNat + low.toNat)
  setFlag .carry (decide (0x80 ≤ value))
  describe result
  return result

/-- Halves a byte; `high` enters above and the lowest bit goes to the carry. -/
def shiftDown (high : Bool) (value : UInt8) : Machine UInt8 := do
  let result := UInt8.ofNat (value.toNat / 2 + 0x80 * high.toNat)
  setFlag .carry (decide (value.toNat % 2 = 1))
  describe result
  return result

def countTo (value : UInt8) : Machine UInt8 := do
  describe value
  return value

/-- Moves PC by a signed displacement if the flag is as asked. -/
def branch (i : Instruction) (f : Flag) (on : Bool) : Machine Unit := do
  if (← flag f) = on then
    let here ← pc
    setPc (UInt16.ofNat (((here.toNat : Int) + signed i.operandByte) % 0x10000).toNat)

/-- The high byte of an indirect jump comes from the page of the low byte. -/
def jumpIndirect (p : UInt16) : Machine Unit := do
  let lo ← read p
  let hi ← read (word (lowByte p + 1) (highByte p))
  setPc (word lo hi)

/-- The last byte of the call is pushed, one short of where to continue. -/
def call (target : UInt16) : Machine Unit := do
  pushWord ((← pc) - 1)
  setPc target

def returnFromSubroutine : Machine Unit := do setPc ((← pullWord) + 1)

/-- The break bit of a pulled status byte is ignored, and the unused bit is set. -/
def pullStatus : Machine Unit := do setStatus (((← pull) &&& 0xEF) ||| 0x20)

def returnFromInterrupt : Machine Unit := do
  pullStatus
  setPc (← pullWord)

/-- The byte after the opcode is passed over, so PC is pushed as two past it. -/
def softwareInterrupt : Machine Unit := do
  pushWord ((← pc) + 1)
  push ((← status) ||| 0x30)
  setFlag .interruptDisable true
  let lo ← read 0xFFFE
  let hi ← read 0xFFFF
  setPc (word lo hi)

/-- PC is past the instruction when it is executed. -/
def execute (i : Instruction) : Machine Unit :=
  match i.mnemonic with
  | .adc => do add (← operand i)
  | .sbc => do subtract (← operand i)
  | .and => do load .a ((← register .a) &&& (← operand i))
  | .ora => do load .a ((← register .a) ||| (← operand i))
  | .eor => do load .a ((← register .a) ^^^ (← operand i))
  | .asl => update i (shiftUp false)
  | .rol => update i fun m => do shiftUp (← flag .carry) m
  | .lsr => update i (shiftDown false)
  | .ror => update i fun m => do shiftDown (← flag .carry) m
  | .inc => update i fun m => countTo (m + 1)
  | .dec => update i fun m => countTo (m - 1)
  | .bit => do bitTest (← operand i)
  | .bcc => branch i .carry false
  | .bcs => branch i .carry true
  | .bne => branch i .zero false
  | .beq => branch i .zero true
  | .bpl => branch i .negative false
  | .bmi => branch i .negative true
  | .bvc => branch i .overflow false
  | .bvs => branch i .overflow true
  | .clc => setFlag .carry false
  | .sec => setFlag .carry true
  | .cld => setFlag .decimal false
  | .sed => setFlag .decimal true
  | .cli => setFlag .interruptDisable false
  | .sei => setFlag .interruptDisable true
  | .clv => setFlag .overflow false
  | .cmp => do compare (← register .a) (← operand i)
  | .cpx => do compare (← register .x) (← operand i)
  | .cpy => do compare (← register .y) (← operand i)
  | .inx => do load .x ((← register .x) + 1)
  | .iny => do load .y ((← register .y) + 1)
  | .dex => do load .x ((← register .x) - 1)
  | .dey => do load .y ((← register .y) - 1)
  | .lda => do load .a (← operand i)
  | .ldx => do load .x (← operand i)
  | .ldy => do load .y (← operand i)
  | .sta => do store i (← register .a)
  | .stx => do store i (← register .x)
  | .sty => do store i (← register .y)
  | .tax => do load .x (← register .a)
  | .tay => do load .y (← register .a)
  | .txa => do load .a (← register .x)
  | .tya => do load .a (← register .y)
  | .tsx => do load .x (← register .sp)
  | .txs => do setRegister .sp (← register .x)
  | .pha => do push (← register .a)
  | .php => do push ((← status) ||| 0x30)
  | .pla => do load .a (← pull)
  | .plp => pullStatus
  | .nop => return
  | .jmp => if i.mode = .indirect then jumpIndirect i.operandWord else setPc i.operandWord
  | .jsr => call i.operandWord
  | .rts => returnFromSubroutine
  | .rti => returnFromInterrupt
  | .brk => softwareInterrupt

/-- Calls, returns, software interrupts and indirect jumps leave a routine. -/
def leaves (i : Instruction) : Bool :=
  match i.mnemonic with
  | .jsr | .rts | .rti | .brk => true
  | .jmp => decide (i.mode = .indirect)
  | _ => false

/-- How far the interpreter has come. -/
inductive Progress where
  | running (h : Hardware)
  | stopped (h : Hardware)
  | undecodable (cause : DecodeError)
  deriving DecidableEq

/-- Fetches the instruction at PC and executes it. -/
def step (regions : List CodeRegion) (h : Hardware) : Progress :=
  match decodeAt regions h.pc with
  | .error cause => .undecodable cause
  | .ok i =>
    let (_, h) := execute i (h.setPc i.next)
    if leaves i then .stopped h else .running h

/-- Executes up to `n` instructions, stopping after the first that leaves the
routine. -/
def run (regions : List CodeRegion) : Nat → Hardware → Progress
  | 0, h => .running h
  | n + 1, h =>
    match step regions h with
    | .running h => run regions n h
    | outcome => outcome

namespace Machine

/-- The action neither looks at PC nor moves it. -/
def Blind (m : Machine α) : Prop := ∀ h pc, m (h.setPc pc) = ((m h).1, (m h).2.setPc pc)

theorem blind_pure (a : α) : Blind (pure a : Machine α) := fun _ _ => rfl

theorem Blind.bind {m : Machine α} {f : α → Machine β} (first : Blind m)
    (rest : ∀ a, Blind (f a)) : Blind (m >>= f) := by
  intro h pc
  change f (m (h.setPc pc)).1 (m (h.setPc pc)).2 = _
  rw [first h pc, rest]
  rfl

theorem blind_read (address : UInt16) : Blind (read address) := fun _ _ => rfl

theorem blind_write (address : UInt16) (value : UInt8) : Blind (write address value) :=
  fun _ _ => rfl

theorem blind_register (r : Register) : Blind (register r) := by
  intro _ _
  cases r <;> rfl

theorem blind_setRegister (r : Register) (value : UInt8) : Blind (setRegister r value) := by
  intro _ _
  cases r <;> rfl

theorem blind_flag (f : Flag) : Blind (flag f) := fun _ _ => rfl

theorem blind_setFlag (f : Flag) (on : Bool) : Blind (setFlag f on) := fun _ _ => rfl

theorem blind_status : Blind status := fun _ _ => rfl

theorem blind_setStatus (bits : UInt8) : Blind (setStatus bits) := fun _ _ => rfl

theorem blind_push (value : UInt8) : Blind (push value) :=
  (blind_register _).bind fun _ => (blind_write _ _).bind fun _ => blind_setRegister _ _

theorem blind_pull : Blind pull :=
  (blind_register _).bind fun _ => (blind_setRegister _ _).bind fun _ => blind_read _

theorem blind_pullWord : Blind pullWord :=
  blind_pull.bind fun _ => blind_pull.bind fun _ => blind_pure _

/-- Where PC was does not matter once it is set. -/
theorem Blind.setPc {m : Machine α} (blind : Blind m) (f : α → UInt16) (h : Hardware)
    (pc : UInt16) : (do setPc (f (← m))) (h.setPc pc) = (do setPc (f (← m))) h := by
  simp only [bind_apply, blind h pc, setPc_apply]
  rfl

theorem blind_describe (value : UInt8) : Blind (describe value) :=
  (blind_setFlag _ _).bind fun _ => blind_setFlag _ _

theorem blind_pointer (p : UInt8) : Blind (pointer p) :=
  (blind_read _).bind fun _ => (blind_read _).bind fun _ => blind_pure _

end Machine

theorem blind_pullStatus : Blind pullStatus := blind_pull.bind fun _ => blind_setStatus _

theorem blind_address (i : Instruction) : Blind (address i) := by
  simp only [address]
  split
  · exact blind_pure _
  · exact (blind_register _).bind fun _ => blind_pure _
  · exact (blind_register _).bind fun _ => blind_pure _
  · exact (blind_register _).bind fun _ => blind_pure _
  · exact (blind_register _).bind fun _ => blind_pure _
  · exact (blind_register _).bind fun _ => blind_pointer _
  · exact (blind_register _).bind fun _ => (blind_pointer _).bind fun _ => blind_pure _
  · exact blind_pure _

theorem blind_operand (i : Instruction) : Blind (operand i) := by
  simp only [operand]
  split
  · exact blind_register _
  · exact blind_register _
  · exact blind_pure _
  · exact blind_pure _
  · exact (blind_address i).bind fun _ => blind_read _

theorem blind_load (r : Register) (value : UInt8) : Blind (load r value) :=
  (blind_setRegister _ _).bind fun _ => blind_describe _

theorem blind_store (i : Instruction) (value : UInt8) : Blind (store i value) :=
  (blind_address i).bind fun _ => blind_write _ _

theorem blind_add (m : UInt8) : Blind (add m) :=
  (blind_register _).bind fun _ => (blind_flag _).bind fun _ => (blind_setFlag _ _).bind fun _ =>
    (blind_setFlag _ _).bind fun _ => blind_load _ _

theorem blind_subtract (m : UInt8) : Blind (subtract m) :=
  (blind_register _).bind fun _ => (blind_flag _).bind fun _ => (blind_setFlag _ _).bind fun _ =>
    (blind_setFlag _ _).bind fun _ => blind_load _ _

theorem blind_compare (value m : UInt8) : Blind (compare value m) :=
  (blind_setFlag _ _).bind fun _ => blind_describe _

theorem blind_bitTest (m : UInt8) : Blind (bitTest m) :=
  (blind_register _).bind fun _ => (blind_setFlag _ _).bind fun _ =>
    (blind_setFlag _ _).bind fun _ => blind_setFlag _ _

end NesRoutine.Interpreter
