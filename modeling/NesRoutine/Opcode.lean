/-! The 151 documented opcodes: mnemonic, addressing mode and base cycle count. -/
namespace NesRoutine

inductive Mnemonic where
  | adc | and | asl | bcc | bcs | beq | bit | bmi | bne | bpl | brk | bvc | bvs | clc
  | cld | cli | clv | cmp | cpx | cpy | dec | dex | dey | eor | inc | inx | iny | jmp
  | jsr | lda | ldx | ldy | lsr | nop | ora | pha | php | pla | plp | rol | ror | rti
  | rts | sbc | sec | sed | sei | sta | stx | sty | tax | tay | tsx | txa | txs | tya
  deriving DecidableEq, Repr, Inhabited

namespace Mnemonic

def all : List Mnemonic :=
  [adc, and, asl, bcc, bcs, beq, bit, bmi, bne, bpl, brk, bvc, bvs, clc,
   cld, cli, clv, cmp, cpx, cpy, dec, dex, dey, eor, inc, inx, iny, jmp,
   jsr, lda, ldx, ldy, lsr, nop, ora, pha, php, pla, plp, rol, ror, rti,
   rts, sbc, sec, sed, sei, sta, stx, sty, tax, tay, tsx, txa, txs, tya]

def name : Mnemonic → String
  | adc => "ADC" | and => "AND" | asl => "ASL" | bcc => "BCC" | bcs => "BCS" | beq => "BEQ"
  | bit => "BIT" | bmi => "BMI" | bne => "BNE" | bpl => "BPL" | brk => "BRK" | bvc => "BVC"
  | bvs => "BVS" | clc => "CLC" | cld => "CLD" | cli => "CLI" | clv => "CLV" | cmp => "CMP"
  | cpx => "CPX" | cpy => "CPY" | dec => "DEC" | dex => "DEX" | dey => "DEY" | eor => "EOR"
  | inc => "INC" | inx => "INX" | iny => "INY" | jmp => "JMP" | jsr => "JSR" | lda => "LDA"
  | ldx => "LDX" | ldy => "LDY" | lsr => "LSR" | nop => "NOP" | ora => "ORA" | pha => "PHA"
  | php => "PHP" | pla => "PLA" | plp => "PLP" | rol => "ROL" | ror => "ROR" | rti => "RTI"
  | rts => "RTS" | sbc => "SBC" | sec => "SEC" | sed => "SED" | sei => "SEI" | sta => "STA"
  | stx => "STX" | sty => "STY" | tax => "TAX" | tay => "TAY" | tsx => "TSX" | txa => "TXA"
  | txs => "TXS" | tya => "TYA"

/-- Names are read in upper case only. -/
def ofName? (s : String) : Option Mnemonic := all.find? (·.name == s)

theorem all_ctorIdx (m : Mnemonic) : all[m.ctorIdx]? = some m := by cases m <;> rfl

end Mnemonic

inductive AddressingMode where
  | implied
  | accumulator
  | immediate
  | zeroPage
  | zeroPageX
  | zeroPageY
  | relative
  | absolute
  | absoluteX
  | absoluteY
  /-- `JMP ($nnnn)` -/
  | indirect
  /-- `($nn,X)` -/
  | indexedIndirect
  /-- `($nn),Y` -/
  | indirectIndexed
  deriving DecidableEq, Repr, Inhabited

namespace AddressingMode

def all : List AddressingMode :=
  [implied, accumulator, immediate, zeroPage, zeroPageX, zeroPageY, relative, absolute,
   absoluteX, absoluteY, indirect, indexedIndirect, indirectIndexed]

theorem all_ctorIdx (m : AddressingMode) : all[m.ctorIdx]? = some m := by cases m <;> rfl

def name : AddressingMode → String
  | implied => "Implied"
  | accumulator => "Accumulator"
  | immediate => "Immediate"
  | zeroPage => "ZeroPage"
  | zeroPageX => "ZeroPageX"
  | zeroPageY => "ZeroPageY"
  | relative => "Relative"
  | absolute => "Absolute"
  | absoluteX => "AbsoluteX"
  | absoluteY => "AbsoluteY"
  | indirect => "Indirect"
  | indexedIndirect => "IndexedIndirect"
  | indirectIndexed => "IndirectIndexed"

/-- Number of operand bytes after the opcode. -/
def operandLength : AddressingMode → Nat
  | implied | accumulator => 0
  | immediate | zeroPage | zeroPageX | zeroPageY | relative | indexedIndirect
  | indirectIndexed => 1
  | absolute | absoluteX | absoluteY | indirect => 2

end AddressingMode

/-- What an opcode byte stands for. The cycle count leaves out page-cross and
branch-taken penalties. -/
structure Opcode where
  mnemonic : Mnemonic
  mode : AddressingMode
  cycles : UInt8
  deriving DecidableEq, Repr, Inhabited

namespace Opcode

def size (o : Opcode) : Nat := 1 + o.mode.operandLength

/-- Conditional relative branches. -/
def isBranch (o : Opcode) : Bool := o.mode == .relative

def isJump (o : Opcode) : Bool := o.mnemonic == .jmp

/-- An entry of the opcode grid. -/
def op (mnemonic : Mnemonic) (mode : AddressingMode) (cycles : UInt8) : Option Opcode :=
  some ⟨mnemonic, mode, cycles⟩

/-- The opcode grid, indexed by the opcode byte. -/
def grid : Array (Option Opcode) := #[
  op .brk .implied 7, op .ora .indexedIndirect 6, none, none,
  none, op .ora .zeroPage 3, op .asl .zeroPage 5, none,
  op .php .implied 3, op .ora .immediate 2, op .asl .accumulator 2, none,
  none, op .ora .absolute 4, op .asl .absolute 6, none,
  op .bpl .relative 2, op .ora .indirectIndexed 5, none, none,
  none, op .ora .zeroPageX 4, op .asl .zeroPageX 6, none,
  op .clc .implied 2, op .ora .absoluteY 4, none, none,
  none, op .ora .absoluteX 4, op .asl .absoluteX 7, none,
  op .jsr .absolute 6, op .and .indexedIndirect 6, none, none,
  op .bit .zeroPage 3, op .and .zeroPage 3, op .rol .zeroPage 5, none,
  op .plp .implied 4, op .and .immediate 2, op .rol .accumulator 2, none,
  op .bit .absolute 4, op .and .absolute 4, op .rol .absolute 6, none,
  op .bmi .relative 2, op .and .indirectIndexed 5, none, none,
  none, op .and .zeroPageX 4, op .rol .zeroPageX 6, none,
  op .sec .implied 2, op .and .absoluteY 4, none, none,
  none, op .and .absoluteX 4, op .rol .absoluteX 7, none,
  op .rti .implied 6, op .eor .indexedIndirect 6, none, none,
  none, op .eor .zeroPage 3, op .lsr .zeroPage 5, none,
  op .pha .implied 3, op .eor .immediate 2, op .lsr .accumulator 2, none,
  op .jmp .absolute 3, op .eor .absolute 4, op .lsr .absolute 6, none,
  op .bvc .relative 2, op .eor .indirectIndexed 5, none, none,
  none, op .eor .zeroPageX 4, op .lsr .zeroPageX 6, none,
  op .cli .implied 2, op .eor .absoluteY 4, none, none,
  none, op .eor .absoluteX 4, op .lsr .absoluteX 7, none,
  op .rts .implied 6, op .adc .indexedIndirect 6, none, none,
  none, op .adc .zeroPage 3, op .ror .zeroPage 5, none,
  op .pla .implied 4, op .adc .immediate 2, op .ror .accumulator 2, none,
  op .jmp .indirect 5, op .adc .absolute 4, op .ror .absolute 6, none,
  op .bvs .relative 2, op .adc .indirectIndexed 5, none, none,
  none, op .adc .zeroPageX 4, op .ror .zeroPageX 6, none,
  op .sei .implied 2, op .adc .absoluteY 4, none, none,
  none, op .adc .absoluteX 4, op .ror .absoluteX 7, none,
  none, op .sta .indexedIndirect 6, none, none,
  op .sty .zeroPage 3, op .sta .zeroPage 3, op .stx .zeroPage 3, none,
  op .dey .implied 2, none, op .txa .implied 2, none,
  op .sty .absolute 4, op .sta .absolute 4, op .stx .absolute 4, none,
  op .bcc .relative 2, op .sta .indirectIndexed 6, none, none,
  op .sty .zeroPageX 4, op .sta .zeroPageX 4, op .stx .zeroPageY 4, none,
  op .tya .implied 2, op .sta .absoluteY 5, op .txs .implied 2, none,
  none, op .sta .absoluteX 5, none, none,
  op .ldy .immediate 2, op .lda .indexedIndirect 6, op .ldx .immediate 2, none,
  op .ldy .zeroPage 3, op .lda .zeroPage 3, op .ldx .zeroPage 3, none,
  op .tay .implied 2, op .lda .immediate 2, op .tax .implied 2, none,
  op .ldy .absolute 4, op .lda .absolute 4, op .ldx .absolute 4, none,
  op .bcs .relative 2, op .lda .indirectIndexed 5, none, none,
  op .ldy .zeroPageX 4, op .lda .zeroPageX 4, op .ldx .zeroPageY 4, none,
  op .clv .implied 2, op .lda .absoluteY 4, op .tsx .implied 2, none,
  op .ldy .absoluteX 4, op .lda .absoluteX 4, op .ldx .absoluteY 4, none,
  op .cpy .immediate 2, op .cmp .indexedIndirect 6, none, none,
  op .cpy .zeroPage 3, op .cmp .zeroPage 3, op .dec .zeroPage 5, none,
  op .iny .implied 2, op .cmp .immediate 2, op .dex .implied 2, none,
  op .cpy .absolute 4, op .cmp .absolute 4, op .dec .absolute 6, none,
  op .bne .relative 2, op .cmp .indirectIndexed 5, none, none,
  none, op .cmp .zeroPageX 4, op .dec .zeroPageX 6, none,
  op .cld .implied 2, op .cmp .absoluteY 4, none, none,
  none, op .cmp .absoluteX 4, op .dec .absoluteX 7, none,
  op .cpx .immediate 2, op .sbc .indexedIndirect 6, none, none,
  op .cpx .zeroPage 3, op .sbc .zeroPage 3, op .inc .zeroPage 5, none,
  op .inx .implied 2, op .sbc .immediate 2, op .nop .implied 2, none,
  op .cpx .absolute 4, op .sbc .absolute 4, op .inc .absolute 6, none,
  op .beq .relative 2, op .sbc .indirectIndexed 5, none, none,
  none, op .sbc .zeroPageX 4, op .inc .zeroPageX 6, none,
  op .sed .implied 2, op .sbc .absoluteY 4, none, none,
  none, op .sbc .absoluteX 4, op .inc .absoluteX 7, none]

/-- Undocumented opcodes have no entry. -/
def lookup (b : UInt8) : Option Opcode := grid[b.toNat]?.join

/-- Every documented opcode, in ascending byte order. -/
def official : List (UInt8 × Opcode) :=
  (List.range 256).filterMap fun n => (lookup (UInt8.ofNat n)).map (UInt8.ofNat n, ·)

end Opcode
end NesRoutine
