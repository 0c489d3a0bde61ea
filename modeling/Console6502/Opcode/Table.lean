import Console6502.Opcode.Instruction
import Console6502.Opcode.Mode

namespace Console6502

structure Opcode where
  instruction : Instruction
  mode : Mode
  deriving DecidableEq

def Opcode.length (opcode : Opcode) : UInt16 := 1 + opcode.mode.operandLength

def Instruction.forms : Instruction → List (UInt8 × Mode)
  | .adc => [(0x69,.immediate),(0x65,.zeroPage),(0x75,.zeroPageX),(0x6D,.absolute),
    (0x7D,.absoluteX),(0x79,.absoluteY),(0x61,.indexedIndirect),(0x71,.indirectIndexed)]
  | .and => [(0x29,.immediate),(0x25,.zeroPage),(0x35,.zeroPageX),(0x2D,.absolute),
    (0x3D,.absoluteX),(0x39,.absoluteY),(0x21,.indexedIndirect),(0x31,.indirectIndexed)]
  | .asl => [(0x06,.zeroPage),(0x16,.zeroPageX),(0x0E,.absolute),(0x1E,.absoluteX),
    (0x0A,.accumulator)]
  | .bcc => [(0x90,.relative)]
  | .bcs => [(0xB0,.relative)]
  | .beq => [(0xF0,.relative)]
  | .bit => [(0x24,.zeroPage),(0x2C,.absolute)]
  | .bmi => [(0x30,.relative)]
  | .bne => [(0xD0,.relative)]
  | .bpl => [(0x10,.relative)]
  | .brk => [(0x00,.implied)]
  | .bvc => [(0x50,.relative)]
  | .bvs => [(0x70,.relative)]
  | .clc => [(0x18,.implied)]
  | .cld => [(0xD8,.implied)]
  | .cli => [(0x58,.implied)]
  | .clv => [(0xB8,.implied)]
  | .cmp => [(0xC9,.immediate),(0xC5,.zeroPage),(0xD5,.zeroPageX),(0xCD,.absolute),
    (0xDD,.absoluteX),(0xD9,.absoluteY),(0xC1,.indexedIndirect),(0xD1,.indirectIndexed)]
  | .cpx => [(0xE0,.immediate),(0xE4,.zeroPage),(0xEC,.absolute)]
  | .cpy => [(0xC0,.immediate),(0xC4,.zeroPage),(0xCC,.absolute)]
  | .dec => [(0xC6,.zeroPage),(0xD6,.zeroPageX),(0xCE,.absolute),(0xDE,.absoluteX)]
  | .dex => [(0xCA,.implied)]
  | .dey => [(0x88,.implied)]
  | .eor => [(0x49,.immediate),(0x45,.zeroPage),(0x55,.zeroPageX),(0x4D,.absolute),
    (0x5D,.absoluteX),(0x59,.absoluteY),(0x41,.indexedIndirect),(0x51,.indirectIndexed)]
  | .inc => [(0xE6,.zeroPage),(0xF6,.zeroPageX),(0xEE,.absolute),(0xFE,.absoluteX)]
  | .inx => [(0xE8,.implied)]
  | .iny => [(0xC8,.implied)]
  | .jmp => [(0x4C,.absolute),(0x6C,.indirect)]
  | .jsr => [(0x20,.absolute)]
  | .lda => [(0xA9,.immediate),(0xA5,.zeroPage),(0xB5,.zeroPageX),(0xAD,.absolute),
    (0xBD,.absoluteX),(0xB9,.absoluteY),(0xA1,.indexedIndirect),(0xB1,.indirectIndexed)]
  | .ldx => [(0xA2,.immediate),(0xA6,.zeroPage),(0xB6,.zeroPageY),(0xAE,.absolute),
    (0xBE,.absoluteY)]
  | .ldy => [(0xA0,.immediate),(0xA4,.zeroPage),(0xB4,.zeroPageX),(0xAC,.absolute),
    (0xBC,.absoluteX)]
  | .lsr => [(0x46,.zeroPage),(0x56,.zeroPageX),(0x4E,.absolute),(0x5E,.absoluteX),
    (0x4A,.accumulator)]
  | .nop => [(0xEA,.implied)]
  | .ora => [(0x09,.immediate),(0x05,.zeroPage),(0x15,.zeroPageX),(0x0D,.absolute),
    (0x1D,.absoluteX),(0x19,.absoluteY),(0x01,.indexedIndirect),(0x11,.indirectIndexed)]
  | .pha => [(0x48,.implied)]
  | .php => [(0x08,.implied)]
  | .pla => [(0x68,.implied)]
  | .plp => [(0x28,.implied)]
  | .rol => [(0x26,.zeroPage),(0x36,.zeroPageX),(0x2E,.absolute),(0x3E,.absoluteX),
    (0x2A,.accumulator)]
  | .ror => [(0x66,.zeroPage),(0x76,.zeroPageX),(0x6E,.absolute),(0x7E,.absoluteX),
    (0x6A,.accumulator)]
  | .rti => [(0x40,.implied)]
  | .rts => [(0x60,.implied)]
  | .sbc => [(0xE9,.immediate),(0xE5,.zeroPage),(0xF5,.zeroPageX),(0xED,.absolute),
    (0xFD,.absoluteX),(0xF9,.absoluteY),(0xE1,.indexedIndirect),(0xF1,.indirectIndexed)]
  | .sec => [(0x38,.implied)]
  | .sed => [(0xF8,.implied)]
  | .sei => [(0x78,.implied)]
  | .sta => [(0x85,.zeroPage),(0x95,.zeroPageX),(0x8D,.absolute),(0x9D,.absoluteX),
    (0x99,.absoluteY),(0x81,.indexedIndirect),(0x91,.indirectIndexed)]
  | .stx => [(0x86,.zeroPage),(0x96,.zeroPageY),(0x8E,.absolute)]
  | .sty => [(0x84,.zeroPage),(0x94,.zeroPageX),(0x8C,.absolute)]
  | .tax => [(0xAA,.implied)]
  | .tay => [(0xA8,.implied)]
  | .tsx => [(0xBA,.implied)]
  | .txa => [(0x8A,.implied)]
  | .txs => [(0x9A,.implied)]
  | .tya => [(0x98,.implied)]

namespace Opcode

def documented : List (UInt8 × Opcode) :=
  Instruction.all.flatMap fun instruction =>
    instruction.forms.map fun form => (form.1,⟨instruction,form.2⟩)

-- Laid out by byte, so that looking one up costs one access.
def table : Vector (Option Opcode) 256 := Vector.ofFn fun byte => documented.lookup byte.val.toUInt8

end Opcode

def decode (byte : UInt8) : Option Opcode :=
  have := byte.toNat_lt
  Opcode.table[byte.toNat]

end Console6502
