namespace Console6502

inductive Mode where
  | implied
  | accumulator
  | immediate
  | zeroPage
  | zeroPageX
  | zeroPageY
  | absolute
  | absoluteX
  | absoluteY
  | indirect
  | indexedIndirect
  | indirectIndexed
  | relative
  deriving DecidableEq

namespace Mode

def all : List Mode :=
  [.implied,.accumulator,.immediate,.zeroPage,.zeroPageX,.zeroPageY,.absolute,.absoluteX,.absoluteY,
    .indirect,.indexedIndirect,.indirectIndexed,.relative]

def operandLength : Mode → UInt16
  | .implied | .accumulator => 0
  | .immediate | .zeroPage | .zeroPageX | .zeroPageY => 1
  | .indexedIndirect | .indirectIndexed | .relative => 1
  | .absolute | .absoluteX | .absoluteY | .indirect => 2

def name : Mode → String
  | .implied => "Implied"
  | .accumulator => "Accumulator"
  | .immediate => "Immediate"
  | .zeroPage => "ZeroPage"
  | .zeroPageX => "ZeroPageX"
  | .zeroPageY => "ZeroPageY"
  | .absolute => "Absolute"
  | .absoluteX => "AbsoluteX"
  | .absoluteY => "AbsoluteY"
  | .indirect => "Indirect"
  | .indexedIndirect => "IndexedIndirect"
  | .indirectIndexed => "IndirectIndexed"
  | .relative => "Relative"

end Mode

end Console6502
