import Console6502.Bank
import Console6502.Region

namespace Console6502.CommandLine

-- Stores 0x10 + 0x05 at 0x0200 and counts X once around:
-- LDX #$00, CLC, LDA #$10, ADC #$05, STA $0200, INX, BNE -3, BRK.
def demoProgram : Array UInt8 :=
  #[0xA2,0x00,0x18,0xA9,0x10,0x69,0x05,0x8D,0x00,0x02,0xE8,0xD0,0xFD,0x00]

def demoRom : Array UInt8 :=
  Array.ofFn fun place : Fin (2 ^ romWidth) =>
    if place.val = 0x7FFD then 0x80 else demoProgram.getD place.val 0

end Console6502.CommandLine
