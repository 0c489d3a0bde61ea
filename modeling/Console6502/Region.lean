namespace Console6502

-- Addresses travel as 32-bit words so that an indexed sum can pass 0xFFFF; only the mask brings it
-- back.
def addressMask : UInt32 := 0xFFFF
def placeholderRegister : UInt32 := 0x2000
def stackPage : UInt32 := 0x0100
def interruptVector : UInt32 := 0xFFFA
def resetVector : UInt32 := 0xFFFC
def nonMaskableVector : UInt32 := 0xFFFE

abbrev ramWidth : Nat := 13
abbrev saveRamWidth : Nat := 13
abbrev romWidth : Nat := 15

@[inline] def masked (address : UInt32) : UInt32 := address &&& addressMask

inductive Region where
  | ram
  | placeholder
  | unmapped
  | saveRam
  | rom
  deriving DecidableEq

def Region.ofAddress (address : UInt32) : Region :=
  let place := masked address
  if place < 0x2000 then .ram
  else if place = placeholderRegister then .placeholder
  else if place < 0x6000 then .unmapped
  else if place < 0x8000 then .saveRam
  else .rom

def Region.name : Region → String
  | .ram => "Ram"
  | .placeholder => "Placeholder"
  | .unmapped => "Unmapped"
  | .saveRam => "SaveRam"
  | .rom => "Rom"

end Console6502
