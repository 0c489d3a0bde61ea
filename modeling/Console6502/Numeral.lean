namespace Console6502.Numeral

-- Leading zeros stay, so the width is always `count`.
def digits (base : Nat) : (count : Nat) → Nat → List Char
  | 0,_ => []
  | count + 1,n => digits base count (n / base) ++ [(Nat.digitChar (n % base)).toUpper]

def hexByte (byte : UInt8) : String := String.ofList (digits 16 2 byte.toNat)

def hexWord (value : UInt16) : String := String.ofList (digits 16 4 value.toNat)

def binaryByte (byte : UInt8) : String := String.ofList (digits 2 8 byte.toNat)

def decimal (n : Nat) : String := String.ofList (Nat.toDigits 10 n)

end Console6502.Numeral
