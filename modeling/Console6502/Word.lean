namespace Console6502

def word (low high : UInt8) : UInt16 := (high.toUInt16 <<< 8) ||| low.toUInt16

def lowByte (value : UInt16) : UInt8 := value.toUInt8

def highByte (value : UInt16) : UInt8 := (value >>> 8).toUInt8

theorem toNat_word (low high : UInt8) : (word low high).toNat = low.toNat + 256 * high.toNat := by
  have bound := high.toNat_lt
  have small : low.toNat < 2 ^ 8 := low.toNat_lt
  have shifted : (high.toUInt16 <<< 8).toNat = 2 ^ 8 * high.toNat := by
    simp [UInt16.toNat_shiftLeft,Nat.shiftLeft_eq]
    omega
  rw [word,UInt16.toNat_or,shifted,UInt8.toNat_toUInt16,← Nat.two_pow_add_eq_or_of_lt small]
  omega

@[simp] theorem lowByte_word (low high : UInt8) : lowByte (word low high) = low := by
  have := low.toNat_lt
  apply UInt8.toNat_inj.mp
  simp [lowByte,toNat_word]

@[simp] theorem highByte_word (low high : UInt8) : highByte (word low high) = high := by
  have := low.toNat_lt
  have := high.toNat_lt
  apply UInt8.toNat_inj.mp
  simp [highByte,toNat_word,Nat.shiftRight_eq_div_pow]
  omega

@[simp] theorem word_bytes (value : UInt16) : word (lowByte value) (highByte value) = value := by
  have := value.toNat_lt
  apply UInt16.toNat_inj.mp
  simp [toNat_word,lowByte,highByte,Nat.shiftRight_eq_div_pow]
  omega

end Console6502
