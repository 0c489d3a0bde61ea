import Mathlib.Data.Nat.Digits.Defs
import Console6502.Bank

-- Lists of bytes as numbers, the least significant byte first: without a sign, and in two's
-- complement.
namespace Console6502

theorem toNat_decide (holds : Prop) [Decidable holds] :
    (decide holds).toNat = if holds then 1 else 0 := by
  split <;> simp [*]

def littleEndian (bytes : List UInt8) : Nat := Nat.ofDigits 256 (bytes.map UInt8.toNat)

@[simp] theorem littleEndian_nil : littleEndian [] = 0 := rfl

@[simp] theorem littleEndian_cons (byte : UInt8) (rest : List UInt8) :
    littleEndian (byte :: rest) = byte.toNat + 256 * littleEndian rest := by
  rw [littleEndian,List.map_cons,Nat.ofDigits_cons,littleEndian]

theorem littleEndian_reverse_cons (byte : UInt8) (rest : List UInt8) :
    littleEndian (byte :: rest).reverse =
      littleEndian rest.reverse + 256 ^ rest.length * byte.toNat := by
  simp only [littleEndian,List.map_reverse,List.map_cons,Nat.ofDigits_reverse_cons,List.length_map]

theorem toNat_digits (bytes : List UInt8) : ∀ digit ∈ bytes.map UInt8.toNat,digit < 256 := by
  intro digit member
  obtain ⟨byte,_,rfl⟩ := List.mem_map.mp member
  exact byte.toNat_lt

theorem littleEndian_lt (bytes : List UInt8) : littleEndian bytes < 256 ^ bytes.length := by
  have bound := Nat.ofDigits_lt_base_pow_length (by decide : 1 < 256) (toNat_digits bytes)
  rwa [List.length_map] at bound

theorem littleEndian_inj {left right : List UInt8} (length : left.length = right.length)
    (same : littleEndian left = littleEndian right) : left = right := by
  have digits : left.map UInt8.toNat = right.map UInt8.toNat :=
    Nat.ofDigits_inj_of_len_eq (by decide) (by simpa using length) (toNat_digits left)
      (toNat_digits right) same
  exact (List.map_inj_right fun _ _ => UInt8.toNat_inj.mp).mp digits

theorem pow_length_cons (byte : UInt8) (rest : List UInt8) :
    256 ^ (byte :: rest).length = 256 * 256 ^ rest.length := by
  rw [List.length_cons,Nat.pow_succ,Nat.mul_comm]

theorem pow_even {count : Nat} (positive : 0 < count) : 256 ^ count = 2 * (256 ^ count / 2) := by
  obtain ⟨less,rfl⟩ := Nat.exists_eq_add_of_lt positive
  rw [Nat.zero_add,Nat.pow_succ]
  omega

-- The top bit counts negative.
def twosComplement (bytes : List UInt8) : Int :=
  if 2 * littleEndian bytes < 256 ^ bytes.length then littleEndian bytes
  else littleEndian bytes - (256 ^ bytes.length : Nat)

-- The sign is in the last byte, so a byte before it counts as it is.
theorem twosComplement_cons (byte : UInt8) {rest : List UInt8} (more : rest ≠ []) :
    twosComplement (byte :: rest) = byte.toNat + 256 * twosComplement rest := by
  have bound := byte.toNat_lt
  have even := pow_even (List.length_pos_iff.mpr more)
  simp only [twosComplement,littleEndian_cons,pow_length_cons]
  generalize 256 ^ rest.length = whole at even ⊢
  split <;> split <;> omega

def Fits (count : Nat) (value : Int) : Prop :=
  -2 ^ (8 * count - 1) ≤ value ∧ value ≤ 2 ^ (8 * count - 1) - 1

instance (count : Nat) (value : Int) : Decidable (Fits count value) :=
  inferInstanceAs (Decidable (_ ∧ _))

theorem fits_iff {count : Nat} (positive : 0 < count) {value : Int} :
    Fits count value ↔ -(256 ^ count : Nat) ≤ 2 * value ∧ 2 * value < (256 ^ count : Nat) := by
  have half : (256 ^ count : Nat) = 2 * 2 ^ (8 * count - 1) := by
    rw [← Nat.pow_succ',show (256 : Nat) = 2 ^ 8 from rfl,← Nat.pow_mul]
    congr 1
    omega
  have cast : ((2 ^ (8 * count - 1) : Nat) : Int) = 2 ^ (8 * count - 1) := by push_cast; rfl
  unfold Fits
  rw [half,← cast]
  omega

theorem fits_cons {count : Nat} (positive : 0 < count) (byte : UInt8) (value : Int) :
    Fits (count + 1) (byte.toNat + 256 * value) ↔ Fits count value := by
  have bound := byte.toNat_lt
  have even := pow_even positive
  rw [fits_iff (Nat.succ_pos count),fits_iff positive,Nat.pow_succ]
  generalize 256 ^ count = whole at even ⊢
  omega

theorem toNat_lowered (byte : UInt8) : (255 - byte).toNat = 255 - byte.toNat :=
  UInt8.toNat_sub_of_le _ _ (UInt8.le_iff_toNat_le.mpr (Nat.le_of_lt_succ byte.toNat_lt))

def complement (bytes : List UInt8) : List UInt8 := bytes.map (255 - ·)

theorem complement_length (bytes : List UInt8) : (complement bytes).length = bytes.length :=
  List.length_map _

theorem littleEndian_complement (bytes : List UInt8) :
    littleEndian (complement bytes) + littleEndian bytes + 1 = 256 ^ bytes.length := by
  induction bytes with
  | nil => rfl
  | cons byte rest ih =>
    have bound := byte.toNat_lt
    rw [pow_length_cons,← ih,complement,List.map_cons,littleEndian_cons,littleEndian_cons,toNat_lowered,
      complement]
    omega

theorem twosComplement_complement {bytes : List UInt8} (more : bytes ≠ []) :
    twosComplement (complement bytes) = -1 - twosComplement bytes := by
  have total := littleEndian_complement bytes
  have even := pow_even (List.length_pos_iff.mpr more)
  simp only [twosComplement,complement_length]
  generalize 256 ^ bytes.length = whole at total even ⊢
  split <;> split <;> omega

end Console6502
