import Console6502.Bank
import Console6502.Numeral
import Mathlib.Data.Nat.Log

-- Numerals in place notation, each digit told by a quotient and a remainder.
namespace Console6502.Numeral

def digit (k : Nat) : Char :=
  ['0','1','2','3','4','5','6','7','8','9','A','B','C','D','E','F'].getD k '0'

-- From the left, the digits stand for falling powers of the base.
def places (base width n : Nat) : List Char :=
  (List.range width).map fun i => digit (n / base ^ (width - 1 - i) % base)

def positional (base width n : Nat) : String := String.ofList (places base width n)

def plain (n : Nat) : String := positional 10 (Nat.log 10 n + 1) n

theorem places_succ (base width n : Nat) :
    places base (width + 1) n = places base width (n / base) ++ [digit (n % base)] := by
  have last : n / base ^ (width + 1 - 1 - width) % base = n % base := by
    rw [Nat.add_sub_cancel,Nat.sub_self,Nat.pow_zero,Nat.div_one]
  rw [places,List.range_succ,List.map_append,List.map_singleton,last]
  congr 1
  apply List.map_congr_left
  intro i member
  have inside : i < width := List.mem_range.mp member
  have power : width + 1 - 1 - i = (width - 1 - i) + 1 := by omega
  rw [power,Nat.pow_succ',← Nat.div_div_eq_div_mul]

theorem toUpper_digitChar : ∀ k : Fin 16,(Nat.digitChar k).toUpper = digit k := by decide +kernel

theorem digitChar_eq : ∀ k : Fin 10,Nat.digitChar k = digit k := by decide

theorem digits_eq {base : Nat} (positive : 0 < base) (small : base ≤ 16) (width n : Nat) :
    digits base width n = places base width n := by
  induction width generalizing n with
  | zero => rfl
  | succ width ih =>
    have inside : n % base < 16 := Nat.lt_of_lt_of_le (Nat.mod_lt n positive) small
    rw [digits,places_succ,ih,toUpper_digitChar ⟨n % base,inside⟩]

theorem toDigits_eq (n : Nat) : Nat.toDigits 10 n = places 10 (Nat.log 10 n + 1) n := by
  induction n using Nat.strong_induction_on with
  | h n ih =>
    have last : Nat.digitChar (n % 10) = digit (n % 10) := digitChar_eq ⟨n % 10,Nat.mod_lt n (by decide)⟩
    rw [places_succ,← last]
    rcases Nat.lt_or_ge n 10 with short | long
    · rw [Nat.toDigits_of_lt_base short,Nat.log_of_lt short,Nat.mod_eq_of_lt short]
      rfl
    · rw [Nat.toDigits_of_base_le (by decide) long,Nat.log_of_one_lt_of_le (by decide) long,
        ih (n / 10) (Nat.div_lt_self (by omega) (by decide))]

theorem hexByte_eq (byte : UInt8) : hexByte byte = positional 16 2 byte.toNat := by
  rw [hexByte,digits_eq (by decide) (by decide),positional]

theorem hexWord_eq (value : UInt16) : hexWord value = positional 16 4 value.toNat := by
  rw [hexWord,digits_eq (by decide) (by decide),positional]

theorem binaryByte_eq (byte : UInt8) : binaryByte byte = positional 2 8 byte.toNat := by
  rw [binaryByte,digits_eq (by decide) (by decide),positional]

theorem decimal_eq (n : Nat) : decimal n = plain n := by
  rw [decimal,toDigits_eq,plain,positional]

end Console6502.Numeral
