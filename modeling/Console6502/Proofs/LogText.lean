import Mathlib.Data.List.Nodup
import Console6502.Event
import Console6502.Proofs.Step

-- A log line shows everything of its event: bytes, words and mnemonics have fixed widths, so
-- no two events of a run have the same text at the same level.
namespace Console6502

structure FixedWidth {α : Type} (text : α → String) (width : Nat) : Prop where
  length : ∀ a,(text a).toList.length = width
  inj : ∀ {a b},text a = text b → a = b

theorem FixedWidth.append {α : Type} {text : α → String} {width : Nat} (fixed : FixedWidth text width)
    {a b : α} {left right : List Char} :
    (text a).toList ++ left = (text b).toList ++ right ↔ a = b ∧ left = right := by
  constructor
  · intro same
    obtain ⟨shown,rest⟩ := List.append_inj same ((fixed.length a).trans (fixed.length b).symm)
    exact ⟨fixed.inj (String.toList_inj.mp shown),rest⟩
  · rintro ⟨rfl,rfl⟩
    rfl

namespace Numeral

theorem length_digits (base count n : Nat) : (digits base count n).length = count := by
  induction count generalizing n with
  | zero => rfl
  | succ count ih => rw [digits,List.length_append,ih,List.length_singleton]

theorem digit_inj : ∀ i j : Fin 16,(Nat.digitChar i).toUpper = (Nat.digitChar j).toUpper → i = j := by
  decide +kernel

theorem digits_inj {count n k : Nat} (small : n < 16 ^ count) (other : k < 16 ^ count)
    (same : digits 16 count n = digits 16 count k) : n = k := by
  induction count generalizing n k with
  | zero => omega
  | succ count ih =>
    obtain ⟨high,low⟩ := List.append_inj' same rfl
    rw [Nat.pow_succ'] at small other
    have upper := ih (Nat.div_lt_of_lt_mul small) (Nat.div_lt_of_lt_mul other) high
    have lower := digit_inj ⟨n % 16,Nat.mod_lt n (by decide)⟩ ⟨k % 16,Nat.mod_lt k (by decide)⟩
      (List.singleton_inj.mp low)
    have digit : n % 16 = k % 16 := congrArg Fin.val lower
    omega

theorem fixed_digits {α : Type} {number : α → Nat} {count : Nat} (small : ∀ a,number a < 16 ^ count)
    (exact : ∀ {a b},number a = number b → a = b) :
    FixedWidth (fun a => String.ofList (digits 16 count (number a))) count where
  length a := by rw [String.toList_ofList,length_digits]
  inj {a b} same := exact (digits_inj (small a) (small b) (String.ofList_injective same))

theorem fixed_hexByte : FixedWidth hexByte 2 := fixed_digits UInt8.toNat_lt UInt8.toNat_inj.mp

theorem fixed_hexWord : FixedWidth hexWord 4 := fixed_digits UInt16.toNat_lt UInt16.toNat_inj.mp

end Numeral

theorem Instruction.fixed_mnemonic : FixedWidth Instruction.mnemonic 3 where
  length instruction := by cases instruction <;> rfl
  inj {a b} same := by
    have distinct : (Instruction.all.map Instruction.mnemonic).Nodup := by decide +kernel
    exact List.inj_on_of_nodup_map distinct a.mem_all b.mem_all same

namespace Event

def line (event : Event) : Level × String := (event.level,event.text)

-- The events of a console that is ready: a line does not show the ready flag, and it shows 16
-- bits of an address.
def Readable : Event → Prop
  | .executing _ _ before => before.ready = true
  | .discarded _ address => address.toNat < 65536
  | .undocumented _ _ | .halting _ => True
  | .poweredOn _ | .resetTo _ => False

open Numeral

theorem executing_inj {byte other : UInt8} {instruction second : Instruction} {r s : Registers}
    (ready : r.ready = s.ready)
    (same : (executing byte instruction r).text = (executing other second s).text) :
    executing byte instruction r = executing other second s := by
  unfold text at same
  rw [← String.toList_inj] at same
  simp only [String.toList_append,List.append_assoc,fixed_hexWord.append,fixed_hexByte.append,
    Instruction.fixed_mnemonic.append,List.append_right_inj,String.toList_inj] at same
  obtain ⟨pc,rfl,rfl,a,x,y,p,sp⟩ := same
  have status : r.p = s.p := congrArg Status.mk p
  have last : r.sp = s.sp := fixed_hexByte.inj sp
  cases r
  cases s
  cases pc; cases a; cases x; cases y; cases status; cases last; cases ready
  rfl

theorem discarded_inj {value second : UInt8} {address other : UInt32} (small : address.toNat < 65536)
    (far : other.toNat < 65536)
    (same : (discarded value address).text = (discarded second other).text) :
    discarded value address = discarded second other := by
  unfold text at same
  rw [← String.toList_inj] at same
  simp only [String.toList_append,List.append_assoc,fixed_hexWord.append,fixed_hexByte.append,
    List.append_right_inj] at same
  obtain ⟨rfl,shown,_⟩ := same
  rw [masked_of_lt small,masked_of_lt far,← UInt16.toNat_inj,UInt32.toNat_toUInt16,
    UInt32.toNat_toUInt16,Nat.mod_eq_of_lt small,Nat.mod_eq_of_lt far,UInt32.toNat_inj] at shown
  rw [shown]

theorem undocumented_inj {byte other : UInt8} {pc second : UInt16}
    (same : (undocumented byte pc).text = (undocumented other second).text) :
    undocumented byte pc = undocumented other second := by
  unfold text at same
  rw [← String.toList_inj] at same
  simp only [String.toList_append,List.append_assoc,fixed_hexByte.append,List.append_right_inj,
    String.toList_inj] at same
  rw [same.1,fixed_hexWord.inj same.2]

theorem halting_inj {pc second : UInt16} (same : (halting pc).text = (halting second).text) :
    halting pc = halting second := by
  unfold text at same
  rw [← String.toList_inj] at same
  simp only [String.toList_append,List.append_assoc,fixed_hexWord.append,List.append_right_inj,
    and_true] at same
  rw [same]

theorem executing_ne_discarded (byte value : UInt8) (instruction : Instruction) (r : Registers)
    (address : UInt32) :
    (executing byte instruction r).text ≠ (discarded value address).text := by
  intro same
  unfold text at same
  have fifth := congrArg (fun shown : String => shown.toList[4]?) same
  simp only [String.toList_append,List.append_assoc] at fifth
  rw [List.getElem?_append_right (Nat.le_of_eq (fixed_hexWord.length _)),fixed_hexWord.length] at fifth
  cases fifth

theorem line_inj {left right : Event} (readable : left.Readable) (other : right.Readable)
    (same : left.line = right.line) : left = right := by
  obtain ⟨level,shown⟩ := Prod.mk.inj same
  cases left with
  | executing byte instruction r =>
    cases right with
    | executing => exact executing_inj (Eq.trans readable (Eq.symm other)) shown
    | discarded => exact absurd shown (executing_ne_discarded _ _ _ _ _)
    | poweredOn => exact absurd other id
    | _ => cases level
  | discarded =>
    cases right with
    | executing => exact absurd shown.symm (executing_ne_discarded _ _ _ _ _)
    | discarded => exact discarded_inj readable other shown
    | poweredOn => exact absurd other id
    | _ => cases level
  | undocumented =>
    cases right with
    | undocumented => exact undocumented_inj shown
    | _ => cases level
  | halting =>
    cases right with
    | halting => exact halting_inj shown
    | poweredOn | resetTo => exact absurd other id
    | _ => cases level
  | poweredOn | resetTo => exact absurd readable id

end Event

end Console6502
