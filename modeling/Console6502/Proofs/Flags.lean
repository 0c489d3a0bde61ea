import Console6502.Arithmetic

-- The eight flags one by one: what each operation on the status byte leaves in every flag.
namespace Console6502

theorem getLsbD_seven (value : UInt8) : value.toBitVec.getLsbD 7 = decide (128 ≤ value.toNat) := by
  rw [← BitVec.msb_eq_getLsbD_last (x := value.toBitVec),BitVec.msb_eq_decide]
  rfl

theorem toNat_and_seven (index : UInt8) : (index &&& 7).toNat = index.toNat % 8 := by
  rw [UInt8.toNat_and]
  exact Nat.and_two_pow_sub_one_eq_mod index.toNat 3

theorem Flag.index_lt (flag : Flag) : flag.index.toNat < 8 := by cases flag <;> decide

theorem Flag.index_inj {flag other : Flag} : flag.index = other.index ↔ flag = other := by
  cases flag <;> cases other <;> decide

theorem Flag.exists_index {i : Nat} (inside : i < 8) : ∃ flag : Flag,flag.index.toNat = i :=
  match i,inside with
  | 0,_ => ⟨.carry,rfl⟩
  | 1,_ => ⟨.zero,rfl⟩
  | 2,_ => ⟨.interruptDisable,rfl⟩
  | 3,_ => ⟨.decimal,rfl⟩
  | 4,_ => ⟨.breakMark,rfl⟩
  | 5,_ => ⟨.unused,rfl⟩
  | 6,_ => ⟨.overflow,rfl⟩
  | 7,_ => ⟨.negative,rfl⟩

namespace Status

theorem has_eq (s : Status) (flag : Flag) : s.has flag = s.byte.toBitVec.getLsbD flag.index.toNat := by
  have mask : flag.mask.toBitVec = BitVec.twoPow 8 flag.index.toNat := by cases flag <;> rfl
  have single : (s.byte &&& flag.mask).toBitVec =
      if s.byte.toBitVec.getLsbD flag.index.toNat then BitVec.twoPow 8 flag.index.toNat else 0#8 := by
    rw [UInt8.toBitVec_and,mask,BitVec.and_twoPow]
  have nonzero : BitVec.twoPow 8 flag.index.toNat ≠ 0#8 := by cases flag <;> decide
  rw [has,any,Bool.eq_iff_iff,bne_iff_ne,Ne,← UInt8.toBitVec_inj,single]
  cases s.byte.toBitVec.getLsbD flag.index.toNat with
  | true => exact iff_of_true nonzero rfl
  | false => exact iff_of_false (fun absurd => absurd rfl) Bool.false_ne_true

theorem has_assign (s : Status) (mask : UInt8) (on : Bool) (flag : Flag) :
    (s.assign mask on).has flag = if (⟨mask⟩ : Status).has flag then on else s.has flag := by
  have inside := flag.index_lt
  simp only [has_eq]
  cases on with
  | true =>
    simp only [assign,if_true,UInt8.toBitVec_or,BitVec.getLsbD_or]
    grind
  | false =>
    simp only [assign,Bool.false_eq_true,if_false,UInt8.toBitVec_and,UInt8.toBitVec_not,
      BitVec.getLsbD_and,BitVec.getLsbD_not]
    grind

@[simp] theorem has_put (s : Status) (flag other : Flag) (on : Bool) :
    (s.put flag on).has other = if flag = other then on else s.has other := by
  have bits : (⟨flag.mask⟩ : Status).has other = decide (flag = other) := by
    cases flag <;> cases other <;> rfl
  rw [put,has_assign,bits]
  simp only [decide_eq_true_eq]

theorem getLsbD_placed (value index : UInt8) (i : Nat) :
    ((value &&& 1) <<< (index &&& 7)).toBitVec.getLsbD i =
      (decide (i = (index &&& 7).toNat) && value.toBitVec.getLsbD 0) := by
  have small : (index &&& 7).toNat < 8 := by
    rw [toNat_and_seven]
    exact Nat.mod_lt _ (by decide)
  generalize index &&& 7 = place at small ⊢
  have amount : (place.toBitVec % 8).toNat = place.toNat := Nat.mod_eq_of_lt small
  have lowest (k : Nat) :
      (value &&& 1).toBitVec.getLsbD k = (value.toBitVec.getLsbD k && decide (k = 0)) := by
    rw [UInt8.toBitVec_and,BitVec.getLsbD_and,UInt8.toBitVec_ofNat,BitVec.getLsbD_one]
    rfl
  rw [UInt8.toBitVec_shiftLeft,BitVec.shiftLeft_eq',BitVec.getLsbD_shiftLeft,amount,lowest]
  grind

theorem has_withBit (s : Status) (index value : UInt8) (flag : Flag) :
    (s.withBit index value).has flag =
      if index &&& 7 = flag.index then value.toBitVec.getLsbD 0 else s.has flag := by
  have inside := flag.index_lt
  have marked := getLsbD_placed 1 index flag.index.toNat
  have placed := getLsbD_placed value index flag.index.toNat
  have here : index &&& 7 = flag.index ↔ flag.index.toNat = (index &&& 7).toNat := by
    rw [← UInt8.toNat_inj,eq_comm]
  rw [show (1 : UInt8) &&& 1 = 1 from rfl] at marked
  simp only [has_eq,withBit,UInt8.toBitVec_or,UInt8.toBitVec_and,UInt8.toBitVec_not,
    BitVec.getLsbD_or,BitVec.getLsbD_and,BitVec.getLsbD_not,marked,placed,here]
  split
  · rename_i same
    simp [same]
  · rename_i other
    simp only [other,inside,decide_true,decide_false,Bool.false_and,Bool.not_false,Bool.and_true,
      Bool.or_false]

theorem getLsbD_top (value : UInt8) : (value >>> 7).toBitVec.getLsbD 0 = decide (128 ≤ value.toNat) := by
  have low : (value >>> 7).toBitVec.getLsbD 0 = decide ((value >>> 7).toNat % 2 = 1) :=
    Nat.testBit_zero _
  have moved : (value >>> 7).toNat = value.toNat / 128 := by
    simp [UInt8.toNat_shiftRight,Nat.shiftRight_eq_div_pow]
  have bound := value.toNat_lt
  rw [low,moved,decide_eq_decide]
  omega

@[simp] theorem has_withNegative (s : Status) (result : UInt8) (flag : Flag) :
    (s.withNegative result).has flag =
      if flag = .negative then decide (128 ≤ result.toNat) else s.has flag := by
  have place : Flag.negative.index &&& 7 = Flag.negative.index := rfl
  rw [withNegative,has_withBit,getLsbD_top,place]
  simp only [Flag.index_inj,eq_comm]

@[simp] theorem has_withResult (s : Status) (result : UInt8) (flag : Flag) :
    (s.withResult result).has flag =
      if flag = .zero then result == 0
      else if flag = .negative then decide (128 ≤ result.toNat)
      else s.has flag := by
  have place : Flag.zero.index &&& 7 = Flag.zero.index := rfl
  have low (on : Bool) : on.toUInt8.toBitVec.getLsbD 0 = on := by cases on <;> rfl
  rw [withResult,has_withBit,low,place,has_withNegative]
  simp only [Flag.index_inj,eq_comm]

theorem ext_flags {s t : Status} (same : ∀ flag,s.has flag = t.has flag) : s = t := by
  suffices bits : s.byte.toBitVec = t.byte.toBitVec by
    cases s
    cases t
    exact congrArg Status.mk (UInt8.toBitVec_inj.mp bits)
  apply BitVec.eq_of_getLsbD_eq
  intro i inside
  obtain ⟨flag,rfl⟩ := Flag.exists_index inside
  rw [← has_eq,← has_eq,same]

@[simp] theorem withResult_withResult (s : Status) (first second : UInt8) :
    (s.withResult first).withResult second = s.withResult second := by
  apply ext_flags
  intro flag
  simp only [has_withResult]
  split
  · rfl
  · split <;> rfl

end Status

namespace Registers

variable (r : Registers)

@[simp] theorem flags_p (change : Status → Status) : (r.flags change).p = change r.p := rfl
@[simp] theorem putFlag_p (flag : Flag) (on : Bool) : (r.putFlag flag on).p = r.p.put flag on := rfl
@[simp] theorem advance_p (delta : UInt16) : (r.advance delta).p = r.p := rfl
@[simp] theorem put_p (target : Register) (value : UInt8) : (r.put target value).p = r.p := by
  cases target <;> rfl
@[simp] theorem load_p (target : Register) (value : UInt8) :
    (r.load target value).p = r.p.withResult value := by
  rw [load,flags_p,put_p]
@[simp] theorem branch_p (flag : Flag) (wanted : Bool) (offset : Int8) :
    (r.branch flag wanted offset).p = r.p := by
  unfold branch
  split <;> rfl

theorem deriveOverflow_has (rule : OverflowRule) (on : Bool) (flag : Flag) :
    (r.deriveOverflow rule on).p.has flag =
      if flag = .overflow ∧ rule = .derive then on else r.p.has flag := by
  cases rule with
  | ignore => simp [deriveOverflow]
  | derive => simp [deriveOverflow,eq_comm]

end Registers

end Console6502
