import Console6502.Proofs.Addition

-- Subtraction and comparison of numbers of any length: addition of the complement, with the
-- carry flag telling that nothing was borrowed.
namespace Console6502

theorem toNat_borrow (carry : Bool) : (!carry).toNat + carry.toNat = 1 := by cases carry <;> rfl

theorem sum_lowered (left right : UInt8) (carry : Bool) :
    (sum left (255 - right) carry : Int) = 256 + difference left right carry := by
  have bound := right.toNat_lt
  have borrow := toNat_borrow carry
  rw [sum,difference,toNat_lowered]
  omega

theorem ofInt_difference (left right : UInt8) (carry : Bool) :
    UInt8.ofInt (difference left right carry) = UInt8.ofNat (sum left (255 - right) carry) := by
  have total := sum_lowered left right carry
  rw [← UInt8.toNat_inj,UInt8.ofInt,UInt8.toNat_ofNat',UInt8.toNat_ofNat']
  omega

-- 255 - v is v with every bit turned, so the two overflow rules ask for the same bits.
theorem differenceOverflows_eq (left right result : UInt8) :
    differenceOverflows left right result = sumOverflows left (255 - right) result := by
  have turned : 255 - right = ~~~right := by
    rw [← UInt8.toNat_inj,toNat_lowered,UInt8.toNat_not]
    rfl
  have bits : ~~~(left ^^^ ~~~right) = left ^^^ right := by
    rw [UInt8.xor_not,UInt8.not_not]
  rw [differenceOverflows,sumOverflows,turned,bits]

namespace Registers

variable (r : Registers)

theorem subtract_eq_add (value : UInt8) (rule : OverflowRule) :
    r.subtract value rule = r.add (255 - value) rule := by
  have total := sum_lowered r.a value (r.p.has .carry)
  have carry : decide (0 ≤ difference r.a value (r.p.has .carry)) =
      decide (0xFF < sum r.a (255 - value) (r.p.has .carry)) := by
    rw [decide_eq_decide]
    omega
  rw [subtract,add,ofInt_difference,carry,differenceOverflows_eq]

theorem columns_map (operate : Registers → UInt8 → Registers) (change : UInt8 → UInt8)
    (pairs : List (UInt8 × UInt8)) :
    r.columns (fun r value => operate r (change value)) pairs =
      r.columns operate (pairs.map (Prod.map id change)) := by
  induction pairs generalizing r with
  | nil => rfl
  | cons pair rest ih => rw [columns_cons,ih,List.map_cons,Prod.map,columns_cons,id]

abbrev subtractColumns (r : Registers) (rule : OverflowRule) (pairs : List (UInt8 × UInt8)) :
    List UInt8 × Registers := r.columns (fun r value => r.subtract value rule) pairs

theorem subtractColumns_eq_add (rule : OverflowRule) (xs ys : List UInt8) :
    r.subtractColumns rule (xs.zip ys) = r.addColumns rule (xs.zip (complement ys)) := by
  have changed := r.columns_map (fun r value => r.add value rule) (255 - ·) (xs.zip ys)
  rw [← List.zip_map_right] at changed
  simp only [subtractColumns,subtract_eq_add]
  exact changed

variable {xs ys : List UInt8} (aligned : xs.length = ys.length)

include aligned

theorem subtractColumns_exact (rule : OverflowRule) :
    littleEndian (r.subtractColumns rule (xs.zip ys)).1 +
        256 ^ xs.length * ((r.subtractColumns rule (xs.zip ys)).2.p.has .carry).toNat +
        (littleEndian ys + (!r.p.has .carry).toNat) =
      littleEndian xs + 256 ^ xs.length := by
  obtain ⟨left,right,length⟩ := map_zip (aligned.trans (complement_length ys).symm)
  have exact := r.addColumns_exact rule (xs.zip (complement ys))
  have total := littleEndian_complement ys
  have borrow := toNat_borrow (r.p.has .carry)
  rw [left,right,length] at exact
  rw [← aligned] at total
  rw [subtractColumns_eq_add]
  omega

theorem subtractColumns_lt (rule : OverflowRule) :
    littleEndian (r.subtractColumns rule (xs.zip ys)).1 < 256 ^ xs.length := by
  rw [← (map_zip aligned).2.2]
  exact r.columns_lt _

theorem subtractColumns_carry (rule : OverflowRule) :
    (r.subtractColumns rule (xs.zip ys)).2.p.has .carry =
      decide (littleEndian ys + (!r.p.has .carry).toNat ≤ littleEndian xs) := by
  have exact := r.subtractColumns_exact aligned rule
  have bound := r.subtractColumns_lt aligned rule
  cases out : (r.subtractColumns rule (xs.zip ys)).2.p.has .carry with
  | true =>
    rw [out,Bool.toNat_true] at exact
    exact (decide_eq_true (by omega)).symm
  | false =>
    rw [out,Bool.toNat_false] at exact
    exact (decide_eq_false (by omega)).symm

theorem subtractColumns_number (rule : OverflowRule) :
    (littleEndian (r.subtractColumns rule (xs.zip ys)).1 : Int) =
      (littleEndian xs - littleEndian ys - (!r.p.has .carry).toNat) % (256 ^ xs.length : Nat) := by
  have exact := r.subtractColumns_exact aligned rule
  have bound := r.subtractColumns_lt aligned rule
  generalize (256 ^ xs.length : Nat) = whole at exact bound ⊢
  generalize ((r.subtractColumns rule (xs.zip ys)).2.p.has .carry).toNat = out at exact
  generalize littleEndian (r.subtractColumns rule (xs.zip ys)).1 = number at exact bound ⊢
  have shifted : (littleEndian xs - littleEndian ys - (!r.p.has .carry).toNat : Int) =
      number + whole * (out - 1) := by
    rw [Int.mul_sub]
    have := congrArg (Nat.cast (R := Int)) exact
    push_cast at this
    omega
  rw [shifted,Int.add_mul_emod_self_left,Int.emod_eq_of_lt (by omega) (by omega)]

theorem subtractColumns_last (nonempty : xs ≠ []) (rule : OverflowRule) :
    (r.subtractColumns rule (xs.zip ys)).2.Shows ∧
      (r.subtractColumns rule (xs.zip ys)).1.getLast? =
        some (r.subtractColumns rule (xs.zip ys)).2.a := by
  obtain ⟨pair,rest,columns⟩ := exists_zip_cons aligned nonempty
  have shows (r : Registers) (value : UInt8) : (r.subtract value rule).Shows := by
    rw [subtract_eq_add]
    exact r.add_shows _ rule
  rw [columns]
  exact r.columns_last shows pair rest

theorem subtractColumns_overflow (nonempty : xs ≠ []) (rule : OverflowRule) :
    (r.subtractColumns rule (xs.zip ys)).2.p.has .overflow =
      match rule with
      | .ignore => r.p.has .overflow
      | .derive =>
        decide (¬Fits xs.length (twosComplement xs - twosComplement ys - (!r.p.has .carry).toNat)) := by
  have same : xs.length = (complement ys).length := aligned.trans (complement_length ys).symm
  have more : ys ≠ [] := fun absent => nonempty (List.length_eq_zero_iff.mp (by rw [aligned,absent]; rfl))
  obtain ⟨left,right,length⟩ := map_zip same
  obtain ⟨pair,rest,columns⟩ := exists_zip_cons same nonempty
  have overflow := r.addColumns_overflow rule pair rest
  have value : twosComplement xs + twosComplement (complement ys) + (r.p.has .carry).toNat =
      twosComplement xs - twosComplement ys - (!r.p.has .carry).toNat := by
    have borrow := toNat_borrow (r.p.has .carry)
    rw [twosComplement_complement more]
    omega
  rw [← columns,left,right,length,value] at overflow
  rwa [subtractColumns_eq_add]

omit aligned

def compareColumns (r : Registers) (rule : OverflowRule) : List (UInt8 × UInt8) → Registers
  | [] => r
  | (left,right) :: rest => ((r.compare left right).subtractColumns rule rest).2

theorem compare_carry (left right : UInt8) :
    (r.compare left right).p.has .carry = decide (right.toNat ≤ left.toNat) := by
  simp [compare,UInt8.le_iff_toNat_le]

theorem compare_flag (left right : UInt8) (rule : OverflowRule) {flag : Flag}
    (compared : flag ∈ [Flag.negative,.zero,.carry]) :
    (r.compare left right).p.has flag =
      (((r.put .a left).putFlag .carry true).subtract right rule).p.has flag := by
  have carry : ((r.put .a left).putFlag .carry true).p.has .carry = true := by simp
  have loaded : ((r.put .a left).putFlag .carry true).a = left := rfl
  have result : UInt8.ofInt (difference left right true) = left - right := by
    rw [difference,Bool.not_true,Bool.toNat_false,← UInt8.toNat_inj,UInt8.ofInt,UInt8.toNat_ofNat',
      UInt8.toNat_sub]
    have := left.toNat_lt
    have := right.toNat_lt
    omega
  rw [subtract,carry,loaded,result]
  simp only [List.mem_cons,List.not_mem_nil,or_false] at compared
  obtain rfl | rfl | rfl := compared
  · simp [compare]
  · simp [compare,UInt8.sub_eq_iff_eq_add]
  · rw [compare_carry]
    simp [deriveOverflow_has,difference]

theorem compareColumns_carry (aligned : xs.length = ys.length) (nonempty : xs ≠ []) (rule : OverflowRule) :
    (r.compareColumns rule (xs.zip ys)).p.has .carry = decide (littleEndian ys ≤ littleEndian xs) := by
  cases xs with
  | nil => exact absurd rfl nonempty
  | cons x xs =>
    cases ys with
    | nil => cases aligned
    | cons y ys =>
      have rest := (r.compare x y).subtractColumns_carry (Nat.succ.inj aligned) rule
      have borrow := toNat_borrow (decide (y.toNat ≤ x.toNat))
      have := x.toNat_lt
      have := y.toNat_lt
      rw [toNat_decide] at borrow
      rw [List.zip_cons_cons,compareColumns,rest,compare_carry,littleEndian_cons,littleEndian_cons,
        decide_eq_decide]
      split at borrow <;> omega

end Registers

-- The columns of two numbers of one length give their difference, and those that start with a
-- comparison tell which number is the greater. Both rest on the addition of complements.
theorem multibyte_subtraction {xs ys : List UInt8} (aligned : xs.length = ys.length)
    (nonempty : xs ≠ []) (r : Registers) :
    let borrow := (!r.p.has .carry).toNat
    (∀ rule,
      let (bytes,last) := r.columns (fun r value => r.subtract value rule) (xs.zip ys)
      bytes.length = xs.length ∧
      (littleEndian bytes : Int) =
        (littleEndian xs - littleEndian ys - borrow) % (256 ^ xs.length : Nat) ∧
      last.p.has .carry = decide (littleEndian ys + borrow ≤ littleEndian xs) ∧
      bytes.getLast? = some last.a ∧
      last.p.has .negative = decide (128 ≤ last.a.toNat) ∧
      last.p.has .zero = decide (last.a = 0) ∧
      last.p.has .overflow =
        match rule with
        | .ignore => r.p.has .overflow
        | .derive => decide (¬Fits xs.length (twosComplement xs - twosComplement ys - borrow))) ∧
    (∀ rule,
      (r.compareColumns rule (xs.zip ys)).p.has .carry = decide (littleEndian ys ≤ littleEndian xs)) ∧
    (∀ left right rule,
      (∀ target,(r.compare left right).get target = r.get target) ∧
      (r.compare left right).p.has .overflow = r.p.has .overflow ∧
      ∀ flag ∈ [Flag.negative,.zero,.carry],
        (r.compare left right).p.has flag =
          (((r.put .a left).putFlag .carry true).subtract right rule).p.has flag) ∧
    ∀ value rule,r.subtract value rule = r.add (255 - value) rule := by
  intro borrow
  refine ⟨?_,?_,?_,r.subtract_eq_add⟩
  · intro rule
    obtain ⟨⟨negative,zero⟩,last⟩ := r.subtractColumns_last aligned nonempty rule
    exact ⟨(r.columns_length _).trans (map_zip aligned).2.2,r.subtractColumns_number aligned rule,
      r.subtractColumns_carry aligned rule,last,negative,zero,
      r.subtractColumns_overflow aligned nonempty rule⟩
  · exact r.compareColumns_carry aligned nonempty
  · intro left right rule
    refine ⟨r.compare_get left right,?_,?_⟩
    · simp [Registers.compare]
    · intro flag compared
      exact r.compare_flag left right rule compared

theorem signed_minimum_passed :
    let r : Registers := { p := ⟨0b00001001⟩ }
    let difference := r.columns (fun r value => r.subtract value .derive) ([0x00,0x80].zip [0x01,0x00])
    [(0x00 : UInt8),0x80].length = [(0x01 : UInt8),0x00].length ∧ [(0x00 : UInt8),0x80] ≠ [] ∧
    littleEndian difference.1 = 0x7FFF ∧ difference.2.p.has .carry = true ∧
    difference.2.p.has .overflow = true ∧
    (r.compareColumns .derive ([0x00,0x80].zip [0x01,0x00])).p.has .carry = true := by
  intro r difference
  have aligned : [(0x00 : UInt8),0x80].length = [(0x01 : UInt8),0x00].length := rfl
  have nonempty : [(0x00 : UInt8),0x80] ≠ [] := List.cons_ne_nil _ _
  obtain ⟨differences,comparisons,_,_⟩ := multibyte_subtraction aligned nonempty r
  obtain ⟨_,number,carry,_,_,_,overflow⟩ := differences .derive
  refine ⟨aligned,nonempty,Int.ofNat_inj.mp (number.trans ?_),carry.trans ?_,overflow.trans ?_,
    (comparisons .derive).trans ?_⟩
  all_goals decide

end Console6502
