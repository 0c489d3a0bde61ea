import Console6502.Proofs.Flags
import Console6502.Word

-- The processor's arithmetic as a host carries it out that stops at every operation outside its
-- bounds. Nothing here stops: each function gives what the function of the same name gives.
namespace Console6502

-- An index past the end, a division by zero, a shift by the width or more, a result outside its
-- type, a copy between unequal lengths, an assertion that fails.
inductive Trap where
  | index
  | division
  | shift
  | overflow
  | length
  | assertion
  deriving DecidableEq

abbrev Checked (α : Type) : Type := Except Trap α

namespace Checked

def within {α : Type} (trap : Trap) (bounds : Prop) [Decidable bounds] (result : α) : Checked α :=
  if bounds then pure result else throw trap

theorem within_of {α : Type} {trap : Trap} {bounds : Prop} [Decidable bounds] {result : α}
    (kept : bounds) : within trap bounds result = pure result := if_pos kept

def look {α : Type} (cells : Array α) (place : Nat) : Checked α :=
  if inside : place < cells.size then pure cells[place] else throw .index

def shift {α : Type} (width amount : Nat) (shifted : α) : Checked α :=
  within .shift (amount < width) shifted

def addWords (left right : UInt16) : Checked UInt16 :=
  within .overflow (left.toNat + right.toNat < 0x10000) (left + right)

def subtractWords (left right : Int16) : Checked Int16 :=
  let exact := left.toInt - right.toInt
  within .overflow (-0x8000 ≤ exact ∧ exact < 0x8000) (left - right)

theorem look_of {α : Type} {cells : Array α} {place : Nat} (inside : place < cells.size) :
    look cells place = pure cells[place] := dif_pos inside

theorem shift_of {α : Type} {width amount : Nat} {shifted : α} (inside : amount < width) :
    shift width amount shifted = pure shifted := within_of inside

theorem addWords_of {left right : UInt16} (fits : left.toNat + right.toNat < 0x10000) :
    addWords left right = pure (left + right) ∧ (left + right).toNat = left.toNat + right.toNat := by
  refine ⟨within_of fits,?_⟩
  rw [UInt16.toNat_add]
  exact Nat.mod_eq_of_lt fits

theorem subtractWords_of {left right : Int16} (low : -0x8000 ≤ left.toInt - right.toInt)
    (high : left.toInt - right.toInt < 0x8000) :
    subtractWords left right = pure (left - right) ∧ (left - right).toInt = left.toInt - right.toInt := by
  refine ⟨within_of ⟨low,high⟩,?_⟩
  rw [Int16.toInt_sub]
  exact Int.bmod_eq_of_le low high

def word (low high : UInt8) : Checked UInt16 := do
  let upper ← shift 16 8 (high.toUInt16 <<< 8)
  return upper ||| low.toUInt16

def highByte (value : UInt16) : Checked UInt8 := do
  let upper ← shift 16 8 (value >>> 8)
  return upper.toUInt8

@[simp] theorem word_eq (low high : UInt8) : word low high = pure (Console6502.word low high) := rfl
@[simp] theorem highByte_eq (value : UInt16) : highByte value = pure (Console6502.highByte value) := rfl

def bit (s : Status) (index : UInt8) : Checked UInt8 := do
  let place := index &&& 7
  let moved ← shift 8 place.toNat (s.byte >>> place)
  return moved &&& 1

def withBit (s : Status) (index value : UInt8) : Checked Status := do
  let place := index &&& 7
  let mask ← shift 8 place.toNat (1 <<< place)
  let bit ← shift 8 place.toNat ((value &&& 1) <<< place)
  return ⟨(s.byte &&& ~~~mask) ||| bit⟩

def withNegative (s : Status) (result : UInt8) : Checked Status := do
  let top ← shift 8 7 (result >>> 7)
  withBit s Flag.negative.index top

def withResult (s : Status) (result : UInt8) : Checked Status := do
  let s ← withNegative s result
  withBit s Flag.zero.index (result == 0).toUInt8

theorem place_lt (index : UInt8) : (index &&& 7).toNat < 8 := by
  rw [toNat_and_seven]
  exact Nat.mod_lt _ (by decide)

@[simp] theorem bit_eq (s : Status) (index : UInt8) : bit s index = pure (s.bit index) := by
  simp only [bit,shift_of (place_lt index),pure_bind,Status.bit]

@[simp] theorem withBit_eq (s : Status) (index value : UInt8) :
    withBit s index value = pure (s.withBit index value) := by
  simp only [withBit,shift_of (place_lt index),pure_bind,Status.withBit]

@[simp] theorem withNegative_eq (s : Status) (result : UInt8) :
    withNegative s result = pure (s.withNegative result) := by
  have inside : 7 < 8 := by decide
  simp [withNegative,shift_of inside,Status.withNegative]

@[simp] theorem withResult_eq (s : Status) (result : UInt8) :
    withResult s result = pure (s.withResult result) := by
  simp [withResult,Status.withResult]

def transform (transform : Transform) (value : UInt8) (carry : Bool) : Checked (UInt8 × Bool) :=
  match transform with
  | .shiftLeft => do
    let moved ← shift 8 1 (value <<< 1)
    return (moved,value &&& 0x80 != 0)
  | .shiftRight => do
    let moved ← shift 8 1 (value >>> 1)
    return (moved,value &&& 0x01 != 0)
  | .rotateLeft => do
    let moved ← shift 8 1 (value <<< 1)
    return (moved ||| carry.toUInt8,value &&& 0x80 != 0)
  | .rotateRight => do
    let moved ← shift 8 1 (value >>> 1)
    let entered ← shift 8 7 (carry.toUInt8 <<< 7)
    return (moved ||| entered,value &&& 0x01 != 0)
  -- These two wrap and are meant to.
  | .increment => return (value + 1,carry)
  | .decrement => return (value - 1,carry)

@[simp] theorem transform_eq (kind : Transform) (value : UInt8) (carry : Bool) :
    transform kind value carry = pure (kind.apply value carry) := by
  cases kind <;> rfl

def flags (r : Registers) (change : Status → Checked Status) : Checked Registers := do
  let p ← change r.p
  return { r with p := p }

def load (r : Registers) (target : Register) (value : UInt8) : Checked Registers :=
  flags (r.put target value) (withResult · value)

def add (r : Registers) (value : UInt8) (rule : OverflowRule) : Checked Registers := do
  let partialSum ← addWords r.a.toUInt16 value.toUInt16
  let total ← addWords partialSum (r.p.has .carry).toUInt16
  let result := total.toUInt8
  let carried := r.putFlag .carry (0xFF < total)
  load (carried.deriveOverflow rule (sumOverflows r.a value result)) .a result

def subtract (r : Registers) (value : UInt8) (rule : OverflowRule) : Checked Registers := do
  let partialDifference ← subtractWords (.ofNat r.a.toNat) (.ofNat value.toNat)
  let total ← subtractWords partialDifference (.ofNat (!r.p.has .carry).toNat)
  let result := UInt8.ofInt total.toInt
  let carried := r.putFlag .carry (0 ≤ total)
  load (carried.deriveOverflow rule (differenceOverflows r.a value result)) .a result

def compare (r : Registers) (left right : UInt8) : Checked Registers :=
  flags ((r.putFlag .carry (right ≤ left)).putFlag .zero (left == right)) (withNegative · (left - right))

def modify (r : Registers) (kind : Transform) : Checked Registers := do
  let (result,carry) ← transform kind r.a (r.p.has .carry)
  load (r.putFlag .carry carry) .a result

variable (r : Registers)

@[simp] theorem flags_pure (change : Status → Status) :
    flags r (fun s => pure (change s)) = pure (r.flags change) := rfl

@[simp] theorem load_eq (target : Register) (value : UInt8) :
    load r target value = pure (r.load target value) := by
  simp [load,Registers.load]

@[simp] theorem compare_eq (left right : UInt8) : compare r left right = pure (r.compare left right) := by
  simp [compare,Registers.compare]

@[simp] theorem modify_eq (kind : Transform) : modify r kind = pure (r.modify kind) := by
  simp [modify,Registers.modify]

@[simp] theorem add_eq (value : UInt8) (rule : OverflowRule) : add r value rule = pure (r.add value rule) := by
  have left := r.a.toNat_lt
  have right := value.toNat_lt
  have carry : (r.p.has .carry).toUInt16.toNat = (r.p.has .carry).toNat := by
    cases r.p.has .carry <;> rfl
  have single := (r.p.has .carry).toNat_le
  obtain ⟨first,partialSum⟩ := @addWords_of r.a.toUInt16 value.toUInt16 (by simp; omega)
  rw [UInt8.toNat_toUInt16,UInt8.toNat_toUInt16] at partialSum
  obtain ⟨second,total⟩ := @addWords_of (r.a.toUInt16 + value.toUInt16) (r.p.has .carry).toUInt16
    (by rw [partialSum,carry]; omega)
  rw [partialSum,carry] at total
  generalize r.a.toUInt16 + value.toUInt16 + (r.p.has .carry).toUInt16 = whole at second total
  have result : whole.toUInt8 = .ofNat (sum r.a value (r.p.has .carry)) := by
    apply UInt8.toNat_inj.mp
    simp [total,sum]
  have carries : 0xFF < whole ↔ 0xFF < sum r.a value (r.p.has .carry) := by
    rw [UInt16.lt_iff_toNat_lt,total]
    rfl
  simp only [add,first,second,pure_bind,result,carries,load_eq,Registers.add]

theorem toInt_ofNat_byte (value : UInt8) : (Int16.ofNat value.toNat).toInt = value.toNat := by
  have bound := value.toNat_lt
  exact Int16.toInt_ofNat_of_lt (by omega)

@[simp] theorem subtract_eq (value : UInt8) (rule : OverflowRule) :
    subtract r value rule = pure (r.subtract value rule) := by
  have left := r.a.toNat_lt
  have right := value.toNat_lt
  have single := (!r.p.has .carry).toNat_le
  have borrow : (Int16.ofNat (!r.p.has .carry).toNat).toInt = (!r.p.has .carry).toNat :=
    Int16.toInt_ofNat_of_lt (by omega)
  have minuend := toInt_ofNat_byte r.a
  have subtrahend := toInt_ofNat_byte value
  obtain ⟨first,exact⟩ := @subtractWords_of (.ofNat r.a.toNat) (.ofNat value.toNat) (by omega) (by omega)
  obtain ⟨second,total⟩ := @subtractWords_of (.ofNat r.a.toNat - .ofNat value.toNat)
    (.ofNat (!r.p.has .carry).toNat) (by omega) (by omega)
  rw [exact,minuend,subtrahend,borrow] at total
  generalize Int16.ofNat r.a.toNat - .ofNat value.toNat - .ofNat (!r.p.has .carry).toNat = whole
    at second total
  have same : whole.toInt = difference r.a value (r.p.has .carry) := total
  have carries : 0 ≤ whole ↔ 0 ≤ difference r.a value (r.p.has .carry) := by
    rw [Int16.le_iff_toInt_le,same]
    rfl
  simp only [subtract,first,second,pure_bind,same,carries,load_eq,Registers.subtract]

end Checked

end Console6502
