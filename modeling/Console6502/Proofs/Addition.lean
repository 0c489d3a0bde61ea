import Console6502.Proofs.EffectiveAddress
import Console6502.Proofs.Flags
import Console6502.Proofs.Frame
import Console6502.Proofs.Number
import Mathlib.Tactic.Ring

-- Addition of numbers of any length, a byte at a time, with the carry flag as the only link.
namespace Console6502

theorem sumOverflows_top (left right result : UInt8) :
    sumOverflows left right result =
      (decide (128 ≤ left.toNat) == decide (128 ≤ right.toNat) &&
        decide (128 ≤ left.toNat) != decide (128 ≤ result.toNat)) := by
  have top := Status.has_eq ⟨~~~(left ^^^ right) &&& (left ^^^ result)⟩ .negative
  rw [show Flag.negative.index.toNat = 7 from rfl] at top
  simp only [UInt8.toBitVec_and,UInt8.toBitVec_not,UInt8.toBitVec_xor,BitVec.getLsbD_and,
    BitVec.getLsbD_not,BitVec.getLsbD_xor,getLsbD_seven] at top
  refine Eq.trans top ?_
  cases decide (128 ≤ left.toNat) <;> cases decide (128 ≤ right.toNat) <;> rfl

theorem sumOverflows_eq {left right result : UInt8} {carry out : Bool}
    (exact : result.toNat + 256 * out.toNat = left.toNat + right.toNat + carry.toNat) :
    sumOverflows left right result =
      decide (¬Fits 1 (twosComplement [left] + twosComplement [right] + carry.toNat)) := by
  have := left.toNat_lt
  have := right.toNat_lt
  have := result.toNat_lt
  have := carry.toNat_le
  have := out.toNat_le
  rw [sumOverflows_top,Bool.eq_iff_iff,decide_eq_true_iff,fits_iff Nat.one_pos]
  simp only [twosComplement,littleEndian_cons,littleEndian_nil,List.length_singleton]
  simp only [Bool.and_eq_true,beq_iff_eq,bne_iff_ne,ne_eq,decide_eq_decide]
  split <;> split <;> omega

namespace Registers

variable (r : Registers)

def Shows (r : Registers) : Prop :=
  r.p.has .negative = decide (128 ≤ r.a.toNat) ∧ r.p.has .zero = decide (r.a = 0)

theorem add_shows (value : UInt8) (rule : OverflowRule) : (r.add value rule).Shows := by
  refine ⟨?_,?_⟩
  · simp [add,load,put,flags]
  · simp [add,load,put,flags,beq_eq_decide]

theorem add_exact (value : UInt8) (rule : OverflowRule) :
    (r.add value rule).a.toNat + 256 * ((r.add value rule).p.has .carry).toNat =
      r.a.toNat + value.toNat + (r.p.has .carry).toNat := by
  have := r.a.toNat_lt
  have := value.toNat_lt
  have := (r.p.has .carry).toNat_le
  have result : (r.add value rule).a = UInt8.ofNat (sum r.a value (r.p.has .carry)) := rfl
  have carry : (r.add value rule).p.has .carry = decide (255 < sum r.a value (r.p.has .carry)) := by
    simp [add,deriveOverflow_has]
  rw [result,carry,UInt8.toNat_ofNat',toNat_decide,sum]
  split <;> omega

theorem add_overflow (value : UInt8) (rule : OverflowRule) :
    (r.add value rule).p.has .overflow =
      match rule with
      | .ignore => r.p.has .overflow
      | .derive =>
        decide (¬Fits 1 (twosComplement [r.a] + twosComplement [value] + (r.p.has .carry).toNat)) := by
  cases rule with
  | ignore => simp [add,deriveOverflow_has]
  | derive =>
    rw [← sumOverflows_eq (r.add_exact value .derive)]
    simp [add,deriveOverflow_has]
    rfl

-- A load and an operation on A for each pair of bytes, the least significant pair first. The
-- list holds what A was after each of them.
def columns (operate : Registers → UInt8 → Registers) (r : Registers) :
    List (UInt8 × UInt8) → List UInt8 × Registers
  | [] => ([],r)
  | (left,right) :: rest =>
    let next := operate (r.load .a left) right
    let (bytes,last) := next.columns operate rest
    (next.a :: bytes,last)

variable {operate : Registers → UInt8 → Registers}

theorem columns_cons (left right : UInt8) (rest : List (UInt8 × UInt8)) :
    r.columns operate ((left,right) :: rest) =
      ((operate (r.load .a left) right).a :: ((operate (r.load .a left) right).columns operate rest).1,
        ((operate (r.load .a left) right).columns operate rest).2) := rfl

theorem columns_length (pairs : List (UInt8 × UInt8)) :
    (r.columns operate pairs).1.length = pairs.length := by
  induction pairs generalizing r with
  | nil => rfl
  | cons pair rest ih => rw [columns_cons,List.length_cons,ih,List.length_cons]

theorem columns_lt (pairs : List (UInt8 × UInt8)) :
    littleEndian (r.columns operate pairs).1 < 256 ^ pairs.length := by
  rw [← r.columns_length pairs]
  exact littleEndian_lt _

theorem columns_last {property : Registers → Prop} (each : ∀ r value,property (operate r value))
    (pair : UInt8 × UInt8) (rest : List (UInt8 × UInt8)) :
    property (r.columns operate (pair :: rest)).2 ∧
      (r.columns operate (pair :: rest)).1.getLast? = some (r.columns operate (pair :: rest)).2.a := by
  induction rest generalizing r pair with
  | nil => exact ⟨each _ _,rfl⟩
  | cons next rest ih =>
    obtain ⟨holds,last⟩ := ih (operate (r.load .a pair.1) pair.2) next
    rw [columns_cons]
    refine ⟨holds,?_⟩
    rw [List.getLast?_cons,last,Option.getD_some]

abbrev addColumns (r : Registers) (rule : OverflowRule) (pairs : List (UInt8 × UInt8)) :
    List UInt8 × Registers := r.columns (fun r value => r.add value rule) pairs

theorem load_carry (value : UInt8) : (r.load .a value).p.has .carry = r.p.has .carry := by simp

theorem column_exact (left right : UInt8) (rule : OverflowRule) :
    ((r.load .a left).add right rule).a.toNat +
        256 * (((r.load .a left).add right rule).p.has .carry).toNat =
      left.toNat + right.toNat + (r.p.has .carry).toNat := by
  have exact := (r.load .a left).add_exact right rule
  rwa [load_carry] at exact

-- Nothing of the sum is lost between the bytes and the last carry.
theorem addColumns_exact (rule : OverflowRule) (pairs : List (UInt8 × UInt8)) :
    littleEndian (r.addColumns rule pairs).1 +
        256 ^ pairs.length * ((r.addColumns rule pairs).2.p.has .carry).toNat =
      littleEndian (pairs.map Prod.fst) + littleEndian (pairs.map Prod.snd) +
        (r.p.has .carry).toNat := by
  induction pairs generalizing r with
  | nil => simp [columns]
  | cons pair rest ih =>
    obtain ⟨left,right⟩ := pair
    have first := r.column_exact left right rule
    have later := ih ((r.load .a left).add right rule)
    simp only [columns_cons,littleEndian_cons,List.map_cons,List.length_cons,Nat.pow_succ] at later ⊢
    generalize (r.load .a left).add right rule = next at first later ⊢
    calc next.a.toNat + 256 * littleEndian (next.addColumns rule rest).1 +
          256 ^ rest.length * 256 * ((next.addColumns rule rest).2.p.has .carry).toNat
        = next.a.toNat + 256 * (littleEndian (next.addColumns rule rest).1 +
            256 ^ rest.length * ((next.addColumns rule rest).2.p.has .carry).toNat) := by ring
      _ = left.toNat + 256 * littleEndian (rest.map Prod.fst) +
            (right.toNat + 256 * littleEndian (rest.map Prod.snd)) + (r.p.has .carry).toNat := by
        rw [later]
        omega

theorem addColumns_number (rule : OverflowRule) (pairs : List (UInt8 × UInt8)) :
    let total := littleEndian (pairs.map Prod.fst) + littleEndian (pairs.map Prod.snd) +
      (r.p.has .carry).toNat
    ((r.addColumns rule pairs).2.p.has .carry).toNat = total / 256 ^ pairs.length ∧
      littleEndian (r.addColumns rule pairs).1 = total % 256 ^ pairs.length := by
  intro total
  have exact := r.addColumns_exact rule pairs
  have positive : 0 < 256 ^ pairs.length := Nat.pow_pos (by decide)
  obtain ⟨carry,number⟩ := (Nat.div_mod_unique positive).mpr ⟨exact,r.columns_lt pairs⟩
  exact ⟨carry.symm,number.symm⟩

theorem addColumns_ignore (pairs : List (UInt8 × UInt8)) :
    (r.addColumns .ignore pairs).2.p.has .overflow = r.p.has .overflow := by
  induction pairs generalizing r with
  | nil => rfl
  | cons pair rest ih =>
    rw [addColumns,columns_cons,ih,add_overflow]
    simp

-- The signed sum of the whole numbers is that of their last bytes, with the carry from below.
theorem addColumns_derive (pair : UInt8 × UInt8) (rest : List (UInt8 × UInt8)) :
    (r.addColumns .derive (pair :: rest)).2.p.has .overflow =
      decide (¬Fits (pair :: rest).length (twosComplement ((pair :: rest).map Prod.fst) +
        twosComplement ((pair :: rest).map Prod.snd) + (r.p.has .carry).toNat)) := by
  induction rest generalizing r pair with
  | nil =>
    obtain ⟨left,right⟩ := pair
    have loaded : (r.load .a left).a = left := rfl
    have last := (r.load .a left).add_overflow right .derive
    rw [loaded,load_carry] at last
    simpa only [columns,List.map_cons,List.map_nil,List.length_singleton] using last
  | cons next rest ih =>
    obtain ⟨left,right⟩ := pair
    have first := r.column_exact left right .derive
    have later := ih ((r.load .a left).add right .derive) next
    rw [addColumns,columns_cons,later]
    generalize (r.load .a left).add right .derive = after at first
    have whole : twosComplement (((left,right) :: next :: rest).map Prod.fst) +
          twosComplement (((left,right) :: next :: rest).map Prod.snd) + (r.p.has .carry).toNat =
        after.a.toNat + 256 * (twosComplement ((next :: rest).map Prod.fst) +
          twosComplement ((next :: rest).map Prod.snd) + (after.p.has .carry).toNat) := by
      simp only [List.map_cons]
      rw [twosComplement_cons left (by simp),twosComplement_cons right (by simp)]
      omega
    rw [whole,decide_eq_decide,not_iff_not]
    exact (fits_cons (Nat.succ_pos rest.length) _ _).symm

theorem addColumns_overflow (rule : OverflowRule) (pair : UInt8 × UInt8) (rest : List (UInt8 × UInt8)) :
    (r.addColumns rule (pair :: rest)).2.p.has .overflow =
      match rule with
      | .ignore => r.p.has .overflow
      | .derive =>
        decide (¬Fits (pair :: rest).length (twosComplement ((pair :: rest).map Prod.fst) +
          twosComplement ((pair :: rest).map Prod.snd) + (r.p.has .carry).toNat)) := by
  cases rule with
  | ignore => exact r.addColumns_ignore _
  | derive => exact r.addColumns_derive pair rest

end Registers

namespace Machine

variable {σ : Type} [ByteSource σ] {m : Machine σ}

def arithmeticModes : List Mode :=
  [.immediate,.zeroPage,.zeroPageX,.absolute,.absoluteX,.absoluteY,.indexedIndirect,.indirectIndexed]

theorem add_step (adding : m.instruction = some .adc) :
    ∃ mode ∈ arithmeticModes,decode m.fetched.1 = some ⟨.adc,mode⟩ ∧
      m.step = (.ok .running,
        { m with
          registers := (m.registers.advance (1 + mode.operandLength)).add (m.designated mode).1
            m.config.overflow,
          bus := (m.designated mode).2 }) := by
  obtain ⟨p,found,same⟩ := Option.map_eq_some_iff.mp adding
  have facts := prepares found
  have form := decode_form facts.known
  have listed : p.opcode.mode ∈ arithmeticModes := by
    rw [same] at form
    generalize p.opcode.mode = mode at form
    cases mode <;> simp [Instruction.forms,arithmeticModes] at form ⊢
  have direct : p.opcode.mode ≠ .indirect := by
    intro indirect
    rw [indirect] at listed
    simp [arithmeticModes] at listed
  have known : decode m.fetched.1 = some ⟨.adc,p.opcode.mode⟩ := by
    rw [facts.known,← same]
  have performed : p.perform m.config =
      ((m.registers.advance (1 + p.opcode.mode.operandLength)).add (m.designated p.opcode.mode).1
        m.config.overflow,(m.designated p.opcode.mode).2) := by
    rw [Prepared.perform,same,← operand_designated found direct,facts.registers]
    simp [Instruction.action,Action.perform,Opcode.length]
  refine ⟨_,listed,known,?_⟩
  rw [step_prepared found,performed]
  simp [facts.ready]

end Machine

theorem map_zip {xs ys : List UInt8} (aligned : xs.length = ys.length) :
    (xs.zip ys).map Prod.fst = xs ∧ (xs.zip ys).map Prod.snd = ys ∧ (xs.zip ys).length = xs.length := by
  refine ⟨List.map_fst_zip (Nat.le_of_eq aligned),List.map_snd_zip (Nat.le_of_eq aligned.symm),?_⟩
  rw [List.length_zip,aligned,Nat.min_self]

theorem exists_zip_cons {xs ys : List UInt8} (aligned : xs.length = ys.length) (nonempty : xs ≠ []) :
    ∃ pair rest,xs.zip ys = pair :: rest := by
  cases xs with
  | nil => exact absurd rfl nonempty
  | cons x xs =>
    cases ys with
    | nil => cases aligned
    | cons y ys => exact ⟨_,_,rfl⟩

-- The columns of two numbers of one length add up to their sum, and every ADC is such a column.
theorem multibyte_addition {σ : Type} [ByteSource σ] {xs ys : List UInt8}
    (aligned : xs.length = ys.length) (nonempty : xs ≠ []) (r : Registers) (m : Machine σ) :
    let carry := (r.p.has .carry).toNat
    let total := littleEndian xs + littleEndian ys + carry
    (∀ rule,
      let (bytes,last) := r.columns (fun r value => r.add value rule) (xs.zip ys)
      bytes.length = xs.length ∧
      littleEndian bytes = total % 256 ^ xs.length ∧
      (last.p.has .carry).toNat = total / 256 ^ xs.length ∧
      bytes.getLast? = some last.a ∧
      last.p.has .negative = decide (128 ≤ last.a.toNat) ∧
      last.p.has .zero = decide (last.a = 0) ∧
      last.p.has .overflow =
        match rule with
        | .ignore => r.p.has .overflow
        | .derive => decide (¬Fits xs.length (twosComplement xs + twosComplement ys + carry))) ∧
    (m.instruction = some .adc →
      ∃ mode ∈ Machine.arithmeticModes,decode m.fetched.1 = some ⟨.adc,mode⟩ ∧
        m.step = (.ok .running,
          { m with
            registers := (m.registers.advance (1 + mode.operandLength)).add (m.designated mode).1
              m.config.overflow,
            bus := (m.designated mode).2 })) := by
  intro carry total
  obtain ⟨left,right,length⟩ := map_zip aligned
  obtain ⟨pair,rest,columns⟩ := exists_zip_cons aligned nonempty
  refine ⟨?_,Machine.add_step⟩
  intro rule
  have shows (r : Registers) (value : UInt8) := r.add_shows value rule
  obtain ⟨⟨negative,zero⟩,last⟩ := r.columns_last shows pair rest
  obtain ⟨out,number⟩ := r.addColumns_number rule (xs.zip ys)
  have overflow := r.addColumns_overflow rule pair rest
  rw [← columns] at negative zero last overflow
  rw [left,right,length] at out number overflow
  exact ⟨(r.columns_length _).trans length,number,out,last,negative,zero,overflow⟩

def adding : Machine Constant where
  registers := { a := 0x20,y := 1,pc := 0x10,ready := true }
  bus := ⟨Memory.zero.pokeAll [(0x10,0x71),(0x11,0xFF),(0xFF,0xFF),(0x00,0x02),(0x300,0x22)],⟨0⟩⟩
  config := {}

-- 0x7FFF and a carry, with the decimal flag set: the sum leaves the signed range.
theorem signed_limit_passed :
    let r : Registers := { p := ⟨0b00001001⟩ }
    let sum := r.columns (fun r value => r.add value .derive) ([0xFF,0x7F].zip [0x00,0x00])
    [(0xFF : UInt8),0x7F].length = [(0x00 : UInt8),0x00].length ∧ [(0xFF : UInt8),0x7F] ≠ [] ∧
    littleEndian sum.1 = 0x8000 ∧ (sum.2.p.has .carry).toNat = 0 ∧ sum.2.p.has .overflow = true ∧
    adding.instruction = some .adc ∧ adding.step.1 = .ok .running := by
  intro r sum
  have decoded : adding.instruction = some .adc := by decide +kernel
  have aligned : [(0xFF : UInt8),0x7F].length = [(0x00 : UInt8),0x00].length := rfl
  have nonempty : [(0xFF : UInt8),0x7F] ≠ [] := List.cons_ne_nil _ _
  obtain ⟨sums,steps⟩ := multibyte_addition aligned nonempty r adding
  obtain ⟨_,number,carry,_,_,_,overflow⟩ := sums .derive
  obtain ⟨_,_,_,stepped⟩ := steps decoded
  refine ⟨aligned,nonempty,number.trans ?_,carry.trans ?_,overflow.trans ?_,decoded,?_⟩
  · decide
  · decide
  · decide
  · rw [stepped]

end Console6502
