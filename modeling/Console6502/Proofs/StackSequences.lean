import Console6502.Proofs.Frame
import Console6502.Proofs.StackRing

-- Pushes and pulls in any number, past a full turn of the ring too. What a cell holds then is
-- told by the pushes that fell on it, and a pull finds the latest of them.
namespace Console6502

theorem Memory.peek_pushAll {m : Memory} {address : UInt32}
    (outside : address.toNat % 65536 < 0x100 ∨ 0x1FF < address.toNat % 65536) (sp : UInt8)
    (values : List UInt8) : (m.pushAll sp values).peek address = m.peek address := by
  apply peek_pushAll_other
  intro i _
  have bound := (lowered sp i).toNat_lt
  omega

namespace Registers

def pushAll (r : Registers) (values : List UInt8) : Transaction Registers := values.foldlM push r

def pushWords (r : Registers) (values : List UInt16) : Transaction Registers := values.foldlM pushWord r

def pullEach {α : Type} (pull : Registers → Transaction (α × Registers)) :
    (count : Nat) → Registers → Transaction (List α × Registers)
  | 0,r => return ([],r)
  | count + 1,r => do
    let (value,r) ← pull r
    let (values,r) ← pullEach pull count r
    return (value :: values,r)

def spelled (values : List UInt16) : List UInt8 := values.flatMap fun value => [highByte value,lowByte value]

def paired : List UInt8 → List UInt16
  | low :: high :: rest => word low high :: paired rest
  | _ => []

theorem pushWords_eq (r : Registers) (values : List UInt16) :
    r.pushWords values = r.pushAll (spelled values) := by
  induction values generalizing r with
  | nil => rfl
  | cons value rest ih =>
    simp only [pushWords,pushAll,spelled,List.flatMap_cons,List.foldlM_append,List.foldlM_cons,
      List.foldlM_nil,bind_pure] at ih ⊢
    simp only [ih,pushWord]

theorem pullWords_eq (r : Registers) (count : Nat) :
    pullEach pullWord count r =
      (fun found => (paired found.1,found.2)) <$> pullEach pull (2 * count) r := by
  induction count generalizing r with
  | zero => rfl
  | succ count ih =>
    simp only [Nat.mul_succ,pullEach,pullWord,ih,bind_assoc,pure_bind,map_bind,bind_map_left,map_pure,
      paired]

theorem paired_spelled (values : List UInt16) : paired (spelled values).reverse = values.reverse := by
  induction values using List.reverseRecOn with
  | nil => rfl
  | append_singleton values value ih =>
    have last : spelled (values ++ [value]) = spelled values ++ [highByte value,lowByte value] := by
      simp [spelled]
    rw [last,List.reverse_append,List.reverse_append]
    simp [paired,ih]

section Run

variable {σ : Type} [ByteSource σ] (r : Registers) (bus : Bus σ)

theorem run_pushAll (values : List UInt8) : (r.pushAll values).run bus =
    ({ r with sp := lowered r.sp values.length },
      { bus with memory := bus.memory.pushAll r.sp values }) := by
  induction values generalizing r bus with
  | nil => simp [pushAll,Memory.pushAll]
  | cons value rest ih =>
    rw [pushAll,List.foldlM_cons,Transaction.run_bind,run_push]
    refine (ih _ _).trans ?_
    rw [lowered_succ]
    rfl

theorem run_pullEach (count : Nat) : (pullEach pull count r).run bus =
    (((List.range count).map fun j => bus.memory.stacked (r.sp + 1 + UInt8.ofNat j),
      { r with sp := r.sp + UInt8.ofNat count }),bus) := by
  induction count generalizing r with
  | zero => simp [pullEach]
  | succ count ih =>
    have later (j : Nat) : r.sp + 1 + 1 + UInt8.ofNat j = r.sp + 1 + UInt8.ofNat (j + 1) := by
      rw [UInt8.ofNat_add]
      grind
    have last : r.sp + 1 + UInt8.ofNat count = r.sp + UInt8.ofNat (count + 1) := by
      rw [UInt8.ofNat_add]
      grind
    simp [pullEach,ih,later,last,List.range_succ_eq_map]

theorem run_pullEach_getElem? {count j : Nat} (inside : j < count) :
    ((pullEach pull count r).run bus).1.1[j]? =
      some (bus.memory.stacked (r.sp + 1 + UInt8.ofNat j)) := by
  rw [run_pullEach,List.getElem?_map,List.getElem?_range inside,Option.map_some]

-- As many pulls as pushes lead back to where the pointer was. From the second turn on they go over
-- the latest 256 values again and again.
theorem run_pullEach_pushAll (values : List UInt8) :
    let pushed := (r.pushAll values).run bus
    ∃ found,(pullEach pull values.length pushed.1).run pushed.2 = ((found,r),pushed.2) ∧
      found.length = values.length ∧ ∀ j,j < values.length → found[j]? = values.reverse[j % 256]? := by
  intro pushed
  have after : pushed = ({ r with sp := lowered r.sp values.length },
      { bus with memory := bus.memory.pushAll r.sp values }) := r.run_pushAll bus values
  have home : lowered r.sp values.length + UInt8.ofNat values.length = r.sp := UInt8.sub_add_cancel _ _
  refine ⟨((pullEach pull values.length pushed.1).run pushed.2).1.1,?_,?_,?_⟩
  · rw [run_pullEach,after,home]
  · rw [run_pullEach,List.length_map,List.length_range]
  · intro j inside
    have raised : lowered r.sp values.length + 1 + UInt8.ofNat j =
        lowered r.sp (values.length - 1 - j) := by
      have whole := lowered_raise r.sp (values.length - 1 - j) (j + 1)
      have depth : values.length - 1 - j + (j + 1) = values.length := by omega
      rw [depth,UInt8.ofNat_add] at whole
      grind
    have within : j % 256 < values.reverse.length := by
      rw [List.length_reverse]
      exact Nat.lt_of_le_of_lt (Nat.mod_le j 256) inside
    rw [run_pullEach_getElem? pushed.1 pushed.2 inside,after,raised,Memory.stacked_pushAll,
      lastPushed_lowered r.sp inside,List.getElem?_eq_getElem within]
    rfl

theorem pullEach_pushAll {values : List UInt8} (fits : values.length ≤ 256) :
    let pushed := (r.pushAll values).run bus
    (pullEach pull values.length pushed.1).run pushed.2 = ((values.reverse,r),pushed.2) := by
  obtain ⟨found,run,length,shown⟩ := r.run_pullEach_pushAll bus values
  have reversed : found = values.reverse := by
    apply List.ext_getElem?
    intro j
    by_cases inside : j < values.length
    · rw [shown j inside,Nat.mod_eq_of_lt (by omega)]
    · rw [List.getElem?_eq_none (by omega),List.getElem?_eq_none (by rw [List.length_reverse]; omega)]
  rwa [reversed] at run

theorem pullEach_pushWords {values : List UInt16} (fits : values.length ≤ 128) :
    let pushed := (r.pushWords values).run bus
    (pullEach pullWord values.length pushed.1).run pushed.2 = ((values.reverse,r),pushed.2) := by
  have length : (spelled values).length = 2 * values.length := by
    simp [spelled,Nat.mul_comm]
  have bytes := r.pullEach_pushAll bus (show (spelled values).length ≤ 256 by omega)
  rw [length] at bytes
  simp only [pushWords_eq,pullWords_eq,Transaction.run_map,bytes,paired_spelled]

theorem stack_ring (values : List UInt8) :
    let pushed := (r.pushAll values).run bus
    let n := values.length
    let pulled (count : Nat) := (pullEach pull count pushed.1).run pushed.2
    (pushed.1 = { r with sp := r.sp - UInt8.ofNat n } ∧ pushed.2.source = bus.source ∧
      (∀ pointer,pushed.2.memory.peek (stackCell pointer) =
        (lastPushed r.sp pointer values).or (bus.memory.peek (stackCell pointer))) ∧
      ∀ address,address.toNat % 65536 < 0x100 ∨ 0x1FF < address.toNat % 65536 →
        pushed.2.memory.peek address = bus.memory.peek address) ∧
    (∀ count,(pulled count).2 = pushed.2 ∧
      (pulled count).1.2 = { r with sp := r.sp - UInt8.ofNat n + UInt8.ofNat count } ∧
      (pulled count).1.1.length = count ∧
      ∀ j,j < count → (pulled count).1.1[j]? =
        pushed.2.memory.peek (stackCell (r.sp - UInt8.ofNat n + 1 + UInt8.ofNat j))) ∧
    (pulled n).1.2 = r ∧
    (n ≤ 256 → (pulled n).1.1 = values.reverse) ∧
    (256 < n → ∀ j,j < n → (pulled n).1.1[j]? = (values.drop (n - 256)).reverse[j % 256]?) ∧
    (∀ words,r.pushWords words = r.pushAll (words.flatMap fun value => [highByte value,lowByte value])) ∧
    (∀ count,pullEach pullWord count r =
      (fun found => (paired found.1,found.2)) <$> pullEach pull (2 * count) r) ∧
    ∀ words : List UInt16,words.length ≤ 128 →
      let stored := (r.pushWords words).run bus
      (pullEach pullWord words.length stored.1).run stored.2 = ((words.reverse,r),stored.2) := by
  intro pushed n pulled
  have after : pushed = ({ r with sp := lowered r.sp n },
      { bus with memory := bus.memory.pushAll r.sp values }) := r.run_pushAll bus values
  obtain ⟨found,back,_,shown⟩ := r.run_pullEach_pushAll bus values
  refine ⟨⟨?_,?_,?_,?_⟩,?_,?_,?_,?_,r.pushWords_eq,r.pullWords_eq,fun _ => r.pullEach_pushWords bus⟩
  · rw [after]
    rfl
  · rw [after]
  · intro pointer
    rw [after,Memory.peek_stackCell,Memory.peek_stackCell,Memory.stacked_pushAll]
    cases lastPushed r.sp pointer values <;> rfl
  · intro address outside
    rw [after]
    exact Memory.peek_pushAll outside r.sp values
  · intro count
    have run : pulled count = _ := run_pullEach pushed.1 pushed.2 count
    have sp : pushed.1 = { r with sp := r.sp - UInt8.ofNat n } := by rw [after]; rfl
    refine ⟨by rw [run],by rw [run,sp],?_,?_⟩
    · rw [run,List.length_map,List.length_range]
    · intro j inside
      rw [Memory.peek_stackCell]
      exact (run_pullEach_getElem? pushed.1 pushed.2 inside).trans (by rw [sp])
  · exact congrArg (·.1.2) back
  · intro fits
    exact congrArg (·.1.1) (r.pullEach_pushAll bus fits)
  · intro more j inside
    have bytes : (pulled n).1.1 = found := congrArg (·.1.1) back
    have latest : j % 256 < values.length - (n - 256) := by
      have turn := Nat.mod_lt j (by decide : 0 < 256)
      omega
    rw [bytes,shown j inside,List.reverse_drop,List.getElem?_take,if_pos latest]

end Run

end Registers

end Console6502
