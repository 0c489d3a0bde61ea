import Console6502.Proofs.Cells
import Mathlib.Data.List.Induction

-- Page one as a ring of 256 cells below a pointer that wraps inside the page.
namespace Console6502

def lowered (sp : UInt8) (count : Nat) : UInt8 := sp - UInt8.ofNat count

@[simp] theorem lowered_zero (sp : UInt8) : lowered sp 0 = sp := by simp [lowered]

theorem lowered_add (sp : UInt8) (first second : Nat) :
    lowered (lowered sp first) second = lowered sp (first + second) := by
  unfold lowered
  rw [UInt8.ofNat_add]
  grind

theorem lowered_succ (sp : UInt8) (count : Nat) : lowered (sp - 1) count = lowered sp (count + 1) := by
  have one : sp - 1 = lowered sp 1 := rfl
  rw [one,lowered_add,Nat.add_comm]

theorem lowered_raise (sp : UInt8) (count pulls : Nat) :
    lowered sp (count + pulls) + UInt8.ofNat pulls = lowered sp count := by
  rw [← lowered_add]
  exact UInt8.sub_add_cancel _ _

theorem lowered_eq_iff {sp pointer : UInt8} {count : Nat} :
    lowered sp count = pointer ↔ count % 256 = (sp - pointer).toNat := by
  have turned : count % 256 = (UInt8.ofNat count).toNat := UInt8.toNat_ofNat'.symm
  rw [turned,UInt8.toNat_inj,lowered]
  grind

theorem lowered_eq_lowered {sp : UInt8} {left right : Nat} :
    lowered sp left = lowered sp right ↔ left % 256 = right % 256 := by
  have same : lowered sp right = sp - UInt8.ofNat right := rfl
  have difference : sp - lowered sp right = UInt8.ofNat right := by grind
  rw [lowered_eq_iff,difference,UInt8.toNat_ofNat']

theorem lowered_inj {sp : UInt8} {left right : Nat} (first : left < 256) (second : right < 256) :
    lowered sp left = lowered sp right ↔ left = right := by
  rw [lowered_eq_lowered,Nat.mod_eq_of_lt first,Nat.mod_eq_of_lt second]

-- The value of the last push that fell on the cell of a pointer, if one did.
def lastPushed (sp pointer : UInt8) (values : List UInt8) : Option UInt8 :=
  values.zipIdx.reverse.findSome? fun entry =>
    if entry.2 % 256 = (sp - pointer).toNat then some entry.1 else none

theorem lastPushed_concat (sp pointer : UInt8) (values : List UInt8) (value : UInt8) :
    lastPushed sp pointer (values ++ [value]) =
      if lowered sp values.length = pointer then some value else lastPushed sp pointer values := by
  simp only [lastPushed,lowered_eq_iff,List.zipIdx_append,List.reverse_append,List.zipIdx_singleton,
    List.reverse_singleton,List.singleton_append,List.findSome?_cons,Nat.zero_add]
  by_cases here : values.length % 256 = (sp - pointer).toNat
  · rw [if_pos here,if_pos here]
  · rw [if_neg here,if_neg here]

theorem lastPushed_eq_none {sp pointer : UInt8} {values : List UInt8}
    (apart : ∀ i,i < values.length → pointer ≠ lowered sp i) : lastPushed sp pointer values = none := by
  induction values using List.reverseRecOn with
  | nil => rfl
  | append_singleton values value ih =>
    rw [List.length_append,List.length_singleton] at apart
    rw [lastPushed_concat,if_neg (apart values.length (Nat.lt_succ_self _)).symm]
    exact ih fun i inside => apart i (Nat.lt_succ_of_lt inside)

-- Counted from the top, the pushes on one cell are a full turn apart, and the latest of them is
-- within the first turn.
theorem lastPushed_lowered (sp : UInt8) {values : List UInt8} {depth : Nat} (inside : depth < values.length) :
    lastPushed sp (lowered sp (values.length - 1 - depth)) values = values.reverse[depth % 256]? := by
  induction values using List.reverseRecOn generalizing depth with
  | nil => cases inside
  | append_singleton values value ih =>
    rw [List.length_append,List.length_singleton] at inside ⊢
    rw [lastPushed_concat,List.reverse_append,List.reverse_singleton,List.singleton_append]
    have turned : lowered sp values.length = lowered sp (values.length + 1 - 1 - depth) ↔ depth % 256 = 0 := by
      rw [lowered_eq_lowered]
      omega
    by_cases top : depth % 256 = 0
    · rw [if_pos (turned.mpr top),top,List.getElem?_cons_zero]
    · have below : values.length + 1 - 1 - depth = values.length - 1 - (depth - 1) := by omega
      have next : depth % 256 = (depth - 1) % 256 + 1 := by omega
      rw [if_neg (mt turned.mp top),below,ih (by omega),next,List.getElem?_cons_succ]

def Memory.pushAll (m : Memory) (sp : UInt8) : List UInt8 → Memory
  | [] => m
  | value :: rest => (m.poke (stackCell sp) value).pushAll (sp - 1) rest

namespace Memory

def topmost (m : Memory) (sp : UInt8) (count : Nat) : List UInt8 :=
  (List.range count).map fun i => m.stacked (lowered sp i)

theorem stacked_poke_stackCell (m : Memory) (sp value pointer : UInt8) :
    (m.poke (stackCell sp) value).stacked pointer = if sp = pointer then value else m.stacked pointer := by
  simp only [stacked_poke,masked_stackCell,stackCell_inj]

theorem pushAll_concat (m : Memory) (sp : UInt8) (values : List UInt8) (value : UInt8) :
    m.pushAll sp (values ++ [value]) =
      (m.pushAll sp values).poke (stackCell (lowered sp values.length)) value := by
  induction values generalizing m sp with
  | nil => rw [List.nil_append,List.length_nil,lowered_zero]; rfl
  | cons first rest ih => rw [List.cons_append,pushAll,ih,lowered_succ]; rfl

theorem stacked_pushAll (m : Memory) (sp pointer : UInt8) (values : List UInt8) :
    (m.pushAll sp values).stacked pointer = (lastPushed sp pointer values).getD (m.stacked pointer) := by
  induction values using List.reverseRecOn with
  | nil => rfl
  | append_singleton values value ih =>
    rw [pushAll_concat,stacked_poke_stackCell,lastPushed_concat,ih]
    split <;> rfl

theorem stacked_pushAll_other {m : Memory} {sp pointer : UInt8} {values : List UInt8}
    (apart : ∀ i,i < values.length → pointer ≠ lowered sp i) :
    (m.pushAll sp values).stacked pointer = m.stacked pointer := by
  rw [stacked_pushAll,lastPushed_eq_none apart]
  rfl

theorem stacked_pushAll_at {m : Memory} {sp : UInt8} {values : List UInt8}
    (fits : values.length ≤ 256) {i : Nat} (inside : i < values.length) :
    (m.pushAll sp values).stacked (lowered sp i) = values[i] := by
  have depth : values.length - 1 - (values.length - 1 - i) = i := by omega
  have first : (values.length - 1 - i) % 256 = values.length - 1 - i := Nat.mod_eq_of_lt (by omega)
  have found := lastPushed_lowered sp (show values.length - 1 - i < values.length by omega)
  rw [first,List.getElem?_reverse (by omega),depth,List.getElem?_eq_getElem inside] at found
  rw [stacked_pushAll,found]
  rfl

theorem topmost_pushAll {m : Memory} {sp : UInt8} {values : List UInt8} (fits : values.length ≤ 256) :
    (m.pushAll sp values).topmost sp values.length = values := by
  apply List.ext_getElem
  · rw [topmost,List.length_map,List.length_range]
  · intro i inside within
    simp only [topmost,List.getElem_map,List.getElem_range]
    exact stacked_pushAll_at fits within

theorem peek_pushAll_other {m : Memory} {sp : UInt8} {values : List UInt8} {address : UInt32}
    (apart : ∀ i,i < values.length → address.toNat % 65536 ≠ 0x100 + (lowered sp i).toNat) :
    (m.pushAll sp values).peek address = m.peek address := by
  induction values generalizing m sp with
  | nil => rfl
  | cons value rest ih =>
    have below : ∀ i,i < rest.length → address.toNat % 65536 ≠ 0x100 + (lowered (sp - 1) i).toNat := by
      intro i inside
      rw [lowered_succ]
      exact apart (i + 1) (Nat.succ_lt_succ inside)
    have top : masked (stackCell sp) ≠ masked address := by
      have here := apart 0 (Nat.succ_pos _)
      have bound := sp.toNat_lt
      rw [lowered_zero] at here
      rw [Ne,masked_eq_iff,toNat_stackCell]
      omega
    rw [pushAll,ih below,peek_poke,if_neg fun both => top both.2]

theorem topmost_congr {left right : Memory} {sp : UInt8} {count : Nat}
    (same : ∀ i,i < count → left.stacked (lowered sp i) = right.stacked (lowered sp i)) :
    left.topmost sp count = right.topmost sp count :=
  List.map_congr_left fun i member => same i (List.mem_range.mp member)

end Memory

end Console6502
