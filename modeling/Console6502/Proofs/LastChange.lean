import Console6502.Command
import Console6502.Proofs.Cells
import Console6502.Proofs.Flags
import Mathlib.Tactic.ByContra

-- Changes one after another, of a bank and of the status byte. A change sets some places and
-- leaves the others, so the last one that sets a place decides what is there.
namespace Console6502

theorem view_foldl {α β γ : Type} (apply : α → β → α) (view : α → γ) (sets : β → Option γ)
    (one : ∀ a change,view (apply a change) = (sets change).getD (view a)) (a : α) (changes : List β) :
    view (changes.foldl apply a) = (changes.reverse.findSome? sets).getD (view a) := by
  induction changes generalizing a with
  | nil => rfl
  | cons change later ih =>
    rw [List.foldl_cons,ih,one,List.reverse_cons,List.findSome?_append]
    cases later.reverse.findSome? sets with
    | some value => rfl
    | none => cases given : sets change <;> simp [given]

namespace Bank

inductive Change where
  | write (address : UInt32) (value : UInt8)
  | fill (value : UInt8)
  | clear
  deriving DecidableEq

def Change.sets (width : Nat) (address : UInt32) : Change → Option UInt8
  | .write place value =>
    if place.toNat % 2 ^ width = address.toNat % 2 ^ width then some value else none
  | .fill value => some value
  | .clear => some 0

variable {width : Nat}

def change (bank : Bank width) : Change → Bank width
  | .write address value => bank.write address value
  | .fill value => bank.fill value
  | .clear => bank.clear

def changeAll (bank : Bank width) (changes : List Change) : Bank width := changes.foldl change bank

theorem read_change (bank : Bank width) (change : Change) (address : UInt32) :
    (bank.change change).read address = (change.sets width address).getD (bank.read address) := by
  cases change with
  | write place value =>
    simp only [Bank.change,Change.sets,read_write,index_eq_iff]
    split <;> rfl
  | fill value => exact read_fill bank value address
  | clear => exact read_fill bank 0 address

theorem read_changeAll (bank : Bank width) (changes : List Change) (address : UInt32) :
    (bank.changeAll changes).read address =
      (changes.reverse.findSome? (Change.sets width address)).getD (bank.read address) :=
  view_foldl change (·.read address) (Change.sets width address)
    (fun bank change => bank.read_change change address) bank changes

theorem write_seen_iff (bank : Bank width) (address other : UInt32) :
    (∀ value,(bank.write address value).read other = value) ↔
      address.toNat % 2 ^ width = other.toNat % 2 ^ width := by
  simp only [read_write,index_eq_iff]
  constructor
  · intro seen
    by_cases same : address.toNat % 2 ^ width = other.toNat % 2 ^ width
    · exact same
    · have zero := seen 0
      have one := seen 1
      rw [if_neg same] at zero one
      exact absurd (zero.symm.trans one) (by decide)
  · intro same value
    rw [if_pos same]

theorem mirrored_store (bank : Bank width) (changes : List Change) (address other : UInt32) :
    let later := bank.changeAll changes
    let last := changes.reverse.findSome? (Change.sets width address)
    (index width address).val = address.toNat % 2 ^ width ∧ (index width address).val < 2 ^ width ∧
    later.cells.toArray.size = 2 ^ width ∧
    later.read address = last.getD (bank.read address) ∧
    ((zero width).changeAll changes).read address = last.getD 0 ∧
    (index width address = index width other ↔
      address.toNat % 2 ^ width = other.toNat % 2 ^ width) ∧
    ((∀ value,(later.write address value).read other = value) ↔
      address.toNat % 2 ^ width = other.toNat % 2 ^ width) := by
  intro later last
  refine ⟨index_val width address,(index width address).isLt,Vector.size_toArray _,
    bank.read_changeAll changes address,?_,index_eq_iff,later.write_seen_iff address other⟩
  rw [read_changeAll,read_zero]

end Bank

namespace Status

inductive Change where
  | bit (index value : UInt8)
  | assign (mask : UInt8) (on : Bool)
  | sign (result : UInt8)
  | derived (result : UInt8)
  | carry (on : Bool)
  | overflow (on : Bool)
  deriving DecidableEq

def Change.sets (place : Nat) : Change → Option Bool
  | .bit index value => if index.toNat % 8 = place then some (value.toNat % 2 = 1) else none
  | .assign mask on => if mask.toNat.testBit place then some on else none
  | .sign result => if place = 7 then some (result.toNat.testBit 7) else none
  | .derived result =>
    if place = 7 then some (result.toNat.testBit 7) else if place = 1 then some (result = 0) else none
  | .carry on => if place = 0 then some on else none
  | .overflow on => if place = 6 then some on else none

-- The register file has changes that no command asks for.
def Change.command? : Change → Option Command
  | .bit index value => some (.setBit index value)
  | .assign mask on => some (.assignFlags mask on)
  | .derived result => some (.deriveFlags result)
  | .sign _ | .carry _ | .overflow _ => none

def change (s : Status) : Change → Status
  | .bit index value => s.withBit index value
  | .assign mask on => s.assign mask on
  | .sign result => s.withNegative result
  | .derived result => s.withResult result
  | .carry on => s.put .carry on
  | .overflow on => s.put .overflow on

theorem has_eq_testBit (s : Status) (flag : Flag) : s.has flag = s.byte.toNat.testBit flag.index.toNat :=
  s.has_eq flag

theorem testBit_change (s : Status) (change : Change) {place : Nat} (inside : place < 8) :
    (s.change change).byte.toNat.testBit place =
      (change.sets place).getD (s.byte.toNat.testBit place) := by
  obtain ⟨flag,rfl⟩ := Flag.exists_index inside
  rw [← has_eq_testBit,← has_eq_testBit]
  have top (result : UInt8) : result.toNat.testBit 7 = decide (128 ≤ result.toNat) := getLsbD_seven result
  cases change with
  | bit index value =>
    have here : index &&& 7 = flag.index ↔ index.toNat % 8 = flag.index.toNat := by
      rw [← UInt8.toNat_inj,toNat_and_seven]
    have low : value.toBitVec.getLsbD 0 = decide (value.toNat % 2 = 1) := Nat.testBit_zero _
    simp only [Status.change,Change.sets,has_withBit,here,low]
    split <;> rfl
  | assign mask on =>
    have covered : (⟨mask⟩ : Status).has flag = mask.toNat.testBit flag.index.toNat := has_eq_testBit _ _
    simp only [Status.change,Change.sets,has_assign,covered]
    split <;> rfl
  | sign result =>
    simp only [Status.change,Change.sets,has_withNegative,top]
    cases flag <;> rfl
  | derived result =>
    simp only [Status.change,Change.sets,has_withResult,top]
    cases flag <;> rfl
  | carry on | overflow on =>
    simp only [Status.change,Change.sets,has_put]
    cases flag <;> rfl

theorem toNat_bit (s : Status) (index : UInt8) :
    (s.bit index).toNat = (s.byte.toNat.testBit (index.toNat % 8)).toNat := by
  rw [bit,UInt8.toNat_and,UInt8.toNat_shiftRight,toNat_and_seven,Nat.mod_mod,Nat.toNat_testBit,
    Nat.shiftRight_eq_div_pow]
  exact Nat.and_one_is_mod _

theorem any_iff (s : Status) (mask : UInt8) :
    s.any mask = true ↔ ∃ place,place < 8 ∧ mask.toNat.testBit place ∧ s.byte.toNat.testBit place := by
  have common (place : Nat) : (s.byte &&& mask).toNat.testBit place =
      (s.byte.toNat.testBit place && mask.toNat.testBit place) := by
    rw [UInt8.toNat_and,Nat.testBit_and]
  rw [any,bne_iff_ne,Ne,← UInt8.toNat_inj]
  constructor
  · intro nonzero
    obtain ⟨place,set⟩ := Nat.exists_testBit_of_ne_zero nonzero
    have inside : place < 8 := by
      by_contra outside
      have bound : (s.byte &&& mask).toNat < 2 ^ place :=
        Nat.lt_of_lt_of_le (UInt8.toNat_lt _) (Nat.pow_le_pow_right (by decide) (Nat.le_of_not_lt outside))
      rw [Nat.testBit_lt_two_pow bound] at set
      cases set
    rw [common,Bool.and_eq_true] at set
    exact ⟨place,inside,set.2,set.1⟩
  · rintro ⟨place,_,masked,held⟩ zero
    have set := common place
    rw [zero,masked,held] at set
    cases (Nat.zero_testBit place).symm.trans set

end Status

namespace Registers

def change (r : Registers) (change : Status.Change) : Registers := r.flags (·.change change)

def changeAll (r : Registers) (changes : List Status.Change) : Registers := changes.foldl change r

theorem changeAll_eq (r : Registers) (changes : List Status.Change) :
    r.changeAll changes = { r with p := (r.changeAll changes).p } := by
  induction changes generalizing r with
  | nil => rfl
  | cons change later ih => exact (ih (r.change change)).trans rfl

theorem testBit_changeAll (r : Registers) (changes : List Status.Change) {place : Nat}
    (inside : place < 8) :
    (r.changeAll changes).p.byte.toNat.testBit place =
      (changes.reverse.findSome? (Status.Change.sets place)).getD (r.p.byte.toNat.testBit place) :=
  view_foldl change (·.p.byte.toNat.testBit place) (Status.Change.sets place)
    (fun r change => r.p.testBit_change change inside) r changes

variable {σ : Type} [ByteSource σ]

theorem performAll_changeAll {changes : List Status.Change} {commands : List Command}
    (asked : changes.map Status.Change.command? = commands.map some) (questions : List Command)
    (r : Registers) (bus : Bus σ) (config : Config) :
    Command.performAll (commands ++ questions) ⟨r,bus,config⟩ =
      let answered := Command.performAll questions ⟨r.changeAll changes,bus,config⟩
      (List.replicate commands.length .done ++ answered.1,answered.2) := by
  induction changes generalizing r commands with
  | nil =>
    cases commands with
    | nil => rfl
    | cons => cases asked
  | cons change later ih =>
    cases commands with
    | nil => cases asked
    | cons command rest =>
      obtain ⟨first,asked⟩ := List.cons.inj asked
      have performed : command.perform ⟨r,bus,config⟩ = (Reply.done,⟨r.change change,bus,config⟩) := by
        cases change <;> cases first <;> rfl
      rw [List.cons_append,Command.performAll,performed]
      simp only [ih asked]
      rfl

-- Each bit holds what the last change gave it, whichever way the changes name their bits.
theorem last_flag_wins (r : Registers) (changes : List Status.Change) (bus : Bus σ) (config : Config) :
    let last := r.changeAll changes
    let given (place : Nat) := changes.reverse.findSome? (Status.Change.sets place)
    (∀ place,place < 8 →
      last.p.byte.toNat.testBit place = (given place).getD (r.p.byte.toNat.testBit place)) ∧
    last = { r with p := last.p } ∧
    (∀ index,(last.p.bit index).toNat = (last.p.byte.toNat.testBit (index.toNat % 8)).toNat) ∧
    (∀ mask,last.p.any mask = true ↔
      ∃ place,place < 8 ∧ mask.toNat.testBit place ∧ last.p.byte.toNat.testBit place) ∧
    last.p.any 0 = false ∧
    ∀ commands,changes.map Status.Change.command? = commands.map some → ∀ index mask,
      Command.performAll (commands ++ [.bit index,.anyFlag mask,.inspect]) ⟨r,bus,config⟩ =
        (List.replicate commands.length .done ++
          [.byte (last.p.bit index),.truth (last.p.any mask),.state last config],⟨last,bus,config⟩) := by
  intro last given
  refine ⟨fun _ => r.testBit_changeAll changes,r.changeAll_eq changes,last.p.toNat_bit,last.p.any_iff,?_,?_⟩
  · rw [Bool.eq_false_iff,Ne,Status.any_iff]
    rintro ⟨place,_,set,_⟩
    cases (Nat.zero_testBit place).symm.trans set
  · intro commands asked index mask
    exact performAll_changeAll asked [.bit index,.anyFlag mask,.inspect] r bus config

end Registers

end Console6502
