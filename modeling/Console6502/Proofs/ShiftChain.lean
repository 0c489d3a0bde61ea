import Console6502.Action
import Console6502.Proofs.Cells
import Console6502.Proofs.Flags
import Console6502.Proofs.Number
import Mathlib.Tactic.Ring

-- Shifts of numbers that lie in memory, a cell at a time, with the carry flag as the only link.
namespace Console6502

theorem top_bit (value : UInt8) : (value &&& 0x80 != 0) = decide (128 ≤ value.toNat) :=
  (Status.has_eq ⟨value⟩ .negative).trans (getLsbD_seven value)

theorem low_bit (value : UInt8) : (value &&& 0x01 != 0) = decide (value.toNat % 2 = 1) :=
  (Status.has_eq ⟨value⟩ .carry).trans (Nat.testBit_zero _)

namespace Transform

-- A shift pulls in a zero whatever the flag holds.
def letsIn : Transform → Bool → Bool
  | .shiftLeft,_ | .shiftRight,_ => false
  | .rotateLeft,carry | .rotateRight,carry | .increment,carry | .decrement,carry => carry

theorem rotateLeft_exact (value : UInt8) (carry : Bool) :
    (rotateLeft.apply value carry).1.toNat + 256 * (rotateLeft.apply value carry).2.toNat =
      2 * value.toNat + carry.toNat := by
  have bound := value.toNat_lt
  have lowest : carry.toUInt8.toNat = carry.toNat := by cases carry <;> rfl
  have small : carry.toNat < 2 ^ 1 := carry.toNat_lt
  have moved : (value <<< 1).toNat = 2 ^ 1 * (value.toNat % 128) := by
    rw [UInt8.toNat_shiftLeft,UInt8.toNat_one,Nat.shiftLeft_eq,show 1 % 8 = 1 from rfl]
    omega
  rw [apply,UInt8.toNat_or,lowest,moved,← Nat.two_pow_add_eq_or_of_lt small,top_bit,
    toNat_decide]
  split <;> omega

theorem rotateRight_exact (value : UInt8) (carry : Bool) :
    2 * (rotateRight.apply value carry).1.toNat + (rotateRight.apply value carry).2.toNat =
      value.toNat + 256 * carry.toNat := by
  have bound := value.toNat_lt
  have highest : (carry.toUInt8 <<< 7).toNat = 2 ^ 7 * carry.toNat := by cases carry <;> rfl
  have moved : (value >>> 1).toNat = value.toNat / 2 := by
    rw [UInt8.toNat_shiftRight,UInt8.toNat_one,Nat.shiftRight_eq_div_pow]
  have small : value.toNat / 2 < 2 ^ 7 := by omega
  rw [apply,UInt8.toNat_or,highest,moved,Nat.or_comm,← Nat.two_pow_add_eq_or_of_lt small,low_bit,
    toNat_decide]
  split <;> omega

-- A shift is a rotation that finds the carry clear.
theorem shiftLeft_apply (value : UInt8) (carry : Bool) :
    shiftLeft.apply value carry = rotateLeft.apply value false := Prod.ext UInt8.or_zero.symm rfl

theorem shiftRight_apply (value : UInt8) (carry : Bool) :
    shiftRight.apply value carry = rotateRight.apply value false := Prod.ext UInt8.or_zero.symm rfl

theorem apply_left {transform : Transform} (left : transform ∈ [rotateLeft,shiftLeft]) (value : UInt8)
    (carry : Bool) :
    (transform.apply value carry).1.toNat + 256 * (transform.apply value carry).2.toNat =
      2 * value.toNat + (transform.letsIn carry).toNat := by
  simp only [List.mem_cons,List.not_mem_nil,or_false] at left
  obtain rfl | rfl := left
  · exact rotateLeft_exact value carry
  · rw [shiftLeft_apply]
    exact rotateLeft_exact value false

theorem apply_right {transform : Transform} (right : transform ∈ [rotateRight,shiftRight])
    (value : UInt8) (carry : Bool) :
    2 * (transform.apply value carry).1.toNat + (transform.apply value carry).2.toNat =
      value.toNat + 256 * (transform.letsIn carry).toNat := by
  simp only [List.mem_cons,List.not_mem_nil,or_false] at right
  obtain rfl | rfl := right
  · exact rotateRight_exact value carry
  · rw [shiftRight_apply]
    exact rotateRight_exact value false

-- The first transform on the first byte and the other on the rest, each carry handed to the next
-- byte. The last carry comes out.
def chain (first later : Transform) (carry : Bool) : List UInt8 → List UInt8 × Bool
  | [] => ([],carry)
  | byte :: rest =>
    let (result,out) := first.apply byte carry
    let (results,last) := later.chain later out rest
    (result :: results,last)

theorem chain_cons (first later : Transform) (carry : Bool) (byte : UInt8) (rest : List UInt8) :
    first.chain later carry (byte :: rest) =
      ((first.apply byte carry).1 :: (later.chain later (first.apply byte carry).2 rest).1,
        (later.chain later (first.apply byte carry).2 rest).2) := rfl

variable {first : Transform}

theorem chain_length (first later : Transform) (carry : Bool) (bytes : List UInt8) :
    (first.chain later carry bytes).1.length = bytes.length := by
  induction bytes generalizing first carry with
  | nil => rfl
  | cons byte rest ih => exact congrArg (· + 1) (ih _ _)

theorem chain_left (left : first ∈ [rotateLeft,shiftLeft]) (carry : Bool) (byte : UInt8)
    (rest : List UInt8) :
    littleEndian (first.chain rotateLeft carry (byte :: rest)).1 +
        256 ^ (byte :: rest).length * (first.chain rotateLeft carry (byte :: rest)).2.toNat =
      2 * littleEndian (byte :: rest) + (first.letsIn carry).toNat := by
  have lowest := apply_left left byte carry
  induction rest generalizing byte first carry with
  | nil =>
    simp only [chain,littleEndian_cons,littleEndian_nil,List.length_singleton,pow_one]
    omega
  | cons next rest ih =>
    have member : rotateLeft ∈ [rotateLeft,shiftLeft] := List.mem_cons_self
    have higher := ih member (first.apply byte carry).2 next (apply_left member _ _)
    rw [letsIn] at higher
    rw [chain_cons,littleEndian_cons,pow_length_cons byte,littleEndian_cons byte]
    generalize rotateLeft.chain rotateLeft (first.apply byte carry).2 (next :: rest) = above at higher ⊢
    calc (first.apply byte carry).1.toNat + 256 * littleEndian above.1 +
          256 * 256 ^ (next :: rest).length * above.2.toNat
        = (first.apply byte carry).1.toNat + 256 * (littleEndian above.1 +
            256 ^ (next :: rest).length * above.2.toNat) := by ring
      _ = 2 * (byte.toNat + 256 * littleEndian (next :: rest)) + (first.letsIn carry).toNat := by
        rw [higher]
        omega

theorem chain_right (right : first ∈ [rotateRight,shiftRight]) (carry : Bool) (byte : UInt8)
    (rest : List UInt8) :
    2 * littleEndian (first.chain rotateRight carry (byte :: rest)).1.reverse +
        (first.chain rotateRight carry (byte :: rest)).2.toNat =
      littleEndian (byte :: rest).reverse + 256 ^ (byte :: rest).length * (first.letsIn carry).toNat := by
  have highest := apply_right right byte carry
  induction rest generalizing byte first carry with
  | nil =>
    simp only [chain,List.reverse_singleton,littleEndian_cons,littleEndian_nil,List.length_singleton,
      pow_one]
    omega
  | cons next rest ih =>
    have member : rotateRight ∈ [rotateRight,shiftRight] := List.mem_cons_self
    have lower := ih member (first.apply byte carry).2 next (apply_right member _ _)
    have length := chain_length rotateRight rotateRight (first.apply byte carry).2 (next :: rest)
    rw [letsIn] at lower
    rw [chain_cons,littleEndian_reverse_cons,littleEndian_reverse_cons byte,pow_length_cons byte,length]
    generalize rotateRight.chain rotateRight (first.apply byte carry).2 (next :: rest) = below at lower ⊢
    calc 2 * (littleEndian below.1.reverse +
            256 ^ (next :: rest).length * (first.apply byte carry).1.toNat) + below.2.toNat
        = 2 * littleEndian below.1.reverse + below.2.toNat +
            256 ^ (next :: rest).length * (2 * (first.apply byte carry).1.toNat) := by ring
      _ = littleEndian (next :: rest).reverse + 256 ^ (next :: rest).length *
            (2 * (first.apply byte carry).1.toNat + (first.apply byte carry).2.toNat) := by
        rw [lower]
        ring
      _ = littleEndian (next :: rest).reverse + 256 ^ (next :: rest).length * byte.toNat +
            256 * 256 ^ (next :: rest).length * (first.letsIn carry).toNat := by
        rw [highest]
        ring

end Transform

namespace Memory

variable (m : Memory)

def byteAt (m : Memory) (address : UInt32) : UInt8 := (m.peek address).getD 0

def number (m : Memory) (addresses : List UInt32) : Nat := littleEndian (addresses.map m.byteAt)

theorem number_reverse (addresses : List UInt32) :
    littleEndian (addresses.reverse.map m.byteAt).reverse = m.number addresses := by
  rw [List.map_reverse,List.reverse_reverse,number]

theorem number_lt (addresses : List UInt32) : m.number addresses < 256 ^ addresses.length := by
  have bound := littleEndian_lt (addresses.map m.byteAt)
  rwa [List.length_map] at bound

variable {address : UInt32} (kept : (Region.ofAddress address).writable = true)

include kept

theorem peek_kept : m.peek address = some (m.byteAt address) := by
  unfold byteAt peek
  generalize Region.ofAddress address = region at kept ⊢
  cases region <;> first | rfl | cases kept

theorem byteAt_poke (value : UInt8) (place : UInt32) :
    (m.poke address value).byteAt place =
      if masked address = masked place then value else m.byteAt place := by
  simp only [byteAt,peek_poke,kept,true_and]
  split <;> rfl

end Memory

-- Cells that keep what is written, none of them twice.
structure Separate (addresses : List UInt32) : Prop where
  distinct : (addresses.map (·.toNat % 65536)).Nodup
  kept : ∀ address ∈ addresses,(Region.ofAddress address).writable = true

namespace Separate

theorem head {address : UInt32} {rest : List UInt32} (separate : Separate (address :: rest)) :
    (Region.ofAddress address).writable = true ∧ ∀ other ∈ rest,masked other ≠ masked address := by
  refine ⟨separate.kept address List.mem_cons_self,?_⟩
  intro other member same
  have absent := (List.nodup_cons.mp separate.distinct).1
  exact absent (List.mem_map.mpr ⟨other,member,masked_eq_iff.mp same⟩)

theorem tail {address : UInt32} {rest : List UInt32} (separate : Separate (address :: rest)) :
    Separate rest where
  distinct := (List.nodup_cons.mp separate.distinct).2
  kept other member := separate.kept other (List.mem_cons_of_mem _ member)

theorem reorder {addresses order : List UInt32} (separate : Separate addresses)
    (same : order.Perm addresses) : Separate order where
  distinct := (same.map _).nodup_iff.mpr separate.distinct
  kept address member := separate.kept address (same.mem_iff.mp member)

theorem memory_eq {addresses : List UInt32} (separate : Separate addresses) {left right : Memory}
    (bytes : ∀ address ∈ addresses,left.byteAt address = right.byteAt address)
    (elsewhere : ∀ place,(∀ address ∈ addresses,masked address ≠ masked place) →
      left.peek place = right.peek place) : left = right := by
  apply Memory.ext_peek
  intro place
  by_cases inside : ∃ address ∈ addresses,masked address = masked place
  · obtain ⟨address,member,same⟩ := inside
    have kept := separate.kept address member
    rw [← left.peek_congr same,← right.peek_congr same,left.peek_kept kept,right.peek_kept kept,
      bytes address member]
  · exact elsewhere place fun address member same => inside ⟨address,member,same⟩

end Separate

namespace Registers

variable {σ : Type} [ByteSource σ] (r : Registers) (bus : Bus σ)

def modifyCells (r : Registers) (first later : Transform) : List UInt32 → Transaction Registers
  | [] => return r
  | address :: rest => do
    let r ← r.modifyCell address first
    r.modifyCells later later rest

theorem modifyCells_cons (first later : Transform) {address : UInt32} (rest : List UInt32)
    (kept : (Region.ofAddress address).writable = true) :
    let changed := first.apply (bus.memory.byteAt address) (r.p.has .carry)
    (r.modifyCells first later (address :: rest)).run bus =
      (((r.putFlag .carry changed.2).flags (·.withResult changed.1)).modifyCells later later rest).run
        (bus.write address changed.1) := by
  intro changed
  have found : bus.read address = (bus.memory.byteAt address,bus) := by
    simp only [Bus.read,bus.memory.peek_kept kept]
  simp only [modifyCells,modifyCell,Transaction.run_bind,Transaction.run_fetch,Transaction.run_store,
    Transaction.run_pure,found]
  rfl

variable {r bus} {first later : Transform} {addresses : List UInt32} {after : Registers} {left : Bus σ}

theorem modifyCells_frame (kept : ∀ address ∈ addresses,(Region.ofAddress address).writable = true)
    (ran : (r.modifyCells first later addresses).run bus = (after,left)) :
    after = { r with p := after.p } ∧
    (∀ flag ∉ [Flag.carry,.zero,.negative],after.p.has flag = r.p.has flag) ∧
    left.source = bus.source ∧
    ∀ place,(∀ address ∈ addresses,masked address ≠ masked place) →
      left.memory.peek place = bus.memory.peek place := by
  induction addresses generalizing r bus first with
  | nil =>
    cases ran
    exact ⟨rfl,fun _ _ => rfl,rfl,fun _ _ => rfl⟩
  | cons address rest ih =>
    rw [modifyCells_cons _ _ _ _ _ (kept address List.mem_cons_self)] at ran
    generalize first.apply (bus.memory.byteAt address) (r.p.has .carry) = changed at ran
    obtain ⟨registers,flags,source,memory⟩ :=
      ih (fun other member => kept other (List.mem_cons_of_mem _ member)) ran
    refine ⟨registers,?_,source,?_⟩
    · intro flag other
      rw [flags flag other]
      simp only [List.mem_cons,List.not_mem_nil,or_false,not_or] at other
      simp [other,Ne.symm other.1]
    · intro place outside
      rw [memory place (fun other member => outside other (List.mem_cons_of_mem _ member)),Bus.write,
        Memory.peek_poke,if_neg]
      exact fun written => outside address List.mem_cons_self written.2

theorem modifyCells_chain (separate : Separate addresses)
    (ran : (r.modifyCells first later addresses).run bus = (after,left)) :
    first.chain later (r.p.has .carry) (addresses.map bus.memory.byteAt) =
      (addresses.map left.memory.byteAt,after.p.has .carry) := by
  induction addresses generalizing r bus first with
  | nil =>
    cases ran
    rfl
  | cons address rest ih =>
    obtain ⟨kept,apart⟩ := separate.head
    rw [modifyCells_cons _ _ _ _ _ kept] at ran
    rw [List.map_cons,Transform.chain_cons]
    generalize first.apply (bus.memory.byteAt address) (r.p.has .carry) = changed at ran ⊢
    have chained := ih separate.tail ran
    obtain ⟨_,_,_,elsewhere⟩ := modifyCells_frame separate.tail.kept ran
    have carry : ((r.putFlag .carry changed.2).flags (·.withResult changed.1)).p.has .carry = changed.2 := by
      simp
    have unread : rest.map (bus.write address changed.1).memory.byteAt = rest.map bus.memory.byteAt := by
      apply List.map_congr_left
      intro other member
      rw [Bus.write,Memory.byteAt_poke _ kept,if_neg (Ne.symm (apart other member))]
    have written : left.memory.byteAt address = changed.1 := by
      rw [Memory.byteAt,elsewhere address apart,Bus.write,Memory.peek_poke,if_pos ⟨kept,rfl⟩,
        Option.getD_some]
    rw [carry,unread] at chained
    rw [chained,List.map_cons,written]

theorem modifyCells_last (separate : Separate addresses) {last : UInt32}
    (final : addresses.getLast? = some last)
    (ran : (r.modifyCells first later addresses).run bus = (after,left)) :
    after.p.has .negative = decide (128 ≤ (left.memory.byteAt last).toNat) ∧
      after.p.has .zero = decide (left.memory.byteAt last = 0) := by
  induction addresses generalizing r bus first with
  | nil => cases final
  | cons address rest ih =>
    obtain ⟨kept,apart⟩ := separate.head
    rw [modifyCells_cons _ _ _ _ _ kept] at ran
    cases rest with
    | nil =>
      obtain rfl : address = last := Option.some.inj final
      cases ran
      rw [Bus.write,Memory.byteAt_poke _ kept,if_pos rfl]
      simp [beq_eq_decide]
    | cons next rest =>
      rw [List.getLast?_cons_cons] at final
      exact ih separate.tail final ran

theorem modifyCells_left (separate : Separate addresses) (nonempty : addresses ≠ [])
    (doubling : first ∈ [Transform.rotateLeft,.shiftLeft])
    (ran : (r.modifyCells first .rotateLeft addresses).run bus = (after,left)) :
    left.memory.number addresses + 256 ^ addresses.length * (after.p.has .carry).toNat =
      2 * bus.memory.number addresses + (first.letsIn (r.p.has .carry)).toNat := by
  have chained := modifyCells_chain separate ran
  obtain ⟨address,rest,rfl⟩ := List.exists_cons_of_ne_nil nonempty
  have exact := Transform.chain_left doubling (r.p.has .carry) (bus.memory.byteAt address)
    (rest.map bus.memory.byteAt)
  rw [← List.map_cons,chained,List.length_map] at exact
  exact exact

theorem modifyCells_right (separate : Separate addresses) (nonempty : addresses ≠ [])
    (halving : first ∈ [Transform.rotateRight,.shiftRight])
    (ran : (r.modifyCells first .rotateRight addresses.reverse).run bus = (after,left)) :
    2 * left.memory.number addresses + (after.p.has .carry).toNat =
      bus.memory.number addresses + 256 ^ addresses.length * (first.letsIn (r.p.has .carry)).toNat := by
  have chained := modifyCells_chain (separate.reorder addresses.reverse_perm) ran
  obtain ⟨address,rest,order⟩ := List.exists_cons_of_ne_nil (List.reverse_ne_nil_iff.mpr nonempty)
  have exact := Transform.chain_right halving (r.p.has .carry) (bus.memory.byteAt address)
    (rest.map bus.memory.byteAt)
  rw [← List.map_cons,← order,chained,Memory.number_reverse,Memory.number_reverse,List.length_map,
    List.length_reverse] at exact
  exact exact

-- The way back takes every bit to where it came from, the carry among them.
theorem modifyCells_back (separate : Separate addresses) (nonempty : addresses ≠ [])
    {turned : Registers} {middle : Bus σ}
    (up : (r.modifyCells .rotateLeft .rotateLeft addresses).run bus = (turned,middle))
    (down : (turned.modifyCells .rotateRight .rotateRight addresses.reverse).run middle = (after,left)) :
    left = bus ∧ after.p.has .carry = r.p.has .carry := by
  have doubled := modifyCells_left separate nonempty List.mem_cons_self up
  have halved := modifyCells_right separate nonempty List.mem_cons_self down
  simp only [Transform.letsIn] at doubled halved
  have number : left.memory.number addresses = bus.memory.number addresses := by
    have := (after.p.has .carry).toNat_le
    have := (r.p.has .carry).toNat_le
    omega
  have carry : after.p.has .carry = r.p.has .carry := by
    have same : (after.p.has .carry).toNat = (r.p.has .carry).toNat := by omega
    rw [Bool.eq_iff_iff,← Bool.toNat_eq_one,same,Bool.toNat_eq_one]
  have bytes := List.map_inj_left.mp (littleEndian_inj (by simp only [List.length_map]) number)
  obtain ⟨_,_,source,elsewhere⟩ := modifyCells_frame separate.kept up
  obtain ⟨_,_,source',elsewhere'⟩ := modifyCells_frame (separate.reorder addresses.reverse_perm).kept down
  have memory : left.memory = bus.memory := by
    apply separate.memory_eq bytes
    intro place outside
    rw [elsewhere' place fun address member => outside address (List.mem_reverse.mp member),
      elsewhere place outside]
  exact ⟨congrArg₂ Bus.mk memory (source'.trans source),carry⟩

end Registers

-- Chains of shifts are shifts of the whole number, up the cells and down them; the way up and
-- down again changes nothing. Whatever the transforms and their order, the rest of the state stays.
theorem shift_chains {σ : Type} [ByteSource σ] {addresses : List UInt32} (separate : Separate addresses)
    (nonempty : addresses ≠ []) (r : Registers) (bus : Bus σ) :
    let carry := r.p.has .carry
    let before := bus.memory.number addresses
    let whole := 256 ^ addresses.length
    (∀ first ∈ [Transform.rotateLeft,.shiftLeft],
      let (after,left) := (r.modifyCells first .rotateLeft addresses).run bus
      let total := 2 * before + (first.letsIn carry).toNat
      left.memory.number addresses = total % whole ∧ (after.p.has .carry).toNat = total / whole) ∧
    (∀ first ∈ [Transform.rotateRight,.shiftRight],
      let (after,left) := (r.modifyCells first .rotateRight addresses.reverse).run bus
      let total := before + (first.letsIn carry).toNat * whole
      left.memory.number addresses = total / 2 ∧ (after.p.has .carry).toNat = before % 2) ∧
    (let (turned,middle) := (r.modifyCells .rotateLeft .rotateLeft addresses).run bus
      let (after,left) := (turned.modifyCells .rotateRight .rotateRight addresses.reverse).run middle
      left = bus ∧ after.p.has .carry = carry) ∧
    ∀ first later order,order.Perm addresses →
      let (after,left) := (r.modifyCells first later order).run bus
      after = { r with p := after.p } ∧
      (∀ flag ∉ [Flag.carry,.zero,.negative],after.p.has flag = r.p.has flag) ∧
      (∃ last,order.getLast? = some last ∧
        after.p.has .negative = decide (128 ≤ (left.memory.byteAt last).toNat) ∧
        after.p.has .zero = decide (left.memory.byteAt last = 0)) ∧
      ∀ place,(∀ address ∈ addresses,place.toNat % 65536 ≠ address.toNat % 65536) →
        left.memory.peek place = bus.memory.peek place := by
  intro carry before whole
  have positive : 0 < whole := Nat.pow_pos (by decide)
  have even : whole = 2 * (whole / 2) := pow_even (List.length_pos_iff.mpr nonempty)
  refine ⟨?_,?_,?_,?_⟩
  · intro first doubling
    cases ran : (r.modifyCells first .rotateLeft addresses).run bus with
    | mk after left =>
      have exact := Registers.modifyCells_left separate nonempty doubling ran
      obtain ⟨quotient,remainder⟩ :=
        (Nat.div_mod_unique positive).mpr ⟨exact,left.memory.number_lt addresses⟩
      exact ⟨remainder.symm,quotient.symm⟩
  · intro first halving
    cases ran : (r.modifyCells first .rotateRight addresses.reverse).run bus with
    | mk after left =>
      have exact : 2 * left.memory.number addresses + (after.p.has .carry).toNat =
          before + whole * (first.letsIn carry).toNat :=
        Registers.modifyCells_right separate nonempty halving ran
      have bit := (after.p.has .carry).toNat_le
      have paired : whole * (first.letsIn carry).toNat = 2 * (whole / 2 * (first.letsIn carry).toNat) := by
        rw [← Nat.mul_assoc,← even]
      have number : left.memory.number addresses = (before + (first.letsIn carry).toNat * whole) / 2 := by
        rw [Nat.mul_comm]
        omega
      have out : (after.p.has .carry).toNat = before % 2 := by omega
      exact ⟨number,out⟩
  · cases up : (r.modifyCells .rotateLeft .rotateLeft addresses).run bus with
    | mk turned middle => exact Registers.modifyCells_back separate nonempty up rfl
  · intro first later order same
    have ordered := separate.reorder same
    have more : order ≠ [] := fun absent => nonempty (List.nil_perm.mp (absent ▸ same))
    cases ran : (r.modifyCells first later order).run bus with
    | mk after left =>
      obtain ⟨registers,flags,_,elsewhere⟩ := Registers.modifyCells_frame ordered.kept ran
      have final := List.getLast?_eq_some_getLast more
      refine ⟨registers,flags,⟨_,final,Registers.modifyCells_last ordered final ran⟩,?_⟩
      intro place outside
      refine elsewhere place ?_
      intro address member equal
      exact outside address (same.mem_iff.mp member) (masked_eq_iff.mp equal.symm)

theorem save_ram_shifted :
    let r : Registers := { p := ⟨0b00001001⟩ }
    let bus : Bus Constant := ⟨(Memory.zero.poke 0x0000 0x81).poke 0x7FFF 0x80,⟨0⟩⟩
    let (after,left) := (r.modifyCells .rotateLeft .rotateLeft [0x0000,0x17FFF]).run bus
    Separate [0x0000,0x17FFF] ∧ [(0x0000 : UInt32),0x17FFF] ≠ [] ∧
    bus.memory.number [0x0000,0x17FFF] = 0x8081 ∧ left.memory.number [0x0000,0x17FFF] = 0x0103 ∧
    (after.p.has .carry).toNat = 1 := by
  intro r bus
  have separate : Separate [0x0000,0x17FFF] := by
    refine ⟨by decide,?_⟩
    rw [List.forall_mem_cons,List.forall_mem_singleton]
    decide
  have nonempty : [(0x0000 : UInt32),0x17FFF] ≠ [] := List.cons_ne_nil _ _
  have before : bus.memory.number [0x0000,0x17FFF] = 0x8081 := by decide +kernel
  obtain ⟨doubled,_⟩ := shift_chains separate nonempty r bus
  obtain ⟨number,out⟩ := doubled .rotateLeft List.mem_cons_self
  rw [before] at number out
  refine ⟨separate,nonempty,before,number.trans ?_,out.trans ?_⟩
  · decide
  · decide

end Console6502
