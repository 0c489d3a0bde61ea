import Console6502.Stack

-- What each cell of the address space holds after a write. A cell is named by an
-- address reduced modulo 65536, and the three banks share no cell.
namespace Console6502

theorem toNat_masked (address : UInt32) : (masked address).toNat = address.toNat % 65536 := by
  rw [masked,UInt32.toNat_and]
  exact Nat.and_two_pow_sub_one_eq_mod _ 16

theorem masked_eq_iff {place address : UInt32} :
    masked place = masked address ↔ place.toNat % 65536 = address.toNat % 65536 := by
  rw [← UInt32.toNat_inj,toNat_masked,toNat_masked]

theorem masked_of_lt {address : UInt32} (small : address.toNat < 65536) : masked address = address := by
  rw [← UInt32.toNat_inj,toNat_masked,Nat.mod_eq_of_lt small]

namespace Region

def start : Region → Nat
  | .ram => 0
  | .placeholder => 0x2000
  | .unmapped => 0x2001
  | .saveRam => 0x6000
  | .rom => 0x8000

def stop : Region → Nat
  | .ram => 0x2000
  | .placeholder => 0x2001
  | .unmapped => 0x6000
  | .saveRam => 0x8000
  | .rom => 0x10000

theorem stop_le (region : Region) : region.stop ≤ 65536 := by cases region <;> decide

theorem ofAddress_bounds (address : UInt32) :
    (ofAddress address).start ≤ address.toNat % 65536 ∧
      address.toNat % 65536 < (ofAddress address).stop := by
  have reduced := toNat_masked address
  unfold ofAddress
  simp only [UInt32.lt_iff_toNat_lt,← UInt32.toNat_inj,reduced,placeholderRegister,UInt32.reduceToNat]
  repeat' split
  all_goals simp only [start,stop]; omega

theorem ofAddress_eq_iff {address : UInt32} {region : Region} :
    ofAddress address = region ↔
      region.start ≤ address.toNat % 65536 ∧ address.toNat % 65536 < region.stop := by
  have bounds := ofAddress_bounds address
  constructor
  · rintro rfl
    exact bounds
  · intro within
    generalize ofAddress address = found at bounds ⊢
    cases found <;> cases region <;> simp only [start,stop] at bounds within <;> first | rfl | omega

theorem ofAddress_congr {place address : UInt32} (same : masked place = masked address) :
    ofAddress place = ofAddress address := by
  simp only [ofAddress,same]

theorem writable_iff {address : UInt32} : (ofAddress address).writable = true ↔
    address.toNat % 65536 < 0x2000 ∨
      (0x6000 ≤ address.toNat % 65536 ∧ address.toNat % 65536 < 0x8000) := by
  have bounds := ofAddress_bounds address
  generalize ofAddress address = found at bounds ⊢
  cases found <;> simp only [start,stop] at bounds <;>
    simp only [writable,reduceCtorEq,true_iff,false_iff] <;> omega

end Region

namespace Bank

theorem index_eq_iff {width : Nat} {place address : UInt32} :
    index width place = index width address ↔
      place.toNat % 2 ^ width = address.toNat % 2 ^ width := by
  rw [Fin.ext_iff,index_val,index_val]

end Bank

theorem index_masked_eq_iff {place address : UInt32} {region : Region} {width : Nat}
    (aligned : 2 ^ width ∣ region.start) (whole : region.stop = region.start + 2 ^ width)
    (left : Region.ofAddress place = region) (right : Region.ofAddress address = region) :
    Bank.index width (masked place) = Bank.index width (masked address) ↔
      masked place = masked address := by
  have offset {n : Nat} (low : region.start ≤ n) (high : n < region.stop) :
      n % 2 ^ width = n - region.start := by
    obtain ⟨k,start⟩ := aligned
    rw [whole] at high
    rw [show n = 2 ^ width * k + (n - region.start) by omega,Nat.mul_add_mod,
      Nat.mod_eq_of_lt (by omega)]
    omega
  obtain ⟨low,high⟩ := Region.ofAddress_eq_iff.mp left
  obtain ⟨low',high'⟩ := Region.ofAddress_eq_iff.mp right
  rw [Bank.index_eq_iff,masked_eq_iff,toNat_masked,toNat_masked,offset low high,offset low' high']
  omega

namespace Memory

theorem peek_congr (m : Memory) {place address : UInt32} (same : masked place = masked address) :
    m.peek place = m.peek address := by
  simp only [peek,same,Region.ofAddress_congr same]

theorem poke_dropped (m : Memory) {place : UInt32} (dropped : (Region.ofAddress place).writable = false)
    (value : UInt8) : m.poke place value = m := by
  unfold poke
  cases region : Region.ofAddress place with
  | ram | saveRam => simp [region,Region.writable] at dropped
  | placeholder | unmapped | rom => rfl

-- A write is seen at its own cell and nowhere else, and only where writes are kept.
theorem peek_poke (m : Memory) (place address : UInt32) (value : UInt8) :
    (m.poke place value).peek address =
      if (Region.ofAddress place).writable ∧ masked place = masked address then some value
      else m.peek address := by
  by_cases same : masked place = masked address
  · have region := Region.ofAddress_congr same
    unfold peek poke
    simp only [region,same,and_true]
    cases Region.ofAddress address <;> simp [Region.writable,Bank.read_write]
  · simp only [same,and_false,if_false]
    cases left : Region.ofAddress place <;> cases right : Region.ofAddress address <;>
      simp only [peek,poke,left,right,Option.some.injEq]
    · rw [Bank.read_write,if_neg]
      rwa [index_masked_eq_iff (by decide) rfl left right]
    · rw [Bank.read_write,if_neg]
      rwa [index_masked_eq_iff (by decide) rfl left right]

end Memory

theorem index_surjective {region : Region} {width : Nat} (aligned : 2 ^ width ∣ region.start)
    (whole : region.stop = region.start + 2 ^ width) (place : Fin (2 ^ width)) :
    ∃ address, Region.ofAddress address = region ∧ Bank.index width (masked address) = place := by
  have below := place.isLt
  have inside : region.start + place.val < 65536 := by
    have := region.stop_le
    omega
  have kept : (UInt32.ofNat (region.start + place.val)).toNat = region.start + place.val :=
    UInt32.toNat_ofNat_of_lt' (Nat.lt_trans inside (by decide))
  refine ⟨UInt32.ofNat (region.start + place.val),?_,?_⟩
  · rw [Region.ofAddress_eq_iff,kept]
    omega
  · obtain ⟨k,start⟩ := aligned
    rw [Fin.ext_iff,Bank.index_val,toNat_masked,kept,Nat.mod_eq_of_lt inside,start,Nat.mul_add_mod,
      Nat.mod_eq_of_lt below]

theorem Bank.ext_region (region : Region) {width : Nat} {left right : Bank width}
    (aligned : 2 ^ width ∣ region.start) (whole : region.stop = region.start + 2 ^ width)
    (same : ∀ address, Region.ofAddress address = region →
      left.read (masked address) = right.read (masked address)) : left = right := by
  obtain ⟨left⟩ := left
  obtain ⟨right⟩ := right
  congr 1
  apply Vector.ext
  intro place below
  obtain ⟨address,found,index⟩ := index_surjective aligned whole ⟨place,below⟩
  have shown := same address found
  simpa only [read,index,Fin.getElem_fin] using shown

theorem Memory.ext_peek {left right : Memory}
    (same : ∀ address, left.peek address = right.peek address) : left = right := by
  obtain ⟨ram,saveRam,rom⟩ := left
  obtain ⟨ram',saveRam',rom'⟩ := right
  congr 1
  · refine Bank.ext_region .ram (by decide) rfl fun address found => ?_
    simpa only [peek,found,Option.some.injEq] using same address
  · refine Bank.ext_region .saveRam (by decide) rfl fun address found => ?_
    simpa only [peek,found,Option.some.injEq] using same address
  · refine Bank.ext_region .rom (by decide) rfl fun address found => ?_
    simpa only [peek,found,Option.some.injEq] using same address

@[simp] theorem toNat_stackCell (pointer : UInt8) : (stackCell pointer).toNat = 0x100 + pointer.toNat := by
  have small : pointer.toNat < 2 ^ 8 := pointer.toNat_lt
  rw [stackCell,UInt32.toNat_or,UInt8.toNat_toUInt32]
  exact (Nat.two_pow_add_eq_or_of_lt small 1).symm

@[simp] theorem masked_stackCell (pointer : UInt8) : masked (stackCell pointer) = stackCell pointer := by
  have := pointer.toNat_lt
  apply masked_of_lt
  rw [toNat_stackCell]
  omega

@[simp] theorem ofAddress_stackCell (pointer : UInt8) : Region.ofAddress (stackCell pointer) = .ram := by
  have := pointer.toNat_lt
  rw [Region.ofAddress_eq_iff,toNat_stackCell]
  simp only [Region.start,Region.stop]
  omega

theorem stackCell_inj {pointer other : UInt8} : stackCell pointer = stackCell other ↔ pointer = other := by
  rw [← UInt32.toNat_inj,toNat_stackCell,toNat_stackCell,← UInt8.toNat_inj]
  omega

theorem stackCell_eq (pointer : UInt8) : stackCell pointer = UInt32.ofNat (0x100 + pointer.toNat) := by
  have := pointer.toNat_lt
  rw [← UInt32.toNat_inj,toNat_stackCell,UInt32.toNat_ofNat_of_lt' (show _ < 2 ^ 32 by omega)]

def Memory.stacked (m : Memory) (pointer : UInt8) : UInt8 :=
  m.ram.read (UInt32.ofNat (0x100 + pointer.toNat))

theorem Memory.peek_stackCell (m : Memory) (pointer : UInt8) :
    m.peek (stackCell pointer) = some (m.stacked pointer) := by
  rw [stacked,← stackCell_eq]
  simp only [peek,ofAddress_stackCell,masked_stackCell]

theorem Memory.stacked_poke (m : Memory) (place : UInt32) (value pointer : UInt8) :
    (m.poke place value).stacked pointer =
      if masked place = stackCell pointer then value else m.stacked pointer := by
  have shown := m.peek_poke place (stackCell pointer) value
  rw [peek_stackCell,peek_stackCell,masked_stackCell] at shown
  by_cases same : masked place = stackCell pointer
  · have writable : (Region.ofAddress place).writable = true := by
      rw [Region.ofAddress_congr (same.trans (masked_stackCell pointer).symm),ofAddress_stackCell]
      rfl
    simpa only [same,writable,true_and,if_true,Option.some.injEq] using shown
  · simpa only [same,and_false,if_false,Option.some.injEq] using shown

@[simp] theorem Bus.read_stackCell {σ : Type} [ByteSource σ] (bus : Bus σ) (pointer : UInt8) :
    bus.read (stackCell pointer) = (bus.memory.stacked pointer,bus) := by
  simp only [read,Memory.peek_stackCell]

section Banks

variable {σ : Type} [ByteSource σ] (bus : Bus σ) {address : UInt32}

theorem Bus.read_rom (region : Region.ofAddress address = .rom) :
    bus.read address = (bus.memory.rom.read (masked address),bus) := by
  simp only [read,Memory.peek,region]

theorem Bus.read_saveRam (region : Region.ofAddress address = .saveRam) :
    bus.read address = (bus.memory.saveRam.read (masked address),bus) := by
  simp only [read,Memory.peek,region]

end Banks

end Console6502
