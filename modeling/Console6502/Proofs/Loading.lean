import Console6502.Proofs.SaveState

-- What a loaded image leaves behind, cell by cell, and that nothing of an earlier one remains.
namespace Console6502

def repetition (image : Array UInt8) (count : Nat) : Array UInt8 :=
  (List.replicate count image.toList).flatten.toArray

theorem size_repetition (image : Array UInt8) (count : Nat) :
    (repetition image count).size = count * image.size := by
  simp [repetition]

theorem getElem?_repetition (image : Array UInt8) {count i : Nat} (inside : i < count * image.size) :
    (repetition image count)[i]? = image[i % image.size]? := by
  rw [repetition,List.getElem?_toArray,← Array.getElem?_toList]
  induction count generalizing i with
  | zero => omega
  | succ count ih =>
    rw [List.replicate_succ,List.flatten_cons]
    by_cases first : i < image.size
    · rw [List.getElem?_append_left first,Nat.mod_eq_of_lt first]
    · have later : i - image.size < count * image.size := by
        rw [Nat.succ_mul] at inside
        omega
      have past := Nat.le_of_not_lt first
      rw [List.getElem?_append_right past,Array.length_toList,ih later,Nat.mod_eq_sub_mod past]

def romOf (image : Array UInt8) : Bank romWidth :=
  if nonempty : 0 < image.size then .tile _ image nonempty else .zero _

theorem getElem?_romOf {image : Array UInt8} (nonempty : 0 < image.size) {i : Nat} (inside : i < 32768) :
    (romOf image).cells[i]? = image[i % image.size]? := by
  have within := Nat.mod_lt i nonempty
  have cell : i < 2 ^ romWidth := inside
  rw [romOf,dif_pos nonempty,Bank.tile,Vector.getElem?_eq_getElem cell,Vector.getElem_ofFn,
    Array.getElem?_eq_getElem within]

theorem getElem?_romOf_empty {image : Array UInt8} (empty : image.size = 0) {i : Nat}
    (inside : i < 32768) : (romOf image).cells[i]? = some 0 := by
  have none : ¬0 < image.size := Nat.not_lt.mpr (Nat.le_of_eq empty)
  have cell : i < 2 ^ romWidth := inside
  rw [romOf,dif_neg none,Bank.zero,Vector.getElem?_replicate,if_pos cell]

theorem romOf_repetition (image : Array UInt8) {count : Nat} (positive : 1 ≤ count) :
    romOf (repetition image count) = romOf image := by
  have size := size_repetition image count
  by_cases nonempty : 0 < image.size
  · have more : 0 < (repetition image count).size := by
      rw [size]
      exact Nat.mul_pos positive nonempty
    have same : (romOf (repetition image count)).cells = (romOf image).cells := by
      apply Vector.ext
      intro i inside
      have within : i % (count * image.size) < count * image.size := by
        rw [← size]
        exact Nat.mod_lt i more
      apply Option.some.inj
      rw [← Vector.getElem?_eq_getElem,← Vector.getElem?_eq_getElem,getElem?_romOf more inside,
        getElem?_romOf nonempty inside,size,getElem?_repetition image within,Nat.mod_mul_left_mod]
    exact congrArg Bank.mk same
  · have none : ¬0 < (repetition image count).size := by
      rw [size,Nat.eq_zero_of_not_pos nonempty]
      exact Nat.lt_irrefl 0
    rw [romOf,romOf,dif_neg none,dif_neg nonempty]

theorem Memory.loadRom_eq (m : Memory) (image : Array UInt8) : m.loadRom image =
    if 32768 < image.size then .error (.romTooLarge image.size) else .ok { m with rom := romOf image } := by
  have width : 2 ^ romWidth = 32768 := rfl
  unfold loadRom romOf
  rw [width]
  split
  · rfl
  · split <;> rfl

theorem cell_inside (region : Region) {cell : Nat} (low : region.start ≤ cell)
    (high : cell < region.stop) :
    (UInt32.ofNat cell).toNat = cell ∧ Region.ofAddress (UInt32.ofNat cell) = region := by
  have small : cell < 65536 := Nat.lt_of_lt_of_le high region.stop_le
  have number : (UInt32.ofNat cell).toNat = cell :=
    UInt32.toNat_ofNat_of_lt' (Nat.lt_trans small (by decide))
  refine ⟨number,?_⟩
  rw [Region.ofAddress_eq_iff,number,Nat.mod_eq_of_lt small]
  exact ⟨low,high⟩

variable {σ : Type} [ByteSource σ]

namespace Machine

def seen (m : Machine σ) (cell : Nat) : UInt8 := (m.bus.read (UInt32.ofNat cell)).1

theorem seen_rom (m : Machine σ) {i : Nat} (inside : i < 32768) :
    some (m.seen (0x8000 + i)) = m.bus.memory.rom.cells[i]? := by
  obtain ⟨number,region⟩ :=
    cell_inside .rom (Nat.le_add_right 0x8000 i) (Nat.add_lt_add_left inside 0x8000)
  have offset : (0x8000 + i) % 2 ^ romWidth = i := by
    change (0x8000 + i) % 32768 = i
    omega
  rw [seen,Bus.read_rom _ region,← Bank.getElem?_masked (by decide),number,offset]

theorem seen_saveRam (m : Machine σ) {i : Nat} (inside : i < 8192) :
    some (m.seen (0x6000 + i)) = m.bus.memory.saveRam.cells[i]? := by
  obtain ⟨number,region⟩ :=
    cell_inside .saveRam (Nat.le_add_right 0x6000 i) (Nat.add_lt_add_left inside 0x6000)
  have offset : (0x6000 + i) % 2 ^ saveRamWidth = i := by
    change (0x6000 + i) % 8192 = i
    omega
  rw [seen,Bus.read_saveRam _ region,← Bank.getElem?_masked (by decide),number,offset]

variable {image : Array UInt8}

theorem perform_loadRom (m : Machine σ) (fits : image.size ≤ 32768) :
    (Command.loadRom image).perform m =
      (.done,m.mapMemory fun memory => { memory with rom := romOf image }) := by
  rw [Command.perform,Memory.loadRom_eq,if_neg (Nat.not_lt.mpr fits)]
  rfl

theorem perform_loadRom_large (m : Machine σ) (large : 32768 < image.size) :
    (Command.loadRom image).perform m = (.fault (.romTooLarge image.size),m) := by
  rw [Command.perform,Memory.loadRom_eq,if_pos large]
  rfl

theorem perform_loadSaveRam (m : Machine σ) (exact : image.size = 2 ^ saveRamWidth) :
    (Command.loadSaveRam image).perform m =
      (.done,m.mapMemory fun memory => { memory with saveRam := ⟨⟨image,exact⟩⟩ }) := by
  rw [Command.perform,Memory.loadSaveRam,dif_pos exact]
  rfl

theorem perform_loadSaveRam_other (m : Machine σ) (other : image.size ≠ 2 ^ saveRamWidth) :
    (Command.loadSaveRam image).perform m = (.fault (.saveRamSize image.size),m) := by
  rw [Command.perform,Memory.loadSaveRam,dif_neg other]
  rfl

theorem perform_loadRom_twice (m : Machine σ) (earlier : Array UInt8) (fits : image.size ≤ 32768) :
    (Command.loadRom image).perform ((Command.loadRom earlier).perform m).2 =
      (Command.loadRom image).perform m := by
  by_cases fitted : earlier.size ≤ 32768
  · rw [perform_loadRom m fitted,perform_loadRom _ fits,perform_loadRom m fits]
    rfl
  · rw [perform_loadRom_large m (Nat.lt_of_not_le fitted)]

theorem perform_loadSaveRam_twice (m : Machine σ) (earlier : Array UInt8)
    (exact : image.size = 2 ^ saveRamWidth) :
    (Command.loadSaveRam image).perform ((Command.loadSaveRam earlier).perform m).2 =
      (Command.loadSaveRam image).perform m := by
  by_cases fitted : earlier.size = 2 ^ saveRamWidth
  · rw [perform_loadSaveRam m fitted,perform_loadSaveRam _ exact,perform_loadSaveRam m exact]
    rfl
  · rw [perform_loadSaveRam_other m fitted]

theorem perform_loadRom_dumped (m : Machine σ) :
    (Command.loadRom (m.bus.memory.slice .rom 0 32768).toArray).perform m = (.done,m) := by
  have whole : (m.bus.memory.slice .rom 0 32768).toArray = m.bus.memory.rom.cells.toArray :=
    m.bus.memory.rom.slice_toArray
  rw [whole,Command.perform,Memory.loadRom_cells]
  rfl

theorem perform_loadSaveRam_dumped (m : Machine σ) :
    (Command.loadSaveRam (m.bus.memory.slice .saveRam 0 8192).toArray).perform m = (.done,m) := by
  have whole : (m.bus.memory.slice .saveRam 0 8192).toArray = m.bus.memory.saveRam.cells.toArray :=
    m.bus.memory.saveRam.slice_toArray
  rw [whole,Command.perform,Memory.loadSaveRam_cells]
  rfl

theorem reset_romOf {m : Machine σ} (rom : m.bus.memory.rom = romOf image) (nonempty : 0 < image.size) :
    ∃ low high,image[0x7FFC % image.size]? = some low ∧ image[0x7FFD % image.size]? = some high ∧
      m.reset.registers.pc = word low high := by
  have low : 0x7FFC < 32768 := by decide
  have high : 0x7FFD < 32768 := by decide
  refine ⟨m.seen (0x8000 + 0x7FFC),m.seen (0x8000 + 0x7FFD),?_,?_,?_⟩
  · rw [seen_rom m low,rom,getElem?_romOf nonempty low]
  · rw [seen_rom m high,rom,getElem?_romOf nonempty high]
  · rfl

-- A load replaces one bank as a whole or is refused, and what it leaves there is told by the
-- image alone.
theorem images_loaded (m : Machine σ) (image : Array UInt8) :
    let size := image.size
    let loaded := (Command.loadRom image).perform m
    let restored := (Command.loadSaveRam image).perform m
    (32768 < size → loaded = (.fault (.romTooLarge size),m)) ∧
    (size ≤ 32768 → loaded.1 = .done ∧
      (∃ rom,loaded.2 = m.mapMemory fun memory => { memory with rom := rom }) ∧
      (size = 0 → ∀ i < 32768,loaded.2.seen (0x8000 + i) = 0) ∧
      (1 ≤ size → (∀ i < 32768,some (loaded.2.seen (0x8000 + i)) = image[i % size]?) ∧
        ∃ low high,image[0x7FFC % size]? = some low ∧ image[0x7FFD % size]? = some high ∧
          loaded.2.reset.registers.pc = word low high) ∧
      (∀ count,1 ≤ count → count * size ≤ 32768 →
        (Command.loadRom (repetition image count)).perform m = loaded) ∧
      ∀ earlier,(Command.loadRom image).perform ((Command.loadRom earlier).perform m).2 = loaded) ∧
    (size ≠ 8192 → restored = (.fault (.saveRamSize size),m)) ∧
    (size = 8192 → restored.1 = .done ∧
      (∃ saveRam,restored.2 = m.mapMemory fun memory => { memory with saveRam := saveRam }) ∧
      (∀ i < 8192,some (restored.2.seen (0x6000 + i)) = image[i]?) ∧
      ∀ earlier,
        (Command.loadSaveRam image).perform ((Command.loadSaveRam earlier).perform m).2 = restored) ∧
    (Command.loadRom (m.bus.memory.slice .rom 0 32768).toArray).perform m = (.done,m) ∧
    (Command.loadSaveRam (m.bus.memory.slice .saveRam 0 8192).toArray).perform m = (.done,m) := by
  intro size loaded restored
  refine ⟨perform_loadRom_large m,?_,perform_loadSaveRam_other m,?_,
    perform_loadRom_dumped m,perform_loadSaveRam_dumped m⟩
  · intro fits
    have loading : loaded = (.done,m.mapMemory fun memory => { memory with rom := romOf image }) :=
      perform_loadRom m fits
    have cells : loaded.2.bus.memory.rom = romOf image := by rw [loading]; rfl
    refine ⟨by rw [loading],⟨_,by rw [loading]⟩,?_,?_,?_,?_⟩
    · intro empty i inside
      apply Option.some.inj
      rw [seen_rom _ inside,cells,getElem?_romOf_empty empty inside]
    · intro nonempty
      refine ⟨?_,reset_romOf cells nonempty⟩
      intro i inside
      rw [seen_rom _ inside,cells,getElem?_romOf nonempty inside]
    · intro count positive more
      rw [loading,perform_loadRom m (by rwa [size_repetition]),romOf_repetition image positive]
    · exact fun earlier => perform_loadRom_twice m earlier fits
  · intro exact
    have loading : restored =
        (.done,m.mapMemory fun memory => { memory with saveRam := ⟨⟨image,exact⟩⟩ }) :=
      perform_loadSaveRam m exact
    refine ⟨by rw [loading],⟨_,by rw [loading]⟩,?_,?_⟩
    · intro i inside
      rw [seen_saveRam _ inside,loading]
      exact Vector.getElem?_mk
    · exact fun earlier => perform_loadSaveRam_twice m earlier exact

theorem uneven_image_resets :
    ((Command.loadRom #[1,2,3]).perform (new (⟨0⟩ : Constant) {})).2.reset.registers.pc = 0x0302 := by
  obtain ⟨_,loaded,_⟩ := images_loaded (new (⟨0⟩ : Constant) {}) #[1,2,3]
  obtain ⟨_,_,_,tiled,_⟩ := loaded (by decide)
  obtain ⟨_,low,high,second,third,target⟩ := tiled (by decide)
  cases second
  cases third
  exact target

end Machine

end Console6502
