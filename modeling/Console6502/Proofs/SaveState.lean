import Console6502.Proofs.Twins

-- A console put together again from what the host reads off another one. The banks are dumped
-- and loaded whole, so nothing is repeated or cut.
namespace Console6502

namespace Bank

variable {width : Nat}

theorem slice_all (bank : Bank width) : bank.slice 0 (2 ^ width) = bank.cells.toList := by
  have whole : bank.cells.toArray.extract 0 (0 + 2 ^ width) = bank.cells.toArray := by
    apply Array.extract_eq_self_of_le
    have size := bank.cells.size_toArray
    omega
  exact congrArg Array.toList whole

theorem slice_toArray (bank : Bank width) : (bank.slice 0 (2 ^ width)).toArray = bank.cells.toArray :=
  congrArg List.toArray bank.slice_all

theorem tile_cells (bank : Bank width) (nonempty : 0 < bank.cells.toArray.size) :
    tile width bank.cells.toArray nonempty = bank := by
  obtain ⟨cells⟩ := bank
  rw [tile,mk.injEq]
  apply Vector.ext
  intro i inside
  simp [Nat.mod_eq_of_lt inside]

theorem getElem?_patch (bank : Bank width) (offset : Nat) (bytes : List UInt8) {i : Nat}
    (inside : i < 2 ^ width) : (bank.patch offset bytes).cells[i]? =
      if offset ≤ i ∧ i < offset + bytes.length then bytes[i - offset]? else bank.cells[i]? := by
  induction bytes generalizing bank offset with
  | nil =>
    have outside : ¬(offset ≤ i ∧ i < offset + 0) := by omega
    rw [patch,List.length_nil,if_neg outside]
  | cons value rest ih =>
    rw [patch,ih,List.length_cons]
    by_cases here : offset = i
    · subst here
      have passed : ¬(offset + 1 ≤ offset ∧ offset < offset + 1 + rest.length) := by omega
      have covered : offset ≤ offset ∧ offset < offset + (rest.length + 1) := by omega
      rw [if_neg passed,if_pos covered,Vector.getElem?_setIfInBounds_self_of_lt inside,Nat.sub_self]
      rfl
    · rw [Vector.getElem?_setIfInBounds_ne here]
      by_cases later : offset + 1 ≤ i ∧ i < offset + 1 + rest.length
      · have covered : offset ≤ i ∧ i < offset + (rest.length + 1) := by omega
        have place : i - offset = i - (offset + 1) + 1 := by omega
        rw [if_pos later,if_pos covered,place,List.getElem?_cons_succ]
      · have outside : ¬(offset ≤ i ∧ i < offset + (rest.length + 1)) := by omega
        rw [if_neg later,if_neg outside]

theorem patch_cells (bank other : Bank width) : bank.patch 0 other.cells.toList = other := by
  have same : (bank.patch 0 other.cells.toList).cells = other.cells := by
    apply Vector.ext
    intro i inside
    have covered : 0 ≤ i ∧ i < 0 + other.cells.toList.length := by simp [inside]
    have shown := bank.getElem?_patch 0 other.cells.toList inside
    rw [if_pos covered,Vector.getElem?_toList,Nat.sub_zero] at shown
    simpa only [Vector.getElem?_eq_getElem inside,Option.some.injEq] using shown
  exact congrArg mk same

end Bank

namespace Memory

theorem loadRom_cells (m : Memory) (bank : Bank romWidth) :
    m.loadRom bank.cells.toArray = .ok { m with rom := bank } := by
  have size : bank.cells.toArray.size = 2 ^ romWidth := bank.cells.size_toArray
  have fits : ¬2 ^ romWidth < bank.cells.toArray.size := by omega
  have nonempty : 0 < bank.cells.toArray.size := by
    rw [size]
    exact Nat.two_pow_pos romWidth
  rw [loadRom,if_neg fits,dif_pos nonempty,Bank.tile_cells]

theorem loadSaveRam_cells (m : Memory) (bank : Bank saveRamWidth) :
    m.loadSaveRam bank.cells.toArray = .ok { m with saveRam := bank } := by
  rw [loadSaveRam,dif_pos bank.cells.size_toArray]

end Memory

namespace Machine

variable {σ τ : Type}

-- The three banks as they were dumped, then every register.
def restoring (m : Machine σ) : List Command :=
  [.loadRom (m.bus.memory.slice .rom 0 32768).toArray,
    .patchRam 0 (m.bus.memory.slice .ram 0 8192),
    .loadSaveRam (m.bus.memory.slice .saveRam 0 8192).toArray,
    .configure (.register .a m.registers.a),.configure (.register .x m.registers.x),
    .configure (.register .y m.registers.y),.configure (.register .sp m.registers.sp),
    .configure (.pc m.registers.pc),.configure (.status m.registers.p.byte),
    .configure (.ready m.registers.ready)]

theorem configure_registers (r other : Registers) :
    (((((((other.configure (.register .a r.a)).configure (.register .x r.x)).configure
      (.register .y r.y)).configure (.register .sp r.sp)).configure (.pc r.pc)).configure
      (.status r.p.byte)).configure (.ready r.ready)) = r := rfl

variable [ByteSource τ]

theorem performAll_restoring {m : Machine σ} {fresh : Machine τ} (config : fresh.config = m.config) :
    Command.performAll m.restoring fresh =
      (List.replicate 10 .done,⟨m.registers,⟨m.bus.memory,fresh.bus.source⟩,m.config⟩) := by
  have rom : (m.bus.memory.slice .rom 0 32768).toArray = m.bus.memory.rom.cells.toArray :=
    m.bus.memory.rom.slice_toArray
  have ram : m.bus.memory.slice .ram 0 8192 = m.bus.memory.ram.cells.toList := m.bus.memory.ram.slice_all
  have saveRam : (m.bus.memory.slice .saveRam 0 8192).toArray = m.bus.memory.saveRam.cells.toArray :=
    m.bus.memory.saveRam.slice_toArray
  simp only [restoring,rom,ram,saveRam,Command.performAll,Command.perform,Memory.loadRom_cells,
    Memory.loadSaveRam_cells,load,mapMemory,mapRegisters,Bank.patch_cells,configure_registers,config]
  rfl

variable [ByteSource σ]

-- Every request is granted, the new console holds what the old one holds, and over a source
-- with the same bytes to come the two go on alike under whatever they are asked.
theorem saved_state_restores (m : Machine σ) (other : τ) :
    let restored := Command.performAll m.restoring (new other m.config)
    restored.1 = List.replicate 10 .done ∧
    restored.2.registers = m.registers ∧ restored.2.bus.memory = m.bus.memory ∧
    restored.2.config = m.config ∧ restored.2.bus.source = other ∧
    (SameBytes m.bus.source other →
      m.Twins m.bus.source other restored.2 ∧
      ∀ calls,Option.Rel (Together m.bus.source other)
        (Call.performAll calls m) (Call.performAll calls restored.2)) := by
  have config : (new other m.config).config = m.config := rfl
  have restored := performAll_restoring config
  rw [restored]
  refine ⟨rfl,rfl,rfl,rfl,rfl,?_⟩
  intro same
  have twins : m.Twins m.bus.source other ⟨m.registers,⟨m.bus.memory,other⟩,m.config⟩ :=
    ⟨rfl,rfl,rfl,.start _ _⟩
  exact ⟨twins,Call.performAll_twins same twins⟩

end Machine

end Console6502
