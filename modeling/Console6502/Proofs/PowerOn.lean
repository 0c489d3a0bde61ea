import Console6502.Lifecycle
import Console6502.Proofs.LastWrite

namespace Console6502

def Memory.resetTarget (m : Memory) : UInt16 :=
  word (m.rom.cells.get ⟨0x7FFC,by decide⟩) (m.rom.cells.get ⟨0x7FFD,by decide⟩)

theorem Memory.peek_rom (m : Memory) {address : UInt32} (region : Region.ofAddress address = .rom)
    (inside : address.toNat % 32768 < 2 ^ romWidth) :
    m.peek address = some (m.rom.cells.get ⟨address.toNat % 32768,inside⟩) := by
  have shown := m.getElem?_cells address
  simp only [region] at shown
  rw [← shown]
  exact Vector.getElem?_eq_getElem inside

namespace Machine

variable {σ : Type} [ByteSource σ]

theorem readWord_resetVector (bus : Bus σ) :
    bus.readWord resetVector = (bus.memory.resetTarget,bus) := by
  have low : bus.memory.peek resetVector = some (bus.memory.rom.cells.get ⟨0x7FFC,by decide⟩) :=
    bus.memory.peek_rom (by decide) (by decide)
  have high : bus.memory.peek (resetVector + 1) = some (bus.memory.rom.cells.get ⟨0x7FFD,by decide⟩) :=
    bus.memory.peek_rom (by decide) (by decide)
  simp only [Bus.readWord,Bus.read,low,high,Memory.resetTarget]

theorem reset_eq (m : Machine σ) : m.reset =
    { m with registers := { m.registers with pc := m.bus.memory.resetTarget,ready := true } } := by
  rw [reset,readWord_resetVector]

-- The console after a power-on that drew these bytes, those for the program counter left out.
def poweredOn (m : Machine σ) (ram : Vector UInt8 (2 ^ ramWidth)) (a x y sp p : UInt8) (rest : σ) :
    Machine σ :=
  { m with
    registers := ⟨a,x,y,sp,m.bus.memory.resetTarget,⟨p⟩,true⟩
    bus := ⟨{ m.bus.memory with ram := ⟨ram⟩ },rest⟩ }

-- Seven bytes are drawn after those of RAM. These are a variable, so that no proof evaluates
-- the draw of 8192 bytes.
theorem powerOn_refill {m : Machine σ} {drawn : Vector UInt8 (2 ^ ramWidth) × σ}
    (filled : m.bus.randomizeRam = m.bus.refill drawn) : ∃ high low a x y sp p rest,
    Yields drawn.2 [high,low,a,x,y,sp,p] rest ∧ m.powerOn = m.poweredOn drawn.1 a x y sp p rest := by
  rw [powerOn,filled]
  refine ⟨_,_,_,_,_,_,_,_,.cons (.cons (.cons (.cons (.cons (.cons (.cons .nil)))))),?_⟩
  exact reset_eq _

theorem powerOn_eq (m : Machine σ) : ∃ ram high low a x y sp p rest,
    Yields m.bus.source (ram.toList ++ [high,low,a,x,y,sp,p]) rest ∧
    m.powerOn = m.poweredOn ram a x y sp p rest := by
  obtain ⟨high,low,a,x,y,sp,p,rest,registers,result⟩ := powerOn_refill (Eq.refl m.bus.randomizeRam)
  have filled := yields_draw (2 ^ ramWidth) m.bus.source
  exact ⟨_,high,low,a,x,y,sp,p,rest,filled.append registers,result⟩

end Machine

end Console6502
