import Console6502.Proofs.Twins

namespace Console6502.Machine

variable {σ : Type} [ByteSource σ]

theorem powerOn_drawn {m : Machine σ} {drawn : Vector UInt8 8199} {rest : σ}
    (given : draw 8199 m.bus.source = (drawn,rest)) :
    (∀ i,i < 8192 → m.powerOn.bus.memory.ram.cells[i]? = drawn[i]?) ∧
    drawn[8194]? = some m.powerOn.registers.a ∧ drawn[8195]? = some m.powerOn.registers.x ∧
    drawn[8196]? = some m.powerOn.registers.y ∧ drawn[8197]? = some m.powerOn.registers.sp ∧
    drawn[8198]? = some m.powerOn.registers.p.byte ∧ m.powerOn.bus.source = rest := by
  obtain ⟨ram,high,low,a,x,y,sp,p,left,yields,shown⟩ := m.powerOn_eq
  have filled : ram.toList.length = 8192 := Vector.length_toList
  have length : (ram.toList ++ [high,low,a,x,y,sp,p]).length = 8199 := by
    rw [List.length_append,filled]
    rfl
  have listed := yields_iff.mp yields
  rw [length,given] at listed
  obtain ⟨bytes,rfl⟩ := listed
  have place (i : Nat) : drawn[i]? = (ram.toList ++ [high,low,a,x,y,sp,p])[i]? := by
    rw [← bytes,Vector.getElem?_toList]
  have beyond (k : Nat) : drawn[8192 + k]? = [high,low,a,x,y,sp,p][k]? := by
    rw [place,List.getElem?_append_right (by omega),filled,Nat.add_sub_cancel_left]
  rw [shown]
  refine ⟨?_,beyond 2,beyond 3,beyond 4,beyond 5,beyond 6,rfl⟩
  intro i inside
  rw [place,List.getElem?_append_left (by omega),Vector.getElem?_toList]
  rfl

end Console6502.Machine
