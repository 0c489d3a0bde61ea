import Console6502.Proofs.Placeholder

-- Which cells a step looks at, and two runs over memories that differ only in cells that
-- nobody looks at.
namespace Console6502

variable {α σ : Type} [ByteSource σ] {hidden : Nat → Prop}

-- Equal in every cell that is not hidden. A cell is an address reduced modulo 65536.
def Memory.AgreeOutside (hidden : Nat → Prop) (left right : Memory) : Prop :=
  ∀ address : UInt32,¬hidden (address.toNat % 65536) → left.peek address = right.peek address

theorem Memory.AgreeOutside.poke {left right : Memory} (agree : left.AgreeOutside hidden right)
    (place : UInt32) (value : UInt8) : (left.poke place value).AgreeOutside hidden (right.poke place value) := by
  intro address shown
  rw [peek_poke,peek_poke,agree address shown]

theorem Memory.AgreeOutside.disturb {left right : Memory} (agree : left.AgreeOutside hidden right)
    {place : UInt32} (unseen : hidden (place.toNat % 65536)) (value : UInt8) :
    left.AgreeOutside hidden (right.poke place value) := by
  intro address shown
  have apart : ¬masked place = masked address := by
    intro same
    rw [masked_eq_iff.mp same] at unseen
    exact shown unseen
  rw [peek_poke,if_neg fun found => apart found.2]
  exact agree address shown

structure Bus.AgreeOutside (hidden : Nat → Prop) (left right : Bus σ) : Prop where
  source : left.source = right.source
  memory : left.memory.AgreeOutside hidden right.memory

structure Machine.AgreeOutside (hidden : Nat → Prop) (left right : Machine σ) : Prop where
  registers : left.registers = right.registers
  config : left.config = right.config
  bus : left.bus.AgreeOutside hidden right.bus

theorem Bus.AgreeOutside.random {left right : Bus σ} (agree : left.AgreeOutside hidden right) :
    left.random.1 = right.random.1 ∧ left.random.2.AgreeOutside hidden right.random.2 := by
  simp only [Bus.random,agree.source]
  exact ⟨trivial,rfl,agree.memory⟩

theorem Bus.AgreeOutside.read {left right : Bus σ} (agree : left.AgreeOutside hidden right)
    {address : UInt32} (shown : ¬hidden (address.toNat % 65536)) :
    (left.read address).1 = (right.read address).1 ∧
      (left.read address).2.AgreeOutside hidden (right.read address).2 := by
  rw [read_eq,read_eq,agree.memory address shown]
  split
  · exact agree.random
  · exact ⟨rfl,agree⟩

theorem Transaction.run_agree {asked : Transaction α} {left right : Bus σ}
    (agree : left.AgreeOutside hidden right)
    (unread : ∀ read ∈ asked.reads left,¬hidden (read.1.toNat % 65536)) :
    (asked.run left).1 = (asked.run right).1 ∧ asked.writes left = asked.writes right ∧
      (asked.run left).2.AgreeOutside hidden (asked.run right).2 := by
  induction asked generalizing left right with
  | done result => exact ⟨rfl,rfl,agree⟩
  | read address next ih =>
    obtain ⟨shown,later⟩ := List.forall_mem_cons.mp unread
    obtain ⟨byte,after⟩ := agree.read shown
    simp only [run,writes,← byte]
    exact ih _ after later
  | write address value next ih =>
    have written : (left.write address value).AgreeOutside hidden (right.write address value) :=
      ⟨agree.source,agree.memory.poke address value⟩
    obtain ⟨result,writes,after⟩ := ih written unread
    exact ⟨result,congrArg ((address,value) :: ·) writes,after⟩
  | note event next ih => exact ih agree unread

namespace Machine

variable {m left right : Machine σ} {count : Nat}

def zeroPageCells (m : Machine σ) : List UInt32 :=
  match decode m.fetched.1 with
  | some opcode => opcode.mode.zeroPageCells (m.registers.advance 1) m.fetched.2
  | none => []

def innerCells (m : Machine σ) : List UInt32 :=
  match m.instruction with
  | some .pla | some .plp => [stackCell (m.registers.sp + 1)]
  | some .rts => [stackCell (m.registers.sp + 1),stackCell (m.registers.sp + 2)]
  | some .rti =>
    [stackCell (m.registers.sp + 1),stackCell (m.registers.sp + 2),stackCell (m.registers.sp + 3)]
  | some .brk =>
    match m.config.onBreak with
    | .halt => []
    | .interrupt => [0xFFFA,0xFFFB]
  | _ => []

def readCells (m : Machine σ) : List UInt32 :=
  if m.registers.ready then m.codeCells ++ m.pointerCells ++ m.zeroPageCells ++ m.dataCells ++ m.innerCells
  else []

theorem innerCells_eq {p : Prepared σ} (found : m.prepare = some p) :
    p.opcode.instruction.action.innerCells m.config p.registers = m.innerCells := by
  have pointer := (prepares found).sp_eq
  have decoded : m.instruction = some p.opcode.instruction := by
    rw [instruction,found,Option.map_some]
  unfold innerCells
  rw [decoded]
  cases p.opcode.instruction <;> simp only [Instruction.action,Action.innerCells,pointer]
  rfl

theorem reads_cells (m : Machine σ) : m.reads.map Prod.fst = m.readCells := by
  rcases m.step_cases with ⟨idle,_⟩ | ⟨ready,unknown,unprepared⟩ | ⟨p,found⟩
  · have nothing : m.readCells = [] := by
      unfold readCells
      simp only [idle,Bool.false_eq_true,if_false]
    rw [reads_idle idle,nothing]
    rfl
  · obtain ⟨code,pointer⟩ := reads_undocumented ready unknown
    have zeroPage : m.zeroPageCells = [] := by
      unfold zeroPageCells
      rw [unknown]
    have data : m.dataCells = [] := by
      unfold dataCells
      rw [unprepared]
    have inner : m.innerCells = [] := by
      unfold innerCells instruction
      rw [unprepared]
      rfl
    unfold readCells
    rw [if_pos ready,pointer,zeroPage,data,inner,code]
    simp only [List.append_nil]
  · have facts := prepares found
    have zeroPage : m.zeroPageCells =
        p.opcode.mode.zeroPageCells (m.registers.advance 1) m.fetched.2 := by
      unfold zeroPageCells
      rw [facts.known]
    unfold readCells
    rw [if_pos facts.ready,reads_prepared found,innerCells_eq found,zeroPage]

theorem step_agree (agree : left.AgreeOutside hidden right)
    (unread : ∀ cell ∈ left.readCells,¬hidden (cell.toNat % 65536)) :
    right.step.1 = left.step.1 ∧ right.writes = left.writes ∧
      left.step.2.AgreeOutside hidden right.step.2 := by
  rw [← reads_cells] at unread
  have unseen : ∀ read ∈ left.reads,¬hidden (read.1.toNat % 65536) :=
    fun read member => unread read.1 (List.mem_map_of_mem member)
  obtain ⟨result,writes,after⟩ := Transaction.run_agree agree.bus unseen
  simp only [step,Machine.writes,← agree.registers,← agree.config]
  exact ⟨(congrArg Prod.fst result).symm,writes.symm,congrArg Prod.snd result,rfl,after⟩

theorem after_agree (agree : left.AgreeOutside hidden right)
    (unread : ∀ i,i < count → ∀ cell ∈ (left.after i).readCells,¬hidden (cell.toNat % 65536)) :
    (left.after count).AgreeOutside hidden (right.after count) := by
  induction count with
  | zero => exact agree
  | succ count ih =>
    have before := ih fun i inside => unread i (Nat.lt_succ_of_lt inside)
    rw [after_succ,after_succ]
    exact (step_agree before (unread count (Nat.lt_succ_self count))).2.2

-- A run in which no step looks at a hidden cell is the same run whatever these cells hold, with
-- the same bytes written to the same addresses.
theorem unread_cells_invisible (left : Machine σ) :
    left.reads.map Prod.fst = left.readCells ∧
    ∀ (right : Machine σ) (hidden : Nat → Prop) (count : Nat),left.AgreeOutside hidden right →
      (∀ i,i < count → ∀ cell ∈ (left.after i).readCells,¬hidden (cell.toNat % 65536)) →
      (∀ i,i < count → (right.after i).step.1 = (left.after i).step.1 ∧
        (right.after i).writes = (left.after i).writes) ∧
      ∀ i,i ≤ count → (left.after i).AgreeOutside hidden (right.after i) := by
  refine ⟨left.reads_cells,?_⟩
  intro right hidden count agree unread
  have near (i : Nat) (within : i ≤ count) : (left.after i).AgreeOutside hidden (right.after i) :=
    after_agree agree fun earlier inside => unread earlier (Nat.lt_of_lt_of_le inside within)
  refine ⟨?_,near⟩
  intro i inside
  obtain ⟨answer,writes,_⟩ := step_agree (near i (Nat.le_of_lt inside)) (unread i inside)
  exact ⟨answer,writes⟩

def copying : Machine Constant where
  registers := { pc := 0x10,ready := true }
  bus := ⟨Memory.zero.pokeAll [(0x10,0xB1),(0x11,0xFF),(0x12,0x8D),(0x14,0x03),(0xFF,0x10),(0x00,0x02),
    (0x210,0x5A)],⟨0⟩⟩
  config := {}

theorem copying_undisturbed :
    let hidden := fun cell => cell = 0x100 ∨ cell = 0x300
    let disturbed := { copying with bus := (copying.bus.write 0x100 9).write 0x300 7 }
    copying.AgreeOutside hidden disturbed ∧
    (∀ i,i < 2 → ∀ cell ∈ (copying.after i).readCells,¬hidden (cell.toNat % 65536)) ∧
    (disturbed.after 1).writes = (copying.after 1).writes ∧ (copying.after 1).writes = [(0x300,0x5A)] ∧
    (copying.after 2).AgreeOutside hidden (disturbed.after 2) := by
  intro hidden disturbed
  have same : copying.bus.memory.AgreeOutside hidden copying.bus.memory := fun _ _ => rfl
  have once : copying.bus.memory.AgreeOutside hidden (copying.bus.memory.poke 0x100 9) :=
    same.disturb (.inl rfl) 9
  have twice : copying.bus.memory.AgreeOutside hidden disturbed.bus.memory := once.disturb (.inr rfl) 7
  have agree : copying.AgreeOutside hidden disturbed := ⟨rfl,rfl,rfl,twice⟩
  have shown : ∀ i,i < 2 → ((copying.after i).readCells.all fun cell =>
      cell.toNat % 65536 ≠ 0x100 ∧ cell.toNat % 65536 ≠ 0x300) = true := by decide +kernel
  have unread : ∀ i,i < 2 → ∀ cell ∈ (copying.after i).readCells,¬hidden (cell.toNat % 65536) := by
    intro i inside cell member
    have apart := List.all_eq_true.mp (shown i inside) cell member
    exact not_or.mpr (of_decide_eq_true apart)
  have written : (copying.after 1).writes = [(0x300,0x5A)] := by decide +kernel
  obtain ⟨together,last⟩ := (unread_cells_invisible copying).2 disturbed hidden 2 agree unread
  exact ⟨agree,unread,(together 1 (by decide)).2,written,last 2 (by decide)⟩

end Machine

end Console6502
