import Console6502.Command
import Console6502.Proofs.Runs

-- Which stored bytes a step, a run and a sequence of host commands may change.
namespace Console6502

variable {σ : Type}

def Prepared.storeAddress (p : Prepared σ) : Option UInt32 :=
  match p.opcode.instruction with
  | .sta | .stx | .sty | .asl | .lsr | .rol | .ror | .inc | .dec =>
    match p.operand with
    | .address place => some place
    | _ => none
  | _ => none

-- The cells an instruction may change; `sp` is the pointer it starts with.
def Prepared.footprint (p : Prepared σ) (config : Config) (sp : UInt8) : List UInt32 :=
  match p.opcode.instruction with
  | .pha | .php => [stackCell sp]
  | .jsr => [stackCell sp,stackCell (sp - 1)]
  | .brk =>
    match config.onBreak with
    | .halt => []
    | .interrupt => [stackCell sp,stackCell (sp - 1),stackCell (sp - 2)]
  | _ =>
    match p.storeAddress with
    | some place =>
      if place.toNat % 65536 < 0x2000 ∨
          (0x6000 ≤ place.toNat % 65536 ∧ place.toNat % 65536 < 0x8000) then [masked place]
      else []
    | none => []

theorem Prepared.places_footprint {p : Prepared σ} {config : Config} {place : UInt32}
    (member : place ∈ p.opcode.instruction.action.places config p.operand p.registers)
    (kept : (Region.ofAddress place).writable = true) : masked place ∈ p.footprint config p.registers.sp := by
  obtain ⟨⟨instruction,mode⟩,operand,r,bus⟩ := p
  rw [Region.writable_iff] at kept
  cases instruction with
  | sta | stx | sty | asl | lsr | rol | ror | inc | dec =>
    cases operand with
    | address target =>
      simp only [Instruction.action,Action.places,List.mem_singleton] at member
      subst member
      simp only [footprint,storeAddress,if_pos kept,List.mem_singleton]
    | _ => simp [Instruction.action,Action.places] at member
  | jsr =>
    cases operand with
    | address target =>
      simp only [Instruction.action,Action.places,List.mem_cons,List.not_mem_nil,or_false] at member
      rcases member with rfl | rfl <;> simp [footprint]
    | _ => simp [Instruction.action,Action.places] at member
  | brk =>
    cases rule : config.onBreak with
    | halt => simp [Instruction.action,Action.places,rule] at member
    | interrupt =>
      simp only [Instruction.action,Action.places,rule,List.mem_cons,List.not_mem_nil,or_false] at member
      rcases member with rfl | rfl | rfl <;> simp [footprint,rule]
  | pha | php =>
    simp only [Instruction.action,Action.places,List.mem_singleton] at member
    subst member
    simp [footprint]
  | _ => simp [Instruction.action,Action.places] at member

def Instruction.pushes : Instruction → Bool
  | .pha | .php | .jsr | .brk => true
  | _ => false

theorem Prepared.footprint_cases {p : Prepared σ} {config : Config} {sp : UInt8} {cell : UInt32}
    (member : cell ∈ p.footprint config sp) :
    (p.opcode.instruction.pushes = true ∧ ∃ pointer,cell = stackCell pointer) ∨
    ∃ place,p.storeAddress = some place ∧ cell = masked place := by
  unfold footprint at member
  split at member
  · rename_i same
    exact .inl ⟨by rw [same]; rfl,_,List.mem_singleton.mp member⟩
  · rename_i same
    exact .inl ⟨by rw [same]; rfl,_,List.mem_singleton.mp member⟩
  · rename_i same
    refine .inl ⟨by rw [same]; rfl,?_⟩
    simp only [List.mem_cons,List.not_mem_nil,or_false] at member
    rcases member with found | found <;> exact ⟨_,found⟩
  · rename_i same
    refine .inl ⟨by rw [same]; rfl,?_⟩
    split at member
    · cases member
    · simp only [List.mem_cons,List.not_mem_nil,or_false] at member
      rcases member with found | found | found <;> exact ⟨_,found⟩
  · split at member
    · rename_i place stores
      split at member
      · exact .inr ⟨place,stores,List.mem_singleton.mp member⟩
      · cases member
    · cases member

namespace Machine

variable [ByteSource σ] {m last : Machine σ} {p : Prepared σ}

def storeAddress (m : Machine σ) : Option UInt32 := m.prepare.bind Prepared.storeAddress

def footprint (m : Machine σ) : List UInt32 :=
  match m.prepare with
  | some p => p.footprint m.config m.registers.sp
  | none => []

theorem step_unprepared (none : m.prepare = none) :
    m.step.2.bus.memory = m.bus.memory ∧ ∃ fault,m.step.1 = .error fault := by
  rcases m.step_cases with ⟨idle,_⟩ | ⟨ready,unknown,_⟩ | ⟨p,found⟩
  · rw [step_idle idle]
    exact ⟨rfl,_,rfl⟩
  · rw [step_undocumented ready unknown]
    exact ⟨Bus.read_memory _ _,_,rfl⟩
  · rw [none] at found
    cases found

theorem step_memory (found : m.prepare = some p) : m.step.2.bus.memory =
    m.bus.memory.pokeAll
      ((p.opcode.instruction.action.perform m.config p.operand p.registers).writes p.bus) := by
  rw [step_prepared found]
  dsimp only
  rw [Prepared.perform,Transaction.run_memory,(prepares found).memory]

theorem step_changed {address : UInt32}
    (changed : m.step.2.bus.memory.peek address ≠ m.bus.memory.peek address) :
    masked address ∈ m.footprint := by
  unfold footprint
  cases found : m.prepare with
  | none =>
    rw [(step_unprepared found).1] at changed
    exact absurd rfl changed
  | some p =>
    rw [step_memory found] at changed
    obtain ⟨write,member,same,kept⟩ := Memory.pokeAll_changed changed
    have sp := (prepares found).sp_eq
    rw [← same]
    simp only [← sp]
    apply Prepared.places_footprint
    · rw [← Action.writes_perform _ _ _ _ p.bus]
      exact List.mem_map_of_mem member
    · rwa [Region.ofAddress_congr same]

theorem step_rom (m : Machine σ) : m.step.2.bus.memory.rom = m.bus.memory.rom := by
  cases found : m.prepare with
  | none => rw [(step_unprepared found).1]
  | some p => rw [step_memory found,Memory.pokeAll_rom]

theorem after_rom (count : Nat) (m : Machine σ) :
    (m.after count).bus.memory.rom = m.bus.memory.rom := by
  induction count with
  | zero => rfl
  | succ count ih => rw [after_succ,step_rom,ih]

-- Save RAM lies outside page one, so of the whole footprint only a store can reach it.
theorem footprint_saveRam {address : UInt32} (region : Region.ofAddress address = .saveRam)
    (member : masked address ∈ m.footprint) :
    ∃ place,m.storeAddress = some place ∧ masked place = masked address := by
  unfold footprint at member
  unfold storeAddress
  cases found : m.prepare with
  | none =>
    rw [found] at member
    cases member
  | some p =>
    rw [found] at member
    rcases Prepared.footprint_cases member with ⟨_,pointer,same⟩ | ⟨place,stores,same⟩
    · have stacked := Region.ofAddress_congr (same.trans (masked_stackCell pointer).symm)
      rw [region,ofAddress_stackCell] at stacked
      cases stacked
    · exact ⟨place,stores,same.symm⟩

theorem after_saveRam {address : UInt32} (region : Region.ofAddress address = .saveRam) {count : Nat}
    (changed : (m.after count).bus.memory.peek address ≠ m.bus.memory.peek address) :
    ∃ earlier,earlier < count ∧ ∃ place,(m.after earlier).storeAddress = some place ∧
      masked place = masked address := by
  induction count with
  | zero => exact absurd rfl changed
  | succ count ih =>
    rw [after_succ] at changed
    by_cases already : (m.after count).bus.memory.peek address = m.bus.memory.peek address
    · rw [← already] at changed
      exact ⟨count,Nat.lt_succ_self _,footprint_saveRam region (step_changed changed)⟩
    · obtain ⟨earlier,before,place,stores⟩ := ih already
      exact ⟨earlier,Nat.lt_succ_of_lt before,place,stores⟩

theorem runFor_after (limit : Nat) (m : Machine σ) :
    ∃ count,count ≤ limit ∧ (m.runFor limit).2 = m.after count := by
  rcases m.runFor_cases limit with ⟨last,path,ran⟩ | ⟨tried,result,last,within,stops,ran⟩
  · rw [ran]
    exact ⟨limit,Nat.le_refl _,path.after_eq⟩
  · rw [ran]
    exact ⟨tried,within,stops.after_eq⟩

theorem run_after {result : Except Fault Nat} (ran : m.run = some (result,last)) :
    ∃ count,last = m.after count := by
  obtain ⟨tried,stops⟩ := run_eq_some_iff.mp ran
  exact ⟨tried,stops.after_eq⟩

theorem stepEach_after (count : Nat) (m : Machine σ) : ∃ taken,(m.stepEach count).2 = m.after taken := by
  induction count generalizing m with
  | zero => exact ⟨0,rfl⟩
  | succ count ih =>
    rw [stepEach]
    split
    · rename_i fault next stepped
      exact ⟨1,by rw [after,stepped]; rfl⟩
    · rename_i outcome next stepped
      obtain ⟨taken,same⟩ := ih next
      exact ⟨taken + 1,by rw [after,stepped]; exact same⟩

@[simp] theorem reset_memory (m : Machine σ) : m.reset.bus.memory = m.bus.memory := by
  simp [reset]

theorem powerOn_rom (m : Machine σ) : m.powerOn.bus.memory.rom = m.bus.memory.rom := by
  simp [powerOn]

end Machine

-- What puts new bytes into ROM: an image that fits, or the host's own hand.
def Command.replacesRom : Command → Prop
  | .loadRom image => image.size ≤ 32768
  | .patchRom _ _ => True
  | _ => False

theorem Command.perform_rom [ByteSource σ] {command : Command} {m : Machine σ}
    (keeps : ¬ command.replacesRom) : (command.perform m).2.bus.memory.rom = m.bus.memory.rom := by
  cases command with
  | powerOn => exact m.powerOn_rom
  | reset => exact congrArg Memory.rom m.reset_memory
  | step =>
    rw [perform,← m.step_rom]
    split <;> simp_all
  | stepEach count =>
    obtain ⟨taken,same⟩ := m.stepEach_after count
    rw [← m.after_rom taken,← same]
    rfl
  | runFor limit =>
    obtain ⟨count,_,same⟩ := m.runFor_after limit
    rw [← m.after_rom count,← same,perform]
    split <;> simp_all
  | read address => exact congrArg Memory.rom (Bus.read_memory _ _)
  | readWord address => exact congrArg Memory.rom (Bus.readWord_memory _ _)
  | write address value => exact Memory.poke_rom _ _ _
  | loadRom image =>
    have large : 2 ^ romWidth < image.size := Nat.lt_of_not_le keeps
    simp only [perform,Memory.loadRom,if_pos large]
    rfl
  | loadSaveRam image =>
    simp only [perform,Memory.loadSaveRam]
    split <;> rfl
  | patchRom => exact absurd trivial keeps
  | randomizeRam => simp only [perform,Bus.randomizeRam_rom]
  | _ => rfl

theorem Command.performAll_rom [ByteSource σ] {commands : List Command} {m : Machine σ}
    (changed : (performAll commands m).2.bus.memory.rom ≠ m.bus.memory.rom) :
    ∃ command ∈ commands,command.replacesRom := by
  induction commands generalizing m with
  | nil => exact absurd rfl changed
  | cons command rest ih =>
    by_cases replaces : command.replacesRom
    · exact ⟨command,List.mem_cons_self,replaces⟩
    · have same : (command.perform m).2.bus.memory.rom = m.bus.memory.rom := perform_rom replaces
      rw [← same] at changed
      obtain ⟨found,member,reason⟩ := ih changed
      exact ⟨found,List.mem_cons_of_mem _ member,reason⟩

namespace Machine

variable [ByteSource σ]

-- A step changes cells of its footprint only, and a run changes save RAM only under a store
-- that names the cell. No run changes ROM; of the host's commands two can.
theorem changes_within_footprint (m : Machine σ) :
    (∀ count,(m.after count).bus.memory.rom = m.bus.memory.rom ∧
      (m.after count).bus.memory.ram.cells.toArray.size = 8192 ∧
      (m.after count).bus.memory.saveRam.cells.toArray.size = 8192 ∧
      (m.after count).bus.memory.rom.cells.toArray.size = 32768) ∧
    (∀ limit,∃ count,count ≤ limit ∧ (m.runFor limit).2 = m.after count) ∧
    (∀ result last,m.run = some (result,last) → ∃ count,last = m.after count) ∧
    (∀ address,m.step.2.bus.memory.peek address ≠ m.bus.memory.peek address →
      masked address ∈ m.footprint) ∧
    (m.footprint = [] → m.step.2.bus.memory = m.bus.memory) ∧
    (∀ fault,m.step.1 = .error fault → m.step.2.bus.memory = m.bus.memory) ∧
    (∀ count address,Region.ofAddress address = .saveRam →
      (m.after count).bus.memory.peek address ≠ m.bus.memory.peek address →
      ∃ earlier,earlier < count ∧ ∃ place,(m.after earlier).storeAddress = some place ∧
        masked place = masked address) ∧
    (∀ commands,(Command.performAll commands m).2.bus.memory.rom ≠ m.bus.memory.rom →
      ∃ command ∈ commands,command.replacesRom) := by
  refine ⟨fun count => ⟨m.after_rom count,?_,?_,?_⟩,fun limit => m.runFor_after limit,
    fun _ _ => run_after,fun _ => step_changed,?_,?_,
    fun _ _ region changed => after_saveRam region changed,fun _ => Command.performAll_rom⟩
  · exact Vector.size_toArray _
  · exact Vector.size_toArray _
  · exact Vector.size_toArray _
  · intro empty
    apply Memory.ext_peek
    intro address
    by_contra changed
    have member := step_changed changed
    rw [empty] at member
    cases member
  · intro fault faulted
    cases found : m.prepare with
    | none => exact (step_unprepared found).1
    | some p =>
      rw [step_prepared found] at faulted
      cases faulted

end Machine

end Console6502
