import Console6502.Proofs.Flags
import Console6502.Proofs.Runs

-- Which instructions own which register and which flag, and runs in which no owner is
-- executed.
namespace Console6502

namespace Action

def settles (action : Action) (config : Config) : List Flag :=
  match action with
  | .load _ | .transfer _ _ | .count _ _ | .combine _ | .pullAccumulator => [.zero,.negative]
  | .testBits => [.zero,.negative,.overflow]
  | .add | .subtract =>
    match config.overflow with
    | .ignore => [.carry,.zero,.negative]
    | .derive => [.carry,.zero,.negative,.overflow]
  | .compare _ => [.carry,.zero,.negative]
  | .modify .increment | .modify .decrement => [.zero,.negative]
  | .modify _ => [.carry,.zero,.negative]
  | .assign flag _ => [flag]
  | .enterBreak => if config.onBreak = .interrupt then [.interruptDisable] else []
  | .leaveInterrupt | .pullStatus => Flag.all
  | .store _ | .setStackPointer | .branch _ _ | .jump | .call | .leave | .pushAccumulator
  | .pushStatus | .idle => []

variable {σ : Type} [ByteSource σ]

theorem perform_has {action : Action} {config : Config} {flag : Flag}
    (free : flag ∉ action.settles config) (operand : Operand) (r : Registers) (bus : Bus σ) :
    ((action.perform config operand r).run bus).1.p.has flag = r.p.has flag := by
  cases action with
  | load | transfer | count | combine | pullAccumulator =>
    obtain ⟨zero,negative⟩ : flag ≠ .zero ∧ flag ≠ .negative := by simpa [settles] using free
    simp [perform,zero,negative]
  | testBits =>
    obtain ⟨zero,negative,overflow⟩ : flag ≠ .zero ∧ flag ≠ .negative ∧ flag ≠ .overflow := by
      simpa [settles] using free
    simp [perform,Registers.testBits,zero.symm,negative.symm,overflow.symm]
  | add | subtract =>
    cases rule : config.overflow with
    | ignore =>
      obtain ⟨carry,zero,negative⟩ : flag ≠ .carry ∧ flag ≠ .zero ∧ flag ≠ .negative := by
        simpa [settles,rule] using free
      simp [perform,Registers.add,Registers.subtract,Registers.deriveOverflow_has,rule,carry.symm,zero,
        negative]
    | derive =>
      obtain ⟨carry,zero,negative,overflow⟩ :
          flag ≠ .carry ∧ flag ≠ .zero ∧ flag ≠ .negative ∧ flag ≠ .overflow := by
        simpa [settles,rule] using free
      simp [perform,Registers.add,Registers.subtract,Registers.deriveOverflow_has,carry.symm,zero,negative,
        overflow]
  | compare =>
    obtain ⟨carry,zero,negative⟩ : flag ≠ .carry ∧ flag ≠ .zero ∧ flag ≠ .negative := by
      simpa [settles] using free
    simp [perform,Registers.compare,carry.symm,zero.symm,negative]
  | modify transform =>
    obtain ⟨zero,negative⟩ : flag ≠ .zero ∧ flag ≠ .negative := by
      cases transform <;> simp_all [settles]
    have carried (value : UInt8) (same : flag = .carry) :
        (transform.apply value (r.p.has .carry)).2 = r.p.has .carry := by
      rw [same] at free
      cases transform <;> first | rfl | simp [settles] at free
    have kept (value : UInt8) :
        (if .carry = flag then (transform.apply value (r.p.has .carry)).2 else r.p.has flag) =
          r.p.has flag := by
      split
      · rename_i same
        rw [carried value same.symm,same]
      · rfl
    cases operand <;> simp [perform,Registers.modify,Registers.modifyCell,zero,negative,kept]
  | assign other on =>
    have different : other ≠ flag := by simpa [settles,eq_comm] using free
    simp [perform,different]
  | enterBreak =>
    cases rule : config.onBreak with
    | halt => simp [perform,rule,Registers.enterBreak]
    | interrupt =>
      have different : flag ≠ .interruptDisable := by simpa [settles,rule] using free
      simp [perform,rule,Registers.enterBreak,different.symm]
  | leaveInterrupt | pullStatus =>
    cases flag <;> simp [settles,Flag.all] at free
  | store | branch | jump | call => cases operand <;> simp [perform]
  | _ => simp [perform]

end Action

def Register.owners (target : Register) (rule : BreakRule) : List Instruction :=
  match target with
  | .a => [.lda,.pla,.txa,.tya,.and,.ora,.eor,.adc,.sbc]
  | .x => [.ldx,.tax,.tsx,.inx,.dex]
  | .y => [.ldy,.tay,.iny,.dey]
  | .sp =>
    [.txs,.pha,.php,.pla,.plp,.jsr,.rts,.rti] ++
      match rule with
      | .halt => []
      | .interrupt => [.brk]

def Flag.owners (flag : Flag) (config : Config) : List Instruction :=
  match flag with
  | .carry => [.adc,.sbc,.cmp,.cpx,.cpy,.asl,.lsr,.rol,.ror,.clc,.sec,.plp,.rti]
  | .interruptDisable =>
    [.cli,.sei,.plp,.rti] ++
      match config.onBreak with
      | .halt => []
      | .interrupt => [.brk]
  | .decimal => [.cld,.sed,.plp,.rti]
  | .breakMark | .unused => [.plp,.rti]
  | .overflow =>
    [.bit,.clv,.plp,.rti] ++
      match config.overflow with
      | .ignore => []
      | .derive => [.adc,.sbc]
  | .zero | .negative =>
    [.lda,.ldx,.ldy,.tax,.tay,.tsx,.txa,.tya,.pla,.and,.ora,.eor,.bit,.adc,.sbc,.cmp,.cpx,.cpy,.inc,.dec,
      .inx,.iny,.dex,.dey,.asl,.lsr,.rol,.ror,.plp,.rti]

namespace Opcode

-- A shift or rotate belongs to the accumulator in one of its modes only.
def OwnsRegister (opcode : Opcode) (config : Config) (target : Register) : Prop :=
  opcode.instruction ∈ target.owners config.onBreak ∨
    (target = .a ∧ opcode.mode = .accumulator ∧ opcode.instruction ∈ [.asl,.lsr,.rol,.ror])

def OwnsFlag (opcode : Opcode) (config : Config) (flag : Flag) : Prop :=
  opcode.instruction ∈ flag.owners config

instance (opcode : Opcode) (config : Config) (target : Register) :
    Decidable (opcode.OwnsRegister config target) := inferInstanceAs (Decidable (_ ∨ _))

instance (opcode : Opcode) (config : Config) (flag : Flag) : Decidable (opcode.OwnsFlag config flag) :=
  inferInstanceAs (Decidable (_ ∈ _))

end Opcode

namespace Instruction

theorem settles_owners (instruction : Instruction) (config : Config) :
    ∀ flag ∈ instruction.action.settles config,instruction ∈ flag.owners config := by
  obtain ⟨overflow,onBreak⟩ := config
  cases overflow <;> cases onBreak <;> cases instruction <;> decide

theorem targets_owners (instruction : Instruction) (config : Config) (operand : Operand) :
    ∀ target ∈ instruction.action.targets config operand,
      instruction ∈ target.owners config.onBreak ∨ (target = .a ∧ operand = .accumulator ∧
        instruction ∈ [.asl,.lsr,.rol,.ror,.inc,.dec]) := by
  intro target member
  obtain ⟨overflow,onBreak⟩ := config
  cases instruction with
  | asl | lsr | rol | ror | inc | dec =>
    by_cases inside : operand = .accumulator
    · have accumulator : target = .a := by simpa [action,Action.targets,inside] using member
      exact .inr ⟨accumulator,inside,by decide⟩
    · simp [action,Action.targets,inside] at member
  | pla =>
    simp only [action,Action.targets,List.mem_cons,List.not_mem_nil,or_false] at member
    rcases member with rfl | rfl <;> simp [Register.owners]
  | brk => cases onBreak <;> simp_all [action,Action.targets,Register.owners]
  | _ => simp_all [action,Action.targets,Register.owners]

end Instruction

theorem Mode.accumulator_of_resolve {σ : Type} [ByteSource σ] {mode : Mode} {r : Registers}
    {bus : Bus σ} (found : ((mode.resolve r).run bus).1.1 = .accumulator) : mode = .accumulator := by
  cases mode <;> simp [resolve] at found ⊢

namespace Machine

variable {σ : Type} [ByteSource σ] {m : Machine σ} {p : Prepared σ}

def opcode (m : Machine σ) : Option Opcode := m.prepare.map fun p => p.opcode

-- INC and DEC have no form on the accumulator, so all that is left for it are shifts.
theorem Prepares.owns_of_targets (facts : m.Prepares p) {target : Register}
    (member : target ∈ p.opcode.instruction.action.targets m.config p.operand) :
    p.opcode.OwnsRegister m.config target := by
  rcases p.opcode.instruction.targets_owners m.config p.operand target member with
    listed | ⟨accumulator,operand,shifts⟩
  · exact .inl listed
  · have mode : p.opcode.mode = .accumulator :=
      Mode.accumulator_of_resolve (facts.operand.symm.trans operand)
    have form := decode_form facts.known
    rw [mode] at form
    refine .inr ⟨accumulator,mode,?_⟩
    generalize p.opcode.instruction = instruction at shifts form
    cases instruction <;> simp_all [Instruction.forms]

theorem step_get {target : Register}
    (unowned : ∀ opcode,m.opcode = some opcode → ¬opcode.OwnsRegister m.config target) :
    m.step.2.registers.get target = m.registers.get target := by
  rcases m.step_cases with ⟨idle,_⟩ | ⟨ready,unknown,_⟩ | ⟨p,found⟩
  · rw [step_idle idle]
  · rw [step_undocumented ready unknown]
    cases target <;> rfl
  · have facts := prepares found
    have free : target ∉ p.opcode.instruction.action.targets m.config p.operand := by
      intro member
      exact unowned p.opcode (by rw [opcode,found,Option.map_some]) (facts.owns_of_targets member)
    rw [step_prepared found]
    exact (Action.perform_get free _ _).trans (by rw [facts.registers,Registers.advance_get])

theorem step_has {flag : Flag}
    (unowned : ∀ opcode,m.opcode = some opcode → ¬opcode.OwnsFlag m.config flag) :
    m.step.2.registers.p.has flag = m.registers.p.has flag := by
  rcases m.step_cases with ⟨idle,_⟩ | ⟨ready,unknown,_⟩ | ⟨p,found⟩
  · rw [step_idle idle]
  · rw [step_undocumented ready unknown]
  · have facts := prepares found
    have free : flag ∉ p.opcode.instruction.action.settles m.config := by
      intro member
      exact unowned p.opcode (by rw [opcode,found,Option.map_some])
        (p.opcode.instruction.settles_owners m.config flag member)
    rw [step_prepared found]
    exact (Action.perform_has free _ _ _).trans (by rw [facts.registers,Registers.advance_p])

theorem after_keeps {β : Type} (view : Machine σ → β) {first count : Nat}
    (kept : ∀ i,i < count → view (m.after (first + i)).step.2 = view (m.after (first + i))) :
    view (m.after (first + count)) = view (m.after first) := by
  induction count with
  | zero => rfl
  | succ count ih =>
    rw [← Nat.add_assoc,after_succ,kept count (Nat.lt_succ_self count)]
    exact ih fun i inside => kept i (Nat.lt_succ_of_lt inside)

theorem owned_state_kept (m : Machine σ) (first count : Nat) :
    (∀ target,(∀ i,i < count → ∀ opcode,(m.after (first + i)).opcode = some opcode →
        ¬opcode.OwnsRegister m.config target) →
      ∀ i,i ≤ count → (m.after (first + i)).registers.get target = (m.after first).registers.get target) ∧
    (∀ flag,(∀ i,i < count → ∀ opcode,(m.after (first + i)).opcode = some opcode →
        ¬opcode.OwnsFlag m.config flag) →
      ∀ i,i ≤ count → (m.after (first + i)).registers.p.has flag = (m.after first).registers.p.has flag) := by
  refine ⟨?_,?_⟩
  · intro target unowned i within
    apply after_keeps fun m => m.registers.get target
    intro earlier inside
    apply step_get
    rw [after_config]
    exact unowned earlier (Nat.lt_of_lt_of_le inside within)
  · intro flag unowned i within
    apply after_keeps fun m => m.registers.p.has flag
    intro earlier inside
    apply step_has
    rw [after_config]
    exact unowned earlier (Nat.lt_of_lt_of_le inside within)

def counting : Machine Constant where
  registers := { a := 0x20,x := 0x7F,pc := 0x10,p := ⟨0b00000001⟩,ready := true }
  bus := ⟨Memory.zero.pokeAll [(0x10,0xE8),(0x11,0xE6),(0x12,0x40),(0x40,0xFF)],⟨0⟩⟩
  config := {}

theorem counting_keeps :
    (∀ i,i < 2 → ∀ opcode,(counting.after (0 + i)).opcode = some opcode →
      ¬opcode.OwnsRegister counting.config .a) ∧
    (∀ i,i < 2 → ∀ opcode,(counting.after (0 + i)).opcode = some opcode →
      ¬opcode.OwnsFlag counting.config .carry) ∧
    (counting.after (0 + 2)).registers.get .a = 0x20 ∧
    (counting.after (0 + 2)).registers.p.has .carry = true := by
  have executed {i : Nat} (inside : i < 2) {opcode : Opcode}
      (found : (counting.after (0 + i)).opcode = some opcode) :
      opcode = ⟨.inx,.implied⟩ ∨ opcode = ⟨.inc,.zeroPage⟩ := by
    have first : (counting.after (0 + 0)).opcode = some ⟨.inx,.implied⟩ := by decide +kernel
    have second : (counting.after (0 + 1)).opcode = some ⟨.inc,.zeroPage⟩ := by decide +kernel
    obtain rfl | rfl : i = 0 ∨ i = 1 := by omega
    · exact .inl (Option.some.inj (found.symm.trans first))
    · exact .inr (Option.some.inj (found.symm.trans second))
  have registers : ∀ i,i < 2 → ∀ opcode,(counting.after (0 + i)).opcode = some opcode →
      ¬opcode.OwnsRegister counting.config .a := by
    intro i inside opcode found
    obtain rfl | rfl := executed inside found <;> decide
  have flags : ∀ i,i < 2 → ∀ opcode,(counting.after (0 + i)).opcode = some opcode →
      ¬opcode.OwnsFlag counting.config .carry := by
    intro i inside opcode found
    obtain rfl | rfl := executed inside found <;> decide
  obtain ⟨kept,held⟩ := owned_state_kept counting 0 2
  exact ⟨registers,flags,kept .a registers 2 (Nat.le_refl 2),held .carry flags 2 (Nat.le_refl 2)⟩

end Machine

end Console6502
