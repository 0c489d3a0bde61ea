import Console6502.Proofs.Addressing
import Console6502.Proofs.Flags
import Console6502.Proofs.StackRing

-- Where an instruction leads, told in numbers from what it finds: its own bytes, the status
-- before the step, and what lies on the stack or at the vector.
namespace Console6502

def Instruction.condition (instruction : Instruction) (p : Status) : Option Bool :=
  match instruction with
  | .bpl => some !p.has .negative
  | .bmi => some (p.has .negative)
  | .bvc => some !p.has .overflow
  | .bvs => some (p.has .overflow)
  | .bcc => some !p.has .carry
  | .bcs => some (p.has .carry)
  | .bne => some !p.has .zero
  | .beq => some (p.has .zero)
  | _ => none

def displacement (byte : UInt8) : Int := if byte.toNat < 128 then byte.toNat else byte.toNat - 256

def pushWrites (sp : UInt8) : List UInt8 → List Write
  | [] => []
  | byte :: rest => (UInt32.ofNat (0x100 + sp.toNat),byte) :: pushWrites (sp - 1) rest

theorem pushWrites_cons (sp byte : UInt8) (rest : List UInt8) :
    pushWrites sp (byte :: rest) = (stackCell sp,byte) :: pushWrites (sp - 1) rest := by
  rw [pushWrites,stackCell_eq]

theorem Memory.pokeAll_pushWrites (m : Memory) (sp : UInt8) (bytes : List UInt8) :
    m.pokeAll (pushWrites sp bytes) = m.pushAll sp bytes := by
  induction bytes generalizing m sp with
  | nil => rfl
  | cons byte rest ih =>
    rw [pushWrites_cons,pokeAll_cons,ih]
    rfl

theorem highByte_eq (value : UInt16) : highByte value = UInt8.ofNat (value.toNat / 256) := by
  apply UInt8.toNat_inj.mp
  simp [highByte,Nat.shiftRight_eq_div_pow]

theorem lowByte_eq (value : UInt16) : lowByte value = UInt8.ofNat (value.toNat % 256) := by
  apply UInt8.toNat_inj.mp
  simp [lowByte]

theorem displaced (pc : UInt16) (byte : UInt8) :
    (pc + byte.toInt8.toInt16.toUInt16).toNat = ((pc.toNat + displacement byte) % 65536).toNat := by
  have small := byte.toNat_lt
  have extended : (byte.toInt8.toInt16.toUInt16).toNat =
      byte.toNat + if byte.toNat < 128 then 0 else 65280 := by
    have same : byte.toInt8.toInt16.toUInt16.toBitVec = byte.toBitVec.signExtend 16 := rfl
    rw [← UInt16.toNat_toBitVec,same,BitVec.toNat_signExtend,BitVec.toNat_setWidth,BitVec.msb_eq_decide]
    simp only [UInt8.toNat_toBitVec,decide_eq_true_eq]
    split <;> split <;> omega
  rw [UInt16.toNat_add,extended,displacement]
  split <;> omega

namespace Registers

variable (r : Registers)

@[simp] theorem put_pc (target : Register) (value : UInt8) : (r.put target value).pc = r.pc := by
  cases target <;> rfl
@[simp] theorem flags_pc (change : Status → Status) : (r.flags change).pc = r.pc := rfl
@[simp] theorem putFlag_pc (flag : Flag) (on : Bool) : (r.putFlag flag on).pc = r.pc := rfl
@[simp] theorem load_pc (target : Register) (value : UInt8) : (r.load target value).pc = r.pc := by
  rw [load,flags_pc,put_pc]
@[simp] theorem deriveOverflow_pc (rule : OverflowRule) (on : Bool) :
    (r.deriveOverflow rule on).pc = r.pc := by
  cases rule <;> rfl

end Registers

def Action.leads : Action → Bool
  | .branch _ _ | .jump | .call | .leave | .leaveInterrupt | .enterBreak => true
  | _ => false

variable {σ : Type} [ByteSource σ]

theorem Action.perform_pc {action : Action} (stays : action.leads = false) (config : Config)
    (operand : Operand) (r : Registers) (bus : Bus σ) :
    ((action.perform config operand r).run bus).1.pc = r.pc := by
  cases action with
  | branch | jump | call | leave | leaveInterrupt | enterBreak => cases stays
  | store => cases operand <;> simp [perform]
  | modify => cases operand <;> simp [perform,Registers.modify,Registers.modifyCell]
  | _ => simp [perform,Registers.add,Registers.subtract,Registers.compare,Registers.testBits]

-- A word in memory, its second byte read on the bus that the first one left.
def Bus.pairAt (bus : Bus σ) (place : Nat) : Nat :=
  let low := bus.read (UInt32.ofNat place)
  let high := low.2.read (UInt32.ofNat (place + 1))
  paired low.1 high.1

theorem Bus.toNat_readWord (bus : Bus σ) (place : Nat) :
    (bus.readWord (UInt32.ofNat place)).1.toNat = bus.pairAt place := by
  have next : UInt32.ofNat (place + 1) = UInt32.ofNat place + 1 := UInt32.ofNat_add _ _
  rw [pairAt,next]
  exact toNat_paired _ _

theorem Bus.readWord_rom {left right : Bus σ} (same : left.memory.rom = right.memory.rom)
    {address : UInt32} (low : Region.ofAddress address = .rom)
    (high : Region.ofAddress (address + 1) = .rom) :
    (left.readWord address).1 = (right.readWord address).1 := by
  simp only [readWord,read_rom _ low,read_rom _ high,same]

namespace Machine

def nextPc (m : Machine σ) (opcode : Opcode) : Nat :=
  let pc := m.registers.pc.toNat
  let first := m.firstOperand.1
  let second := m.secondOperand.1
  let pulled (count : UInt8) := m.bus.memory.stacked (m.registers.sp + count)
  match opcode.instruction.condition m.registers.p with
  | some true => ((pc + 2 + displacement first) % 65536).toNat
  | some false => (pc + 2) % 65536
  | none =>
    match opcode.instruction with
    | .jmp =>
      if opcode.mode = .absolute then paired first second
      else m.secondOperand.2.pairAt (paired first second)
    | .jsr => paired first second
    | .rts => (paired (pulled 1) (pulled 2) + 1) % 65536
    | .rti => paired (pulled 2) (pulled 3)
    | .brk =>
      match m.config.onBreak with
      | .halt => (pc + 1) % 65536
      | .interrupt => m.bus.pairAt 0xFFFA
    | _ => (pc + opcode.length.toNat) % 65536

-- The step writes these bytes on top of the stack, in this order, and nothing else. They lie
-- there afterwards, the first of them where the pointer was.
structure Pushes (m : Machine σ) (bytes : List UInt8) : Prop where
  writes : m.writes = pushWrites m.registers.sp bytes
  memory : m.step.2.bus.memory = m.bus.memory.pushAll m.registers.sp bytes
  top : m.step.2.bus.memory.topmost m.registers.sp bytes.length = bytes
  others : ∀ address : UInt32,
    (∀ i,i < bytes.length → address.toNat % 65536 ≠ 0x100 + (lowered m.registers.sp i).toNat) →
    m.step.2.bus.memory.peek address = m.bus.memory.peek address
  sp : m.step.2.registers.sp = lowered m.registers.sp bytes.length

variable {m : Machine σ} {p : Prepared σ} {opcode : Opcode}

theorem pushes_of_writes (found : m.prepare = some p) {bytes : List UInt8} (fits : bytes.length ≤ 256)
    (writes : m.writes = pushWrites m.registers.sp bytes)
    (sp : m.step.2.registers.sp = lowered m.registers.sp bytes.length) : m.Pushes bytes := by
  have memory : m.step.2.bus.memory = m.bus.memory.pushAll m.registers.sp bytes := by
    rw [step_prepared found,Prepared.perform]
    dsimp only
    rw [Transaction.run_memory,← writes_prepared found,writes,(prepares found).memory,
      Memory.pokeAll_pushWrites]
  refine ⟨writes,memory,?_,?_,sp⟩
  · rw [memory,Memory.topmost_pushAll fits]
  · intro address apart
    rw [memory,Memory.peek_pushAll_other apart]

theorem length_pc (found : m.prepare = some p) :
    p.registers.pc.toNat = (m.registers.pc.toNat + p.opcode.length.toNat) % 65536 := by
  rw [(prepares found).registers,Registers.advance,UInt16.toNat_add]

theorem branch_form (found : m.prepare = some p) {taken : Bool}
    (condition : p.opcode.instruction.condition m.registers.p = some taken) : ∃ flag wanted,
      p.opcode.instruction.action = .branch flag wanted ∧
      (p.registers.p.has flag == wanted) = taken ∧ p.opcode.mode = .relative := by
  have facts := prepares found
  have form := decode_form facts.known
  rw [facts.registers,Registers.advance_p]
  generalize p.opcode.instruction = instruction at condition form ⊢
  cases instruction with
  | bpl | bmi | bvc | bvs | bcc | bcs | bne | beq =>
    cases condition
    refine ⟨_,_,rfl,?_,(Prod.mk.inj (List.mem_singleton.mp form)).2⟩
    simp
  | _ => cases condition

theorem branch_pc (found : m.prepare = some p) {taken : Bool}
    (condition : p.opcode.instruction.condition m.registers.p = some taken) :
    m.step.2.registers.pc.toNat = m.nextPc p.opcode := by
  obtain ⟨flag,wanted,action,judged,mode⟩ := branch_form found condition
  have operand : p.operand = .displacement m.firstOperand.1.toInt8 := by
    rw [← (prepare_resolved found).1,mode]
    simp only [Mode.resolve,Transaction.run_bind,run_fetchByte,Transaction.run_pure]
  have past : p.registers.pc = m.registers.pc + 2 := by
    rw [(prepares found).registers,Opcode.length,mode]
    rfl
  have ran : m.step.2.registers = p.registers.branch flag wanted m.firstOperand.1.toInt8 := by
    rw [step_prepared found,Prepared.perform,action,operand]
    rfl
  rw [ran,Registers.branch,judged,nextPc,condition]
  cases taken with
  | true =>
    have wrapped : (m.registers.pc + 2).toNat = (m.registers.pc.toNat + 2) % 65536 := UInt16.toNat_add _ _
    simp only [if_true,Registers.advance,past]
    rw [displaced,wrapped]
    omega
  | false =>
    simp only [Bool.false_eq_true,if_false,past,UInt16.toNat_add]
    rfl

theorem absolute_target (found : m.prepare = some p) (mode : p.opcode.mode = .absolute)
    (jumps : p.opcode.instruction ∈ [.jmp,.jsr]) :
    m.step.2.registers.pc.toNat = paired m.firstOperand.1 m.secondOperand.1 := by
  have designates : m.effectiveAddress p.opcode.mode =
      some (paired m.firstOperand.1 m.secondOperand.1) := by
    rw [mode]
    rfl
  obtain ⟨⟨target,operand,same⟩,_⟩ := prepare_address found designates
  exact (jump_pc found jumps operand).trans same

theorem indirect_target (found : m.prepare = some p) (kind : p.opcode.instruction = .jmp)
    (other : p.opcode.mode ≠ .absolute) : m.step.2.registers.pc.toNat =
      m.secondOperand.2.pairAt (paired m.firstOperand.1 m.secondOperand.1) := by
  have place : UInt32.ofNat (paired m.firstOperand.1 m.secondOperand.1) =
      (word m.firstOperand.1 m.secondOperand.1).toUInt32 := by
    rw [← toNat_paired,UInt32.ofNat_uInt16ToNat]
  have form := decode_form (prepares found).known
  have mode : p.opcode.mode = .indirect := by
    simp only [kind,Instruction.forms,List.mem_cons,Prod.mk.injEq,other,and_false,List.not_mem_nil,
      or_false,false_or] at form
    exact form.2
  have operand := (prepare_resolved found).1
  rw [mode] at operand
  simp only [Mode.resolve,Transaction.run_bind,run_fetchWord,Transaction.run_fetchWord,
    Transaction.run_pure] at operand
  rw [jump_pc found (by rw [kind]; decide) operand.symm,cell_word,← Bus.toNat_readWord,place]

theorem rts_pc (found : m.prepare = some p) (kind : p.opcode.instruction = .rts) :
    m.step.2.registers.pc.toNat = (paired (m.bus.memory.stacked (m.registers.sp + 1))
      (m.bus.memory.stacked (m.registers.sp + 2)) + 1) % 65536 := by
  have facts := prepares found
  rw [step_prepared found,Prepared.perform,kind]
  simp only [Instruction.action,Action.perform,Transaction.run_bind,Registers.run_pullWord,
    Transaction.run_pure,facts.memory,facts.sp_eq,UInt16.toNat_add,toNat_paired]
  rfl

theorem rti_pulls (found : m.prepare = some p) (kind : p.opcode.instruction = .rti) :
    m.step.2.registers.p.byte = m.bus.memory.stacked (m.registers.sp + 1) ∧
    m.step.2.registers.pc.toNat = paired (m.bus.memory.stacked (m.registers.sp + 2))
      (m.bus.memory.stacked (m.registers.sp + 3)) := by
  have facts := prepares found
  have second : m.registers.sp + 1 + 1 = m.registers.sp + 2 := UInt8.add_assoc _ _ _
  have third : m.registers.sp + 1 + 2 = m.registers.sp + 3 := UInt8.add_assoc _ _ _
  rw [step_prepared found,Prepared.perform,kind]
  simp only [Instruction.action,Action.perform,Transaction.run_bind,Registers.run_pullStatus,
    Registers.run_pullWord,Transaction.run_pure,facts.memory,facts.sp_eq,second,third,toNat_paired,
    and_self]

theorem brk_pc (found : m.prepare = some p) (kind : p.opcode.instruction = .brk) :
    m.step.2.registers.pc.toNat =
      match m.config.onBreak with
      | .halt => (m.registers.pc.toNat + 1) % 65536
      | .interrupt => m.bus.pairAt 0xFFFA := by
  have facts := prepares found
  rw [step_prepared found,Prepared.perform,kind]
  cases rule : m.config.onBreak with
  | halt =>
    have mode : p.opcode.mode = .implied := facts.mode_eq (by rw [kind]; rfl)
    simp only [Instruction.action,Action.perform,rule,Registers.enterBreak,Transaction.run_bind,
      Transaction.run_pure]
    rw [length_pc found,Opcode.length,mode]
    rfl
  | interrupt =>
    simp only [Instruction.action,Action.perform,rule,Registers.enterBreak,Transaction.run_bind,
      Transaction.run_pure,Transaction.run_fetchWord,Registers.run_pushWord,Registers.run_pushStatus]
    -- The pushes do not reach the vector.
    rw [← Bus.toNat_readWord]
    refine congrArg UInt16.toNat (Bus.readWord_rom ?_ (by decide) (by decide))
    simp only [Bus.write_memory,Memory.poke_rom,facts.memory]

theorem step_pc (found : m.prepare = some p) :
    m.step.2.registers.pc.toNat = m.nextPc p.opcode := by
  cases judged : p.opcode.instruction.condition m.registers.p with
  | some taken => exact branch_pc found judged
  | none =>
    cases kind : p.opcode.instruction with
    | jmp =>
      rw [nextPc,kind]
      by_cases mode : p.opcode.mode = .absolute
      · exact (absolute_target found mode (by rw [kind]; decide)).trans (if_pos mode).symm
      · exact (indirect_target found kind mode).trans (if_neg mode).symm
    | jsr =>
      have mode : p.opcode.mode = .absolute := (prepares found).mode_eq (by rw [kind]; rfl)
      rw [nextPc,kind]
      exact absolute_target found mode (by rw [kind]; decide)
    | rts =>
      rw [nextPc,kind]
      exact rts_pc found kind
    | rti =>
      rw [nextPc,kind]
      exact (rti_pulls found kind).2
    | brk =>
      rw [nextPc,kind]
      exact brk_pc found kind
    | bpl | bmi | bvc | bvs | bcc | bcs | bne | beq =>
      rw [kind] at judged
      cases judged
    | _ =>
      have stays : p.opcode.instruction.action.leads = false := by rw [kind]; rfl
      rw [nextPc,kind,step_prepared found,Prepared.perform]
      dsimp only [Instruction.condition]
      rw [Action.perform_pc stays,length_pc found]

theorem call_pushes (found : m.prepare = some p) (kind : p.opcode.instruction = .jsr) :
    m.Pushes [highByte (m.registers.pc + 2),lowByte (m.registers.pc + 2)] := by
  have facts := prepares found
  obtain ⟨⟨target,operand⟩,pc⟩ := facts.call_target kind
  apply pushes_of_writes found (Nat.le_add_left _ _)
  · rw [writes_prepared found,kind,operand]
    simp only [Instruction.action,Action.perform,Registers.pushWord,Registers.push,Transaction.writes_bind,
      Transaction.writes_store,Transaction.writes_pure,Transaction.run_bind,Transaction.run_store,
      Transaction.run_pure,pc,facts.sp_eq,pushWrites_cons]
    rfl
  · rw [step_prepared found,Prepared.perform,kind,operand]
    simp only [Instruction.action,Action.perform,Transaction.run_bind,Registers.run_pushWord,
      Transaction.run_pure,facts.sp_eq]
    rfl

theorem break_interrupts (found : m.prepare = some p) (kind : p.opcode.instruction = .brk)
    (rule : m.config.onBreak = .interrupt) :
    m.Pushes [highByte (m.registers.pc + 2),lowByte (m.registers.pc + 2),m.registers.p.byte ||| 0x30] ∧
      m.step.2.registers.p.byte = m.registers.p.byte ||| 0x04 := by
  have facts := prepares found
  have pc := facts.break_return kind
  have status : p.registers.p = m.registers.p := by
    rw [facts.registers,Registers.advance_p]
  have third : m.registers.sp - 2 - 1 = m.registers.sp - 3 := by grind
  have after := step_prepared found
  simp only [Prepared.perform,kind,Instruction.action,Action.perform,rule,Registers.enterBreak,
    Transaction.run_bind,Registers.run_pushWord,Registers.run_pushStatus,Transaction.run_fetchWord,
    Transaction.run_pure,Registers.putFlag,Registers.flags,facts.sp_eq,status,third] at after
  refine ⟨pushes_of_writes found (Nat.le_add_left _ _) ?_ ?_,?_⟩
  · rw [writes_prepared found,kind]
    simp only [Instruction.action,Action.perform,rule,Registers.enterBreak,Registers.pushWord,
      Registers.pushStatus,Registers.push,Transaction.writes_bind,Transaction.writes_store,
      Transaction.writes_pure,Transaction.writes_fetchWord,Transaction.run_bind,Transaction.run_store,
      Transaction.run_pure,pc,facts.sp_eq,status,Status.pushed_eq,pushWrites_cons]
    rfl
  · rw [after]
    rfl
  · rw [after]
    rfl

theorem break_halts (found : m.prepare = some p) (kind : p.opcode.instruction = .brk)
    (rule : m.config.onBreak = .halt) : m.Pushes [] ∧ m.step.2.registers.p = m.registers.p := by
  have facts := prepares found
  have after := step_prepared found
  simp only [Prepared.perform,kind,Instruction.action,Action.perform,rule,Registers.enterBreak,
    Transaction.run_bind,Transaction.run_log,Transaction.run_pure,facts.registers] at after
  refine ⟨pushes_of_writes found (Nat.le_add_left _ _) ?_ ?_,?_⟩
  · rw [writes_prepared found,kind]
    simp only [Instruction.action,Action.perform,rule,Registers.enterBreak,Transaction.writes_bind,
      Transaction.writes_log,Transaction.writes_pure]
    rfl
  · rw [after]
    exact (lowered_zero _).symm
  · rw [after]
    rfl

-- The length that the table gives and the bytes that resolving consumes are one number, and
-- from there on each family has its own rule.
theorem next_pc (ready : m.registers.ready = true) (known : decode m.fetched.1 = some opcode) :
    let r := m.registers
    let after := m.step.2.registers
    let past := (r.pc.toNat + 2) % 65536
    let returning := [UInt8.ofNat (past / 256),UInt8.ofNat (past % 256)]
    (∃ outcome,m.step.1 = .ok outcome) ∧
    after.pc.toNat = m.nextPc opcode ∧
    (opcode.instruction = .jsr → m.Pushes returning) ∧
    (opcode.instruction = .rti → after.p.byte = m.bus.memory.stacked (r.sp + 1)) ∧
    (opcode.instruction = .brk → m.config.onBreak = .halt → m.Pushes [] ∧ after.p = r.p) ∧
    (opcode.instruction = .brk → m.config.onBreak = .interrupt →
      m.Pushes (returning ++ [r.p.byte ||| 0x30]) ∧ after.p.byte = r.p.byte ||| 0x04) ∧
    ∀ (mode : Mode) (r : Registers) (bus : Bus σ),
      ((mode.resolve r).run bus).1.2.pc.toNat = (r.pc.toNat + mode.operandLength.toNat) % 65536 := by
  obtain ⟨p,found,rfl⟩ := exists_prepared ready known
  intro r after past returning
  have bytes : [highByte (r.pc + 2),lowByte (r.pc + 2)] = returning := by
    rw [highByte_eq,lowByte_eq,UInt16.toNat_add]
    rfl
  refine ⟨?_,step_pc found,?_,fun kind => (rti_pulls found kind).1,break_halts found,?_,?_⟩
  · rw [step_prepared found]
    exact ⟨_,rfl⟩
  · rw [← bytes]
    exact call_pushes found
  · rw [← bytes]
    exact break_interrupts found
  · intro mode r bus
    rw [Mode.resolve_registers,Registers.advance,UInt16.toNat_add]

def branching : Machine Constant where
  registers := { p := ⟨0⟩,ready := true }
  bus := ⟨Memory.zero.pokeAll [(0,0xD0),(1,0x80)],⟨0⟩⟩
  config := {}

theorem backward_branch_wraps :
    branching.registers.ready = true ∧ decode branching.fetched.1 = some ⟨.bne,.relative⟩ ∧
    branching.step.2.registers.pc = 0xFF82 := by
  have known : decode branching.fetched.1 = some ⟨.bne,.relative⟩ := by decide +kernel
  have target : branching.nextPc ⟨.bne,.relative⟩ = 0xFF82 := by decide +kernel
  obtain ⟨_,went,_⟩ := next_pc (m := branching) rfl known
  exact ⟨rfl,known,UInt16.toNat_inj.mp (went.trans target)⟩

end Machine

end Console6502
