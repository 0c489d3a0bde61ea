import Console6502.Proofs.Checks
import Console6502.Proofs.Step

-- One step of the processor on a host that stops at operations outside their bounds. It asks the
-- bus for the same things and comes to the same answer as the step without checks.
namespace Console6502

abbrev CheckedTransaction (α : Type) : Type := ExceptT Trap Transaction α

def Action.takes : Action → Operand → Bool
  | .store _,.address _ | .jump,.address _ | .call,.address _ => true
  | .modify _,.accumulator | .modify _,.address _ => true
  | .branch _ _,.displacement _ => true
  | .store _,_ | .jump,_ | .call,_ | .modify _,_ | .branch _ _,_ => false
  | _,_ => true

def Mode.yields : Mode → Operand → Bool
  | .implied,.implied | .accumulator,.accumulator | .immediate,.immediate _ => true
  | .relative,.displacement _ => true
  | .implied,_ | .accumulator,_ | .immediate,_ | .relative,_ => false
  | _,.address _ => true
  | _,_ => false

theorem Instruction.action_takes {instruction : Instruction} {byte : UInt8} {mode : Mode}
    (form : (byte,mode) ∈ instruction.forms) {operand : Operand} (yields : mode.yields operand = true) :
    instruction.action.takes operand = true := by
  cases instruction with
  | sta | stx | sty | jmp | jsr | asl | lsr | rol | ror | inc | dec | bcc | bcs | beq | bmi | bne | bpl
  | bvc | bvs =>
    cases mode <;> simp [forms] at form <;> cases operand <;> first | rfl | cases yields
  | _ => rfl

namespace Checked

def decode (byte : UInt8) : Checked (Option Opcode) := look Opcode.table.toArray byte.toNat

@[simp] theorem decode_eq (byte : UInt8) : decode byte = pure (Console6502.decode byte) := by
  unfold decode Console6502.decode
  generalize Opcode.table = table
  have inside : byte.toNat < table.toArray.size := by
    rw [Vector.size_toArray]
    exact byte.toNat_lt
  exact look_of inside

def addAddresses (left right : UInt32) : Checked UInt32 :=
  within .overflow (left.toNat + right.toNat < 0x100000000) (left + right)

@[simp] theorem addAddresses_eq (base : UInt16) (index : UInt8) :
    addAddresses base.toUInt32 index.toUInt32 = pure (base.toUInt32 + index.toUInt32) := by
  have low := base.toNat_lt
  have high := index.toNat_lt
  apply within_of
  rw [UInt16.toNat_toUInt32,UInt8.toNat_toUInt32]
  omega

def fetchWord (r : Registers) : CheckedTransaction (UInt16 × Registers) := do
  let (low,r) ← r.fetchByte
  let (high,r) ← r.fetchByte
  return (← word low high,r)

def zeroPagePointer (base : UInt8) : CheckedTransaction UInt16 := do
  let low ← Transaction.fetch base.toUInt32
  let high ← Transaction.fetch (base + 1).toUInt32
  word low high

def storedWord (address : UInt32) : CheckedTransaction UInt16 := do
  let low ← Transaction.fetch address
  let high ← Transaction.fetch (address + 1)
  word low high

@[simp] theorem fetchWord_eq (r : Registers) : fetchWord r = liftM r.fetchWord := by
  simp [fetchWord,Registers.fetchWord]

@[simp] theorem zeroPagePointer_eq (base : UInt8) :
    zeroPagePointer base = liftM (Console6502.zeroPagePointer base) := by
  simp [zeroPagePointer,Console6502.zeroPagePointer]

@[simp] theorem storedWord_eq (address : UInt32) :
    storedWord address = liftM (Transaction.fetchWord address) := by
  simp [storedWord,Transaction.fetchWord]

-- Index sums inside page zero wrap and are meant to, so the shorter modes have nothing to check.
def resolve (mode : Mode) (r : Registers) : CheckedTransaction (Operand × Registers) :=
  match mode with
  | .absolute => do
    let (base,r) ← fetchWord r
    return (.address base.toUInt32,r)
  | .absoluteX => do
    let (base,r) ← fetchWord r
    return (.address (← addAddresses base.toUInt32 r.x.toUInt32),r)
  | .absoluteY => do
    let (base,r) ← fetchWord r
    return (.address (← addAddresses base.toUInt32 r.y.toUInt32),r)
  | .indirect => do
    let (pointer,r) ← fetchWord r
    let target ← storedWord pointer.toUInt32
    return (.address target.toUInt32,r)
  | .indexedIndirect => do
    let (base,r) ← r.fetchByte
    let target ← zeroPagePointer (base + r.x)
    return (.address target.toUInt32,r)
  | .indirectIndexed => do
    let (base,r) ← r.fetchByte
    let target ← zeroPagePointer base
    return (.address (← addAddresses target.toUInt32 r.y.toUInt32),r)
  | .implied | .accumulator | .immediate | .zeroPage | .zeroPageX | .zeroPageY | .relative =>
    liftM (mode.resolve r)

@[simp] theorem resolve_eq (mode : Mode) (r : Registers) : resolve mode r = liftM (mode.resolve r) := by
  cases mode <;> simp [resolve,Mode.resolve]

def pushWord (r : Registers) (value : UInt16) : CheckedTransaction Registers := do
  let r ← r.push (← highByte value)
  r.push (lowByte value)

def pullWord (r : Registers) : CheckedTransaction (UInt16 × Registers) := do
  let (low,r) ← r.pull
  let (high,r) ← r.pull
  return (← word low high,r)

@[simp] theorem pushWord_eq (r : Registers) (value : UInt16) :
    pushWord r value = liftM (r.pushWord value) := by
  simp [pushWord,Registers.pushWord]

@[simp] theorem pullWord_eq (r : Registers) : pullWord r = liftM r.pullWord := by
  simp [pullWord,Registers.pullWord]

def modifyCell (r : Registers) (address : UInt32) (kind : Transform) : CheckedTransaction Registers := do
  let value ← Transaction.fetch address
  let (result,carry) ← transform kind value (r.p.has .carry)
  Transaction.store address result
  flags (r.putFlag .carry carry) (withResult · result)

def enterBreak (r : Registers) : BreakRule → CheckedTransaction Registers
  | .halt => liftM (r.enterBreak .halt)
  | .interrupt => do
    let r ← pushWord r (r.pc + 1)
    let r ← r.pushStatus
    let r := r.putFlag .interruptDisable true
    let pc ← storedWord interruptVector
    return { r with pc := pc }

@[simp] theorem modifyCell_eq (r : Registers) (address : UInt32) (kind : Transform) :
    modifyCell r address kind = liftM (r.modifyCell address kind) := by
  simp [modifyCell,Registers.modifyCell]

@[simp] theorem enterBreak_eq (r : Registers) (rule : BreakRule) :
    enterBreak r rule = liftM (r.enterBreak rule) := by
  cases rule <;> simp [enterBreak,Registers.enterBreak]

def act (action : Action) (config : Config) (operand : Operand) (r : Registers) :
    CheckedTransaction Registers := do
  let _ ← within .assertion (action.takes operand = true) ()
  match action with
  | .load target => load r target (← operand.value r)
  | .transfer source target => load r target (r.get source)
  | .combine logic => load r .a (logic.apply r.a (← operand.value r))
  | .add => add r (← operand.value r) config.overflow
  | .subtract => subtract r (← operand.value r) config.overflow
  | .compare left => compare r (r.get left) (← operand.value r)
  | .modify kind =>
    match operand with
    | .accumulator => modify r kind
    | .address address => modifyCell r address kind
    | _ => return r
  | .count target delta => load r target (r.get target + delta)
  | .call =>
    match operand with
    | .address target =>
      let r ← pushWord r (r.pc - 1)
      return { r with pc := target.toUInt16 }
    | _ => return r
  | .leave =>
    let (pc,r) ← pullWord r
    return { r with pc := pc + 1 }
  | .leaveInterrupt =>
    let r ← r.pullStatus
    let (pc,r) ← pullWord r
    return { r with pc := pc }
  | .enterBreak => enterBreak r config.onBreak
  | .pullAccumulator =>
    let (value,r) ← r.pull
    load r .a value
  | .store _ | .setStackPointer | .testBits | .assign _ _ | .branch _ _ | .jump | .pushAccumulator
  | .pushStatus | .pullStatus | .idle => action.perform config operand r

theorem act_eq {action : Action} {operand : Operand} (takes : action.takes operand = true)
    (config : Config) (r : Registers) :
    act action config operand r = liftM (action.perform config operand r) := by
  unfold act
  rw [within_of takes]
  cases action with
  | modify | call => cases operand <;> simp [Action.perform]
  | _ => simp [Action.perform]

def instructionStep (r : Registers) (config : Config) :
    CheckedTransaction (Except Fault Outcome × Registers) := do
  if !r.ready then return (.error .halted,r)
  let byte ← Transaction.fetch r.pc.toUInt32
  match ← decode byte with
  | none =>
    Transaction.log (.undocumented byte r.pc)
    return (.error (.invalidOpcode byte r.pc),{ r with ready := false })
  | some opcode =>
    Transaction.log (.executing byte opcode.instruction r)
    let (operand,r) ← resolve opcode.mode (r.advance 1)
    let r ← act opcode.instruction.action config operand r
    return (.ok (if r.ready then .running else .halted),r)

-- What follows may count on the kind of operand that the mode comes to.
theorem resolve_bind {α : Type} {mode : Mode} {one two : Operand × Registers → CheckedTransaction α}
    (same : ∀ operand r,mode.yields operand = true → one (operand,r) = two (operand,r)) (r : Registers) :
    resolve mode r >>= one = liftM (mode.resolve r) >>= two := by
  rw [resolve_eq]
  cases mode with
  | implied | accumulator => exact same _ _ rfl
  | immediate | zeroPage | zeroPageX | zeroPageY | absolute | absoluteX | absoluteY | relative =>
    simp only [Mode.resolve,liftM_bind,liftM_pure,bind_assoc,pure_bind]
    exact bind_congr fun _ => same _ _ rfl
  | indirect | indexedIndirect | indirectIndexed =>
    simp only [Mode.resolve,liftM_bind,liftM_pure,bind_assoc,pure_bind]
    exact bind_congr fun _ => bind_congr fun _ => same _ _ rfl

theorem instructionStep_eq (r : Registers) (config : Config) :
    instructionStep r config = liftM (r.step config) := by
  unfold instructionStep Registers.step
  cases r.ready with
  | false => simp
  | true =>
    simp only [Bool.not_true,Bool.false_eq_true,if_false,liftM_bind,decode_eq]
    apply bind_congr
    intro byte
    cases known : Console6502.decode byte with
    | none => simp
    | some opcode =>
      simp only [liftM_pure,pure_bind,liftM_bind]
      apply bind_congr
      intro _
      apply resolve_bind
      intro operand r yields
      have takes := Instruction.action_takes (decode_form known) yields
      simp only [act_eq takes]

end Checked

end Console6502
