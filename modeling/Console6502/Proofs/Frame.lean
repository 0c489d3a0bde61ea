import Console6502.Proofs.Step

-- What performing an action leaves as it was: the cells it does not write, the registers
-- it does not own, and the ready flag.
namespace Console6502

namespace Registers

section Stack

variable {σ : Type} [ByteSource σ] (r : Registers) (bus : Bus σ)

@[simp] theorem run_push (value : UInt8) :
    (r.push value).run bus = ({ r with sp := r.sp - 1 },bus.write (stackCell r.sp) value) := rfl

@[simp] theorem run_pull :
    r.pull.run bus = ((bus.memory.stacked (r.sp + 1),{ r with sp := r.sp + 1 }),bus) := by
  simp [pull]

@[simp] theorem run_pushWord (value : UInt16) :
    (r.pushWord value).run bus = ({ r with sp := r.sp - 2 },
      (bus.write (stackCell r.sp) (highByte value)).write (stackCell (r.sp - 1)) (lowByte value)) := by
  have second : r.sp - 1 - 1 = r.sp - 2 := by grind
  simp [pushWord,second]

@[simp] theorem run_pullWord :
    r.pullWord.run bus = ((word (bus.memory.stacked (r.sp + 1)) (bus.memory.stacked (r.sp + 2)),
      { r with sp := r.sp + 2 }),bus) := by
  have second : r.sp + 1 + 1 = r.sp + 2 := by grind
  simp [pullWord,second]

@[simp] theorem run_pushStatus : r.pushStatus.run bus =
    ({ r with sp := r.sp - 1 },bus.write (stackCell r.sp) r.p.pushed) := rfl

@[simp] theorem run_pullStatus : r.pullStatus.run bus =
    ({ r with sp := r.sp + 1,p := ⟨bus.memory.stacked (r.sp + 1)⟩ },bus) := by
  simp [pullStatus]

end Stack

variable (r : Registers)

@[simp] theorem flags_get (change : Status → Status) (target : Register) :
    (r.flags change).get target = r.get target := by cases target <;> rfl
@[simp] theorem flags_ready (change : Status → Status) : (r.flags change).ready = r.ready := rfl
@[simp] theorem putFlag_get (flag : Flag) (on : Bool) (target : Register) :
    (r.putFlag flag on).get target = r.get target := flags_get _ _ _
@[simp] theorem putFlag_ready (flag : Flag) (on : Bool) : (r.putFlag flag on).ready = r.ready := rfl
@[simp] theorem advance_get (delta : UInt16) (target : Register) :
    (r.advance delta).get target = r.get target := by cases target <;> rfl
@[simp] theorem advance_ready (delta : UInt16) : (r.advance delta).ready = r.ready := rfl

@[simp] theorem put_get (target other : Register) (value : UInt8) :
    (r.put target value).get other = if target = other then value else r.get other := by
  cases target <;> cases other <;> rfl
@[simp] theorem put_ready (target : Register) (value : UInt8) : (r.put target value).ready = r.ready := by
  cases target <;> rfl

@[simp] theorem load_get (target other : Register) (value : UInt8) :
    (r.load target value).get other = if target = other then value else r.get other := by
  rw [load,flags_get,put_get]
@[simp] theorem load_ready (target : Register) (value : UInt8) : (r.load target value).ready = r.ready := by
  rw [load,flags_ready,put_ready]

@[simp] theorem deriveOverflow_get (rule : OverflowRule) (on : Bool) (target : Register) :
    (r.deriveOverflow rule on).get target = r.get target := by
  cases rule <;> simp [deriveOverflow]
@[simp] theorem deriveOverflow_ready (rule : OverflowRule) (on : Bool) :
    (r.deriveOverflow rule on).ready = r.ready := by
  cases rule <;> rfl

theorem add_get {target : Register} (other : target ≠ .a) (value : UInt8) (rule : OverflowRule) :
    (r.add value rule).get target = r.get target := by
  simp [add,other.symm]
@[simp] theorem add_ready (value : UInt8) (rule : OverflowRule) : (r.add value rule).ready = r.ready := by
  simp [add]

theorem subtract_get {target : Register} (other : target ≠ .a) (value : UInt8) (rule : OverflowRule) :
    (r.subtract value rule).get target = r.get target := by
  simp [subtract,other.symm]
@[simp] theorem subtract_ready (value : UInt8) (rule : OverflowRule) :
    (r.subtract value rule).ready = r.ready := by
  simp [subtract]

theorem modify_get {target : Register} (other : target ≠ .a) (transform : Transform) :
    (r.modify transform).get target = r.get target := by
  simp [modify,other.symm]
@[simp] theorem modify_ready (transform : Transform) : (r.modify transform).ready = r.ready := by
  simp [modify]

@[simp] theorem compare_get (left right : UInt8) (target : Register) :
    (r.compare left right).get target = r.get target := by
  simp [compare]
@[simp] theorem compare_ready (left right : UInt8) : (r.compare left right).ready = r.ready := rfl

@[simp] theorem testBits_get (value : UInt8) (target : Register) :
    (r.testBits value).get target = r.get target := by
  simp [testBits]
@[simp] theorem testBits_ready (value : UInt8) : (r.testBits value).ready = r.ready := rfl

@[simp] theorem branch_get (flag : Flag) (wanted : Bool) (offset : Int8) (target : Register) :
    (r.branch flag wanted offset).get target = r.get target := by
  unfold branch
  split <;> simp
@[simp] theorem branch_ready (flag : Flag) (wanted : Bool) (offset : Int8) :
    (r.branch flag wanted offset).ready = r.ready := by
  unfold branch
  split <;> rfl

end Registers

namespace Action

def places (action : Action) (config : Config) (operand : Operand) (r : Registers) : List UInt32 :=
  match action with
  | .store _ | .modify _ =>
    match operand with
    | .address place => [place]
    | _ => []
  | .call =>
    match operand with
    | .address _ => [stackCell r.sp,stackCell (r.sp - 1)]
    | _ => []
  | .enterBreak =>
    match config.onBreak with
    | .halt => []
    | .interrupt => [stackCell r.sp,stackCell (r.sp - 1),stackCell (r.sp - 2)]
  | .pushAccumulator | .pushStatus => [stackCell r.sp]
  | _ => []

def targets (action : Action) (config : Config) (operand : Operand) : List Register :=
  match action with
  | .load target | .transfer _ target | .count target _ => [target]
  | .combine _ | .add | .subtract => [.a]
  | .modify _ => if operand = .accumulator then [.a] else []
  | .pullAccumulator => [.sp,.a]
  | .enterBreak => if config.onBreak = .interrupt then [.sp] else []
  | .setStackPointer | .call | .leave | .leaveInterrupt => [.sp]
  | .pushAccumulator | .pushStatus | .pullStatus => [.sp]
  | .store _ | .testBits | .compare _ | .assign _ _ | .branch _ _ | .jump | .idle => []

variable {σ : Type} [ByteSource σ]

@[simp] theorem writes_value (operand : Operand) (r : Registers) (bus : Bus σ) :
    (operand.value r).writes bus = [] := by
  cases operand <;> simp [Operand.value]

theorem writes_perform (action : Action) (config : Config) (operand : Operand) (r : Registers)
    (bus : Bus σ) :
    ((action.perform config operand r).writes bus).map Prod.fst = action.places config operand r := by
  cases action with
  | store | call => cases operand <;> simp [perform,places,Registers.pushWord,Registers.push]
  | modify => cases operand <;> simp [perform,places,Registers.modifyCell]
  | enterBreak =>
    have third : r.sp - 1 - 1 = r.sp - 2 := by grind
    cases rule : config.onBreak <;>
      simp [perform,places,rule,Registers.enterBreak,Registers.pushWord,Registers.pushStatus,
        Registers.push,third]
  | branch | jump => cases operand <;> simp [perform,places]
  | _ =>
    simp [perform,places,Registers.push,Registers.pull,Registers.pushStatus,Registers.pullStatus,
      Registers.pullWord]

theorem perform_get {action : Action} {config : Config} {operand : Operand} {target : Register}
    (free : target ∉ action.targets config operand) (r : Registers) (bus : Bus σ) :
    ((action.perform config operand r).run bus).1.get target = r.get target := by
  cases action with
  | load other | transfer _ other | count other _ =>
    have different : other ≠ target := by simpa [targets,eq_comm] using free
    simp [perform,different]
  | combine | add | subtract =>
    have different : target ≠ .a := by simpa [targets] using free
    simp [perform,different.symm,Registers.add_get,Registers.subtract_get,different]
  | modify =>
    cases operand with
    | accumulator =>
      have different : target ≠ .a := by simpa [targets] using free
      simp [perform,Registers.modify_get,different]
    | _ => simp [perform,Registers.modifyCell]
  | store | branch => cases operand <;> simp [perform]
  | jump => cases operand <;> cases target <;> simp [perform,Registers.get]
  | testBits | compare | assign | idle => simp [perform]
  | enterBreak =>
    cases rule : config.onBreak with
    | halt => cases target <;> simp [perform,rule,Registers.enterBreak,Registers.get]
    | interrupt =>
      cases target with
      | sp => simp [targets,rule] at free
      | _ => simp [perform,rule,Registers.enterBreak,Registers.get,Registers.putFlag,Registers.flags]
  | call =>
    cases target with
    | sp => simp [targets] at free
    | _ => cases operand <;> simp [perform,Registers.get]
  | setStackPointer | leave | leaveInterrupt | pushAccumulator | pushStatus | pullStatus =>
    cases target with
    | sp => simp [targets] at free
    | _ => simp [perform,Registers.get,Registers.put]
  | pullAccumulator =>
    obtain ⟨first,second⟩ : target ≠ .sp ∧ target ≠ .a := by simpa [targets] using free
    cases target <;> simp_all [perform,Registers.get,Registers.load,Registers.put,Registers.flags]

theorem perform_ready (action : Action) (config : Config) (operand : Operand) (r : Registers)
    (bus : Bus σ) :
    ((action.perform config operand r).run bus).1.ready =
      if action = .enterBreak ∧ config.onBreak = .halt then false else r.ready := by
  cases action with
  | enterBreak => cases rule : config.onBreak <;> simp [perform,rule,Registers.enterBreak]
  | store | branch | jump | call => cases operand <;> simp [perform]
  | modify => cases operand <;> simp [perform,Registers.modifyCell]
  | _ => simp [perform]

end Action

end Console6502
