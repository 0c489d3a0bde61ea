import Console6502.Proofs.DataPath
import Console6502.Proofs.Outcome

-- What one step logs: the line of its instruction, a line for the byte that memory does not
-- take, and how the step ended.
namespace Console6502

variable {σ : Type} [ByteSource σ]

namespace Event

@[simp] theorem ofWrite_stackCell (pointer value : UInt8) : ofWrite (stackCell pointer) value = [] := by
  simp [ofWrite,Region.writable]

theorem ofWrite_place {address : UInt32} {place : Nat} (same : address.toNat % 65536 = place)
    (value : UInt8) : ofWrite address value =
      if (0x2000 ≤ place ∧ place < 0x6000) ∨ 0x8000 ≤ place then [.discarded value (UInt32.ofNat place)]
      else [] := by
  subst same
  have number : masked address = UInt32.ofNat (address.toNat % 65536) := by
    have small : address.toNat % 65536 < UInt32.size := Nat.lt_trans (Nat.mod_lt _ (by decide)) (by decide)
    rw [← UInt32.toNat_inj,toNat_masked,UInt32.toNat_ofNat_of_lt' small]
  unfold ofWrite
  split
  · rename_i writable
    have cell := Region.writable_iff.mp writable
    rw [if_neg (by omega)]
  · rename_i dropped
    rw [Region.writable_iff] at dropped
    rw [if_pos (by omega),number]

end Event

@[simp] theorem Mode.events_resolve (mode : Mode) (r : Registers) (bus : Bus σ) :
    (mode.resolve r).events bus = [] := by
  cases mode <;>
    simp [resolve,Registers.fetchByte,Registers.fetchWord,zeroPagePointer,Transaction.fetchWord]

@[simp] theorem Operand.events_value (operand : Operand) (r : Registers) (bus : Bus σ) :
    (operand.value r).events bus = [] := by
  cases operand <;> simp [value]

-- Pushes go to RAM, so only stores and transforms can lose a byte.
theorem Action.events_perform (action : Action) (config : Config) (operand : Operand) (r : Registers)
    (bus : Bus σ) :
    (action.perform config operand r).events bus =
      match action,operand with
      | .store source,.address target => Event.ofWrite target (r.get source)
      | .modify transform,.address target =>
        Event.ofWrite target (transform.apply (bus.read target).1 (r.p.has .carry)).1
      | .enterBreak,_ => if config.onBreak = .halt then [.halting (r.pc - 1)] else []
      | _,_ => [] := by
  cases action with
  | store | call | modify | branch | jump =>
    cases operand <;> simp [perform,Registers.modifyCell,Registers.pushWord,Registers.push]
  | enterBreak =>
    cases rule : config.onBreak <;>
      simp [perform,rule,Registers.enterBreak,Registers.pushWord,Registers.pushStatus,Registers.push,
        Transaction.fetchWord]
  | _ =>
    simp [perform,Registers.push,Registers.pull,Registers.pushStatus,Registers.pullStatus,
      Registers.pullWord]

namespace Machine

def sent (m : Machine σ) (opcode : Opcode) : Option UInt8 :=
  match opcode.instruction.action with
  | .store source => some (m.registers.get source)
  | .modify transform => some (m.changed transform opcode.mode).1
  | _ => none

def dropped (m : Machine σ) : Option Event := do
  let opcode ← decode m.fetched.1
  let place ← m.effectiveAddress opcode.mode
  let value ← m.sent opcode
  if (0x2000 ≤ place ∧ place < 0x6000) ∨ 0x8000 ≤ place then
    some (.discarded value (UInt32.ofNat place))
  else none

def executing (m : Machine σ) : Option Event :=
  (decode m.fetched.1).map fun opcode => .executing m.fetched.1 opcode.instruction m.registers

variable {m : Machine σ} {p : Prepared σ}

theorem performed_at (found : m.prepare = some p) {value : UInt8} {place : Nat}
    (sends : m.sent p.opcode = some value)
    (designates : m.effectiveAddress p.opcode.mode = some place) :
    (p.opcode.instruction.action.perform m.config p.operand p.registers).events p.bus =
      if (0x2000 ≤ place ∧ place < 0x6000) ∨ 0x8000 ≤ place then [.discarded value (UInt32.ofNat place)]
      else [] := by
  have facts := prepares found
  obtain ⟨⟨target,operand,same⟩,_⟩ := prepare_address found designates
  rw [Action.events_perform,operand]
  unfold sent at sends
  split at sends
  · rename_i source stores
    cases sends
    simp only [stores]
    rw [facts.registers,Registers.advance_get,Event.ofWrite_place same]
  · rename_i transform modifies
    have direct : p.opcode.mode ≠ .indirect := direct_of_form found fun jump => by
      rw [jump] at modifies
      cases modifies
    have read : p.bus.read target = m.designated p.opcode.mode := by
      rw [← operand_designated found direct,operand]
      rfl
    cases sends
    simp only [modifies]
    rw [read,facts.registers,Registers.advance_p,Event.ofWrite_place same]
    rfl
  · cases sends

def ending (m : Machine σ) : List Event :=
  match m.step.1 with
  | .ok .halted => [.halting m.registers.pc]
  | .error (.invalidOpcode byte pc) => [.undocumented byte pc]
  | _ => []

theorem stepEvents_prepared (found : m.prepare = some p) : m.stepEvents =
    .executing m.fetched.1 p.opcode.instruction m.registers ::
      (p.opcode.instruction.action.perform m.config p.operand p.registers).events p.bus := by
  unfold prepare at found
  split at found
  · rename_i ready
    obtain ⟨opcode,known,rfl⟩ := Option.map_eq_some_iff.mp found
    simp only [fetched] at known ⊢
    simp only [stepEvents,Registers.step,ready,Bool.not_true,Bool.false_eq_true,if_false,
      Transaction.events_bind,Transaction.events_fetch,Transaction.events_log,Transaction.events_pure,
      Transaction.run_fetch,Transaction.run_log,known,Mode.events_resolve,List.append_nil,
      List.nil_append,List.singleton_append]
  · cases found

theorem sends_action {opcode : Opcode} {value : UInt8} (sends : m.sent opcode = some value) :
    (∃ source,opcode.instruction.action = .store source) ∨
      ∃ transform,opcode.instruction.action = .modify transform := by
  unfold sent at sends
  split at sends
  · rename_i source stores
    exact .inl ⟨source,stores⟩
  · rename_i transform modifies
    exact .inr ⟨transform,modifies⟩
  · cases sends

theorem sends_writesData {opcode : Opcode} {value : UInt8} (sends : m.sent opcode = some value) :
    opcode.instruction.writesData = true := by
  have kind := sends_action sends
  generalize opcode.instruction = instruction at kind ⊢
  cases instruction <;> first | rfl | simp [Instruction.action] at kind

theorem performed_dropped (found : m.prepare = some p) {value : UInt8}
    (sends : m.sent p.opcode = some value) :
    (p.opcode.instruction.action.perform m.config p.operand p.registers).events p.bus =
      m.dropped.toList := by
  have facts := prepares found
  by_cases accumulator : p.opcode.mode = .accumulator
  · have operand : p.operand = .accumulator := by
      rw [facts.operand,accumulator]
      rfl
    have nowhere : m.effectiveAddress p.opcode.mode = none := by rw [accumulator]; rfl
    have none : m.dropped = none := by simp [dropped,facts.known,nowhere]
    rw [none,Action.events_perform,operand]
    rcases sends_action sends with ⟨_,kind⟩ | ⟨_,kind⟩ <;> rw [kind] <;> rfl
  · obtain ⟨place,designates⟩ := exists_effectiveAddress found (sends_writesData sends) accumulator
    rw [performed_at found sends designates]
    simp only [dropped,facts.known,designates,sends,Option.bind_eq_bind,Option.bind_some]
    split <;> rfl

theorem ending_prepared (found : m.prepare = some p) :
    m.ending = if m.fetched.1 = 0 ∧ m.config.onBreak = .halt then [.halting m.registers.pc] else [] := by
  have halts := perform_ready found
  rw [ending,step_prepared found]
  cases ready : (p.perform m.config).1.ready with
  | false => rw [if_pos (halts.mp ready)]; rfl
  | true =>
    have goes : ¬(m.fetched.1 = 0 ∧ m.config.onBreak = .halt) := by simp [← halts,ready]
    rw [if_neg goes]
    rfl

theorem performed_events (found : m.prepare = some p) :
    (p.opcode.instruction.action.perform m.config p.operand p.registers).events p.bus =
      m.dropped.toList ++ m.ending := by
  have facts := prepares found
  have brk : p.opcode.instruction.action = .enterBreak ↔ m.fetched.1 = 0 :=
    Instruction.action_enterBreak.trans (decode_brk facts.known)
  simp only [ending_prepared found,← brk]
  cases sends : m.sent p.opcode with
  | some value =>
    have other : p.opcode.instruction.action ≠ .enterBreak := by
      rcases sends_action sends with ⟨_,kind⟩ | ⟨_,kind⟩ <;> rw [kind] <;> exact nofun
    rw [performed_dropped found sends,if_neg fun both => other both.1,List.append_nil]
  | none =>
    have none : m.dropped = none := by
      simp only [dropped,facts.known,sends,Option.bind_eq_bind,Option.bind_some,Option.bind_none]
      cases m.effectiveAddress p.opcode.mode <;> rfl
    rw [none,Action.events_perform]
    by_cases breaking : p.opcode.instruction.action = .enterBreak
    · have here : p.registers.pc - 1 = m.registers.pc := by
        have back := facts.break_return (Instruction.action_enterBreak.mp breaking)
        grind
      simp only [breaking,here,true_and]
      rfl
    · unfold sent at sends
      simp only [breaking,false_and,if_false]
      generalize p.opcode.instruction.action = action at sends breaking ⊢
      cases action with
      | enterBreak => exact absurd rfl breaking
      | store | modify => cases sends
      | _ => rfl

theorem stepEvents_ready (ready : m.registers.ready = true) :
    m.stepEvents = m.executing.toList ++ m.dropped.toList ++ m.ending := by
  rcases m.step_cases with ⟨idle,_⟩ | ⟨_,unknown,_⟩ | ⟨p,found⟩
  · rw [ready] at idle
    cases idle
  · have events : m.stepEvents = [.undocumented m.fetched.1 m.registers.pc] := by
      simp only [fetched] at unknown ⊢
      simp [stepEvents,Registers.step,ready,unknown]
    rw [events,executing,dropped,ending,unknown,step_undocumented ready unknown]
    rfl
  · rw [stepEvents_prepared found,performed_events found,executing,(prepares found).known]
    rfl

theorem stepEvents_idle (idle : m.registers.ready = false) : m.stepEvents = [] := by
  simp [stepEvents,Registers.step,idle]

theorem lines_undocumented (unknown : decode m.fetched.1 = none) :
    m.executing = none ∧ m.dropped = none := by
  refine ⟨?_,?_⟩
  · rw [executing,unknown]
    rfl
  · rw [dropped,unknown]
    rfl

end Machine

end Console6502
