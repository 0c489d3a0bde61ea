import Console6502.Proofs.Alike

-- Two runs of consoles that differ in some bits of the status byte only.
namespace Console6502

theorem Instruction.senses_shown (instruction : Instruction) (rule : BreakRule) :
    instruction.action.senses rule &&& 0b11001111 = instruction.action.senses rule := by
  cases instruction <;> cases rule <;> rfl

namespace Machine

variable {σ : Type}

structure Alike (kept : UInt8) (left right : Machine σ) : Prop where
  registers : left.registers.Alike kept right.registers
  bus : left.bus = right.bus
  config : left.config = right.config

def withOverflow (m : Machine σ) (rule : OverflowRule) : Machine σ :=
  { m with config := { m.config with overflow := rule } }

variable [ByteSource σ] {kept : UInt8} {left right : Machine σ} {rule : OverflowRule} {p : Prepared σ}

-- The step that comes next has no use for bits outside `kept`.
def SensesOnly (m : Machine σ) (kept : UInt8) : Prop :=
  ∀ instruction,m.instruction = some instruction →
    instruction.action.senses m.config.onBreak &&& kept = instruction.action.senses m.config.onBreak

theorem Alike.fetched (alike : (left.withOverflow rule).Alike kept right) :
    right.fetched = left.fetched := by
  rw [Machine.fetched,Machine.fetched,← alike.bus,alike.registers.counter]
  rfl

theorem Alike.prepare (alike : (left.withOverflow rule).Alike kept right) (found : left.prepare = some p) :
    ∃ registers,right.prepare = some { p with registers := registers } ∧
      p.registers.Alike kept registers := by
  obtain ⟨status,same,bits⟩ := alike.registers
  have facts := prepares found
  have advanced : right.registers.advance 1 = { left.registers.advance 1 with p := status } := by
    rw [same]
    rfl
  refine ⟨{ p.registers with p := status },?_,status,rfl,?_⟩
  · rw [Machine.prepare,if_pos facts.ready] at found
    obtain ⟨opcode,known,rfl⟩ := Option.map_eq_some_iff.mp found
    have ready : right.registers.ready = true := alike.registers.ready.trans facts.ready
    rw [Machine.prepare,if_pos ready,alike.fetched,known,Option.map_some,advanced,Mode.resolve_status,
      Transaction.run_map]
  · rw [facts.registers]
    exact bits

theorem step_alike (alike : (left.withOverflow rule).Alike kept right)
    (agree : left.config.overflow = rule ∨ kept &&& Flag.overflow.mask = 0)
    (blind : left.SensesOnly kept) :
    right.step.1 = left.step.1 ∧ (left.step.2.withOverflow rule).Alike kept right.step.2 := by
  have config : right.config = { left.config with overflow := rule } := alike.config.symm
  rcases left.step_cases with ⟨idle,_⟩ | ⟨ready,unknown,_⟩ | ⟨p,found⟩
  · rw [step_idle idle,step_idle (alike.registers.ready.trans idle)]
    exact ⟨rfl,alike⟩
  · have undocumented : decode right.fetched.1 = none := by rw [alike.fetched,unknown]
    rw [step_undocumented ready unknown,step_undocumented (alike.registers.ready.trans ready) undocumented,
      alike.fetched,alike.registers.counter]
    obtain ⟨status,same,bits⟩ := alike.registers
    exact ⟨rfl,⟨status,by rw [same]; rfl,bits⟩,rfl,alike.config⟩
  · obtain ⟨registers,other,near⟩ := alike.prepare found
    have shown := blind p.opcode.instruction (by rw [instruction,found,Option.map_some])
    obtain ⟨result,bus⟩ := (Action.perform_alike agree shown near p.operand).run p.bus
    rw [← config] at result bus
    rw [step_prepared found,step_prepared other]
    refine ⟨?_,result,bus,alike.config⟩
    exact congrArg (fun ready : Bool => Except.ok (if ready then Outcome.running else .halted)) result.ready

theorem after_alike {count : Nat} (alike : (left.withOverflow rule).Alike kept right)
    (agree : left.config.overflow = rule ∨ kept &&& Flag.overflow.mask = 0)
    (blind : ∀ i,i < count → (left.after i).SensesOnly kept) :
    ((left.after count).withOverflow rule).Alike kept (right.after count) := by
  induction count with
  | zero => exact alike
  | succ count ih =>
    rw [after_succ,after_succ]
    have before := ih fun i inside => blind i (Nat.lt_succ_of_lt inside)
    rw [← left.after_config count] at agree
    exact (step_alike before agree (blind count (Nat.lt_succ_self count))).2

theorem runs_alike {count i : Nat} (alike : (left.withOverflow rule).Alike kept right)
    (agree : left.config.overflow = rule ∨ kept &&& Flag.overflow.mask = 0)
    (blind : ∀ i,i < count → (left.after i).SensesOnly kept) (within : i ≤ count) :
    ((left.after i).withOverflow rule).Alike kept (right.after i) ∧
    (i < count → (right.after i).step.1 = (left.after i).step.1) := by
  have near := after_alike alike agree fun earlier inside => blind earlier (Nat.lt_of_lt_of_le inside within)
  refine ⟨near,?_⟩
  intro inside
  rw [← left.after_config i] at agree
  exact (step_alike near agree (blind i inside)).1

theorem runs_alike_same {count i : Nat} (alike : left.Alike kept right)
    (blind : ∀ i,i < count → (left.after i).SensesOnly kept) (within : i ≤ count) :
    (left.after i).Alike kept (right.after i) ∧
    (i < count → (right.after i).step.1 = (left.after i).step.1) := by
  have start : (left.withOverflow left.config.overflow).Alike kept right := alike
  obtain ⟨near,answers⟩ := runs_alike start (.inl rfl) blind within
  rw [← left.after_config i] at near
  exact ⟨near,answers⟩

def PushesStatus (m : Machine σ) : Prop :=
  m.instruction = some .php ∨ (m.instruction = some .brk ∧ m.config.onBreak = .interrupt)

variable {m : Machine σ}

theorem sensesOnly_shown (m : Machine σ) : m.SensesOnly 0b11001111 :=
  fun instruction _ => instruction.senses_shown m.config.onBreak

theorem sensesOnly_unpushed (unpushed : ¬m.PushesStatus) : m.SensesOnly 0b11000011 := by
  intro instruction decoded
  unfold PushesStatus at unpushed
  rw [decoded] at unpushed
  cases instruction with
  | php => exact absurd (.inl rfl) unpushed
  | brk =>
    cases rule : m.config.onBreak with
    | halt => rfl
    | interrupt => exact absurd (.inr ⟨rfl,rule⟩) unpushed
  | _ => cases m.config.onBreak <;> rfl

theorem sensesOnly_arithmetic (arithmetic : m.instruction = some .adc ∨ m.instruction = some .sbc)
    (carry : Flag.carry.mask &&& kept = Flag.carry.mask) : m.SensesOnly kept := by
  intro instruction decoded
  rw [decoded] at arithmetic
  rcases arithmetic with same | same
  · cases same
    exact carry
  · cases same
    exact carry

-- B and the unused bit never show. I and D show only in a pushed byte; D has no part in
-- addition and subtraction.
theorem hidden_bits_invisible (left right : Machine σ) :
    (left.Alike 0b11001111 right → ∀ count,
      (right.after count).step.1 = (left.after count).step.1 ∧
      (left.after count).Alike 0b11001111 (right.after count)) ∧
    (left.Alike 0b11000011 right → ∀ count,(∀ i,i < count → ¬(left.after i).PushesStatus) →
      ∀ i,i ≤ count →
        (left.after i).Alike 0b11000011 (right.after i) ∧
        (i < count → (right.after i).step.1 = (left.after i).step.1)) ∧
    (left.Alike 0b11110111 right → left.instruction = some .adc ∨ left.instruction = some .sbc →
      right.step.1 = left.step.1 ∧ left.step.2.Alike 0b11110111 right.step.2) := by
  refine ⟨?_,?_,?_⟩
  · intro alike count
    have blind (i : Nat) (_ : i < count + 1) := (left.after i).sensesOnly_shown
    obtain ⟨near,answers⟩ := runs_alike_same alike blind (Nat.le_succ count)
    exact ⟨answers (Nat.lt_succ_self count),near⟩
  · intro alike count unpushed i within
    exact runs_alike_same alike (fun i inside => sensesOnly_unpushed (unpushed i inside)) within
  · intro alike arithmetic
    have blind : left.SensesOnly 0b11110111 := sensesOnly_arithmetic arithmetic rfl
    have start : (left.withOverflow left.config.overflow).Alike 0b11110111 right := alike
    exact step_alike start (.inl rfl) blind

end Machine

end Console6502
