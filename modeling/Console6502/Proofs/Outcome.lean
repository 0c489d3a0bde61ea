import Console6502.Proofs.Runs

-- What one step answers and what it leaves: the answer is settled by the ready flag, the
-- byte at the program counter and the break rule alone.
namespace Console6502

theorem decode_brk {byte : UInt8} {opcode : Opcode} (known : decode byte = some opcode) :
    opcode.instruction = .brk ↔ byte = 0 := by
  constructor
  · intro same
    have form := decode_form known
    rw [same] at form
    simp only [Instruction.forms,List.mem_singleton,Prod.mk.injEq] at form
    exact form.1
  · rintro rfl
    have zero : decode 0 = some ⟨.brk,.implied⟩ := by decide +kernel
    rw [zero] at known
    cases known
    rfl

theorem Instruction.action_enterBreak {instruction : Instruction} :
    instruction.action = .enterBreak ↔ instruction = .brk := by
  cases instruction <;> simp [action]

namespace Machine

variable {σ : Type} [ByteSource σ] {m : Machine σ} {p : Prepared σ}

def stopped (m : Machine σ) (pc : UInt16) : Machine σ :=
  { m with registers := { m.registers with pc := pc,ready := false },bus := m.fetched.2 }

theorem perform_ready (found : m.prepare = some p) :
    (p.perform m.config).1.ready = false ↔ m.fetched.1 = 0 ∧ m.config.onBreak = .halt := by
  have facts := prepares found
  have before : p.registers.ready = true := by rw [facts.registers,Registers.advance_ready,facts.ready]
  have brk : p.opcode.instruction.action = .enterBreak ↔ m.fetched.1 = 0 :=
    Instruction.action_enterBreak.trans (decode_brk facts.known)
  rw [Prepared.perform,Action.perform_ready,before,← brk]
  split
  · rename_i halting
    exact iff_of_true rfl halting
  · rename_i going
    exact iff_of_false (by decide) going

theorem step_halts (ready : m.registers.ready = true) (zero : m.fetched.1 = 0)
    (rule : m.config.onBreak = .halt) : m.step = (.ok .halted,m.stopped (m.registers.pc + 1)) := by
  have known : decode m.fetched.1 = some ⟨.brk,.implied⟩ := by
    rw [zero]
    decide +kernel
  have found : m.prepare = some ⟨⟨.brk,.implied⟩,.implied,m.registers.advance 1,m.fetched.2⟩ := by
    simp [prepare,ready,known,Mode.resolve]
  rw [step_prepared found,if_neg (by simp [(perform_ready found).mpr ⟨zero,rule⟩])]
  simp [Prepared.perform,Instruction.action,Action.perform,rule,Registers.enterBreak,stopped,
    Registers.advance]

theorem step_halted_iff : m.step.1 = .ok .halted ↔
    m.registers.ready = true ∧ m.fetched.1 = 0 ∧ m.config.onBreak = .halt := by
  constructor
  · intro halted
    rcases m.step_cases with ⟨idle,_⟩ | ⟨ready,unknown,_⟩ | ⟨p,found⟩
    · rw [step_idle idle] at halted
      cases halted
    · rw [step_undocumented ready unknown] at halted
      cases halted
    · rw [step_prepared found] at halted
      refine ⟨(prepares found).ready,(perform_ready found).mp ?_⟩
      cases ready : (p.perform m.config).1.ready with
      | false => rfl
      | true => simp [ready] at halted
  · rintro ⟨ready,zero,rule⟩
    rw [step_halts ready zero rule]

theorem step_ready (m : Machine σ) :
    m.step.2.registers.ready = decide (m.step.1 = .ok .running) := by
  rcases m.step_cases with ⟨idle,_⟩ | ⟨ready,unknown,_⟩ | ⟨p,found⟩
  · rw [step_idle idle,idle]
    rfl
  · rw [step_undocumented ready unknown]
    rfl
  · rw [step_prepared found]
    cases (p.perform m.config).1.ready <;> rfl

theorem Stops.not_ok {tried count : Nat} {result : Except Fault Nat} {last : Machine σ}
    (rule : m.config.onBreak = .interrupt) (stops : Stops m tried result last) : result ≠ .ok count := by
  cases stops with
  | faulted => exact nofun
  | @halted before last _ path final =>
    have halted : before.step.1 = .ok .halted := by rw [final]
    have contrary := (step_halted_iff.mp halted).2.2
    rw [path.config_eq,rule] at contrary
    cases contrary

theorem step_refused_iff : m.step.1 = .error .halted ↔ m.registers.ready = false := by
  constructor
  · intro refused
    rcases m.step_cases with ⟨idle,_⟩ | ⟨ready,unknown,_⟩ | ⟨p,found⟩
    · exact idle
    · rw [step_undocumented ready unknown] at refused
      cases refused
    · rw [step_prepared found] at refused
      cases refused
  · intro idle
    rw [step_idle idle]

theorem step_answers (ready : m.registers.ready = true) :
    (m.fetched.1 ∉ Opcode.bytes ∧
      m.step = (.error (.invalidOpcode m.fetched.1 m.registers.pc),m.stopped m.registers.pc)) ∨
    (m.fetched.1 ∈ Opcode.bytes ∧ (m.step.1 = .ok .halted ∨ m.step.1 = .ok .running)) := by
  rcases m.step_cases with ⟨idle,_⟩ | ⟨_,unknown,_⟩ | ⟨p,found⟩
  · rw [ready] at idle
    cases idle
  · exact .inl ⟨decode_eq_none_iff.mp unknown,step_undocumented ready unknown⟩
  · have known := (prepares found).known
    have documented : m.fetched.1 ∈ Opcode.bytes := by
      by_contra absent
      rw [decode_eq_none_iff.mpr absent] at known
      cases known
    refine .inr ⟨documented,?_⟩
    rw [step_prepared found]
    cases (p.perform m.config).1.ready with
    | true => exact .inr rfl
    | false => exact .inl rfl

theorem fetched_exact (m : Machine σ) :
    m.fetched.2.memory = m.bus.memory ∧
    if m.registers.pc = 0x2000 then
      m.fetched.1 = (next m.bus.source).1 ∧ m.fetched.2.source = (next m.bus.source).2
    else
      m.bus.memory.peek m.registers.pc.toUInt32 = some m.fetched.1 ∧ m.fetched.2.source = m.bus.source := by
  have small := m.registers.pc.toNat_lt
  have place : m.registers.pc.toUInt32.toNat % 65536 = 0x2000 ↔ m.registers.pc = 0x2000 := by
    rw [UInt16.toNat_toUInt32,Nat.mod_eq_of_lt small,← UInt16.toNat_inj]
    rfl
  refine ⟨Bus.read_memory _ _,?_⟩
  unfold fetched
  rcases m.bus.read_cases m.registers.pc.toUInt32 with ⟨here,drawn⟩ | ⟨elsewhere,byte,stored,looked⟩
  · rw [if_pos (place.mp here),drawn]
    exact ⟨rfl,rfl⟩
  · rw [if_neg fun same => elsewhere (place.mpr same),looked]
    exact ⟨stored,rfl⟩

-- A refusal changes nothing, a fault the ready flag, a halt that flag and the program
-- counter; beside that only the look at the opcode byte can move the source.
theorem step_outcome (m : Machine σ) :
    (m.step.1 = .error .halted ↔ m.registers.ready = false) ∧
    (m.registers.ready = false → m.step.2 = m) ∧
    (Opcode.bytes.Nodup ∧ Opcode.bytes.length = 151) ∧
    (m.registers.ready = true →
      (m.step.1 = .error (.invalidOpcode m.fetched.1 m.registers.pc) ↔ m.fetched.1 ∉ Opcode.bytes) ∧
      (m.fetched.1 ∉ Opcode.bytes → m.step.2 = m.stopped m.registers.pc) ∧
      (m.fetched.1 ∈ Opcode.bytes → m.step.1 = .ok .halted ∨ m.step.1 = .ok .running) ∧
      (m.step.1 = .ok .halted ↔ m.fetched.1 = 0 ∧ m.config.onBreak = .halt) ∧
      (m.step.1 = .ok .halted → m.step.2 = m.stopped (m.registers.pc + 1)) ∧
      (m.step.1 = .ok .running → m.step.2.registers.ready = true)) ∧
    (m.fetched.2.memory = m.bus.memory ∧
      if m.registers.pc = 0x2000 then
        m.fetched.1 = (next m.bus.source).1 ∧ m.fetched.2.source = (next m.bus.source).2
      else
        m.bus.memory.peek m.registers.pc.toUInt32 = some m.fetched.1 ∧
          m.fetched.2.source = m.bus.source) ∧
    (m.config.onBreak = .interrupt →
      m.step.1 ≠ .ok .halted ∧ (∀ limit count,(m.runFor limit).1 ≠ .ok count) ∧
        ∀ result last,m.run = some (result,last) → ∀ count,result ≠ .ok count) := by
  refine ⟨?_,?_,⟨Opcode.bytes_nodup,Opcode.bytes_length⟩,?_,m.fetched_exact,?_⟩
  · exact step_refused_iff
  · intro idle
    rw [step_idle idle]
  · intro ready
    refine ⟨?_,?_,?_,?_,?_,?_⟩
    · rcases step_answers ready with ⟨absent,faulted⟩ | ⟨present,halted | running⟩
      · simp [absent,faulted]
      · simp [present,halted]
      · simp [present,running]
    · intro absent
      rcases step_answers ready with ⟨_,faulted⟩ | ⟨present,_⟩
      · rw [faulted]
      · exact absurd present absent
    · intro present
      rcases step_answers ready with ⟨absent,_⟩ | ⟨_,answer⟩
      · exact absurd present absent
      · exact answer
    · rw [step_halted_iff]
      exact and_iff_right ready
    · intro halted
      obtain ⟨_,zero,rule⟩ := step_halted_iff.mp halted
      rw [step_halts ready zero rule]
    · intro running
      rw [step_ready,running]
      rfl
  · intro rule
    refine ⟨?_,?_,?_⟩
    · intro halted
      have contrary := (step_halted_iff.mp halted).2.2
      rw [rule] at contrary
      cases contrary
    · intro limit count
      rcases m.runFor_cases limit with ⟨last,_,ran⟩ | ⟨tried,result,last,_,stops,ran⟩
      · rw [ran]
        exact nofun
      · rw [ran]
        exact stops.not_ok rule
    · intro result last ran count
      obtain ⟨tried,stops⟩ := run_eq_some_iff.mp ran
      exact stops.not_ok rule

end Machine

end Console6502
