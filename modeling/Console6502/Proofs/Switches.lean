import Console6502.Proofs.HiddenBits
import Console6502.Proofs.RunLoop

-- One console under two rules: what each switch of the configuration can change in a run,
-- and from which instruction on.
namespace Console6502

theorem Action.perform_onBreak {action : Action} (other : action ≠ .enterBreak) (config : Config)
    (rule : BreakRule) (operand : Operand) (r : Registers) :
    action.perform { config with onBreak := rule } operand r = action.perform config operand r := by
  cases action with
  | enterBreak => exact absurd rfl other
  | _ => rfl

namespace Machine

variable {σ : Type}

def withBreak (m : Machine σ) (rule : BreakRule) : Machine σ :=
  { m with config := { m.config with onBreak := rule } }

variable [ByteSource σ] {m : Machine σ} {count limit : Nat}

-- The instructions that branch on V or put it into memory.
def ShowsOverflow (m : Machine σ) : Prop :=
  m.instruction = some .bvc ∨ m.instruction = some .bvs ∨ m.PushesStatus

theorem sensesOnly_unshown (unshown : ¬m.ShowsOverflow) : m.SensesOnly 0b10111111 := by
  intro instruction decoded
  unfold ShowsOverflow PushesStatus at unshown
  rw [decoded] at unshown
  cases instruction with
  | bvc => exact absurd (.inl rfl) unshown
  | bvs => exact absurd (.inr (.inl rfl)) unshown
  | php => exact absurd (.inr (.inr (.inl rfl))) unshown
  | brk =>
    cases rule : m.config.onBreak with
    | halt => rfl
    | interrupt => exact absurd (.inr (.inr (.inr ⟨rfl,rule⟩))) unshown
  | _ => cases m.config.onBreak <;> rfl

def Breaks (m : Machine σ) : Prop := m.registers.ready = true ∧ m.fetched.1 = 0

theorem step_withBreak (quiet : ¬m.Breaks) (rule : BreakRule) :
    (m.withBreak rule).step = (m.step.1,m.step.2.withBreak rule) := by
  rcases m.step_cases with ⟨idle,_⟩ | ⟨ready,unknown,_⟩ | ⟨p,found⟩
  · have same : (m.withBreak rule).registers.ready = false := idle
    rw [step_idle idle,step_idle same]
  · have alert : (m.withBreak rule).registers.ready = true := ready
    have undocumented : decode (m.withBreak rule).fetched.1 = none := unknown
    rw [step_undocumented ready unknown,step_undocumented alert undocumented]
    rfl
  · have same : (m.withBreak rule).prepare = some p := found
    have facts := prepares found
    have other : p.opcode.instruction.action ≠ .enterBreak := by
      intro breaking
      exact quiet ⟨facts.ready,(decode_brk facts.known).mp (Instruction.action_enterBreak.mp breaking)⟩
    have performed : p.perform (m.withBreak rule).config = p.perform m.config :=
      congrArg (·.run p.bus) (Action.perform_onBreak other m.config rule p.operand p.registers)
    rw [step_prepared found,step_prepared same,performed]
    rfl

theorem after_withBreak (quiet : ∀ i,i < count → ¬(m.after i).Breaks) (rule : BreakRule) :
    (m.withBreak rule).after count = (m.after count).withBreak rule := by
  induction count with
  | zero => rfl
  | succ count ih =>
    have before := ih fun i inside => quiet i (Nat.lt_succ_of_lt inside)
    rw [after_succ,after_succ,before,step_withBreak (quiet count (Nat.lt_succ_self count))]

theorem step_halted_iff_breaks (rule : m.config.onBreak = .halt) :
    m.step.1 = .ok .halted ↔ m.Breaks := by
  rw [step_halted_iff]
  constructor
  · rintro ⟨ready,zero,_⟩
    exact ⟨ready,zero⟩
  · rintro ⟨ready,zero⟩
    exact ⟨ready,zero,rule⟩

theorem runFor_ok_iff : (m.runFor limit).1 = .ok count ↔
    ∃ before,count = before + 1 ∧ count ≤ limit ∧
      (∀ i,i < before → (m.after i).step.1 = .ok .running) ∧ (m.after before).step.1 = .ok .halted := by
  constructor
  · intro ran
    have ended : m.runFor limit = (.ok count,(m.runFor limit).2) := Prod.ext ran rfl
    obtain ⟨tried,within,stops⟩ := stops_of_runFor ended (fun _ => nofun)
    cases stops with
    | halted path final =>
      obtain ⟨rfl,running⟩ := runs_iff.mp path
      exact ⟨_,rfl,within,running,by rw [final]⟩
  · rintro ⟨before,rfl,within,running,halted⟩
    have final : (m.after before).step = (.ok .halted,(m.after before).step.2) := Prod.ext halted rfl
    rw [(Stops.halted (runs_iff.mpr ⟨rfl,running⟩) final).runFor within]

theorem withBreak_alike {first second : BreakRule} {i : Nat}
    (quiet : ∀ i,i < count → ¬((m.withBreak first).after i).Breaks) (within : i ≤ count) :
    (m.withBreak second).after i = ((m.withBreak first).after i).withBreak second ∧
    (i < count → ((m.withBreak second).after i).step.1 = ((m.withBreak first).after i).step.1) := by
  have same : (m.withBreak second).after i = ((m.withBreak first).after i).withBreak second :=
    after_withBreak (fun earlier inside => quiet earlier (Nat.lt_of_lt_of_le inside within)) second
  refine ⟨same,?_⟩
  intro inside
  rw [same,step_withBreak (quiet i inside)]

theorem runFor_halt_iff : ((m.withBreak .halt).runFor limit).1 = .ok count ↔
    ∃ before,count = before + 1 ∧ count ≤ limit ∧
      (∀ i,i < before → ((m.withBreak .interrupt).after i).step.1 = .ok .running ∧
        ¬((m.withBreak .interrupt).after i).Breaks) ∧
      ((m.withBreak .interrupt).after before).Breaks := by
  have halted (i : Nat) : ((m.withBreak .halt).after i).step.1 = .ok .halted ↔
      ((m.withBreak .halt).after i).Breaks := by
    apply step_halted_iff_breaks
    rw [after_config]
    rfl
  rw [runFor_ok_iff]
  constructor
  · rintro ⟨before,total,within,running,final⟩
    have quiet (i : Nat) (inside : i < before) : ¬((m.withBreak .halt).after i).Breaks := by
      intro breaking
      have contrary := (running i inside).symm.trans ((halted i).mpr breaking)
      cases contrary
    refine ⟨before,total,within,?_,?_⟩
    · intro i inside
      obtain ⟨same,answers⟩ := withBreak_alike quiet (Nat.le_of_lt inside)
      exact ⟨(answers inside).trans (running i inside),by rw [same]; exact quiet i inside⟩
    · rw [(withBreak_alike quiet (Nat.le_refl before)).1]
      exact (halted before).mp final
  · rintro ⟨before,total,within,running,final⟩
    have quiet (i : Nat) (inside : i < before) := (running i inside).2
    refine ⟨before,total,within,?_,?_⟩
    · intro i inside
      exact ((withBreak_alike quiet (Nat.le_of_lt inside)).2 inside).trans (running i inside).1
    · rw [halted before,(withBreak_alike quiet (Nat.le_refl before)).1]
      exact final

-- The rule for V reaches bit 6 of the status alone until that bit is looked at; the rule for
-- breaks reaches nothing before a BRK.
theorem switch_effects (m : Machine σ) :
    (∀ first second count,(∀ i,i < count → ¬((m.withOverflow first).after i).ShowsOverflow) →
      ∀ i,i ≤ count →
        ((m.withOverflow first).after i).registers.Alike 0b10111111
          ((m.withOverflow second).after i).registers ∧
        ((m.withOverflow first).after i).bus = ((m.withOverflow second).after i).bus ∧
        (i < count →
          ((m.withOverflow second).after i).step.1 = ((m.withOverflow first).after i).step.1)) ∧
    (∀ first second count,(∀ i,i < count → ¬((m.withBreak first).after i).Breaks) →
      ∀ i,i ≤ count →
        (m.withBreak second).after i = ((m.withBreak first).after i).withBreak second ∧
        (i < count → ((m.withBreak second).after i).step.1 = ((m.withBreak first).after i).step.1)) ∧
    (∀ limit count,((m.withBreak .halt).runFor limit).1 = .ok count ↔
      ∃ before,count = before + 1 ∧ count ≤ limit ∧
        (∀ i,i < before → ((m.withBreak .interrupt).after i).step.1 = .ok .running ∧
          ¬((m.withBreak .interrupt).after i).Breaks) ∧
        ((m.withBreak .interrupt).after before).Breaks) := by
  refine ⟨?_,fun _ _ _ quiet _ => withBreak_alike quiet,fun _ _ => runFor_halt_iff⟩
  intro first second count unshown i within
  have start : ((m.withOverflow first).withOverflow second).Alike 0b10111111 (m.withOverflow second) :=
    ⟨⟨_,rfl,.refl _⟩,rfl,rfl⟩
  have blind (i : Nat) (inside : i < count) := sensesOnly_unshown (unshown i inside)
  obtain ⟨near,answers⟩ := runs_alike start (.inr rfl) blind within
  exact ⟨near.registers,near.bus,answers⟩

end Machine

end Console6502
