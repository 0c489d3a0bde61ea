import Console6502.Proofs.Outcome

-- The bounded loop taken in parts, and the loop without a limit as the bounded one with
-- enough to spend.
namespace Console6502.Machine

variable {σ : Type} [ByteSource σ] {m last : Machine σ} {count tried limit : Nat}
  {result : Except Fault Nat}

def resume (first second : Nat) : Except Fault Nat × Machine σ → Except Fault Nat × Machine σ
  | (.error (.limitReached _),middle) =>
    match middle.runFor second with
    | (.ok count,last) => (.ok (first + count),last)
    | (.error (.limitReached _),last) => (.error (.limitReached (first + second)),last)
    | ended => ended
  | ended => ended

theorem resume_limit (first second limit : Nat) (middle : Machine σ) :
    resume first second (.error (.limitReached limit),middle) = middle.runWithin first second := by
  rcases middle.runFor_cases second with ⟨last,path,ran⟩ | ⟨tried,result,last,within,stops,ran⟩
  · have whole := runWithin_runs path first 0
    rw [Nat.add_zero] at whole
    rw [whole,resume,ran]
    rfl
  · rw [stops.runWithin first within,resume,ran]
    cases stops with
    | halted => rfl
    | faulted _ final =>
      rcases step_fault final with rfl | ⟨byte,pc,rfl⟩ <;> rfl

theorem Stops.resume_eq (stops : Stops m tried result last) (first second : Nat) :
    resume first second (result,last) = (result,last) := by
  cases stops with
  | halted => rfl
  | faulted _ final =>
    rcases step_fault final with rfl | ⟨byte,pc,rfl⟩ <;> rfl

theorem runFor_add (first second : Nat) (m : Machine σ) :
    m.runFor (first + second) = resume first second (m.runFor first) := by
  rcases m.runFor_cases first with ⟨middle,path,ran⟩ | ⟨tried,result,last,within,stops,ran⟩
  · rw [ran,resume_limit,runFor,runWithin_runs path,Nat.zero_add]
  · rw [ran,stops.resume_eq,stops.runFor (Nat.le_add_right_of_le within)]

theorem Runs.ready (path : Runs m count last) (ready : m.registers.ready = true) :
    last.registers.ready = true := by
  induction path with
  | nil => exact ready
  | @step m next last count first _ ih =>
    apply ih
    have answer := m.step_ready
    rw [first] at answer
    exact answer

theorem Stops.ready (stops : Stops m tried result last) : last.registers.ready = false := by
  cases stops with
  | @halted before _ _ path final | @faulted before _ _ _ path final =>
    have answer := before.step_ready
    rw [final] at answer
    exact answer

theorem Stops.not_refused (stops : Stops m tried result last) (ready : m.registers.ready = true) :
    result ≠ .error .halted := by
  rintro rfl
  cases stops with
  | @faulted before _ _ _ path final =>
    have refused : before.step.1 = .error .halted := by rw [final]
    have idle := step_refused_iff.mp refused
    rw [path.ready ready] at idle
    cases idle

theorem stops_of_runFor (ran : m.runFor limit = (result,last))
    (ended : ∀ bound,result ≠ .error (.limitReached bound)) :
    ∃ tried,tried ≤ limit ∧ Stops m tried result last := by
  rcases m.runFor_cases limit with ⟨_,_,same⟩ | ⟨tried,_,_,within,stops,same⟩
  · rw [ran] at same
    cases same
    exact absurd rfl (ended limit)
  · rw [ran] at same
    cases same
    exact ⟨tried,within,stops⟩

theorem runs_of_runFor {bound : Nat} (ran : m.runFor limit = (.error (.limitReached bound),last)) :
    bound = limit ∧ Runs m limit last := by
  rcases m.runFor_cases limit with ⟨_,path,same⟩ | ⟨tried,_,_,_,stops,same⟩
  · rw [ran] at same
    cases same
    exact ⟨rfl,path⟩
  · rw [ran] at same
    cases same
    exact absurd rfl (stops.not_limit bound)

-- A run that ends by itself is the same under every larger limit, and it is what the loop
-- without a limit returns.
theorem run_loops_agree (m : Machine σ) :
    (∀ first second,m.runFor (first + second) = resume first second (m.runFor first)) ∧
    (∀ limit fault,(m.runFor limit).1 = .error fault →
      fault = .limitReached limit ∨ fault = .halted ∨ ∃ byte pc,fault = .invalidOpcode byte pc) ∧
    (m.registers.ready = true → ∀ limit,
      (∀ count last,m.runFor limit = (.ok count,last) →
        1 ≤ count ∧ count ≤ limit ∧ last.registers.ready = false ∧
          ∃ before,Runs m (count - 1) before ∧ before.step = (.ok .halted,last)) ∧
      (∀ byte pc last,m.runFor limit = (.error (.invalidOpcode byte pc),last) →
        last.registers.ready = false) ∧
      (∀ bound last,m.runFor limit = (.error (.limitReached bound),last) →
        bound = limit ∧ Runs m limit last ∧ last.registers.ready = true) ∧
      (m.runFor limit).1 ≠ .error .halted) ∧
    (∀ limit larger result last,limit ≤ larger → m.runFor limit = (result,last) →
      (∀ bound,result ≠ .error (.limitReached bound)) → m.runFor larger = (result,last)) ∧
    (∀ result last,m.run = some (result,last) ↔
      ∃ limit,m.runFor limit = (result,last) ∧ ∀ bound,result ≠ .error (.limitReached bound)) := by
  refine ⟨fun first second => m.runFor_add first second,?_,?_,?_,?_⟩
  · intro limit fault failed
    rcases m.runFor_cases limit with ⟨last,_,ran⟩ | ⟨tried,result,last,_,stops,ran⟩
    · rw [ran] at failed
      cases failed
      exact .inl rfl
    · rw [ran] at failed
      cases failed
      cases stops with
      | faulted _ final => exact .inr (step_fault final)
  · intro ready limit
    refine ⟨?_,?_,?_,?_⟩
    · intro count last ran
      obtain ⟨tried,within,stops⟩ := stops_of_runFor ran (fun _ => nofun)
      have unready := stops.ready
      cases stops with
      | halted path final => exact ⟨Nat.le_add_left _ _,within,unready,_,path,final⟩
    · intro byte pc last ran
      obtain ⟨tried,_,stops⟩ := stops_of_runFor ran (fun _ => nofun)
      exact stops.ready
    · intro bound last ran
      obtain ⟨same,path⟩ := runs_of_runFor ran
      exact ⟨same,path,path.ready ready⟩
    · rcases m.runFor_cases limit with ⟨last,_,ran⟩ | ⟨tried,result,last,_,stops,ran⟩
      · rw [ran]
        exact nofun
      · rw [ran]
        exact stops.not_refused ready
  · intro limit larger result last further ran ended
    obtain ⟨tried,within,stops⟩ := stops_of_runFor ran ended
    exact stops.runFor (Nat.le_trans within further)
  · intro result last
    rw [run_eq_some_iff]
    constructor
    · rintro ⟨tried,stops⟩
      exact ⟨tried,stops.runFor (Nat.le_refl _),stops.not_limit⟩
    · rintro ⟨limit,ran,ended⟩
      obtain ⟨tried,_,stops⟩ := stops_of_runFor ran ended
      exact ⟨tried,stops⟩

end Console6502.Machine
