import Console6502.Proofs.Frame
import Console6502.Run

-- Consecutive steps as a relation, and the two run loops in terms of it.
namespace Console6502.Machine

variable {σ : Type} [ByteSource σ]

inductive Runs : Machine σ → Nat → Machine σ → Prop where
  | nil {m} : Runs m 0 m
  | step {m next last count} (first : m.step = (.ok .running,next)) (rest : Runs next count last) :
      Runs m (count + 1) last

-- How a run comes to an end by itself: the step after the last one that went on.
inductive Stops (m : Machine σ) : Nat → Except Fault Nat → Machine σ → Prop where
  | halted {before last count} (path : Runs m count before) (final : before.step = (.ok .halted,last)) :
      Stops m (count + 1) (.ok (count + 1)) last
  | faulted {before last count fault} (path : Runs m count before)
      (final : before.step = (.error fault,last)) : Stops m (count + 1) (.error fault) last

-- The console after `count` calls of the step, whatever each of them answered.
def after : (count : Nat) → Machine σ → Machine σ
  | 0,m => m
  | count + 1,m => m.step.2.after count

variable {m next last : Machine σ} {count tried : Nat} {result : Except Fault Nat}

@[simp] theorem after_zero (m : Machine σ) : m.after 0 = m := rfl

theorem after_succ (count : Nat) (m : Machine σ) : m.after (count + 1) = (m.after count).step.2 := by
  induction count generalizing m with
  | zero => rfl
  | succ count ih => exact ih m.step.2

theorem Runs.after_eq (path : Runs m count last) : last = m.after count := by
  induction path with
  | nil => rfl
  | step first _ ih => rw [ih,after,first]

theorem runs_iff : Runs m count last ↔
    last = m.after count ∧ ∀ i,i < count → (m.after i).step.1 = .ok .running := by
  constructor
  · intro path
    refine ⟨path.after_eq,?_⟩
    induction path with
    | nil => exact nofun
    | step first _ ih =>
      intro i inside
      cases i with
      | zero => rw [after_zero,first]
      | succ i =>
        rw [after,first]
        exact ih i (Nat.lt_of_succ_lt_succ inside)
  · rintro ⟨rfl,running⟩
    induction count generalizing m with
    | zero => exact .nil
    | succ count ih =>
      have first : m.step = (.ok .running,m.step.2) := Prod.ext (running 0 (Nat.succ_pos count)) rfl
      exact .step first (ih fun i inside => running (i + 1) (Nat.succ_lt_succ inside))

theorem Runs.append (left : Runs m count next) (right : Runs next tried last) :
    Runs m (count + tried) last := by
  induction left with
  | nil => rwa [Nat.zero_add]
  | step first _ ih =>
    rw [Nat.add_right_comm]
    exact .step first (ih right)

theorem Runs.take {earlier : Nat} (path : Runs m count last) (within : earlier ≤ count) :
    Runs m earlier (m.after earlier) :=
  runs_iff.mpr ⟨rfl,fun i inside => (runs_iff.mp path).2 i (Nat.lt_of_lt_of_le inside within)⟩

theorem Stops.after_eq (stops : Stops m tried result last) : last = m.after tried := by
  cases stops with
  | halted path final | faulted path final => rw [after_succ,← path.after_eq,final]

theorem step_config (m : Machine σ) : m.step.2.config = m.config := rfl

theorem after_config (m : Machine σ) (count : Nat) : (m.after count).config = m.config := by
  induction count with
  | zero => rfl
  | succ count ih => rw [after_succ,step_config,ih]

theorem Runs.config_eq (path : Runs m count last) : last.config = m.config := by
  induction path with
  | nil => rfl
  | @step m next last count first _ ih => rw [ih,← step_config m,first]

theorem step_fault {fault : Fault} (faulted : m.step = (.error fault,last)) :
    fault = .halted ∨ ∃ byte pc,fault = .invalidOpcode byte pc := by
  rcases m.step_cases with ⟨idle,_⟩ | ⟨ready,unknown,_⟩ | ⟨p,found⟩
  · rw [step_idle idle] at faulted
    cases faulted
    exact .inl rfl
  · rw [step_undocumented ready unknown] at faulted
    cases faulted
    exact .inr ⟨_,_,rfl⟩
  · rw [step_prepared found] at faulted
    cases faulted

theorem Stops.not_limit (stops : Stops m tried result last) (limit : Nat) :
    result ≠ .error (.limitReached limit) := by
  rintro rfl
  cases stops with
  | faulted _ final =>
    rcases step_fault final with found | ⟨_,_,found⟩ <;> cases found

theorem runWithin_runs (path : Runs m count next) (spent left : Nat) :
    m.runWithin spent (count + left) = next.runWithin (spent + count) left := by
  induction path generalizing spent with
  | nil => rw [Nat.zero_add,Nat.add_zero]
  | step first _ ih =>
    rw [Nat.add_right_comm,runWithin,first]
    dsimp only
    rw [ih,Nat.add_assoc,Nat.add_comm 1]

theorem Stops.runWithin (stops : Stops m tried result last) (spent : Nat) {left : Nat}
    (within : tried ≤ left) : m.runWithin spent left = (result.map (spent + ·),last) := by
  obtain ⟨extra,rfl⟩ := Nat.exists_eq_add_of_le within
  cases stops with
  | halted path final | faulted path final =>
    rw [Nat.add_assoc,Nat.add_comm 1,runWithin_runs path,Machine.runWithin,final]
    rfl

theorem runWithin_cases (spent left : Nat) (m : Machine σ) :
    (∃ last,Runs m left last ∧ m.runWithin spent left = (.error (.limitReached (spent + left)),last)) ∨
    ∃ tried result last,tried ≤ left ∧ Stops m tried result last := by
  induction left generalizing spent m with
  | zero => exact .inl ⟨m,.nil,rfl⟩
  | succ left ih =>
    rcases stepped : m.step with ⟨fault | outcome,next⟩
    · exact .inr ⟨1,_,next,Nat.le_add_left _ _,.faulted .nil stepped⟩
    · cases outcome with
      | halted => exact .inr ⟨1,_,next,Nat.le_add_left _ _,.halted .nil stepped⟩
      | running =>
        rcases ih (spent + 1) next with ⟨last,path,ran⟩ | ⟨tried,result,last,within,stops⟩
        · refine .inl ⟨last,.step stepped path,?_⟩
          rw [Machine.runWithin,stepped]
          dsimp only
          rw [ran,Nat.add_right_comm,Nat.add_assoc]
        · cases stops with
          | halted path final => exact .inr ⟨_,_,last,Nat.succ_le_succ within,.halted (.step stepped path) final⟩
          | faulted path final => exact .inr ⟨_,_,last,Nat.succ_le_succ within,.faulted (.step stepped path) final⟩

theorem runOn_runs (path : Runs m count next) (spent : Nat) :
    m.runOn spent = next.runOn (spent + count) := by
  induction path generalizing spent with
  | nil => rfl
  | step first _ ih =>
    rw [runOn,first]
    dsimp only
    rw [ih,Nat.add_assoc,Nat.add_comm 1]

theorem Stops.runOn (stops : Stops m tried result last) (spent : Nat) :
    m.runOn spent = some (result.map (spent + ·),last) := by
  cases stops with
  | halted path final | faulted path final =>
    rw [runOn_runs path,Machine.runOn,final]
    rfl

-- What the loop without a limit returns is the end of a finite run: it is the least
-- solution of its equation, so nothing else can come out of it.
theorem stops_of_runOn {spent : Nat} {found : Except Fault Nat × Machine σ}
    (ran : m.runOn spent = some found) :
    ∃ tried result,Stops m tried result found.2 ∧ found.1 = result.map (spent + ·) := by
  refine runOn.partial_correctness (fun spent m found =>
    ∃ tried result,Stops m tried result found.2 ∧ found.1 = result.map (spent + ·)) ?_ spent m found ran
  intro loop shorter spent m found ran
  split at ran
  · rename_i fault last stepped
    cases ran
    exact ⟨1,_,.faulted .nil stepped,rfl⟩
  · rename_i last stepped
    cases ran
    exact ⟨1,_,.halted .nil stepped,rfl⟩
  · rename_i next stepped
    obtain ⟨tried,result,stops,same⟩ := shorter _ _ _ ran
    cases stops with
    | halted path final =>
      refine ⟨_,_,.halted (.step stepped path) final,same.trans ?_⟩
      simp [Except.map,Nat.add_comm,Nat.add_left_comm]
    | faulted path final => exact ⟨_,_,.faulted (.step stepped path) final,same⟩

theorem map_zero_add (result : Except Fault Nat) : result.map (0 + ·) = result := by
  cases result <;> simp [Except.map]

theorem Stops.runFor {limit : Nat} (stops : Stops m tried result last) (within : tried ≤ limit) :
    m.runFor limit = (result,last) := by
  rw [Machine.runFor,stops.runWithin 0 within,map_zero_add]

theorem Runs.runFor {limit : Nat} (path : Runs m limit last) :
    m.runFor limit = (.error (.limitReached limit),last) := by
  have whole := runWithin_runs path 0 0
  rwa [Nat.add_zero,Nat.zero_add] at whole

theorem runFor_cases (limit : Nat) (m : Machine σ) :
    (∃ last,Runs m limit last ∧ m.runFor limit = (.error (.limitReached limit),last)) ∨
    ∃ tried result last,tried ≤ limit ∧ Stops m tried result last ∧ m.runFor limit = (result,last) := by
  rcases m.runWithin_cases 0 limit with ⟨last,path,ran⟩ | ⟨tried,result,last,within,stops⟩
  · rw [Nat.zero_add] at ran
    exact .inl ⟨last,path,ran⟩
  · exact .inr ⟨tried,result,last,within,stops,stops.runFor within⟩

theorem run_eq_some_iff : m.run = some (result,last) ↔ ∃ tried,Stops m tried result last := by
  constructor
  · intro ran
    obtain ⟨tried,found,stops,same⟩ := stops_of_runOn ran
    rw [map_zero_add] at same
    cases same
    exact ⟨tried,stops⟩
  · rintro ⟨tried,stops⟩
    rw [run,stops.runOn 0,map_zero_add]

end Console6502.Machine
