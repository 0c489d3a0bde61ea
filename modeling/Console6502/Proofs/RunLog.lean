import Console6502.Proofs.LogText
import Console6502.Proofs.RunLoop
import Console6502.Proofs.StepLog

-- The log of a run, told by the instructions that it executes and by its result.
namespace Console6502

namespace Event

def isExecuting : Event → Bool
  | .executing _ _ _ => true
  | _ => false

def isDiscarded : Event → Bool
  | .discarded _ _ => true
  | _ => false

end Event

namespace Machine

variable {σ : Type} [ByteSource σ] {m before next last : Machine σ} {count tried : Nat}
  {result : Except Fault Nat} {event : Event}

-- The lines of so many instructions, one after another: each with the byte that it loses.
def transcript (m : Machine σ) (count : Nat) : List Event :=
  (List.range count).flatMap fun i => (m.after i).executing.toList ++ (m.after i).dropped.toList

@[simp] theorem transcript_zero (m : Machine σ) : m.transcript 0 = [] := rfl

theorem transcript_succ (m : Machine σ) (count : Nat) : m.transcript (count + 1) =
    m.transcript count ++ ((m.after count).executing.toList ++ (m.after count).dropped.toList) := by
  rw [transcript,List.range_succ,List.flatMap_append,List.flatMap_singleton]
  rfl

theorem transcript_cons (m : Machine σ) (count : Nat) : m.transcript (count + 1) =
    m.executing.toList ++ m.dropped.toList ++ m.step.2.transcript count := by
  rw [transcript,List.range_succ_eq_map,List.flatMap_cons,List.flatMap_map]
  rfl

theorem stepEvents_running (ready : m.registers.ready = true) (first : m.step = (.ok .running,next)) :
    m.stepEvents = m.executing.toList ++ m.dropped.toList := by
  rw [stepEvents_ready ready,ending,first,List.append_nil]

theorem runForEvents_runs (path : Runs m count next) (ready : m.registers.ready = true) (left : Nat) :
    m.runForEvents (count + left) = m.transcript count ++ next.runForEvents left := by
  induction path with
  | nil => rw [Nat.zero_add,transcript_zero,List.nil_append]
  | @step m middle last count first rest ih =>
    have alert : middle.registers.ready = true := (Runs.step first .nil).ready ready
    rw [Nat.add_right_comm,runForEvents,first]
    dsimp only
    rw [ih alert,stepEvents_running ready first,transcript_cons,first,
      List.append_assoc _ _ (last.runForEvents _)]

theorem runEvents_runs (path : Runs m count next) (ready : m.registers.ready = true) :
    m.runEvents = next.runEvents.map (m.transcript count ++ ·) := by
  induction path with
  | nil => simp
  | @step m middle last count first rest ih =>
    have alert : middle.registers.ready = true := (Runs.step first .nil).ready ready
    rw [runEvents,first]
    dsimp only
    rw [ih alert,stepEvents_running ready first,transcript_cons,first]
    cases last.runEvents with
    | none => rfl
    | some later => simp

structure LogsWholly (m : Machine σ) (tried : Nat) (log : List Event) : Prop where
  bounded : ∀ limit,tried ≤ limit → m.runForEvents limit = log
  unbounded : m.runEvents = some log

theorem Runs.logsWholly (path : Runs m count before) (ready : m.registers.ready = true)
    (ends : before.step.1 ≠ .ok .running) :
    m.LogsWholly (count + 1) (m.transcript count ++ before.stepEvents) := by
  refine ⟨?_,?_⟩
  · intro limit within
    obtain ⟨extra,rfl⟩ := Nat.exists_eq_add_of_le within
    rw [Nat.add_assoc,Nat.add_comm 1,runForEvents_runs path ready,runForEvents]
    split
    · rename_i stepped
      exact absurd (congrArg Prod.fst stepped) ends
    · rw [List.append_nil]
  · rw [runEvents_runs path ready,runEvents]
    split
    · rename_i stepped
      exact absurd (congrArg Prod.fst stepped) ends
    · rfl

def warning : Except Fault Nat → List Event
  | .error (.invalidOpcode byte pc) => [.undocumented byte pc]
  | _ => []

def farewell (m : Machine σ) : Except Fault Nat → List Event
  | .ok total => [.halting (m.after (total - 1)).registers.pc]
  | .error _ => []

def conclusion (m : Machine σ) (result : Except Fault Nat) : List Event :=
  warning result ++ m.farewell result

-- A run with this result executes so many instructions; one that faults stops before the next.
structure Executes (m : Machine σ) (count : Nat) (result : Except Fault Nat) : Prop where
  each : ∀ i,i < count → ∃ outcome,(m.after i).step.1 = .ok outcome
  total :
    match result with
    | .ok total => total = count
    | .error (.limitReached limit) => limit = count
    | .error fault => (m.after count).step.1 = .error fault ∧ ∃ byte pc,fault = .invalidOpcode byte pc

theorem Runs.executes (path : Runs m count last) : m.Executes count (.error (.limitReached count)) :=
  ⟨fun i inside => ⟨_,(runs_iff.mp path).2 i inside⟩,rfl⟩

theorem halted_logs (path : Runs m count before) (final : before.step = (.ok .halted,last))
    (ready : m.registers.ready = true) : m.Executes (count + 1) (.ok (count + 1)) ∧
      m.LogsWholly (count + 1) (m.transcript (count + 1) ++ m.conclusion (.ok (count + 1))) := by
  obtain ⟨here,running⟩ := runs_iff.mp path
  have closing : before.ending = m.conclusion (.ok (count + 1)) := by
    rw [ending,final,here]
    rfl
  have shown : m.transcript count ++ before.stepEvents =
      m.transcript (count + 1) ++ m.conclusion (.ok (count + 1)) := by
    rw [stepEvents_ready (path.ready ready),closing,transcript_succ,← here,← List.append_assoc]
  refine ⟨⟨?_,rfl⟩,?_⟩
  · intro i inside
    rcases Nat.lt_succ_iff_lt_or_eq.mp inside with earlier | rfl
    · exact ⟨_,running i earlier⟩
    · exact ⟨_,by rw [← here,final]⟩
  · rw [← shown]
    exact path.logsWholly ready (by simp [final])

-- The byte that cannot be decoded has no line but the warning.
theorem faulted_logs {byte : UInt8} {pc : UInt16} (path : Runs m count before)
    (final : before.step = (.error (.invalidOpcode byte pc),last)) (ready : m.registers.ready = true) :
    m.Executes count (.error (.invalidOpcode byte pc)) ∧
      m.LogsWholly (count + 1) (m.transcript count ++ m.conclusion (.error (.invalidOpcode byte pc))) := by
  obtain ⟨here,running⟩ := runs_iff.mp path
  have alert := path.ready ready
  have silent : before.executing = none ∧ before.dropped = none := by
    rcases step_answers alert with ⟨absent,_⟩ | ⟨_,halted | running⟩
    · exact lines_undocumented (decode_eq_none_iff.mpr absent)
    · rw [final] at halted; cases halted
    · rw [final] at running; cases running
  have shown : before.stepEvents = m.conclusion (.error (.invalidOpcode byte pc)) := by
    rw [stepEvents_ready alert,silent.1,silent.2,ending,final]
    rfl
  refine ⟨⟨fun i inside => ⟨_,running i inside⟩,by rw [← here,final],byte,pc,rfl⟩,?_⟩
  rw [← shown]
  exact path.logsWholly ready (by simp [final])

theorem Stops.logs (stops : Stops m tried result last) (ready : m.registers.ready = true) :
    ∃ count,m.Executes count result ∧
      m.LogsWholly tried (m.transcript count ++ m.conclusion result) := by
  cases stops with
  | halted path final => exact ⟨_,halted_logs path final ready⟩
  | faulted path final =>
    rcases step_fault final with rfl | ⟨byte,pc,rfl⟩
    · exact absurd rfl ((Stops.faulted path final).not_refused ready)
    · exact ⟨_,faulted_logs path final ready⟩

structure Logs (m : Machine σ) (count : Nat) (result : Except Fault Nat) (log : List Event) : Prop where
  executes : m.Executes count result
  whole : log = m.transcript count ++ m.conclusion result
  instructions : (log.filter Event.isExecuting).map some =
    (List.range count).map fun i => (m.after i).executing
  discards : log.filter Event.isDiscarded = (List.range count).filterMap fun i => (m.after i).dropped
  warnings : log.filter (·.level = .warn) = warning result
  halts : log.filter (·.level = .debug) = m.farewell result
  readable : ∀ event ∈ log,event.Readable

theorem executing_kind (shown : m.executing = some event) :
    event.isExecuting = true ∧ event.isDiscarded = false ∧ event.level = .trace ∧
      (m.registers.ready = true → event.Readable) := by
  obtain ⟨opcode,_,rfl⟩ := Option.map_eq_some_iff.mp shown
  exact ⟨rfl,rfl,rfl,id⟩

theorem dropped_kind (shown : m.dropped = some event) :
    event.isExecuting = false ∧ event.isDiscarded = true ∧ event.level = .trace ∧ event.Readable := by
  simp only [dropped,Option.bind_eq_bind,Option.bind_eq_some_iff] at shown
  obtain ⟨opcode,_,place,designates,value,_,lost⟩ := shown
  split at lost
  · cases lost
    refine ⟨rfl,rfl,rfl,?_⟩
    have small := effectiveAddress_lt designates
    change (UInt32.ofNat place).toNat < 65536
    rw [UInt32.toNat_ofNat_of_lt' (Nat.lt_trans small (by decide))]
    exact small
  · cases lost

theorem step_ok {outcome : Outcome} (stepped : m.step.1 = .ok outcome) :
    m.registers.ready = true ∧ ∃ event,m.executing = some event := by
  rcases m.step_cases with ⟨idle,_⟩ | ⟨ready,unknown,_⟩ | ⟨p,found⟩
  · rw [step_idle idle] at stepped
    cases stepped
  · rw [step_undocumented ready unknown] at stepped
    cases stepped
  · exact ⟨(prepares found).ready,_,by rw [executing,(prepares found).known,Option.map_some]⟩

theorem mem_transcript : event ∈ m.transcript count ↔
    ∃ i,i < count ∧ ((m.after i).executing = some event ∨ (m.after i).dropped = some event) := by
  simp [transcript]

theorem transcript_level (listed : event ∈ m.transcript count) : event.level = .trace := by
  obtain ⟨i,_,shown | lost⟩ := mem_transcript.mp listed
  · exact (executing_kind shown).2.2.1
  · exact (dropped_kind lost).2.2.1

theorem lines_executing (m : Machine σ) :
    (m.executing.toList ++ m.dropped.toList).filter Event.isExecuting = m.executing.toList := by
  have kept : m.executing.toList.filter Event.isExecuting = m.executing.toList :=
    List.filter_eq_self.mpr fun event shown => (executing_kind (Option.mem_toList.mp shown)).1
  have left : m.dropped.toList.filter Event.isExecuting = [] :=
    List.filter_eq_nil_iff.mpr fun event lost => by
      rw [(dropped_kind (Option.mem_toList.mp lost)).1]
      exact Bool.false_ne_true
  rw [List.filter_append,kept,left,List.append_nil]

theorem lines_discarded (m : Machine σ) :
    (m.executing.toList ++ m.dropped.toList).filter Event.isDiscarded = m.dropped.toList := by
  have left : m.executing.toList.filter Event.isDiscarded = [] :=
    List.filter_eq_nil_iff.mpr fun event shown => by
      rw [(executing_kind (Option.mem_toList.mp shown)).2.1]
      exact Bool.false_ne_true
  have kept : m.dropped.toList.filter Event.isDiscarded = m.dropped.toList :=
    List.filter_eq_self.mpr fun event lost => (dropped_kind (Option.mem_toList.mp lost)).2.1
  rw [List.filter_append,kept,left,List.nil_append]

theorem filter_transcript {test : Event → Bool} {pick : Machine σ → Option Event}
    (lines : ∀ k : Machine σ,(k.executing.toList ++ k.dropped.toList).filter test = (pick k).toList)
    (m : Machine σ) (count : Nat) :
    (m.transcript count).filter test = (List.range count).filterMap fun i => pick (m.after i) := by
  rw [transcript,List.filter_flatMap,List.filterMap_eq_flatMap_toList]
  apply List.flatMap_congr
  intro i _
  exact lines (m.after i)

theorem filter_transcript_level (m : Machine σ) (count : Nat) {level : Level} (other : level ≠ .trace) :
    (m.transcript count).filter (·.level = level) = [] := by
  apply List.filter_eq_nil_iff.mpr
  intro event listed same
  exact other ((of_decide_eq_true same).symm.trans (transcript_level listed))

theorem mem_conclusion (listed : event ∈ m.conclusion result) :
    (∃ byte pc,result = .error (.invalidOpcode byte pc) ∧ event = .undocumented byte pc) ∨
      ∃ total pc,result = .ok total ∧ event = .halting pc := by
  unfold conclusion at listed
  cases result with
  | ok total => exact .inr ⟨_,_,rfl,List.mem_singleton.mp listed⟩
  | error fault =>
    cases fault with
    | invalidOpcode byte pc => exact .inl ⟨_,_,rfl,List.mem_singleton.mp listed⟩
    | _ => cases listed

theorem filter_conclusion (m : Machine σ) (result : Except Fault Nat) :
    (m.conclusion result).filter Event.isExecuting = [] ∧
    (m.conclusion result).filter Event.isDiscarded = [] ∧
    (m.conclusion result).filter (·.level = .warn) = warning result ∧
    (m.conclusion result).filter (·.level = .debug) = m.farewell result := by
  cases result with
  | ok => exact ⟨rfl,rfl,rfl,rfl⟩
  | error fault => cases fault <;> exact ⟨rfl,rfl,rfl,rfl⟩

theorem Executes.logs {log : List Event} (executes : m.Executes count result)
    (whole : log = m.transcript count ++ m.conclusion result) : m.Logs count result log := by
  obtain ⟨instructions,discards,warnings,halts⟩ := m.filter_conclusion result
  refine ⟨executes,whole,?_,?_,?_,?_,?_⟩
  · rw [whole,List.filter_append,filter_transcript lines_executing,instructions,List.append_nil,
      List.map_filterMap_some_eq_filter_map_isSome,List.filter_eq_self]
    intro shown listed
    obtain ⟨i,inside,rfl⟩ := List.mem_map.mp listed
    obtain ⟨outcome,stepped⟩ := executes.each i (List.mem_range.mp inside)
    obtain ⟨event,shown⟩ := (step_ok stepped).2
    rw [shown]
    rfl
  · rw [whole,List.filter_append,filter_transcript lines_discarded,discards,List.append_nil]
  · rw [whole,List.filter_append,filter_transcript_level _ _ (by decide),warnings,List.nil_append]
  · rw [whole,List.filter_append,filter_transcript_level _ _ (by decide),halts,List.nil_append]
  · intro event listed
    rw [whole,List.mem_append] at listed
    rcases listed with listed | listed
    · obtain ⟨i,inside,shown | lost⟩ := mem_transcript.mp listed
      · obtain ⟨outcome,stepped⟩ := executes.each i inside
        exact (executing_kind shown).2.2.2 (step_ok stepped).1
      · exact (dropped_kind lost).2.2.2
    · rcases mem_conclusion listed with ⟨_,_,_,rfl⟩ | ⟨_,_,_,rfl⟩ <;> trivial

-- The log tells of every instruction, of every byte that a store or a read-modify-write lost, of
-- how the run ended, and of nothing else. A line shows all of its event.
theorem log_records_run (m : Machine σ) :
    (m.registers.ready = true →
      (∀ limit,∃ count,m.Logs count (m.runFor limit).1 (m.runForEvents limit)) ∧
      ∀ result last,m.run = some (result,last) →
        ∃ count log,m.runEvents = some log ∧ m.Logs count result log) ∧
    (m.registers.ready = false → (∀ limit,m.runForEvents limit = []) ∧ m.runEvents = some []) ∧
    ∀ left right : Event,left.Readable → right.Readable → left.line = right.line → left = right := by
  refine ⟨?_,?_,fun _ _ => Event.line_inj⟩
  · intro ready
    refine ⟨?_,?_⟩
    · intro limit
      rcases m.runFor_cases limit with ⟨last,path,ran⟩ | ⟨tried,result,last,within,stops,ran⟩
      · have shown : m.runForEvents limit = m.transcript limit := by
          have whole := runForEvents_runs path ready 0
          rwa [Nat.add_zero,runForEvents,List.append_nil] at whole
        rw [ran,shown]
        exact ⟨limit,path.executes.logs (List.append_nil _).symm⟩
      · obtain ⟨count,executes,wholly⟩ := stops.logs ready
        rw [ran]
        exact ⟨count,executes.logs (wholly.bounded limit within)⟩
    · intro result last ran
      obtain ⟨tried,stops⟩ := run_eq_some_iff.mp ran
      obtain ⟨count,executes,wholly⟩ := stops.logs ready
      exact ⟨count,_,wholly.unbounded,executes.logs rfl⟩
  · intro idle
    have silent := stepEvents_idle idle
    refine ⟨?_,?_⟩
    · intro limit
      cases limit with
      | zero => rfl
      | succ limit => rw [runForEvents,silent,step_idle idle]; rfl
    · rw [runEvents,silent,step_idle idle]

example :
    let m : Machine Constant :=
      ⟨{ a := 0x42,pc := 0x10,ready := true },⟨Memory.zero.pokeAll [(0x10,0x8D),(0x12,0x80)],⟨0⟩⟩,{}⟩
    (m.runForEvents 5).map Event.text =
      ["0010  8D  STA  A:42 X:00 Y:00 P:24 SP:FD","discarded write $42 -> $8000 (Rom)",
        "0013  00  BRK  A:42 X:00 Y:00 P:24 SP:FD","BRK at $0013: halting"] := by
  decide +kernel

end Machine

end Console6502
