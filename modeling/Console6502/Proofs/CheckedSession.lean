import Console6502.Proofs.CheckedBus
import Console6502.Proofs.CheckedStep
import Console6502.Proofs.Outcome
import Console6502.Proofs.Twins

-- Whole sessions with a console on a host that stops at operations outside their bounds. No call
-- comes to such an operation, so every session is the one without checks.
namespace Console6502

abbrev CheckedRun (α : Type) : Type := ExceptT Trap Option α

section Returning

variable {σ : Type} [ByteSource σ]

-- The instruction that faults is not among them.
def completed (tried : Nat) : Except Fault Nat → Nat
  | .ok count => count
  | .error _ => tried - 1

def Machine.Returns (largest : Nat) (m : Machine σ) : Prop :=
  ∃ tried result last,Stops m tried result last ∧ completed tried result ≤ largest

theorem Machine.returns_or_counts (largest : Nat) (m : Machine σ) : m.Returns largest ∨
    ∃ before outcome last,Runs m largest before ∧ before.step = (.ok outcome,last) := by
  rcases m.runFor_cases (largest + 1) with ⟨_,path,_⟩ | ⟨tried,result,last,within,stops,_⟩
  · have running := (runs_iff.mp path).2 largest (Nat.lt_succ_self largest)
    exact .inr ⟨_,.running,_,path.take (Nat.le_succ largest),Prod.ext running rfl⟩
  · cases stops with
    | @halted before _ count path final =>
      rcases Nat.lt_or_eq_of_le (Nat.le_of_succ_le_succ within) with fits | rfl
      · exact .inl ⟨_,_,last,.halted path final,fits⟩
      · exact .inr ⟨before,.halted,last,path,final⟩
    | faulted path final => exact .inl ⟨_,_,last,.faulted path final,Nat.le_of_succ_le_succ within⟩

def Call.Returns (largest : Nat) (m : Machine σ) : Call → Prop
  | .command _ => True
  | .run => m.Returns largest
  | .resetAndRun => m.reset.Returns largest
  | .powerOnAndRun => m.powerOn.Returns largest

def Call.ReturnAll (largest : Nat) : List Call → Machine σ → Prop
  | [],_ => True
  | call :: rest,m =>
    call.Returns largest m ∧ ∀ reply next,call.perform m = some (reply,next) → ReturnAll largest rest next

theorem Call.returnAll_command {largest : Nat} {m : Machine σ} {request : Command} {rest : List Call} :
    ReturnAll largest (.command request :: rest) m ↔ ReturnAll largest rest (request.perform m).2 := by
  constructor
  · rintro ⟨_,later⟩
    exact later _ _ rfl
  · intro later
    refine ⟨trivial,?_⟩
    intro reply next answered
    rwa [Option.some.inj answered] at later

end Returning

variable {σ : Type} [ByteSource σ] [CheckedSource σ] {largest : Nat} {m : Machine σ} {s : σ}

theorem Bus.Twins.sound {left right : Bus σ} (twins : left.Twins s s right) (sound : Sound largest s) :
    Sound largest left.source := by
  obtain ⟨bytes,drawn,_⟩ := twins.source
  exact drawn.sound sound

omit [CheckedSource σ] in
theorem Machine.twins_self (m : Machine σ) : m.Twins m.bus.source m.bus.source m :=
  ⟨rfl,rfl,rfl,.start _ _⟩

theorem Machine.step_sound {result : Except Fault Outcome} {next : Machine σ}
    (stepped : m.step = (result,next)) (sound : Sound largest m.bus.source) :
    Sound largest next.bus.source := by
  have together := m.twins_self.step fun _ => rfl
  rw [stepped] at together
  exact together.2.bus.sound sound

theorem Machine.Runs.sound {next : Machine σ} {count : Nat} (path : Runs m count next)
    (sound : Sound largest m.bus.source) : Sound largest next.bus.source := by
  induction path with
  | nil => exact sound
  | step first _ ih => exact ih (step_sound first sound)

theorem Call.perform_sound {call : Call} {reply : Reply} {next : Machine σ}
    (returned : call.perform m = some (reply,next)) (sound : Sound largest m.bus.source) :
    Sound largest next.bus.source := by
  have together := call.perform_twins (fun _ => rfl) m.twins_self
  rw [returned] at together
  cases together with
  | some both => exact both.2.bus.sound sound

namespace Checked

variable (largest) (m)

def step : Checked (Except Fault Outcome × Machine σ) := do
  let (tried,bus) ← carryOut largest (instructionStep m.registers m.config).run m.bus
  let (result,registers) ← tried
  return (result,{ m with registers := registers,bus := bus })

def runWithin (spent : Nat) : (left : Nat) → Machine σ → Checked (Except Fault Nat × Machine σ)
  | 0,m => return (.error (.limitReached spent),m)
  | left + 1,m => do
    match ← step largest m with
    | (.error fault,m) => return (.error fault,m)
    | (.ok .halted,m) => return (.ok (spent + 1),m)
    | (.ok .running,m) => runWithin (spent + 1) left m

def stepEach : (count : Nat) → Machine σ → Checked (List (Except Fault Outcome × Registers) × Machine σ)
  | 0,m => return ([],m)
  | count + 1,m => do
    match ← step largest m with
    | (.error fault,m) => return ([(.error fault,m.registers)],m)
    | (.ok outcome,m) =>
      let (later,last) ← stepEach count m
      return ((.ok outcome,m.registers) :: later,last)

end Checked

-- Here the count is a sum of the loop's own, made before the outcome is looked at.
def Machine.runChecked (largest spent : Nat) (m : Machine σ) :
    CheckedRun (Except Fault Nat × Machine σ) := do
  let (result,m) ← Checked.step largest m
  match result with
  | .error fault => return (.error fault,m)
  | .ok outcome =>
    let spent ← Checked.within .overflow (spent + 1 ≤ largest) (spent + 1)
    match outcome with
    | .halted => return (.ok spent,m)
    | .running => m |>.runChecked largest spent
partial_fixpoint

namespace Checked

variable (largest) (m)

def run : CheckedRun (Except Fault Nat × Machine σ) := m.runChecked largest 0

def reset : Checked (Machine σ) := do
  let (pc,bus) ← readWord largest m.bus resetVector
  return { m with registers := { m.registers with pc := pc,ready := true },bus := bus }

def fillRegisters (bus : Bus σ) : Checked (Machine σ) := do
  let (high,bus) ← random largest bus
  let (low,bus) ← random largest bus
  let pc ← word low high
  let (a,bus) ← random largest bus
  let (x,bus) ← random largest bus
  let (y,bus) ← random largest bus
  let (sp,bus) ← random largest bus
  let (p,bus) ← random largest bus
  let registers := { m.registers with a := a,x := x,y := y,sp := sp,pc := pc,p := ⟨p⟩ }
  reset largest { m with registers := registers,bus := bus }

def powerOn : Checked (Machine σ) := do
  let bus ← randomizeRam largest m.bus
  fillRegisters largest m bus

def performCommand (command : Command) : Checked (Reply × Machine σ) :=
  match command with
  | .powerOn => return (.done,← powerOn largest m)
  | .reset => return (.done,← reset largest m)
  | .step => do
    match ← step largest m with
    | (.ok outcome,m) => return (.outcome outcome,m)
    | (.error fault,m) => return (.fault fault,m)
  | .stepEach count => do
    let (steps,m) ← stepEach largest count m
    return (.outcomes steps,m)
  | .runFor limit => do
    let (ran,m) ← runWithin largest 0 limit m
    return (.ofRun ran,m)
  | .read address => do
    let (byte,bus) ← read largest m.bus address
    return (.byte byte,{ m with bus := bus })
  | .readWord address => do
    let (value,bus) ← readWord largest m.bus address
    return (.word value,{ m with bus := bus })
  | .write address value => return (.done,{ m with bus := ← write m.bus address value })
  | .randomByte => do
    let (byte,bus) ← random largest m.bus
    return (.byte byte,{ m with bus := bus })
  | .randomizeRam => return (.done,{ m with bus := ← randomizeRam largest m.bus })
  | .loadRom image => return m.load (← loadRom m.bus.memory image)
  | .loadSaveRam image => return m.load (← loadSaveRam m.bus.memory image)
  | .bit index => return (.byte (← bit m.registers.p index),m)
  | .setBit index value => return (.done,{ m with registers := ← flags m.registers (withBit · index value) })
  | .deriveFlags result => return (.done,{ m with registers := ← flags m.registers (withResult · result) })
  -- These move and mask what they are given.
  | .region _ | .patchRom _ _ | .patchRam _ _ | .dump _ _ _ | .configure _ | .inspect | .anyFlag _
  | .assignFlags _ _ => return command.perform m

def runReply : CheckedRun (Reply × Machine σ) := do
  let (ran,m) ← run largest m
  return (.ofRun ran,m)

def performCall (call : Call) : CheckedRun (Reply × Machine σ) :=
  match call with
  | .command request => performCommand largest m request
  | .run => runReply largest m
  | .resetAndRun => do
    let m ← reset largest m
    runReply largest m
  | .powerOnAndRun => do
    let m ← powerOn largest m
    runReply largest m

def performAll : List Call → Machine σ → CheckedRun (List Reply × Machine σ)
  | [],m => return ([],m)
  | call :: rest,m => do
    let (reply,m) ← performCall largest m call
    let (replies,m) ← performAll rest m
    return (reply :: replies,m)

variable {largest} {m} (sound : Sound largest m.bus.source)

include sound

theorem step_eq : step largest m = pure m.step := by
  simp only [step,instructionStep_eq,ExceptT.run_liftM,carryOut_eq _ sound,pure_bind,Transaction.run_map]
  rfl

theorem runWithin_eq (spent left : Nat) : runWithin largest spent left m = pure (m.runWithin spent left) := by
  induction left generalizing spent m with
  | zero => rfl
  | succ left ih =>
    rcases stepped : m.step with ⟨fault | outcome,next⟩
    · rw [runWithin,step_eq sound,Machine.runWithin,stepped]
      rfl
    · have later := Machine.step_sound stepped sound
      rw [runWithin,step_eq sound,Machine.runWithin,stepped]
      cases outcome with
      | halted => rfl
      | running => exact ih later (spent + 1)

theorem stepEach_eq (count : Nat) : stepEach largest count m = pure (m.stepEach count) := by
  induction count generalizing m with
  | zero => rfl
  | succ count ih =>
    rcases stepped : m.step with ⟨fault | outcome,next⟩
    · rw [stepEach,step_eq sound,Machine.stepEach,stepped]
      rfl
    · have later := Machine.step_sound stepped sound
      rw [stepEach,step_eq sound,Machine.stepEach,stepped]
      simp only [pure_bind,ih later]

theorem runChecked_runs {next : Machine σ} {count spent : Nat} (path : Machine.Runs m count next)
    (fits : spent + count ≤ largest) :
    m.runChecked largest spent = next.runChecked largest (spent + count) := by
  induction path generalizing spent with
  | nil => rfl
  | @step m middle last count first _ ih =>
    have later := Machine.step_sound first sound
    have counted : spent + 1 ≤ largest := by omega
    rw [Machine.runChecked,step_eq sound,first]
    simp only [liftM_pure,pure_bind,within_of counted]
    rw [ih later (by omega),Nat.add_assoc,Nat.add_comm 1]

theorem runChecked_eq {last : Machine σ} {tried : Nat} {result : Except Fault Nat}
    (stops : Machine.Stops m tried result last) (fits : completed tried result ≤ largest) :
    m.runChecked largest 0 = pure (result,last) := by
  cases stops with
  | @halted before _ count path final =>
    have counted : count + 1 ≤ largest := fits
    rw [runChecked_runs sound path (by omega),Machine.runChecked,step_eq (path.sound sound),final]
    simp only [liftM_pure,pure_bind,Nat.zero_add,within_of counted]
  | @faulted before _ count fault path final =>
    have counted : count ≤ largest := fits
    rw [runChecked_runs sound path (by omega),Machine.runChecked,step_eq (path.sound sound),final]
    rfl

theorem run_eq (returns : m.Returns largest) : ∃ ran,m.run = some ran ∧ run largest m = pure ran := by
  obtain ⟨tried,result,last,stops,fits⟩ := returns
  exact ⟨(result,last),Machine.run_eq_some_iff.mpr ⟨tried,stops⟩,runChecked_eq sound stops fits⟩

theorem run_overflows {before last : Machine σ} {outcome : Outcome} (path : Machine.Runs m largest before)
    (final : before.step = (.ok outcome,last)) : run largest m = throw .overflow := by
  have uncounted : ¬largest + 1 ≤ largest := Nat.not_succ_le_self largest
  rw [run,runChecked_runs sound path (by omega),Machine.runChecked,step_eq (path.sound sound),final]
  simp only [liftM_pure,pure_bind,Nat.zero_add,within,if_neg uncounted]
  rfl

-- The count is all that can trap in a run, and it does so exactly where the host cannot hold it.
theorem run_overflows_iff : run largest m = throw .overflow ↔ ¬m.Returns largest := by
  constructor
  · intro trapped returns
    obtain ⟨ran,_,same⟩ := run_eq sound returns
    rw [same] at trapped
    cases trapped
  · intro uncounted
    rcases m.returns_or_counts largest with returns | ⟨before,outcome,last,path,final⟩
    · exact absurd returns uncounted
    · exact run_overflows sound path final

theorem reset_eq : reset largest m = pure m.reset := by
  simp only [reset,readWord_eq sound,pure_bind,Machine.reset]

theorem powerOn_eq : powerOn largest m = pure m.powerOn := by
  have filled := (m.twins_self.bus.randomizeRam fun _ => rfl).sound sound
  rw [powerOn,randomizeRam_eq sound,pure_bind,Machine.powerOn]
  generalize m.bus.randomizeRam = bus at filled ⊢
  have first := random_sound filled
  have second := random_sound first
  have third := random_sound second
  have fourth := random_sound third
  have fifth := random_sound fourth
  have sixth := random_sound fifth
  have seventh := random_sound sixth
  simp only [fillRegisters,random_eq filled,random_eq first,random_eq second,random_eq third,
    random_eq fourth,random_eq fifth,random_eq sixth,word_eq,pure_bind]
  exact reset_eq seventh

theorem performCommand_eq (command : Command) :
    performCommand largest m command = pure (command.perform m) := by
  cases command with
  | step =>
    simp only [performCommand,step_eq sound,pure_bind,Command.perform]
    rcases m.step with ⟨fault | outcome,next⟩ <;> rfl
  | runFor limit =>
    rw [Command.perform_runFor]
    simp only [performCommand,runWithin_eq sound,pure_bind]
    rfl
  | powerOn | reset | stepEach =>
    simp only [performCommand,powerOn_eq sound,reset_eq sound,stepEach_eq sound,pure_bind,Command.perform]
  | read | readWord | write | randomByte | randomizeRam =>
    simp only [performCommand,read_eq sound,readWord_eq sound,write_eq,random_eq sound,
      randomizeRam_eq sound,pure_bind,Command.perform]
  | loadRom | loadSaveRam | bit =>
    simp only [performCommand,loadRom_eq,loadSaveRam_eq,bit_eq,pure_bind,Command.perform]
  | setBit index value =>
    simp only [performCommand,withBit_eq,flags_pure,pure_bind,Command.perform,Machine.mapRegisters]
  | deriveFlags result =>
    simp only [performCommand,withResult_eq,flags_pure,pure_bind,Command.perform,Machine.mapRegisters]
  | region | patchRom | patchRam | dump | configure | inspect | anyFlag | assignFlags => rfl

theorem runReply_eq (returns : m.Returns largest) :
    ∃ found,(m.run.map fun ran => (Reply.ofRun ran.1,ran.2)) = some found ∧
      runReply largest m = pure found := by
  obtain ⟨ran,returned,same⟩ := run_eq sound returns
  refine ⟨(.ofRun ran.1,ran.2),?_,?_⟩
  · rw [returned,Option.map_some]
  · rw [runReply,same,pure_bind]

theorem performCall_eq {call : Call} (returns : call.Returns largest m) :
    ∃ found,call.perform m = some found ∧ performCall largest m call = pure found := by
  cases call with
  | command request =>
    refine ⟨request.perform m,rfl,?_⟩
    rw [performCall,performCommand_eq sound,liftM_pure]
  | run => exact runReply_eq sound returns
  | resetAndRun =>
    have later := m.twins_self.reset.bus.sound sound
    rw [performCall,reset_eq sound,liftM_pure,pure_bind]
    exact runReply_eq later returns
  | powerOnAndRun =>
    have later := (m.twins_self.powerOn fun _ => rfl).bus.sound sound
    rw [performCall,powerOn_eq sound,liftM_pure,pure_bind]
    exact runReply_eq later returns

theorem performAll_eq {calls : List Call} (returns : Call.ReturnAll largest calls m) :
    ∃ found,Call.performAll calls m = some found ∧ performAll largest calls m = pure found := by
  induction calls generalizing m with
  | nil => exact ⟨_,rfl,rfl⟩
  | cons call rest ih =>
    obtain ⟨first,others⟩ := returns
    obtain ⟨⟨reply,next⟩,answered,same⟩ := performCall_eq sound first
    have later := Call.perform_sound answered sound
    obtain ⟨found,answers,others⟩ := ih later (others reply next answered)
    refine ⟨(reply :: found.1,found.2),?_,?_⟩
    · rw [Call.performAll,answered]
      simp only [answers,Option.map_some]
    · rw [performAll,same,pure_bind]
      simp only [others,pure_bind]

end Checked

def Untrapped (largest : Nat) (source : σ) : Prop :=
  ∀ config calls,Call.ReturnAll largest calls (.new source config) →
    ∃ found,Call.performAll calls (.new source config) = some found ∧
      Checked.performAll largest calls (.new source config) = pure found

theorem Untrapped.of_sound {source : σ} (sound : Sound largest source) : Untrapped largest source :=
  fun _ _ returns => Checked.performAll_eq sound returns

-- Every source there is starts sound, a list of bytes where the host can hold it.
theorem sessions_meet_no_trap (largest : Nat) :
    (∀ value,Untrapped largest (Constant.mk value)) ∧
    (∀ bytes,bytes.size ≤ largest → Untrapped largest (Cycle.ofBytes bytes)) ∧
    ∀ (τ : Type) (closure : Generator τ),Untrapped largest closure := by
  refine ⟨?_,?_,?_⟩
  · intro value
    exact .of_sound trivial
  · intro bytes size
    exact .of_sound (Cycle.sound_ofBytes size)
  · intro τ closure
    exact .of_sound trivial

theorem cycling_session_meets_no_trap :
    let m : Machine Cycle := .new (.ofBytes #[1,2]) {}
    let calls : List Call :=
      [.command (.read 0x2000),.command .randomByte,.command (.read 0x12000),
        .command (.setBit 255 255),.command (.configure (.ready true)),.run]
    Call.ReturnAll 2 calls m ∧ ∃ found,Call.performAll calls m = some found ∧
      Checked.performAll 2 calls m = pure found := by
  intro m calls
  have returns : Call.ReturnAll 2 calls m := by
    simp only [calls,Call.returnAll_command,m]
    refine ⟨⟨1,.ok 1,_,.halted .nil (Machine.step_halts rfl (by decide +kernel) rfl),by decide⟩,?_⟩
    exact fun _ _ _ => trivial
  exact ⟨returns,(sessions_meet_no_trap 2).2.1 #[1,2] (by decide) {} calls returns⟩

end Console6502
