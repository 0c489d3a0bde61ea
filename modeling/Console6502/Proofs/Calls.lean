import Console6502.Command
import Console6502.Proofs.Draws
import Console6502.Proofs.Runs

-- Whole sessions of a host with one console, runs without a limit included, and the calls
-- that leave no trace in a session.
namespace Console6502

inductive Call where
  | command (command : Command)
  | run
  | resetAndRun
  | powerOnAndRun

def Reply.ofRun : Except Fault Nat → Reply
  | .ok taken => .count taken
  | .error reason => .fault reason

variable {σ : Type} [ByteSource σ]

def Call.perform (call : Call) (m : Machine σ) : Option (Reply × Machine σ) :=
  match call with
  | .command request => some (request.perform m)
  | .run => m.run.map fun ran => (.ofRun ran.1,ran.2)
  | .resetAndRun => m.resetAndRun.map fun ran => (.ofRun ran.1,ran.2)
  | .powerOnAndRun => m.powerOnAndRun.map fun ran => (.ofRun ran.1,ran.2)

-- A call that never returns is the end of the session.
def Call.performAll : List Call → Machine σ → Option (List Reply × Machine σ)
  | [],m => some ([],m)
  | call :: rest,m =>
    match call.perform m with
    | none => none
    | some (reply,next) => (performAll rest next).map fun later => (reply :: later.1,later.2)

-- The questions, and the requests that a console refuses or drops.
def Command.Inert (m : Machine σ) : Command → Prop
  | .read address => address.toNat % 65536 ≠ 0x2000
  | .readWord address => address.toNat % 65536 ≠ 0x2000 ∧ (address + 1).toNat % 65536 ≠ 0x2000
  | .write address _ =>
    (0x2000 ≤ address.toNat % 65536 ∧ address.toNat % 65536 ≤ 0x5FFF) ∨
      0x8000 ≤ address.toNat % 65536
  | .loadRom image => 32768 < image.size
  | .loadSaveRam image => image.size ≠ 8192
  | .region _ | .dump _ _ _ | .inspect | .bit _ | .anyFlag _ => True
  | .step => m.registers.ready = false
  | .stepEach count | .runFor count => count = 0 ∨ m.registers.ready = false
  | _ => False

def Call.Inert (m : Machine σ) : Call → Prop
  | .command request => request.Inert m
  | .run => m.registers.ready = false
  | .resetAndRun | .powerOnAndRun => False

namespace Bus

variable {bus : Bus σ} {address : UInt32}

theorem read_elsewhere (stored : address.toNat % 65536 ≠ 0x2000) : (bus.read address).2 = bus := by
  rw [read_eq,if_neg stored]

omit [ByteSource σ] in
theorem write_dropped (dropped : (Region.ofAddress address).writable = false) (value : UInt8) :
    bus.write address value = bus := by
  rw [write,bus.memory.poke_dropped dropped]

end Bus

namespace Machine

variable {m : Machine σ}

theorem runFor_idle {limit : Nat} (still : limit = 0 ∨ m.registers.ready = false) :
    (m.runFor limit).2 = m := by
  cases limit with
  | zero => rfl
  | succ limit =>
    have idle : m.registers.ready = false := still.resolve_left (Nat.succ_ne_zero limit)
    rw [runFor,runWithin,step_idle idle]

theorem stepEach_idle {count : Nat} (still : count = 0 ∨ m.registers.ready = false) :
    (m.stepEach count).2 = m := by
  cases count with
  | zero => rfl
  | succ count =>
    have idle : m.registers.ready = false := still.resolve_left (Nat.succ_ne_zero count)
    rw [stepEach,step_idle idle]

theorem run_idle (idle : m.registers.ready = false) : m.run = some (.error .halted,m) := by
  rw [run,runOn,step_idle idle]

end Machine

theorem Command.perform_runFor (limit : Nat) (m : Machine σ) :
    (Command.runFor limit).perform m = (.ofRun (m.runFor limit).1,(m.runFor limit).2) := by
  rw [perform]
  rcases m.runFor limit with ⟨fault | count,last⟩ <;> rfl

theorem Command.perform_step (m : Machine σ) : (Command.step.perform m).2 = m.step.2 := by
  rw [perform]
  rcases m.step with ⟨fault | outcome,next⟩ <;> rfl

theorem Command.Inert.unchanged {m : Machine σ} {command : Command} (inert : command.Inert m) :
    (command.perform m).2 = m := by
  cases command with
  | read address =>
    have same : (m.bus.read address).2 = m.bus := Bus.read_elsewhere inert
    simp only [perform,same]
  | readWord address =>
    have low : (m.bus.read address).2 = m.bus := Bus.read_elsewhere inert.1
    have high : (m.bus.read (address + 1)).2 = m.bus := Bus.read_elsewhere inert.2
    simp only [perform,Bus.readWord,low,high]
  | write address value =>
    have dropped : (Region.ofAddress address).writable = false := by
      rw [Bool.eq_false_iff,ne_eq,Region.writable_iff]
      change _ ∨ _ at inert
      omega
    simp only [perform,Bus.write_dropped dropped]
  | loadRom image =>
    have large : 2 ^ romWidth < image.size := inert
    simp only [perform,Memory.loadRom,if_pos large,Machine.load]
  | loadSaveRam image =>
    have inexact : ¬image.size = 2 ^ saveRamWidth := inert
    simp only [perform,Memory.loadSaveRam,dif_neg inexact,Machine.load]
  | step => rw [perform_step,Machine.step_idle inert]
  | stepEach count => exact Machine.stepEach_idle inert
  | runFor limit => rw [perform_runFor,Machine.runFor_idle inert]
  | region | dump | inspect | bit | anyFlag => rfl
  | _ => exact inert.elim

theorem Call.Inert.returns {m : Machine σ} {call : Call} (inert : call.Inert m) :
    ∃ reply,call.perform m = some (reply,m) := by
  cases call with
  | command request =>
    have same : (request.perform m).2 = m := Command.Inert.unchanged inert
    refine ⟨(request.perform m).1,?_⟩
    exact congrArg some (Prod.ext rfl same)
  | run =>
    have idle : m.registers.ready = false := inert
    refine ⟨.fault .halted,?_⟩
    rw [perform,Machine.run_idle idle]
    rfl
  | resetAndRun | powerOnAndRun => exact inert.elim

structure Entry where
  call : Call
  inserted : Bool

namespace Entry

def kept {α : Type} (session : List Entry) (values : List α) : List α :=
  ((session.zip values).filter fun pair => !pair.1.inserted).map Prod.snd

-- Every inserted call is inert on the console it finds.
def Unobtrusive : List Entry → Machine σ → Prop
  | [],_ => True
  | entry :: rest,m =>
    (entry.inserted = true → entry.call.Inert m) ∧
      match entry.call.perform m with
      | none => True
      | some (_,next) => Unobtrusive rest next

theorem kept_cons {α : Type} (entry : Entry) (rest : List Entry) (value : α) (values : List α) :
    kept (entry :: rest) (value :: values) =
      if entry.inserted then kept rest values else value :: kept rest values := by
  cases inserted : entry.inserted <;> simp [kept,inserted]

-- Without the inserted calls the others get the same replies, none of them returns that did
-- not return before, and the console ends the same.
theorem inert_calls_vanish {session : List Entry} {m : Machine σ} (inert : Unobtrusive session m) :
    Call.performAll (kept session (session.map Entry.call)) m =
      (Call.performAll (session.map Entry.call) m).map fun found => (kept session found.1,found.2) := by
  induction session generalizing m with
  | nil => rfl
  | cons entry rest ih =>
    obtain ⟨harmless,later⟩ := inert
    rw [List.map_cons,kept_cons,Call.performAll]
    cases inserted : entry.inserted with
    | true =>
      obtain ⟨reply,returned⟩ := (harmless inserted).returns
      rw [returned] at later ⊢
      simp only [if_true,ih later,Option.map_map,Function.comp_def,kept_cons,inserted]
    | false =>
      rw [if_neg Bool.false_ne_true,Call.performAll]
      cases found : entry.call.perform m with
      | none => rfl
      | some returned =>
        rw [found] at later
        simp only [ih later,Option.map_map,Function.comp_def,kept_cons,inserted,Bool.false_eq_true,if_false]

theorem waiting_console_vanishes :
    let session : List Entry :=
      [⟨.command .step,true⟩,⟨.command (.configure (.ready true)),false⟩,
        ⟨.command (.read 0x5FFF),true⟩,⟨.command (.write 0x8000 9),true⟩,⟨.command .step,false⟩]
    let m : Machine Constant := .new ⟨7⟩ {}
    Unobtrusive session m ∧
      Call.performAll [.command (.configure (.ready true)),.command .step] m =
        (Call.performAll (session.map Entry.call) m).map fun found => (kept session found.1,found.2) := by
  intro session m
  have inert : Unobtrusive session m := by
    have stored : (0x5FFF : UInt32).toNat % 65536 ≠ 0x2000 := by decide
    refine ⟨fun _ => rfl,nofun,fun _ => stored,fun _ => .inr ?_,nofun,?_⟩
    · decide
    · split <;> trivial
  exact ⟨inert,inert_calls_vanish inert⟩

end Entry

end Console6502
