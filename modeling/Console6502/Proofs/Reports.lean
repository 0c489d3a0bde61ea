import Console6502.CommandLine.Report
import Console6502.Proofs.FreshStart
import Console6502.Proofs.Numerals
import Console6502.Proofs.Streams
import Console6502.Proofs.Switches

-- What an invocation shows, told by the run of the console that it powers on.
namespace Console6502

namespace Machine

variable {σ : Type} [ByteSource σ] {m : Machine σ}

-- BRK is the instruction of this number, and every one before it is documented and another.
def BreaksAs (m : Machine σ) (count : Nat) : Prop :=
  ∃ before,count = before + 1 ∧
    (∀ i,i < before → (m.after i).fetched.1 ∈ Opcode.bytes ∧ (m.after i).fetched.1 ≠ 0) ∧
    (m.after before).fetched.1 = 0

theorem step_running_iff (ready : m.registers.ready = true) (rule : m.config.onBreak = .halt) :
    m.step.1 = .ok .running ↔ m.fetched.1 ∈ Opcode.bytes ∧ m.fetched.1 ≠ 0 := by
  have halts : m.step.1 = .ok .halted ↔ m.fetched.1 = 0 := by
    rw [step_halted_iff]
    exact ⟨fun halted => halted.2.1,fun zero => ⟨ready,zero,rule⟩⟩
  rcases step_answers ready with ⟨absent,faulted⟩ | ⟨present,halted | running⟩
  · simp [faulted,absent]
  · simp [halted,halts.mp halted]
  · have other : m.fetched.1 ≠ 0 := by
      rw [Ne,← halts,running]
      exact nofun
    simp [running,present,other]

theorem runFor_ok_iff_breaksAs (ready : m.registers.ready = true) (rule : m.config.onBreak = .halt)
    {limit count : Nat} : (m.runFor limit).1 = .ok count ↔ m.BreaksAs count ∧ count ≤ limit := by
  have alert {i : Nat} (path : Runs m i (m.after i)) : (m.after i).registers.ready = true := path.ready ready
  have halting (i : Nat) : (m.after i).config.onBreak = .halt := by rw [after_config,rule]
  rw [runFor_ok_iff]
  constructor
  · rintro ⟨before,total,within,running,halted⟩
    refine ⟨⟨before,total,?_,(step_halted_iff.mp halted).2.1⟩,within⟩
    intro i inside
    have path : Runs m i (m.after i) :=
      runs_iff.mpr ⟨rfl,fun earlier less => running earlier (Nat.lt_trans less inside)⟩
    exact (step_running_iff (alert path) (halting i)).mp (running i inside)
  · rintro ⟨⟨before,total,documented,zero⟩,within⟩
    have path (i : Nat) (inside : i ≤ before) : Runs m i (m.after i) := by
      induction i with
      | zero => exact .nil
      | succ i ih =>
        have earlier := ih (Nat.le_of_lt inside)
        refine runs_iff.mpr ⟨rfl,fun place less => ?_⟩
        rcases Nat.lt_succ_iff_lt_or_eq.mp less with before | rfl
        · exact (runs_iff.mp earlier).2 place before
        · exact (step_running_iff (alert earlier) (halting _)).mpr (documented _ inside)
    have whole := path before (Nat.le_refl before)
    exact ⟨before,total,within,(runs_iff.mp whole).2,step_halted_iff.mpr ⟨alert whole,zero,halting before⟩⟩

end Machine

namespace CommandLine

open Numeral

theorem intercalate_empty (texts : List String) : "".intercalate texts = String.join texts := by
  induction texts with
  | nil => rfl
  | cons text rest ih =>
    cases rest with
    | nil => simp
    | cons next rest =>
      rw [String.intercalate_cons_cons,ih,String.append_empty,← String.join_cons]

theorem lines_eq (texts : List String) : lines texts = String.join (texts.map (· ++ "\n")) := by
  rw [lines,intercalate_empty]

theorem lines_singleton (text : String) : lines [text] = text ++ "\n" := by
  rw [lines_eq,List.map_singleton,String.join_cons,String.join_nil,String.append_empty]

-- The equations of `Fault.message` time out on its texts, so it is opened with `unfold`.
theorem lines_romTooLarge (size : Nat) : lines ["Error: " ++ (Fault.romTooLarge size).message] =
    "Error: rom image is " ++ plain size ++ " bytes, at most 32768 fit\n" := by
  unfold Fault.message
  simp only [lines_singleton,decimal_eq,← String.append_assoc,String.reduceAppend]
  simp only [String.append_assoc,String.reduceAppend]

theorem lines_limitReached (limit : Nat) : lines ["Error: " ++ (Fault.limitReached limit).message] =
    "Error: cpu still running after " ++ plain limit ++ " instructions\n" := by
  unfold Fault.message
  simp only [lines_singleton,decimal_eq,← String.append_assoc,String.reduceAppend]
  simp only [String.append_assoc,String.reduceAppend]

theorem lines_invalidOpcode (byte : UInt8) (pc : UInt16) :
    lines ["Error: " ++ (Fault.invalidOpcode byte pc).message] =
      "Error: invalid opcode $" ++ positional 16 2 byte.toNat ++ " at $" ++
        positional 16 4 pc.toNat ++ "\n" := by
  unfold Fault.message
  simp only [lines_singleton,hexByte_eq,hexWord_eq,← String.append_assoc,String.reduceAppend]

theorem stateLines_eq (r : Registers) (watched : UInt8) : stateLines r watched =
    ["A: 0x" ++ positional 16 2 r.a.toNat,"X: 0x" ++ positional 16 2 r.x.toNat,
      "Y: 0x" ++ positional 16 2 r.y.toNat,"SP: 0x" ++ positional 16 2 r.sp.toNat,
      "PC: 0x" ++ positional 16 4 r.pc.toNat,"P (flags): 0b" ++ positional 2 8 r.p.byte.toNat,
      "mem[0x0200]: 0x" ++ positional 16 2 watched.toNat] := by
  simp only [stateLines,hexByte_eq,hexWord_eq,binaryByte_eq]

-- The console of an invocation: the image is loaded and the power goes on.
def Options.started (options : Options) (image : Array UInt8) : Machine (Generator UInt64) :=
  ((Command.loadRom image).perform options.machine).2.powerOn

def Options.finished (options : Options) (image : Array UInt8) :
    Except Fault Nat × Machine (Generator UInt64) :=
  (options.started image).runFor options.limit.toNat

def streamByte (seed : UInt64) (i : Nat) : UInt8 := byteAt (Xorshift.source seed) i

def Report.ofRun (ran : Except Fault Nat × Machine (Generator UInt64)) : Report :=
  let state := stateLines ran.2.registers (ran.2.bus.read 0x0200).1
  match ran.1 with
  | .ok count => ⟨0,lines (state ++ ["halted after " ++ decimal count ++ " instructions"]),""⟩
  | .error fault => ⟨1,lines state,lines ["Error: " ++ fault.message]⟩

theorem Report.ofRun_ok {count : Nat} {m : Machine (Generator UInt64)} {state : List String}
    (shown : stateLines m.registers (m.bus.read 0x0200).1 = state) : Report.ofRun (.ok count,m) =
      ⟨0,String.join ((state ++ ["halted after " ++ plain count ++ " instructions"]).map (· ++ "\n")),""⟩ := by
  rw [Report.ofRun,shown,← decimal_eq,← lines_eq]

theorem Report.ofRun_error {fault : Fault} {m : Machine (Generator UInt64)} {state : List String}
    (shown : stateLines m.registers (m.bus.read 0x0200).1 = state) : Report.ofRun (.error fault,m) =
      ⟨1,String.join (state.map (· ++ "\n")),lines ["Error: " ++ fault.message]⟩ := by
  rw [Report.ofRun,shown,← lines_eq]

namespace Options

variable (options : Options) {image : Array UInt8}

theorem report_large (large : 32768 < image.size) :
    options.report image = failure 2 (Fault.romTooLarge image.size).message := by
  unfold report
  simp only [Memory.loadRom_eq,if_pos large]

theorem report_fits (fits : image.size ≤ 32768) :
    options.report image = .ofRun (options.finished image) := by
  unfold report
  simp only [Memory.loadRom_eq,if_neg (Nat.not_lt.mpr fits)]
  rw [finished,started,Machine.perform_loadRom _ fits]
  rfl

theorem started_eq (fits : image.size ≤ 32768) :
    ∃ a x ram rest,options.started image =
      ⟨⟨a,x,streamByte options.seed 8196,streamByte options.seed 8197,
          (Memory.mk ram (.zero _) (romOf image)).resetTarget,⟨streamByte options.seed 8198⟩,true⟩,
        ⟨⟨ram,.zero _,romOf image⟩,rest⟩,options.config⟩ := by
  let loaded := options.machine.mapMemory fun memory => { memory with rom := romOf image }
  have started : options.started image = loaded.powerOn := by
    rw [Options.started,Machine.perform_loadRom _ fits]
  obtain ⟨ram,high,low,a,x,y,sp,p,rest,_,shown⟩ := loaded.powerOn_eq
  obtain ⟨_,_,_,yDrawn,spDrawn,pDrawn,_⟩ :=
    Machine.powerOn_drawn (Prod.eta (draw 8199 loaded.bus.source)).symm
  have place (i : Nat) (inside : i < 8199) :
      (draw 8199 loaded.bus.source).1[i]? = some (streamByte options.seed i) := by
    rw [Vector.getElem?_eq_getElem inside,draw_getElem]
    rfl
  rw [place _ (by decide),shown] at yDrawn spDrawn pDrawn
  refine ⟨a,x,⟨ram⟩,rest,?_⟩
  rw [started,shown,Option.some.inj yDrawn,Option.some.inj spDrawn,Option.some.inj pDrawn]
  rfl

theorem started_ready (fits : image.size ≤ 32768) : (options.started image).registers.ready = true := by
  obtain ⟨a,x,ram,rest,shown⟩ := options.started_eq fits
  rw [shown]

theorem started_halts (fits : image.size ≤ 32768) : (options.started image).config.onBreak = .halt := by
  obtain ⟨a,x,ram,rest,shown⟩ := options.started_eq fits
  rw [shown,config]
  split <;> rfl

theorem finished_cases (fits : image.size ≤ 32768) :
    let started := options.started image
    let (result,final) := options.finished image
    let limit := options.limit.toNat
    (∃ count,started.BreaksAs count ∧ count ≤ limit ∧ result = .ok count) ∨
    (∀ count,started.BreaksAs count → limit < count) ∧
      ((Machine.Runs started limit final ∧ result = .error (.limitReached limit)) ∨
        ∃ count before,count < limit ∧ Machine.Runs started count before ∧
          before.fetched.1 ∉ Opcode.bytes ∧
          result = .error (.invalidOpcode before.fetched.1 before.registers.pc)) := by
  have ready := options.started_ready fits
  have ends (count : Nat) : (options.finished image).1 = .ok count ↔
      (options.started image).BreaksAs count ∧ count ≤ options.limit.toNat :=
    Machine.runFor_ok_iff_breaksAs ready (options.started_halts fits)
  have late {fault : Fault} (failed : (options.finished image).1 = .error fault) (count : Nat)
      (breaks : (options.started image).BreaksAs count) : options.limit.toNat < count := by
    apply Nat.lt_of_not_le
    intro within
    have contrary := failed.symm.trans ((ends count).mpr ⟨breaks,within⟩)
    cases contrary
  rcases (options.started image).runFor_cases options.limit.toNat with
    ⟨last,path,ran⟩ | ⟨tried,result,last,within,stops,ran⟩
  · have finished : options.finished image = (.error (.limitReached options.limit.toNat),last) := ran
    have failed := congrArg Prod.fst finished
    rw [finished]
    exact .inr ⟨late failed,.inl ⟨path,rfl⟩⟩
  · have finished : options.finished image = (result,last) := ran
    have found := congrArg Prod.fst finished
    rw [finished]
    cases stops with
    | halted path final =>
      obtain ⟨breaks,within⟩ := (ends _).mp found
      exact .inl ⟨_,breaks,within,rfl⟩
    | @faulted before _ count fault path final =>
      refine .inr ⟨late found,.inr ⟨count,before,within,path,?_⟩⟩
      rcases Machine.step_answers (path.ready ready) with ⟨absent,faulted⟩ | ⟨_,answer⟩
      · rw [final] at faulted
        cases (Prod.mk.inj faulted).1
        exact ⟨absent,rfl⟩
      · simp [final] at answer

theorem report_stable (settled : 32768 < image.size ∨
      ∀ bound,(options.finished image).1 ≠ .error (.limitReached bound))
    {larger : UInt64} (further : options.limit ≤ larger) :
    ({ options with limit := larger } : Options).report image = options.report image := by
  rcases Nat.lt_or_ge 32768 image.size with large | fits
  · rw [report_large _ large,report_large _ large]
  · have ended := settled.resolve_left (Nat.not_lt.mpr fits)
    obtain ⟨tried,within,stops⟩ := Machine.stops_of_runFor (Prod.eta (options.finished image)).symm ended
    have same : ({ options with limit := larger } : Options).finished image = options.finished image :=
      stops.runFor (Nat.le_trans within (UInt64.le_iff_toNat_le.mp further))
    rw [report_fits _ fits,report_fits _ fits,same]

end Options

-- The exit code tells how the run ended. What is shown is the console that the run left, and a
-- run that ends by itself is shown the same under every larger limit.
theorem exit_status (options : Options) (image : Array UInt8) :
    let started := options.started image
    let result := (options.finished image).1
    let final := (options.finished image).2
    let limit := options.limit.toNat
    let r := final.registers
    let state :=
      ["A: 0x" ++ positional 16 2 r.a.toNat,"X: 0x" ++ positional 16 2 r.x.toNat,
        "Y: 0x" ++ positional 16 2 r.y.toNat,"SP: 0x" ++ positional 16 2 r.sp.toNat,
        "PC: 0x" ++ positional 16 4 r.pc.toNat,"P (flags): 0b" ++ positional 2 8 r.p.byte.toNat,
        "mem[0x0200]: 0x" ++ positional 16 2 (final.bus.read 0x0200).1.toNat]
    (∀ path,Request.report (.run { options with rom := some path }) (.ok image) = options.report image) ∧
    (32768 < image.size → options.report image =
      ⟨2,"","Error: rom image is " ++ plain image.size ++ " bytes, at most 32768 fit\n"⟩) ∧
    (image.size ≤ 32768 →
      (final.bus.read 0x0200).2 = final.bus ∧
      ((options.report image).exit = 0 ↔ ∃ count,started.BreaksAs count ∧ count ≤ limit) ∧
      (∀ count,started.BreaksAs count → count ≤ limit → result = .ok count ∧ options.report image =
        ⟨0,String.join ((state ++ ["halted after " ++ plain count ++ " instructions"]).map (· ++ "\n")),""⟩) ∧
      ((∀ count,started.BreaksAs count → limit < count) →
        (Machine.Runs started limit final ∧ result = .error (.limitReached limit) ∧
          options.report image = ⟨1,String.join (state.map (· ++ "\n")),
            "Error: cpu still running after " ++ plain limit ++ " instructions\n"⟩) ∨
        ∃ count before,count < limit ∧ Machine.Runs started count before ∧
          before.fetched.1 ∉ Opcode.bytes ∧
          result = .error (.invalidOpcode before.fetched.1 before.registers.pc) ∧
          options.report image = ⟨1,String.join (state.map (· ++ "\n")),
            "Error: invalid opcode $" ++ positional 16 2 before.fetched.1.toNat ++
              " at $" ++ positional 16 4 before.registers.pc.toNat ++ "\n"⟩) ∧
      (options.limit = 0 → (options.report image).exit = 1)) ∧
    ((32768 < image.size ∨ ∀ bound,result ≠ .error (.limitReached bound)) →
      ∀ larger,options.limit ≤ larger →
        ({ options with limit := larger } : Options).report image = options.report image) ∧
    ({ options with seed := 0 } : Options).report image = ({ options with seed := 1 } : Options).report image := by
  intro started result final limit r state
  refine ⟨fun _ => rfl,?_,?_,fun settled _ => options.report_stable settled,?_⟩
  · intro large
    rw [options.report_large large,failure,lines_romTooLarge]
  · intro fits
    have report : options.report image = .ofRun (result,final) := options.report_fits fits
    have shown : stateLines r (final.bus.read 0x0200).1 = state := stateLines_eq _ _
    have halts (count : Nat) : result = .ok count ↔ started.BreaksAs count ∧ count ≤ limit :=
      Machine.runFor_ok_iff_breaksAs (options.started_ready fits) (options.started_halts fits)
    refine ⟨Bus.read_elsewhere (by decide),?_,?_,?_,?_⟩
    · simp only [← halts]
      rw [report]
      cases result with
      | ok count => exact iff_of_true rfl ⟨count,rfl⟩
      | error fault => exact iff_of_false (by simp [Report.ofRun]) (by simp)
    · intro count breaks within
      have ended := (halts count).mpr ⟨breaks,within⟩
      rw [report,ended]
      exact ⟨rfl,Report.ofRun_ok shown⟩
    · intro late
      rcases options.finished_cases fits with
        ⟨count,breaks,within,_⟩ | ⟨_,⟨path,ended⟩ | ⟨count,before,within,path,absent,ended⟩⟩
      · exact absurd within (Nat.not_le.mpr (late count breaks))
      · have ended : result = .error (.limitReached limit) := ended
        refine .inl ⟨path,ended,?_⟩
        rw [report,ended,Report.ofRun_error shown,lines_limitReached]
      · have ended : result = .error (.invalidOpcode before.fetched.1 before.registers.pc) := ended
        refine .inr ⟨count,before,within,path,absent,ended,?_⟩
        rw [report,ended,Report.ofRun_error shown,lines_invalidOpcode]
    · intro none
      have ended : result = .error (.limitReached 0) := by
        simp only [result,Options.finished,none]
        rfl
      rw [report,ended]
      rfl
  · rfl

end CommandLine

end Console6502
