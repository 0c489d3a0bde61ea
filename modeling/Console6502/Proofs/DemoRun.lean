import Console6502.Proofs.Addition
import Console6502.Proofs.Reports
import Console6502.Proofs.SeededWords

-- The built-in program from power-on to BRK, whatever the bytes are that the console wakes
-- up with: five instructions, then a loop of two that runs 256 times.
namespace Console6502

variable {σ : Type} [ByteSource σ]

namespace Status

def settled (p : Status) (rule : OverflowRule) : Status :=
  ⟨(p.byte &&& 0x3C) ||| 0x02 ||| if rule = .derive then 0 else p.byte &&& 0x40⟩

theorem has_settled (p : Status) (rule : OverflowRule) (flag : Flag) : (p.settled rule).has flag =
    match flag with
    | .carry | .negative => false
    | .zero => true
    | .overflow => decide (rule = .ignore) && p.has .overflow
    | other => p.has other := by
  cases rule <;> cases flag <;> simp [settled,has_eq,Flag.index]

theorem settled_withResult (p : Status) (rule : OverflowRule) :
    (p.settled rule).withResult 0 = p.settled rule := by
  apply ext_flags
  intro flag
  cases flag <;> simp [has_settled]

def cleared (p : Status) : Status := ((p.withResult 0).put .carry false).withResult 0x10

end Status

theorem Registers.add_settled (x y sp : UInt8) (pc : UInt16) (p : Status) (rule : OverflowRule) :
    Registers.add ⟨0x10,x,y,sp,pc,p.cleared,true⟩ 0x05 rule =
      ⟨0x15,x,y,sp,pc,(p.settled rule).withResult 0x15,true⟩ := by
  have clear : p.cleared.has .carry = false := by simp [Status.cleared]
  have small : decide (0xFF < sum 0x10 0x05 false) = false := by decide
  have fits : sumOverflows 0x10 0x05 (UInt8.ofNat (sum 0x10 0x05 false)) = false := by decide
  rw [add]
  dsimp only
  rw [clear,small,fits]
  cases rule with
  | ignore =>
    have status : (p.cleared.put .carry false).withResult 0x15 = (p.settled .ignore).withResult 0x15 := by
      apply Status.ext_flags
      intro flag
      cases flag <;> simp [Status.cleared,Status.has_settled]
    rw [← status]
    rfl
  | derive =>
    have status : ((p.cleared.put .carry false).put .overflow false).withResult 0x15 =
        (p.settled .derive).withResult 0x15 := by
      apply Status.ext_flags
      intro flag
      cases flag <;> simp [Status.cleared,Status.has_settled]
    rw [← status]
    rfl

namespace Mode

variable {bus : Bus σ} {r : Registers}

theorem run_immediate {value : UInt8} (byte : bus.read r.pc.toUInt32 = (value,bus)) :
    (Mode.immediate.resolve r).run bus = ((.immediate value,r.advance 1),bus) := by
  simp only [resolve,Registers.fetchByte,Transaction.run_bind,Transaction.run_fetch,
    Transaction.run_pure,byte]

theorem run_relative {value : UInt8} (byte : bus.read r.pc.toUInt32 = (value,bus)) :
    (Mode.relative.resolve r).run bus = ((.displacement value.toInt8,r.advance 1),bus) := by
  simp only [resolve,Registers.fetchByte,Transaction.run_bind,Transaction.run_fetch,
    Transaction.run_pure,byte]

theorem run_absolute {low high : UInt8} (first : bus.read r.pc.toUInt32 = (low,bus))
    (second : bus.read (r.pc + 1).toUInt32 = (high,bus)) :
    (Mode.absolute.resolve r).run bus = ((.address (word low high).toUInt32,r.advance 2),bus) := by
  have later : bus.read (r.advance 1).pc.toUInt32 = (high,bus) := second
  simp only [resolve,Registers.fetchWord,Registers.fetchByte,Transaction.run_bind,
    Transaction.run_fetch,Transaction.run_pure,first,later,Registers.advance_advance]
  rfl

end Mode

namespace Machine

theorem step_coded {m : Machine σ} (opcode : Opcode) {byte : UInt8} {operand : Operand}
    {past next : Registers} {bus : Bus σ} (ready : m.registers.ready = true)
    (code : m.bus.read m.registers.pc.toUInt32 = (byte,m.bus))
    (form : (byte,opcode.mode) ∈ opcode.instruction.forms)
    (resolved : (opcode.mode.resolve (m.registers.advance 1)).run m.bus = ((operand,past),m.bus))
    (performed : (opcode.instruction.action.perform m.config operand past).run m.bus = (next,bus))
    (going : next.ready = true) : m.step = (.ok .running,⟨next,bus,m.config⟩) := by
  have known : decode byte = some opcode := decode_eq_some_iff.mpr form
  have found : m.prepare = some ⟨opcode,operand,past,m.bus⟩ := by
    simp only [prepare,fetched,code,ready,known,if_true,Option.map_some,resolved]
  rw [step_prepared found]
  simp only [Prepared.perform,performed,going,if_true]

end Machine

namespace CommandLine

theorem size_demoRom : demoRom.size = 32768 := Array.size_ofFn

theorem getElem?_demoRom {i : Nat} (inside : i < 32768) :
    demoRom[i]? = some (if i = 0x7FFD then 0x80 else demoProgram.getD i 0) := by
  have within : i < 2 ^ romWidth := inside
  rw [demoRom,Array.getElem?_ofFn,dif_pos within]

theorem getElem?_romOf_demoRom {i : Nat} (inside : i < 32768) : (romOf demoRom).cells[i]? =
    some (if i = 0x7FFD then 0x80 else demoProgram.getD i 0) := by
  have nonempty : 0 < demoRom.size := by rw [size_demoRom]; decide
  rw [getElem?_romOf nonempty inside,size_demoRom,Nat.mod_eq_of_lt inside,getElem?_demoRom inside]

def HoldsDemo (bus : Bus σ) : Prop := bus.memory.rom = romOf demoRom

namespace HoldsDemo

variable {bus : Bus σ} (holds : HoldsDemo bus)
include holds

theorem read_code (i : Fin 14) :
    bus.read (UInt32.ofNat (0x8000 + i)) = (demoProgram.getD i 0,bus) := by
  have inside : i.val < 32768 := Nat.lt_trans i.isLt (by decide)
  have seen := (Machine.mk .initial bus {}).seen_rom inside
  rw [holds,getElem?_romOf_demoRom inside,if_neg (by omega)] at seen
  obtain ⟨_,region⟩ :=
    cell_inside .rom (Nat.le_add_right 0x8000 i) (Nat.add_lt_add_left inside 0x8000)
  have still : (bus.read (UInt32.ofNat (0x8000 + i))).2 = bus := by rw [bus.read_rom region]
  exact Prod.ext (Option.some.inj seen) still

omit [ByteSource σ] in
theorem resetTarget_eq : bus.memory.resetTarget = 0x8000 := by
  have low : (romOf demoRom).cells[0x7FFC]? = some 0 := getElem?_romOf_demoRom (by decide)
  have high : (romOf demoRom).cells[0x7FFD]? = some 0x80 := getElem?_romOf_demoRom (by decide)
  rw [Vector.getElem?_eq_some_iff] at low high
  obtain ⟨_,low⟩ := low
  obtain ⟨_,high⟩ := high
  rw [Memory.resetTarget,holds]
  change word (romOf demoRom).cells[0x7FFC] (romOf demoRom).cells[0x7FFD] = 0x8000
  rw [low,high]
  decide

omit [ByteSource σ] in
theorem write (address : UInt32) (value : UInt8) : HoldsDemo (bus.write address value) :=
  (bus.memory.poke_rom address value).trans holds

variable (config : Config) (a x y sp : UInt8) (p : Status)

open Machine Mode

-- Carry is cleared first, so nothing that the console woke up with enters the sum.
theorem prologue : Runs ⟨⟨a,x,y,sp,0x8000,p,true⟩,bus,config⟩ 5
    ⟨⟨0x15,0,y,sp,0x800A,(p.settled config.overflow).withResult 0x15,true⟩,
      bus.write 0x0200 0x15,config⟩ := by
  let q := (p.settled config.overflow).withResult 0x15
  have ldx : (Machine.mk ⟨a,x,y,sp,0x8000,p,true⟩ bus config).step =
      (.ok .running,⟨⟨a,0,y,sp,0x8002,p.withResult 0,true⟩,bus,config⟩) :=
    step_coded ⟨.ldx,.immediate⟩ rfl (holds.read_code 0) (by decide)
      (run_immediate (holds.read_code 1)) rfl rfl
  have clc : (Machine.mk ⟨a,0,y,sp,0x8002,p.withResult 0,true⟩ bus config).step =
      (.ok .running,⟨⟨a,0,y,sp,0x8003,(p.withResult 0).put .carry false,true⟩,bus,config⟩) :=
    step_coded ⟨.clc,.implied⟩ rfl (holds.read_code 2) (by decide) rfl rfl rfl
  have lda : (Machine.mk ⟨a,0,y,sp,0x8003,(p.withResult 0).put .carry false,true⟩ bus config).step =
      (.ok .running,⟨⟨0x10,0,y,sp,0x8005,p.cleared,true⟩,bus,config⟩) :=
    step_coded ⟨.lda,.immediate⟩ rfl (holds.read_code 3) (by decide)
      (run_immediate (holds.read_code 4)) rfl rfl
  have adc : (Machine.mk ⟨0x10,0,y,sp,0x8005,p.cleared,true⟩ bus config).step =
      (.ok .running,⟨⟨0x15,0,y,sp,0x8007,q,true⟩,bus,config⟩) :=
    step_coded ⟨.adc,.immediate⟩ rfl (holds.read_code 5) (by decide)
      (run_immediate (holds.read_code 6)) (congrArg (·,bus) (Registers.add_settled _ _ _ _ _ _)) rfl
  have sta : (Machine.mk ⟨0x15,0,y,sp,0x8007,q,true⟩ bus config).step =
      (.ok .running,⟨⟨0x15,0,y,sp,0x800A,q,true⟩,bus.write 0x0200 0x15,config⟩) :=
    step_coded ⟨.sta,.absolute⟩ rfl (holds.read_code 7) (by decide)
      (run_absolute (holds.read_code 8) (holds.read_code 9)) rfl rfl
  exact .step ldx (.step clc (.step lda (.step adc (.step sta .nil))))

theorem lap : Runs ⟨⟨a,x,y,sp,0x800A,p,true⟩,bus,config⟩ 2
    ⟨⟨a,x + 1,y,sp,if x + 1 = 0 then 0x800D else 0x800A,p.withResult (x + 1),true⟩,bus,config⟩ := by
  have inx : (Machine.mk ⟨a,x,y,sp,0x800A,p,true⟩ bus config).step =
      (.ok .running,⟨⟨a,x + 1,y,sp,0x800B,p.withResult (x + 1),true⟩,bus,config⟩) :=
    step_coded ⟨.inx,.implied⟩ rfl (holds.read_code 10) (by decide) rfl rfl rfl
  have back : (0x800D : UInt16) + (0xFD : UInt8).toInt8.toInt16.toUInt16 = 0x800A := by decide
  have branched : Registers.branch ⟨a,x + 1,y,sp,0x800D,p.withResult (x + 1),true⟩ .zero false
      (0xFD : UInt8).toInt8 =
      ⟨a,x + 1,y,sp,if x + 1 = 0 then 0x800D else 0x800A,p.withResult (x + 1),true⟩ := by
    rw [Registers.branch,Registers.advance,back]
    by_cases zero : x + 1 = 0 <;> simp [zero]
  have bne : (Machine.mk ⟨a,x + 1,y,sp,0x800B,p.withResult (x + 1),true⟩ bus config).step =
      (.ok .running,⟨⟨a,x + 1,y,sp,if x + 1 = 0 then 0x800D else 0x800A,p.withResult (x + 1),true⟩,
        bus,config⟩) :=
    step_coded ⟨.bne,.relative⟩ rfl (holds.read_code 11) (by decide)
      (run_relative (holds.read_code 12)) (congrArg (·,bus) branched) rfl
  exact .step inx (.step bne .nil)

-- The invariant of the loop: X is the number of laps, and the status differs from the one at
-- its start in N and Z alone.
theorem laps (n : Nat) (inside : n < 256) : ∃ q : Status,
    (∀ value,q.withResult value = p.withResult value) ∧
    Runs ⟨⟨a,0,y,sp,0x800A,p,true⟩,bus,config⟩ (2 * n)
      ⟨⟨a,UInt8.ofNat n,y,sp,0x800A,q,true⟩,bus,config⟩ := by
  induction n with
  | zero => exact ⟨p,fun _ => rfl,.nil⟩
  | succ n ih =>
    obtain ⟨q,alike,path⟩ := ih (Nat.lt_of_succ_lt inside)
    have next : UInt8.ofNat n + 1 = UInt8.ofNat (n + 1) := by simp
    have positive : UInt8.ofNat (n + 1) ≠ 0 := by
      rw [Ne,← UInt8.toNat_inj,UInt8.toNat_ofNat_of_lt' inside]
      exact Nat.succ_ne_zero n
    have once := holds.lap config a (UInt8.ofNat n) y sp q
    rw [next,if_neg positive] at once
    refine ⟨q.withResult (UInt8.ofNat (n + 1)),fun value => ?_,path.append once⟩
    rw [Status.withResult_withResult,alike]

theorem loop : Runs ⟨⟨a,0,y,sp,0x800A,p,true⟩,bus,config⟩ 512
    ⟨⟨a,0,y,sp,0x800D,p.withResult 0,true⟩,bus,config⟩ := by
  obtain ⟨q,alike,path⟩ := holds.laps config a y sp p 255 (by decide)
  have last := holds.lap config a 255 y sp q
  have around : (255 : UInt8) + 1 = 0 := by decide
  rw [around,if_pos rfl,alike] at last
  exact path.append last

theorem stops (rule : config.onBreak = .halt) :
    Stops ⟨⟨a,x,y,sp,0x8000,p,true⟩,bus,config⟩ 518 (.ok 518)
    ⟨⟨0x15,0,y,sp,0x800E,p.settled config.overflow,false⟩,bus.write 0x0200 0x15,config⟩ := by
  have stored := holds.write 0x0200 0x15
  have path := (holds.prologue config a x y sp p).append
    (stored.loop config 0x15 y sp ((p.settled config.overflow).withResult 0x15))
  rw [Status.withResult_withResult,Status.settled_withResult] at path
  refine .halted path ?_
  have zero : (Machine.mk ⟨0x15,0,y,sp,0x800D,p.settled config.overflow,true⟩
      (bus.write 0x0200 0x15) config).fetched = (0,bus.write 0x0200 0x15) := stored.read_code 13
  rw [step_halts rfl (by rw [zero]) rule,stopped,zero]
  rfl

end HoldsDemo

open Numeral

theorem streamByte_eq (seed : UInt64) (i : Nat) :
    streamByte seed i = Xorshift.byte (Xorshift.advance^[i + 1] (max seed 1)) := by
  rw [streamByte,byteAt,Xorshift.draw_source,Function.iterate_succ_apply']
  rfl

theorem Options.settled_byte (options : Options) (p : UInt8) :
    (Status.settled ⟨p⟩ options.config.overflow).byte =
      (p &&& 0x3C) ||| 0x02 ||| if options.overflow then 0 else p &&& 0x40 := by
  cases given : options.overflow <;> simp [Status.settled,config,given]

theorem Options.demo_stops (options : Options) : ∃ bus : Bus (Generator UInt64),
    (bus.read 0x0200).1 = 0x15 ∧ Machine.Stops (options.started demoRom) 518 (.ok 518)
      ⟨⟨0x15,0,streamByte options.seed 8196,streamByte options.seed 8197,0x800E,
        Status.settled ⟨streamByte options.seed 8198⟩ options.config.overflow,false⟩,
        bus,options.config⟩ := by
  obtain ⟨a,x,ram,rest,started⟩ := options.started_eq (Nat.le_of_eq size_demoRom)
  let bus : Bus (Generator UInt64) := ⟨⟨ram,.zero _,romOf demoRom⟩,rest⟩
  have holds : HoldsDemo bus := by simp only [HoldsDemo,bus]
  have halts := options.started_halts (Nat.le_of_eq size_demoRom)
  rw [started] at halts
  refine ⟨bus.write 0x0200 0x15,?_,?_⟩
  · have stored : (bus.write 0x0200 0x15).memory.peek 0x0200 = some 0x15 := by
      rw [Bus.write_memory,Memory.peek_poke,if_pos (by decide)]
    rw [Bus.read,stored]
  · have target : (Memory.mk ram (.zero _) (romOf demoRom)).resetTarget = 0x8000 := holds.resetTarget_eq
    rw [started,target]
    exact holds.stops options.config a x _ _ _ halts

-- For every seed the program ends after 518 instructions and its result is in A and in memory.
-- Under a smaller limit it is cut short, and the console is shown as it is then.
theorem demo_report (seed limit : UInt64) (overflow : Bool) (contents : Except String (Array UInt8)) :
    let options : Options := ⟨none,seed,limit,overflow⟩
    let report := Request.report (.run options) contents
    let y := (streamByte seed 8196).toNat
    let sp := (streamByte seed 8197).toNat
    let p := streamByte seed 8198
    let status := (p &&& 0x3C) ||| 0x02 ||| if overflow then 0 else p &&& 0x40
    let advance (word : UInt64) : UInt64 :=
      let word := word ^^^ (word <<< 13)
      let word := word ^^^ (word >>> 7)
      word ^^^ (word <<< 17)
    (518 ≤ limit.toNat → report =
      ⟨0,String.join (["A: 0x15","X: 0x00","Y: 0x" ++ positional 16 2 y,"SP: 0x" ++ positional 16 2 sp,
        "PC: 0x800E","P (flags): 0b" ++ positional 2 8 status.toNat,"mem[0x0200]: 0x15",
        "halted after 518 instructions"].map (· ++ "\n")),""⟩) ∧
    (limit.toNat < 518 → ∃ final,Machine.Runs (options.started demoRom) limit.toNat final ∧
      let r := final.registers
      report =
        ⟨1,String.join (["A: 0x" ++ positional 16 2 r.a.toNat,"X: 0x" ++ positional 16 2 r.x.toNat,
            "Y: 0x" ++ positional 16 2 r.y.toNat,"SP: 0x" ++ positional 16 2 r.sp.toNat,
            "PC: 0x" ++ positional 16 4 r.pc.toNat,"P (flags): 0b" ++ positional 2 8 r.p.byte.toNat,
            "mem[0x0200]: 0x" ++ positional 16 2 (final.bus.read 0x0200).1.toNat].map (· ++ "\n")),
          "Error: cpu still running after " ++ plain limit.toNat ++ " instructions\n"⟩) ∧
    ∀ i,streamByte seed i = ((advance^[i + 1] (max seed 1)) >>> 24).toUInt8 := by
  intro options report y sp p status advance
  have asked : report = .ofRun (options.finished demoRom) := by
    rw [← options.report_fits (Nat.le_of_eq size_demoRom)]
    simp only [report,options,Request.report]
  obtain ⟨bus,stored,stops⟩ := options.demo_stops
  refine ⟨?_,?_,streamByte_eq seed⟩
  · intro enough
    have finished : options.finished demoRom = (.ok 518,_) := stops.runFor enough
    have result : positional 16 2 (0x15 : UInt8).toNat = "15" := by decide
    have zero : positional 16 2 (0x00 : UInt8).toNat = "00" := by decide
    have pc : positional 16 4 (0x800E : UInt16).toNat = "800E" := by decide
    have count : plain 518 = "518" := by decide
    rw [asked,finished,Report.ofRun_ok (stateLines_eq _ _)]
    simp only [stored,options.settled_byte,result,zero,pc,count]
    rfl
  · intro short
    let m := options.started demoRom
    have path : Machine.Runs m limit.toNat (m.after limit.toNat) := by
      cases stops with
      | halted path _ => exact path.take (Nat.le_of_lt_succ short)
    have finished : options.finished demoRom = (.error (.limitReached limit.toNat),_) := path.runFor
    refine ⟨_,path,?_⟩
    rw [asked,finished,Report.ofRun_error (stateLines_eq _ _),lines_limitReached]

end CommandLine

end Console6502
