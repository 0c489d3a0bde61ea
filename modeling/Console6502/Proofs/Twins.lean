import Console6502.Proofs.Calls
import Console6502.Proofs.PowerOn

-- Two consoles over different sources with the same bytes to come. No call tells them apart,
-- and both take the same number of bytes.
namespace Console6502

variable {α σ τ : Type} [ByteSource σ] [ByteSource τ] {s s' : σ} {t t' : τ} {bytes first second : List UInt8}

-- However many bytes are asked for, the two sources give the same.
def SameBytes (s : σ) (t : τ) : Prop := ∀ count,(draw count s).1 = (draw count t).1

theorem SameBytes.symm (same : SameBytes s t) : SameBytes t s := fun count => (same count).symm

theorem SameBytes.unique (same : SameBytes s t) (left : Yields s first s') (right : Yields t second t')
    (lengths : first.length = second.length) : first = second := by
  calc first
      = (draw first.length s).1.toList := (yields_iff.mp left).1.symm
    _ = (draw first.length t).1.toList := by rw [same]
    _ = (draw second.length t).1.toList := by rw [lengths]
    _ = second := (yields_iff.mp right).1

theorem SameBytes.later (same : SameBytes s t) (left : Yields s bytes s') (right : Yields t bytes t') :
    SameBytes s' t' := by
  intro count
  have one := left.append (yields_draw count s')
  have two := right.append (yields_draw count t')
  have whole := same.unique one two (by simp)
  exact Vector.toList_inj.mp (List.append_cancel_left whole)

-- The same bytes lead from `s` to one source and from `t` to the other.
def Abreast (s : σ) (t : τ) (left : σ) (right : τ) : Prop :=
  ∃ bytes,Yields s bytes left ∧ Yields t bytes right

theorem Abreast.start (s : σ) (t : τ) : Abreast s t s t := ⟨[],.nil,.nil⟩

theorem Abreast.symm {left : σ} {right : τ} (abreast : Abreast s t left right) : Abreast t s right left := by
  obtain ⟨bytes,one,two⟩ := abreast
  exact ⟨bytes,two,one⟩

theorem Abreast.draws {left : σ} {right : τ} (same : SameBytes s t) (abreast : Abreast s t left right)
    (one : Yields left first s') (two : Yields right second t') (lengths : first.length = second.length) :
    first = second ∧ Abreast s t s' t' := by
  obtain ⟨before,left,right⟩ := abreast
  have equal := (same.later left right).unique one two lengths
  refine ⟨equal,before ++ first,left.append one,?_⟩
  rw [equal]
  exact right.append two

structure Bus.Twins (s : σ) (t : τ) (left : Bus σ) (right : Bus τ) : Prop where
  memory : left.memory = right.memory
  source : Abreast s t left.source right.source

structure Machine.Twins (s : σ) (t : τ) (left : Machine σ) (right : Machine τ) : Prop where
  registers : left.registers = right.registers
  config : left.config = right.config
  bus : left.bus.Twins s t right.bus

def Together (s : σ) (t : τ) (left : α × Machine σ) (right : α × Machine τ) : Prop :=
  left.1 = right.1 ∧ left.2.Twins s t right.2

theorem Together.intro {answer answer' : α} {left : Machine σ} {right : Machine τ}
    (same : answer = answer') (twins : left.Twins s t right) :
    Together s t (answer,left) (answer',right) := ⟨same,twins⟩

theorem Together.split {left : α × Machine σ} {right : α × Machine τ} (together : Together s t left right) :
    ∃ answer one two,left = (answer,one) ∧ right = (answer,two) ∧ one.Twins s t two := by
  obtain ⟨answer,one⟩ := left
  obtain ⟨_,two⟩ := right
  obtain ⟨rfl,twins⟩ := together
  exact ⟨answer,one,two,rfl,rfl,twins⟩

theorem Together.relabel {β : Type} (change : α → β) {left : Option (α × Machine σ)}
    {right : Option (α × Machine τ)} (together : Option.Rel (Together s t) left right) :
    Option.Rel (Together s t) (left.map fun found => (change found.1,found.2))
      (right.map fun found => (change found.1,found.2)) := by
  cases together with
  | none => exact .none
  | some both => exact .some ⟨congrArg change both.1,both.2⟩

namespace Bus.Twins

variable {left : Bus σ} {right : Bus τ}

theorem symm (twins : left.Twins s t right) : right.Twins t s left :=
  ⟨twins.memory.symm,twins.source.symm⟩

theorem random (same : SameBytes s t) (twins : left.Twins s t right) :
    left.random.1 = right.random.1 ∧ left.random.2.Twins s t right.random.2 := by
  have one : Yields left.source [left.random.1] left.random.2.source := .cons .nil
  have two : Yields right.source [right.random.1] right.random.2.source := .cons .nil
  obtain ⟨equal,source⟩ := twins.source.draws same one two rfl
  exact ⟨List.head_eq_of_cons_eq equal,twins.memory,source⟩

theorem read (same : SameBytes s t) (twins : left.Twins s t right) (address : UInt32) :
    (left.read address).1 = (right.read address).1 ∧
      (left.read address).2.Twins s t (right.read address).2 := by
  rw [Bus.read_eq,Bus.read_eq,twins.memory]
  split
  · exact twins.random same
  · exact ⟨rfl,twins⟩

theorem readWord (same : SameBytes s t) (twins : left.Twins s t right) (address : UInt32) :
    (left.readWord address).1 = (right.readWord address).1 ∧
      (left.readWord address).2.Twins s t (right.readWord address).2 := by
  obtain ⟨low,middle⟩ := twins.read same address
  obtain ⟨high,last⟩ := middle.read same (address + 1)
  simp only [Bus.readWord,low,high]
  exact ⟨trivial,last⟩

theorem write (twins : left.Twins s t right) (address : UInt32) (value : UInt8) :
    (left.write address value).Twins s t (right.write address value) :=
  ⟨congrArg (·.poke address value) twins.memory,twins.source⟩

theorem run (same : SameBytes s t) (twins : left.Twins s t right) (asked : Transaction α) :
    (asked.run left).1 = (asked.run right).1 ∧ (asked.run left).2.Twins s t (asked.run right).2 := by
  induction asked generalizing left right with
  | done result => exact ⟨rfl,twins⟩
  | read address next ih =>
    obtain ⟨byte,later⟩ := twins.read same address
    simp only [Transaction.run,byte]
    exact ih _ later
  | write address value next ih => exact ih (twins.write address value)
  | note event next ih => exact ih twins

theorem refill (twins : left.Twins s t right) {one : Vector UInt8 (2 ^ ramWidth) × σ}
    {two : Vector UInt8 (2 ^ ramWidth) × τ} (equal : one.1 = two.1)
    (source : Abreast s t one.2 two.2) : (left.refill one).Twins s t (right.refill two) := by
  refine ⟨?_,source⟩
  simp only [Bus.refill,twins.memory,equal]

theorem randomizeRam (same : SameBytes s t) (twins : left.Twins s t right) :
    left.randomizeRam.Twins s t right.randomizeRam := by
  have one := yields_draw (2 ^ ramWidth) left.source
  have two := yields_draw (2 ^ ramWidth) right.source
  obtain ⟨equal,source⟩ := twins.source.draws same one two (by simp)
  rw [Bus.randomizeRam,Bus.randomizeRam]
  exact twins.refill (Vector.toList_inj.mp equal) source

end Bus.Twins

-- RAM, the registers and the ready flag have no part in what a power-on leaves.
theorem Machine.powerOn_twins {left : Machine σ} {right : Machine τ} (same : SameBytes s t)
    (config : left.config = right.config) (rom : left.bus.memory.rom = right.bus.memory.rom)
    (saveRam : left.bus.memory.saveRam = right.bus.memory.saveRam)
    (source : Abreast s t left.bus.source right.bus.source) : left.powerOn.Twins s t right.powerOn := by
  obtain ⟨ram,high,low,a,x,y,sp,p,rest,one,shown⟩ := left.powerOn_eq
  obtain ⟨ram',high',low',a',x',y',sp',p',rest',two,shown'⟩ := right.powerOn_eq
  obtain ⟨equal,source⟩ := source.draws same one two (by simp)
  obtain ⟨filled,drawn⟩ := List.append_inj equal (by simp)
  cases Vector.toList_inj.mp filled
  cases drawn
  rw [shown,shown']
  refine ⟨?_,config,?_,source⟩
  · simp only [poweredOn,Memory.resetTarget,rom]
  · simp only [poweredOn,rom,saveRam]

namespace Machine.Twins

variable {left : Machine σ} {right : Machine τ}

theorem symm (twins : left.Twins s t right) : right.Twins t s left :=
  ⟨twins.registers.symm,twins.config.symm,twins.bus.symm⟩

theorem step (same : SameBytes s t) (twins : left.Twins s t right) : Together s t left.step right.step := by
  have ran := twins.bus.run same (left.registers.step left.config)
  simp only [Together,Machine.step,← twins.registers,← twins.config]
  exact ⟨congrArg Prod.fst ran.1,congrArg Prod.snd ran.1,rfl,ran.2⟩

theorem runWithin (same : SameBytes s t) (twins : left.Twins s t right) (spent limit : Nat) :
    Together s t (left.runWithin spent limit) (right.runWithin spent limit) := by
  induction limit generalizing spent left right with
  | zero => exact ⟨rfl,twins⟩
  | succ limit ih =>
    obtain ⟨result,next,next',stepped,stepped',after⟩ := (twins.step same).split
    rw [Machine.runWithin,Machine.runWithin,stepped,stepped']
    cases result with
    | error fault => exact ⟨rfl,after⟩
    | ok outcome =>
      cases outcome with
      | halted => exact ⟨rfl,after⟩
      | running => exact ih after (spent + 1)

theorem runFor (same : SameBytes s t) (twins : left.Twins s t right) (limit : Nat) :
    Together s t (left.runFor limit) (right.runFor limit) := twins.runWithin same 0 limit

theorem stepEach (same : SameBytes s t) (twins : left.Twins s t right) (count : Nat) :
    Together s t (left.stepEach count) (right.stepEach count) := by
  induction count generalizing left right with
  | zero => exact ⟨rfl,twins⟩
  | succ count ih =>
    obtain ⟨result,next,next',stepped,stepped',after⟩ := (twins.step same).split
    rw [Machine.stepEach,Machine.stepEach,stepped,stepped']
    have shown : next.registers = next'.registers := after.registers
    cases result with
    | error fault =>
      refine ⟨?_,after⟩
      dsimp only
      rw [shown]
    | ok outcome =>
      obtain ⟨answers,last⟩ := ih after
      refine ⟨?_,last⟩
      dsimp only at answers ⊢
      rw [shown,answers]

-- A run that returns is a bounded run that stops before its limit, and so does the other one.
theorem returns (same : SameBytes s t) (twins : left.Twins s t right) {ran : Except Fault Nat × Machine σ}
    (returned : left.run = some ran) : ∃ other,right.run = some other ∧ Together s t ran other := by
  obtain ⟨tried,stops⟩ := run_eq_some_iff.mp returned
  have bounded := twins.runFor same tried
  rw [stops.runFor (Nat.le_refl tried)] at bounded
  rcases right.runFor_cases tried with ⟨last,_,limited⟩ | ⟨count,result,last,_,ended,found⟩
  · have contrary := bounded.1
    rw [limited] at contrary
    exact absurd contrary (stops.not_limit tried)
  · rw [found] at bounded
    exact ⟨(result,last),run_eq_some_iff.mpr ⟨count,ended⟩,bounded⟩

theorem run (same : SameBytes s t) (twins : left.Twins s t right) :
    Option.Rel (Together s t) left.run right.run := by
  cases returned : left.run with
  | some ran =>
    obtain ⟨other,found,together⟩ := twins.returns same returned
    rw [found]
    exact .some together
  | none =>
    cases found : right.run with
    | none => exact .none
    | some other =>
      obtain ⟨ran,contrary,_⟩ := twins.symm.returns same.symm found
      rw [returned] at contrary
      cases contrary

theorem withBus (twins : left.Twins s t right) {one : Bus σ} {two : Bus τ} (bus : one.Twins s t two) :
    Machine.Twins s t { left with bus := one } { right with bus := two } :=
  ⟨twins.registers,twins.config,bus⟩

theorem mapRegisters (twins : left.Twins s t right) (change : Registers → Registers) :
    (left.mapRegisters change).Twins s t (right.mapRegisters change) :=
  ⟨congrArg change twins.registers,twins.config,twins.bus⟩

theorem mapMemory (twins : left.Twins s t right) (change : Memory → Memory) :
    (left.mapMemory change).Twins s t (right.mapMemory change) :=
  ⟨twins.registers,twins.config,congrArg change twins.bus.memory,twins.bus.source⟩

theorem load (twins : left.Twins s t right) (loaded : Except Fault Memory) :
    Together s t (left.load loaded) (right.load loaded) := by
  cases loaded with
  | error fault => exact ⟨rfl,twins⟩
  | ok memory => exact ⟨rfl,twins.registers,twins.config,rfl,twins.bus.source⟩

theorem reset (twins : left.Twins s t right) : left.reset.Twins s t right.reset := by
  rw [reset_eq,reset_eq,← twins.registers,← twins.config,← twins.bus.memory]
  exact ⟨rfl,rfl,twins.bus⟩

theorem powerOn (same : SameBytes s t) (twins : left.Twins s t right) :
    left.powerOn.Twins s t right.powerOn :=
  powerOn_twins same twins.config (by rw [twins.bus.memory]) (by rw [twins.bus.memory]) twins.bus.source

end Machine.Twins

namespace Command

variable {left : Machine σ} {right : Machine τ}

theorem perform_twins (same : SameBytes s t) (twins : left.Twins s t right) (command : Command) :
    Together s t (command.perform left) (command.perform right) := by
  cases command with
  | step =>
    obtain ⟨result,next,next',stepped,stepped',after⟩ := (twins.step same).split
    simp only [perform,stepped,stepped']
    cases result <;> exact .intro rfl after
  | runFor limit =>
    obtain ⟨result,after⟩ := twins.runFor same limit
    rw [perform_runFor,perform_runFor]
    exact .intro (congrArg Reply.ofRun result) after
  | stepEach count =>
    obtain ⟨steps,after⟩ := twins.stepEach same count
    simp only [perform]
    exact .intro (congrArg Reply.outcomes steps) after
  | powerOn =>
    simp only [perform]
    exact .intro rfl (twins.powerOn same)
  | reset =>
    simp only [perform]
    exact .intro rfl twins.reset
  | read address =>
    obtain ⟨byte,bus⟩ := twins.bus.read same address
    simp only [perform]
    exact .intro (congrArg Reply.byte byte) (twins.withBus bus)
  | readWord address =>
    obtain ⟨value,bus⟩ := twins.bus.readWord same address
    simp only [perform]
    exact .intro (congrArg Reply.word value) (twins.withBus bus)
  | write address value =>
    simp only [perform]
    exact .intro rfl (twins.withBus (twins.bus.write address value))
  | randomByte =>
    obtain ⟨byte,bus⟩ := twins.bus.random same
    simp only [perform]
    exact .intro (congrArg Reply.byte byte) (twins.withBus bus)
  | randomizeRam =>
    simp only [perform]
    exact .intro rfl (twins.withBus (twins.bus.randomizeRam same))
  | loadRom image | loadSaveRam image =>
    simp only [perform,twins.bus.memory]
    exact twins.load _
  | patchRom | patchRam =>
    simp only [perform]
    exact .intro rfl (twins.mapMemory _)
  | configure | setBit | assignFlags | deriveFlags =>
    simp only [perform]
    exact .intro rfl (twins.mapRegisters _)
  | region | dump | inspect | bit | anyFlag =>
    simp only [perform,twins.registers,twins.bus.memory,twins.config]
    exact .intro rfl twins

end Command

namespace Call

variable {left : Machine σ} {right : Machine τ}

theorem perform_twins (same : SameBytes s t) (twins : left.Twins s t right) (call : Call) :
    Option.Rel (Together s t) (call.perform left) (call.perform right) := by
  cases call with
  | command request => exact .some (request.perform_twins same twins)
  | run => exact Together.relabel Reply.ofRun (twins.run same)
  | resetAndRun => exact Together.relabel Reply.ofRun (twins.reset.run same)
  | powerOnAndRun => exact Together.relabel Reply.ofRun ((twins.powerOn same).run same)

theorem performAll_twins (same : SameBytes s t) (twins : left.Twins s t right) (calls : List Call) :
    Option.Rel (Together s t) (performAll calls left) (performAll calls right) := by
  induction calls generalizing left right with
  | nil => exact .some ⟨rfl,twins⟩
  | cons call rest ih =>
    have first := call.perform_twins same twins
    rw [performAll,performAll]
    generalize call.perform left = found at first ⊢
    generalize call.perform right = other at first ⊢
    cases first with
    | none => exact .none
    | some together =>
      obtain ⟨reply,next,next',rfl,rfl,after⟩ := together.split
      exact Together.relabel (reply :: ·) (ih after)

end Call

end Console6502
