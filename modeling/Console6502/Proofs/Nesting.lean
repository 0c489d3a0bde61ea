import Console6502.Proofs.Footprint
import Console6502.Proofs.StackRing

-- Runs in which every push is matched: subroutines, interrupts and saved bytes nested in
-- one another to any depth that page one has room for.
namespace Console6502

def Instruction.usesStack : Instruction → Bool
  | .jsr | .rts | .rti | .pha | .pla | .php | .plp | .txs | .brk => true
  | _ => false

-- An instruction that pushes, with the one that pulls the same bytes back.
inductive Pair where
  | accumulator
  | status
  | call
  | interrupt
  deriving DecidableEq

namespace Pair

def opening : Pair → Instruction
  | .accumulator => .pha
  | .status => .php
  | .call => .jsr
  | .interrupt => .brk

def closing : Pair → Instruction
  | .accumulator => .pla
  | .status => .plp
  | .call => .rts
  | .interrupt => .rti

def size : Pair → Nat
  | .accumulator | .status => 1
  | .call => 2
  | .interrupt => 3

def pushed (pair : Pair) (r : Registers) : List UInt8 :=
  match pair with
  | .accumulator => [r.a]
  | .status => [r.p.pushed]
  | .call => [highByte (r.pc + 2),lowByte (r.pc + 2)]
  | .interrupt => [highByte (r.pc + 2),lowByte (r.pc + 2),r.p.pushed]

def Took (pair : Pair) (values : List UInt8) (r : Registers) : Prop :=
  match pair,values with
  | .accumulator,[a] => r.a = a
  | .status,[p] => r.p.byte = p
  | .call,[high,low] => r.pc = word low high + 1
  | .interrupt,[high,low,p] => r.pc = word low high ∧ r.p.byte = p
  | _,_ => False

theorem pushed_length (pair : Pair) (r : Registers) : (pair.pushed r).length = pair.size := by
  cases pair <;> rfl

end Pair

variable {σ : Type}

structure Bracket (σ : Type) where
  pair : Pair
  before : Machine σ
  after : Machine σ

def Bracket.Restores (bracket : Bracket σ) : Prop :=
  let before := bracket.before.registers
  let after := bracket.after.registers
  match bracket.pair with
  | .accumulator => after.a = before.a
  | .status => after.p.byte = before.p.byte ||| 0x30
  | .call => after.pc = before.pc + 3
  | .interrupt => after.pc = before.pc + 2 ∧ after.p.byte = before.p.byte ||| 0x30

theorem Bracket.restores_of_took {pair : Pair} {before after : Machine σ}
    (took : pair.Took (pair.pushed before.registers) after.registers) :
    Bracket.Restores ⟨pair,before,after⟩ := by
  cases pair with
  | accumulator => exact took
  | status => exact took.trans (Status.pushed_eq _)
  | call =>
    simp only [Pair.pushed,Pair.Took,word_bytes] at took
    exact took.trans (UInt16.add_assoc _ _ _)
  | interrupt =>
    simp only [Pair.pushed,Pair.Took,word_bytes] at took
    exact ⟨took.1,took.2.trans (Status.pushed_eq _)⟩

namespace Machine

variable [ByteSource σ]

def Performs (m : Machine σ) (instruction : Instruction) (next : Machine σ) : Prop :=
  m.step = (.ok .running,next) ∧ m.instruction = some instruction

-- A step that neither moves the stack pointer nor stores into page one.
structure Plain (m next : Machine σ) : Prop where
  performs : ∃ instruction,m.Performs instruction next ∧ instruction.usesStack = false
  outside : ∀ place,m.storeAddress = some place →
    place.toNat % 65536 < 0x0100 ∨ 0x01FF < place.toNat % 65536

-- A balanced run with its depth in bytes and its brackets, outer ones first.
inductive Balanced : Machine σ → Nat → List (Bracket σ) → Machine σ → Prop where
  | nil {m} : Balanced m 0 [] m
  | plain {m next} (step : m.Plain next) : Balanced m 0 [] next
  | append {m middle last depth further inner later} (first : Balanced m depth inner middle)
      (second : Balanced middle further later last) :
      Balanced m (max depth further) (inner ++ later) last
  | bracket {m start stop last depth inner} (pair : Pair) (opens : m.Performs pair.opening start)
      (body : Balanced start depth inner stop) (closes : stop.Performs pair.closing last) :
      Balanced m (pair.size + depth) (⟨pair,m,last⟩ :: inner) last

variable {m next start stop last : Machine σ}

theorem Performs.ran {instruction : Instruction} (performs : m.Performs instruction next) :
    ∃ p,m.prepare = some p ∧ m.Prepares p ∧ p.opcode.instruction = instruction ∧
      next.registers.ready = true ∧
      (instruction.action.perform m.config p.operand p.registers).run p.bus = (next.registers,next.bus) := by
  obtain ⟨went,shown⟩ := performs
  obtain ⟨p,found,rfl⟩ := Option.map_eq_some_iff.mp shown
  rw [step_prepared found] at went
  obtain ⟨answer,rfl⟩ := Prod.mk.inj went
  refine ⟨p,found,prepares found,rfl,?_,rfl⟩
  by_contra halted
  rw [if_neg halted] at answer
  cases answer

theorem Plain.sp_eq (plain : m.Plain next) : next.registers.sp = m.registers.sp := by
  obtain ⟨instruction,performs,free⟩ := plain.performs
  obtain ⟨p,_,facts,_,_,ran⟩ := performs.ran
  have other : .sp ∉ instruction.action.targets m.config p.operand := by
    cases instruction <;> simp [Instruction.usesStack] at free <;> simp [Instruction.action,Action.targets]
  have kept := Action.perform_get other p.registers p.bus
  rw [ran,facts.registers] at kept
  exact kept

theorem Plain.stacked_eq (plain : m.Plain next) (pointer : UInt8) :
    next.bus.memory.stacked pointer = m.bus.memory.stacked pointer := by
  obtain ⟨instruction,performs,free⟩ := plain.performs
  obtain ⟨p,found,_,rfl,_⟩ := performs.ran
  by_contra changed
  have visible : m.step.2.bus.memory.peek (stackCell pointer) ≠ m.bus.memory.peek (stackCell pointer) := by
    rw [Memory.peek_stackCell,Memory.peek_stackCell,performs.1]
    exact fun same => changed (Option.some.inj same)
  have member := step_changed visible
  simp only [footprint,found,masked_stackCell] at member
  rcases Prepared.footprint_cases member with ⟨pushes,_⟩ | ⟨place,stores,same⟩
  · cases kind : p.opcode.instruction <;> simp_all [Instruction.pushes,Instruction.usesStack]
  · have outside := plain.outside place (by simp only [storeAddress,found,Option.bind_some,stores])
    have inside := congrArg UInt32.toNat same
    rw [toNat_stackCell,toNat_masked] at inside
    have := pointer.toNat_lt
    omega

theorem Performs.opening {pair : Pair} (opens : m.Performs pair.opening start) :
    start.registers.sp = lowered m.registers.sp pair.size ∧
    start.bus.memory = m.bus.memory.pushAll m.registers.sp (pair.pushed m.registers) := by
  obtain ⟨p,_,facts,kind,ready,ran⟩ := opens.ran
  obtain ⟨registers,bus⟩ := Prod.mk.inj ran
  rw [← registers,← bus]
  rw [← registers] at ready
  cases pair with
  | accumulator =>
    simp only [Pair.opening,Instruction.action,Action.perform,Registers.run_push,facts.registers,
      Bus.write_memory,facts.memory]
    exact ⟨rfl,rfl⟩
  | status =>
    simp only [Pair.opening,Instruction.action,Action.perform,Registers.run_pushStatus,facts.registers,
      Bus.write_memory,facts.memory]
    exact ⟨rfl,rfl⟩
  | call =>
    obtain ⟨⟨target,operand⟩,pc⟩ := facts.call_target kind
    simp only [Pair.opening,Instruction.action,operand,Action.perform,Transaction.run_bind,
      Registers.run_pushWord,Transaction.run_pure,pc,Bus.write_memory,facts.memory]
    rw [facts.registers]
    exact ⟨rfl,rfl⟩
  | interrupt =>
    have pc := facts.break_return kind
    cases rule : m.config.onBreak with
    | halt =>
      -- A halting BRK pushes nothing, but the console does not go on after it.
      simp [Pair.opening,Instruction.action,Action.perform,rule,Registers.enterBreak] at ready
    | interrupt =>
      have second : m.registers.sp - 2 = m.registers.sp - 1 - 1 := by grind
      have third : m.registers.sp - 2 - 1 = m.registers.sp - 3 := by grind
      simp only [Pair.opening,Instruction.action,Action.perform,rule,Registers.enterBreak,
        Transaction.run_bind,Transaction.run_pure,Transaction.run_fetchWord,Registers.run_pushWord,
        Registers.run_pushStatus,pc,Bus.readWord_memory,Bus.write_memory,facts.memory]
      rw [facts.registers]
      constructor
      · exact third
      · exact congrArg (Memory.poke _ · _) (congrArg stackCell second)

theorem Performs.closing {pair : Pair} {top : UInt8} (closes : stop.Performs pair.closing last)
    (sp : stop.registers.sp = lowered top pair.size) :
    last.registers.sp = top ∧ last.bus.memory = stop.bus.memory ∧
    pair.Took (stop.bus.memory.topmost top pair.size) last.registers := by
  obtain ⟨p,_,facts,_,_,ran⟩ := closes.ran
  obtain ⟨registers,bus⟩ := Prod.mk.inj ran
  have pointer : p.registers.sp = lowered top pair.size := facts.sp_eq.trans sp
  rw [← registers,← bus]
  cases pair with
  | accumulator =>
    have first : p.registers.sp + 1 = lowered top 0 := by
      rw [pointer]
      exact lowered_raise top 0 1
    simp only [Pair.closing,Instruction.action,Action.perform,Transaction.run_bind,Registers.run_pull,
      Transaction.run_pure,facts.memory,first]
    exact ⟨lowered_zero top,trivial,rfl⟩
  | status =>
    have first : p.registers.sp + 1 = lowered top 0 := by
      rw [pointer]
      exact lowered_raise top 0 1
    simp only [Pair.closing,Instruction.action,Action.perform,Registers.run_pullStatus,facts.memory,first]
    exact ⟨lowered_zero top,trivial,rfl⟩
  | call =>
    have low : p.registers.sp + 1 = lowered top 1 := by
      rw [pointer]
      exact lowered_raise top 1 1
    have high : p.registers.sp + 2 = lowered top 0 := by
      rw [pointer]
      exact lowered_raise top 0 2
    simp only [Pair.closing,Instruction.action,Action.perform,Transaction.run_bind,
      Registers.run_pullWord,Transaction.run_pure,facts.memory,low,high]
    exact ⟨lowered_zero top,trivial,rfl⟩
  | interrupt =>
    have status : p.registers.sp + 1 = lowered top 2 := by
      rw [pointer]
      exact lowered_raise top 2 1
    have low : lowered top 2 + 1 = lowered top 1 := lowered_raise top 1 1
    have high : lowered top 2 + 2 = lowered top 0 := lowered_raise top 0 2
    simp only [Pair.closing,Instruction.action,Action.perform,Transaction.run_bind,
      Registers.run_pullStatus,Registers.run_pullWord,Transaction.run_pure,facts.memory,status,low,high]
    exact ⟨lowered_zero top,trivial,rfl,rfl⟩

namespace Balanced

variable {depth : Nat} {brackets : List (Bracket σ)}

theorem sp_eq (run : m.Balanced depth brackets last) : last.registers.sp = m.registers.sp := by
  induction run with
  | nil => rfl
  | plain step => exact step.sp_eq
  | append _ _ first second => exact second.trans first
  | bracket pair opens _ closes body => exact (closes.closing (body.trans opens.opening.1)).1

theorem sp_inside {pair : Pair} (opens : m.Performs pair.opening start)
    (body : start.Balanced depth brackets stop) : stop.registers.sp = lowered m.registers.sp pair.size :=
  body.sp_eq.trans opens.opening.1

-- The pushes of a bracket stay among the first cells below the pointer, and its body
-- works below them.
theorem stacked_eq (run : m.Balanced depth brackets last) {pointer : UInt8}
    (apart : ∀ i,i < depth → pointer ≠ lowered m.registers.sp i) :
    last.bus.memory.stacked pointer = m.bus.memory.stacked pointer := by
  induction run with
  | nil => rfl
  | plain step => exact step.stacked_eq pointer
  | append first second left right =>
    have before := left fun i inside => apart i (by omega)
    have after := right fun i inside => by
      rw [first.sp_eq]
      exact apart i (by omega)
    exact after.trans before
  | @bracket m start stop last depth inner pair opens body closes within =>
    obtain ⟨sp,memory⟩ := opens.opening
    have lower : ∀ i,i < depth → pointer ≠ lowered start.registers.sp i := by
      intro i inside
      rw [sp,lowered_add]
      exact apart (pair.size + i) (by omega)
    have upper : ∀ i,i < (pair.pushed m.registers).length → pointer ≠ lowered m.registers.sp i := by
      intro i inside
      rw [pair.pushed_length] at inside
      exact apart i (by omega)
    calc last.bus.memory.stacked pointer
        = stop.bus.memory.stacked pointer := by rw [(closes.closing (sp_inside opens body)).2.1]
      _ = start.bus.memory.stacked pointer := within lower
      _ = m.bus.memory.stacked pointer := by rw [memory,Memory.stacked_pushAll_other upper]

theorem took {pair : Pair} (opens : m.Performs pair.opening start)
    (body : start.Balanced depth brackets stop) (closes : stop.Performs pair.closing last)
    (fits : pair.size + depth ≤ 256) : pair.Took (pair.pushed m.registers) last.registers := by
  obtain ⟨sp,memory⟩ := opens.opening
  have live : ∀ i,i < pair.size →
      stop.bus.memory.stacked (lowered m.registers.sp i) = start.bus.memory.stacked (lowered m.registers.sp i) := by
    intro i above
    apply body.stacked_eq
    intro j inside same
    rw [sp,lowered_add,lowered_inj (by omega) (by omega)] at same
    omega
  have room : (pair.pushed m.registers).length ≤ 256 := by
    rw [pair.pushed_length]
    omega
  have shown : stop.bus.memory.topmost m.registers.sp pair.size = pair.pushed m.registers := by
    rw [Memory.topmost_congr live,memory,← pair.pushed_length m.registers]
    exact Memory.topmost_pushAll room
  rw [← shown]
  exact (closes.closing (sp_inside opens body)).2.2

theorem restores (run : m.Balanced depth brackets last) (fits : depth ≤ 256) :
    ∀ bracket ∈ brackets,bracket.Restores := by
  induction run with
  | nil | plain => exact fun _ member => absurd member List.not_mem_nil
  | append _ _ left right =>
    intro bracket member
    rcases List.mem_append.mp member with first | second
    · exact left (by omega) bracket first
    · exact right (by omega) bracket second
  | bracket pair opens body closes within =>
    intro bracket member
    rcases List.mem_cons.mp member with rfl | deeper
    · exact Bracket.restores_of_took (took opens body closes fits)
    · exact within (by omega) bracket deeper

end Balanced

-- A balanced run with room in page one gives the stack pointer back, changes no cell of
-- the page below its depth, and every closing instruction undoes its opening one.
theorem balanced_run_restores {depth : Nat} {brackets : List (Bracket σ)}
    (run : m.Balanced depth brackets last) (fits : depth ≤ 256) :
    last.registers.sp = m.registers.sp ∧
    (∀ pointer,last.bus.memory.peek (stackCell pointer) ≠ m.bus.memory.peek (stackCell pointer) →
      ∃ i,i < depth ∧ pointer = lowered m.registers.sp i) ∧
    ∀ bracket ∈ brackets,bracket.Restores := by
  refine ⟨run.sp_eq,?_,run.restores fits⟩
  intro pointer changed
  by_contra apart
  push Not at apart
  rw [Memory.peek_stackCell,Memory.peek_stackCell,run.stacked_eq apart] at changed
  exact changed rfl

def nestedCall : Machine Constant where
  registers := { a := 0x5A,sp := 0,pc := 0x10,ready := true }
  bus := ⟨Memory.zero.pokeAll [(0x10,0x20),(0x11,0x20),(0x20,0x48),(0x21,0x0A),(0x22,0x68),(0x23,0x60)],⟨0⟩⟩
  config := {}

theorem nestedCall_restores :
    nestedCall.Balanced 3 [⟨.call,nestedCall,nestedCall.after 5⟩,
      ⟨.accumulator,nestedCall.after 1,nestedCall.after 4⟩] (nestedCall.after 5) ∧
    (nestedCall.after 5).registers.sp = nestedCall.registers.sp ∧
    (nestedCall.after 5).registers.pc = nestedCall.registers.pc + 3 ∧
    (nestedCall.after 4).registers.a = (nestedCall.after 1).registers.a := by
  have trace : ∀ count,count < 5 → (nestedCall.after count).step.1 = .ok .running ∧
      (nestedCall.after count).instruction = [.jsr,.pha,.asl,.pla,.rts][count]? := by decide +kernel
  have nowhere : (nestedCall.after 2).storeAddress = none := by decide +kernel
  have performs {instruction : Instruction} (count : Nat) (early : count < 5)
      (listed : [.jsr,.pha,.asl,.pla,.rts][count]? = some instruction) :
      (nestedCall.after count).Performs instruction (nestedCall.after (count + 1)) := by
    obtain ⟨answer,shown⟩ := trace count early
    exact ⟨Prod.ext answer (after_succ count nestedCall).symm,shown.trans listed⟩
  have shift : (nestedCall.after 2).Plain (nestedCall.after 3) := by
    refine ⟨⟨.asl,performs 2 (by omega) rfl,rfl⟩,?_⟩
    rw [nowhere]
    intro place stores
    cases stores
  have saved := Balanced.bracket .accumulator (performs 1 (by omega) rfl) (.plain shift)
    (performs 3 (by omega) rfl)
  have run := Balanced.bracket .call (performs 0 (by omega) rfl) saved (performs 4 (by omega) rfl)
  simp only [after_zero,Nat.reduceAdd] at run
  obtain ⟨sp,_,restored⟩ := balanced_run_restores run (by decide)
  have returned := restored _ List.mem_cons_self
  have kept := restored _ (List.mem_cons_of_mem _ List.mem_cons_self)
  dsimp only [Bracket.Restores] at returned kept
  exact ⟨run,sp,returned,kept⟩

end Machine

end Console6502
