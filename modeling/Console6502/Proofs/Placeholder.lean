import Mathlib.Data.List.Nodup
import Console6502.Proofs.Draws
import Console6502.Proofs.Runs

-- Every read of a step, in order, and the few of them that the source answers.
namespace Console6502

def streamCells (pc : UInt16) (count : Nat) : List UInt32 :=
  (List.range count).map fun i => (pc + UInt16.ofNat i).toUInt32

@[simp] theorem streamCells_zero (pc : UInt16) : streamCells pc 0 = [] := rfl

@[simp] theorem streamCells_succ (pc : UInt16) (count : Nat) :
    streamCells pc (count + 1) = pc.toUInt32 :: streamCells (pc + 1) count := by
  have shift (i : Nat) : pc + UInt16.ofNat (i + 1) = pc + 1 + UInt16.ofNat i := by
    rw [UInt16.ofNat_add,UInt16.add_assoc,UInt16.add_comm (UInt16.ofNat i)]
    rfl
  simp only [streamCells,List.range_succ_eq_map,List.map_cons,List.map_map,Function.comp_def,
    Nat.succ_eq_add_one,shift]
  rw [show UInt16.ofNat 0 = 0 from rfl,UInt16.add_zero]

variable {σ : Type}

section Cells

variable [ByteSource σ]

namespace Mode

def pointerCells (mode : Mode) (r : Registers) (bus : Bus σ) : List UInt32 :=
  match mode with
  | .indirect =>
    let pointer := (r.fetchWord.run bus).1.1.toUInt32
    [pointer,pointer + 1]
  | _ => []

def zeroPageCells (mode : Mode) (r : Registers) (bus : Bus σ) : List UInt32 :=
  match mode with
  | .indexedIndirect =>
    let base := (r.fetchByte.run bus).1.1 + r.x
    [base.toUInt32,(base + 1).toUInt32]
  | .indirectIndexed =>
    let base := (r.fetchByte.run bus).1.1
    [base.toUInt32,(base + 1).toUInt32]
  | _ => []

theorem reads_resolve (mode : Mode) (r : Registers) (bus : Bus σ) :
    ((mode.resolve r).reads bus).map Prod.fst =
      streamCells r.pc mode.operandLength.toNat ++ mode.pointerCells r bus ++ mode.zeroPageCells r bus := by
  cases mode <;>
    simp [resolve,operandLength,pointerCells,zeroPageCells,Registers.fetchByte,Registers.fetchWord,
      Registers.advance,zeroPagePointer,Transaction.reads_fetchWord]

end Mode

namespace Action

def dataCells (action : Action) (operand : Operand) : List UInt32 :=
  match action,operand with
  | .load _,.address place | .combine _,.address place | .testBits,.address place => [place]
  | .add,.address place | .subtract,.address place | .compare _,.address place => [place]
  | .modify _,.address place => [place]
  | _,_ => []

-- What is read beside the operand: the top of the stack, and the vector of an interrupt.
def innerCells (action : Action) (config : Config) (r : Registers) : List UInt32 :=
  match action with
  | .pullAccumulator | .pullStatus => [stackCell (r.sp + 1)]
  | .leave => [stackCell (r.sp + 1),stackCell (r.sp + 2)]
  | .leaveInterrupt => [stackCell (r.sp + 1),stackCell (r.sp + 2),stackCell (r.sp + 3)]
  | .enterBreak =>
    match config.onBreak with
    | .halt => []
    | .interrupt => [interruptVector,interruptVector + 1]
  | _ => []

theorem reads_perform (action : Action) (config : Config) (operand : Operand) (r : Registers)
    (bus : Bus σ) :
    ((action.perform config operand r).reads bus).map Prod.fst =
      action.dataCells operand ++ action.innerCells config r := by
  have second : r.sp + 1 + 1 = r.sp + 2 := by grind
  have third : r.sp + 2 + 1 = r.sp + 3 := by grind
  cases action with
  | load | combine | testBits | add | subtract | compare =>
    cases operand <;> simp [perform,dataCells,innerCells,Operand.value]
  | store | branch | jump => cases operand <;> simp [perform,dataCells,innerCells]
  | call => cases operand <;> simp [perform,dataCells,innerCells,Registers.pushWord,Registers.push]
  | modify => cases operand <;> simp [perform,dataCells,innerCells,Registers.modifyCell]
  | enterBreak =>
    cases rule : config.onBreak <;>
      simp [perform,dataCells,innerCells,rule,Registers.enterBreak,Registers.pushWord,
        Registers.pushStatus,Registers.push,Transaction.reads_fetchWord]
  | _ =>
    simp [perform,dataCells,innerCells,Registers.push,Registers.pull,Registers.pushStatus,
      Registers.pullStatus,Registers.pullWord,second,third]

end Action

end Cells

def Instruction.readsData : Instruction → Bool
  | .lda | .ldx | .ldy | .and | .ora | .eor | .bit | .adc | .sbc | .cmp | .cpx | .cpy => true
  | .asl | .lsr | .rol | .ror | .inc | .dec => true
  | _ => false

def Prepared.dataCells (p : Prepared σ) : List UInt32 :=
  match p.operand with
  | .address place => if p.opcode.instruction.readsData then [place] else []
  | _ => []

theorem Prepared.action_dataCells (p : Prepared σ) :
    p.opcode.instruction.action.dataCells p.operand = p.dataCells := by
  obtain ⟨⟨instruction,mode⟩,operand,r,bus⟩ := p
  cases operand <;> cases instruction <;> rfl

namespace Machine

variable [ByteSource σ] {m : Machine σ} {p : Prepared σ}

def reads (m : Machine σ) : List Read := (m.registers.step m.config).reads m.bus

def drawn (m : Machine σ) : List UInt8 := (m.registers.step m.config).drawn m.bus

-- An undocumented byte is an instruction of length one.
def codeCells (m : Machine σ) : List UInt32 :=
  streamCells m.registers.pc <|
    match decode m.fetched.1 with
    | some opcode => opcode.length.toNat
    | none => 1

def pointerCells (m : Machine σ) : List UInt32 :=
  match decode m.fetched.1 with
  | some ⟨.jmp,.indirect⟩ =>
    let pointer := ((m.registers.advance 1).fetchWord.run m.fetched.2).1.1.toUInt32
    [pointer,pointer + 1]
  | _ => []

def dataCells (m : Machine σ) : List UInt32 :=
  match m.prepare with
  | some p => p.dataCells
  | none => []

theorem pointerCells_eq {opcode : Opcode} (known : decode m.fetched.1 = some opcode) :
    m.pointerCells = opcode.mode.pointerCells (m.registers.advance 1) m.fetched.2 := by
  have form := decode_form known
  obtain ⟨instruction,mode⟩ := opcode
  unfold pointerCells Mode.pointerCells
  rw [known]
  cases mode <;> cases instruction <;> first | rfl | simp [Instruction.forms] at form

theorem codeCells_eq {opcode : Opcode} (known : decode m.fetched.1 = some opcode) :
    m.codeCells =
      m.registers.pc.toUInt32 :: streamCells (m.registers.pc + 1) opcode.mode.operandLength.toNat := by
  have length : opcode.length.toNat = opcode.mode.operandLength.toNat + 1 := by
    unfold Opcode.length
    cases opcode.mode <;> rfl
  unfold codeCells
  rw [known]
  dsimp only
  rw [length,streamCells_succ]

theorem reads_performed (found : m.prepare = some p) :
    m.reads = (m.registers.pc.toUInt32,m.fetched.1) ::
      ((p.opcode.mode.resolve (m.registers.advance 1)).reads m.fetched.2 ++
        (p.opcode.instruction.action.perform m.config p.operand p.registers).reads p.bus) := by
  unfold prepare at found
  split at found
  · rename_i ready
    obtain ⟨opcode,known,rfl⟩ := Option.map_eq_some_iff.mp found
    simp only [fetched] at known ⊢
    simp only [reads,Registers.step,ready,Bool.not_true,Bool.false_eq_true,if_false,
      Transaction.reads_bind,Transaction.reads_fetch,Transaction.reads_log,Transaction.reads_pure,
      Transaction.run_fetch,Transaction.run_log,known,List.append_nil,List.nil_append,List.cons_append]
  · cases found

theorem reads_prepared (found : m.prepare = some p) :
    m.reads.map Prod.fst = m.codeCells ++ m.pointerCells ++
      p.opcode.mode.zeroPageCells (m.registers.advance 1) m.fetched.2 ++ m.dataCells ++
      p.opcode.instruction.action.innerCells m.config p.registers := by
  have facts := prepares found
  have data : m.dataCells = p.dataCells := by simp only [dataCells,found]
  rw [reads_performed found,codeCells_eq facts.known,pointerCells_eq facts.known,data,
    ← p.action_dataCells,List.map_cons,List.map_append,Mode.reads_resolve,Action.reads_perform]
  simp only [List.cons_append,List.append_assoc]
  rfl

theorem reads_undocumented (ready : m.registers.ready = true) (unknown : decode m.fetched.1 = none) :
    m.reads.map Prod.fst = m.codeCells ∧ m.pointerCells = [] := by
  have code : m.codeCells = [m.registers.pc.toUInt32] := by
    unfold codeCells
    rw [unknown]
    exact streamCells_succ _ 0
  have pointer : m.pointerCells = [] := by
    unfold pointerCells
    rw [unknown]
  rw [code]
  refine ⟨?_,pointer⟩
  simp only [fetched] at unknown
  simp only [reads,Registers.step,ready,unknown,Bool.not_true,Bool.false_eq_true,if_false,
    Transaction.reads_bind,Transaction.reads_fetch,Transaction.reads_log,Transaction.reads_pure,
    Transaction.run_fetch]
  rfl

end Machine

def hits (cells : List UInt32) : Nat :=
  if 0x2000 ∈ cells.map fun cell => cell.toNat % 65536 then 1 else 0

theorem hits_le (cells : List UInt32) : hits cells ≤ 1 := by
  unfold hits
  split <;> omega

-- Cells that differ modulo 65536 meet the register once at most.
theorem countP_eq_hits {cells : List UInt32} (apart : (cells.map fun cell => cell.toNat % 65536).Nodup) :
    cells.countP (fun cell => cell.toNat % 65536 = 0x2000) = hits cells := by
  have once : (cells.map fun cell => cell.toNat % 65536).count 0x2000 = hits cells := apart.count
  rw [← once,List.count_eq_countP,List.countP_map]
  rfl

theorem countP_eq_zero {cells : List UInt32} (apart : ∀ cell ∈ cells,cell.toNat % 65536 ≠ 0x2000) :
    cells.countP (fun cell => cell.toNat % 65536 = 0x2000) = 0 := by
  rw [List.countP_eq_zero]
  intro cell member
  simpa using apart cell member

theorem streamCells_nodup (pc : UInt16) {count : Nat} (short : count ≤ 65536) :
    ((streamCells pc count).map fun cell => cell.toNat % 65536).Nodup := by
  rw [streamCells,List.map_map]
  refine List.nodup_range.map_on ?_
  intro left first right second same
  rw [List.mem_range] at first second
  have bound := pc.toNat_lt
  simp only [Function.comp_apply,UInt16.toNat_toUInt32,UInt16.toNat_add,UInt16.toNat_ofNat'] at same
  omega

theorem pointer_nodup (pointer : UInt16) :
    ([pointer.toUInt32,pointer.toUInt32 + 1].map fun cell => cell.toNat % 65536).Nodup := by
  have bound := pointer.toNat_lt
  simp [UInt32.toNat_add]
  omega

theorem Mode.zeroPageCells_apart [ByteSource σ] {mode : Mode} {r : Registers} {bus : Bus σ}
    {cell : UInt32} (member : cell ∈ mode.zeroPageCells r bus) : cell.toNat % 65536 ≠ 0x2000 := by
  have low (base : UInt8) : base.toUInt32.toNat % 65536 ≠ 0x2000 := by
    have := base.toNat_lt
    rw [UInt8.toNat_toUInt32]
    omega
  cases mode with
  | indexedIndirect | indirectIndexed =>
    simp only [zeroPageCells,List.mem_cons,List.not_mem_nil,or_false] at member
    rcases member with rfl | rfl <;> exact low _
  | _ => cases member

theorem Action.innerCells_apart {action : Action} {config : Config} {r : Registers} {cell : UInt32}
    (member : cell ∈ action.innerCells config r) : cell.toNat % 65536 ≠ 0x2000 := by
  have stack (pointer : UInt8) : (stackCell pointer).toNat % 65536 ≠ 0x2000 := by
    have := pointer.toNat_lt
    rw [toNat_stackCell]
    omega
  cases action with
  | enterBreak =>
    cases rule : config.onBreak with
    | halt => simp [innerCells,rule] at member
    | interrupt =>
      simp only [innerCells,rule,List.mem_cons,List.not_mem_nil,or_false] at member
      rcases member with rfl | rfl <;> decide
  | pullAccumulator | pullStatus | leave | leaveInterrupt =>
    simp only [innerCells,List.mem_cons,List.not_mem_nil,or_false] at member
    rcases member with rfl | rfl | rfl <;> exact stack _
  | _ => cases member

namespace Machine

variable [ByteSource σ] {m : Machine σ}

theorem step_reads (ready : m.registers.ready = true) :
    ∃ zeroPage inner,
      m.reads.map Prod.fst = m.codeCells ++ m.pointerCells ++ zeroPage ++ m.dataCells ++ inner ∧
      ∀ cell ∈ zeroPage ++ inner,cell.toNat % 65536 ≠ 0x2000 := by
  rcases m.step_cases with ⟨idle,_⟩ | ⟨_,unknown,unprepared⟩ | ⟨p,found⟩
  · rw [ready] at idle
    cases idle
  · obtain ⟨code,pointer⟩ := reads_undocumented ready unknown
    have data : m.dataCells = [] := by simp only [dataCells,unprepared]
    exact ⟨[],[],by simp [code,pointer,data],by simp⟩
  · refine ⟨_,_,reads_prepared found,?_⟩
    intro cell member
    rcases List.mem_append.mp member with first | second
    · exact Mode.zeroPageCells_apart first
    · exact Action.innerCells_apart second

theorem reads_idle (idle : m.registers.ready = false) : m.reads = [] := by
  simp [reads,Registers.step,idle]

theorem length_drawn (m : Machine σ) :
    m.drawn.length = (m.reads.map Prod.fst).countP fun cell => cell.toNat % 65536 = 0x2000 := by
  rw [drawn,Transaction.drawn,List.length_map,← List.countP_eq_length_filter,List.countP_map]
  rfl

theorem codeCells_nodup (m : Machine σ) :
    (m.codeCells.map fun cell => cell.toNat % 65536).Nodup := by
  apply streamCells_nodup
  split
  · exact Nat.le_of_lt (UInt16.toNat_lt _)
  · decide

theorem pointerCells_nodup (m : Machine σ) :
    (m.pointerCells.map fun cell => cell.toNat % 65536).Nodup := by
  unfold pointerCells
  split
  · exact pointer_nodup _
  · exact List.nodup_nil

theorem dataCells_nodup (m : Machine σ) :
    (m.dataCells.map fun cell => cell.toNat % 65536).Nodup := by
  unfold dataCells Prepared.dataCells
  repeat' split
  all_goals simp

theorem pointerCells_or_dataCells (m : Machine σ) : m.pointerCells = [] ∨ m.dataCells = [] := by
  unfold dataCells
  cases found : m.prepare with
  | none => exact .inr rfl
  | some p =>
    have known := (prepares found).known
    unfold pointerCells
    rw [known]
    obtain ⟨⟨instruction,mode⟩,operand,r,bus⟩ := p
    cases instruction with
    | jmp => cases operand <;> exact .inr rfl
    | _ => exact .inl rfl

theorem draws_exactly (ready : m.registers.ready = true) :
    m.drawn.length = hits m.codeCells + hits m.pointerCells + hits m.dataCells := by
  obtain ⟨zeroPage,inner,shown,apart⟩ := step_reads ready
  have none := countP_eq_zero apart
  rw [List.countP_append] at none
  rw [length_drawn,shown]
  simp only [List.countP_append]
  rw [countP_eq_hits m.codeCells_nodup,countP_eq_hits m.pointerCells_nodup,
    countP_eq_hits m.dataCells_nodup]
  omega

theorem draws_at_most_two (m : Machine σ) : m.drawn.length ≤ 2 := by
  cases ready : m.registers.ready with
  | false => simp [length_drawn,reads_idle ready]
  | true =>
    have code := hits_le m.codeCells
    have pointer := hits_le m.pointerCells
    have data := hits_le m.dataCells
    rw [draws_exactly ready]
    rcases m.pointerCells_or_dataCells with none | none
    · have zero : hits m.pointerCells = 0 := by rw [none]; rfl
      omega
    · have zero : hits m.dataCells = 0 := by rw [none]; rfl
      omega

def drawnIn (m : Machine σ) (count : Nat) : List UInt8 :=
  (List.range count).flatMap fun i => (m.after i).drawn

theorem drawnIn_succ (m : Machine σ) (count : Nat) :
    m.drawnIn (count + 1) = m.drawnIn count ++ (m.after count).drawn := by
  simp [drawnIn,List.range_succ]

theorem step_yields (m : Machine σ) : Yields m.bus.source m.drawn m.step.2.bus.source :=
  (m.registers.step m.config).run_yields m.bus

theorem after_yields (m : Machine σ) (count : Nat) :
    Yields m.bus.source (m.drawnIn count) (m.after count).bus.source := by
  induction count with
  | zero => exact .nil
  | succ count ih =>
    rw [drawnIn_succ,after_succ]
    exact ih.append (m.after count).step_yields

variable {τ : Type} [ByteSource τ]

def withSource (m : Machine σ) (other : τ) : Machine τ := ⟨m.registers,m.bus.withSource other,m.config⟩

variable {other rest : τ} {count : Nat}

theorem step_withSource (same : Yields other m.drawn rest) :
    (m.withSource other).step = (m.step.1,m.step.2.withSource rest) := by
  have ran := Transaction.run_withSource same
  simp only [step,withSource,ran]

theorem after_withSource (same : Yields other (m.drawnIn count) rest) :
    (m.withSource other).after count = (m.after count).withSource rest := by
  induction count generalizing rest with
  | zero =>
    cases same
    rfl
  | succ count ih =>
    rw [drawnIn_succ] at same
    obtain ⟨middle,before,last⟩ := same.split
    rw [after_succ,after_succ,ih before,step_withSource last]

theorem drawnIn_prefix {earlier : Nat} (within : earlier ≤ count)
    (same : Yields other (m.drawnIn count) rest) : ∃ left,Yields other (m.drawnIn earlier) left := by
  induction within generalizing rest with
  | refl => exact ⟨rest,same⟩
  | step _ ih =>
    rw [drawnIn_succ] at same
    obtain ⟨middle,before,_⟩ := same.split
    exact ih before

-- A run sees of its source the bytes that it draws and nothing else.
theorem replay (same : Yields other (m.drawnIn count) rest) {i : Nat} (within : i ≤ count) :
    (∃ left,(m.withSource other).after i = (m.after i).withSource left) ∧
    (i < count → ((m.withSource other).after i).step.1 = (m.after i).step.1) := by
  obtain ⟨left,before⟩ := drawnIn_prefix within same
  refine ⟨⟨left,after_withSource before⟩,?_⟩
  intro inside
  obtain ⟨_,through⟩ := drawnIn_prefix (Nat.succ_le_of_lt inside) same
  rw [drawnIn_succ] at through
  obtain ⟨middle,first,second⟩ := through.split
  rw [after_withSource first,step_withSource second]

-- A step draws for the instruction, then for the pointer of an indirect jump, then for its
-- data, and only where these meet the placeholder register.
theorem draws_only_at_placeholder (m : Machine σ) :
    (m.registers.ready = true →
      (∃ zeroPage inner,
        m.reads.map Prod.fst = m.codeCells ++ m.pointerCells ++ zeroPage ++ m.dataCells ++ inner ∧
        ∀ cell ∈ zeroPage ++ inner,cell.toNat % 65536 ≠ 0x2000) ∧
      m.drawn.length = hits m.codeCells + hits m.pointerCells + hits m.dataCells ∧
      m.drawn.length ≤ 2) ∧
    m.drawn = (m.reads.filter fun read => read.1.toNat % 65536 = 0x2000).map Prod.snd ∧
    (∀ count,(draw (m.drawnIn count).length m.bus.source).1.toList = m.drawnIn count ∧
      (m.after count).bus.source = (draw (m.drawnIn count).length m.bus.source).2) ∧
    (∀ (τ : Type) [ByteSource τ] (other : τ) (count : Nat),
      (draw (m.drawnIn count).length other).1 = (draw (m.drawnIn count).length m.bus.source).1 →
      ∀ i,i ≤ count →
        ((m.withSource other).after i).registers = (m.after i).registers ∧
        ((m.withSource other).after i).bus.memory = (m.after i).bus.memory ∧
        (i < count → ((m.withSource other).after i).step.1 = (m.after i).step.1)) ∧
    (∀ (τ : Type) [ByteSource τ] (other : τ) (count : Nat),m.drawnIn count = [] →
      ∀ i,i ≤ count →
        ((m.withSource other).after i).registers = (m.after i).registers ∧
        ((m.withSource other).after i).bus.memory = (m.after i).bus.memory ∧
        (i < count → ((m.withSource other).after i).step.1 = (m.after i).step.1)) := by
  have indistinct {τ : Type} [ByteSource τ] {other rest : τ} {count i : Nat}
      (same : Yields other (m.drawnIn count) rest) (within : i ≤ count) :
      ((m.withSource other).after i).registers = (m.after i).registers ∧
      ((m.withSource other).after i).bus.memory = (m.after i).bus.memory ∧
      (i < count → ((m.withSource other).after i).step.1 = (m.after i).step.1) := by
    obtain ⟨⟨left,state⟩,answers⟩ := replay same within
    rw [state]
    rw [state] at answers
    exact ⟨rfl,rfl,answers⟩
  refine ⟨fun ready => ⟨step_reads ready,draws_exactly ready,m.draws_at_most_two⟩,rfl,?_,?_,?_⟩
  · intro count
    obtain ⟨bytes,left⟩ := yields_iff.mp (m.after_yields count)
    exact ⟨bytes,left.symm⟩
  · intro τ _ other count same i within
    have given := (yields_iff.mp (m.after_yields count)).1
    rw [← same] at given
    exact indistinct (yields_iff.mpr ⟨given,rfl⟩) within
  · intro τ _ other count silent i within
    have same : Yields other (m.drawnIn count) other := by
      rw [silent]
      exact .nil
    exact indistinct same within

end Machine

end Console6502
