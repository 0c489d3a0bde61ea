import Console6502.Proofs.EffectiveAddress
import Console6502.Proofs.Frame
import Console6502.Proofs.Placeholder

-- Where an instruction finds its operand, told by the bytes that are read on the way to it.
namespace Console6502

abbrev Look : Type := Nat × UInt8

def Read.look (read : Read) : Look := (read.1.toNat % 65536,read.2)

theorem look_cells (reads : List Read) :
    (reads.map Read.look).map Prod.fst = (reads.map Prod.fst).map (·.toNat % 65536) := by
  simp only [List.map_map]
  rfl

def paired (low high : UInt8) : Nat := low.toNat + 256 * high.toNat

def Registers.ahead (r : Registers) (count : Nat) : Nat := (r.pc.toNat + count) % 65536

-- What a mode looks at after the opcode, and the cell to which these bytes and the index
-- registers lead.
inductive Locates (r : Registers) : Mode → List Look → Nat → Prop where
  | zeroPage {base} : Locates r .zeroPage [(r.ahead 1,base)] base.toNat
  | zeroPageX {base} : Locates r .zeroPageX [(r.ahead 1,base)] ((base.toNat + r.x.toNat) % 256)
  | zeroPageY {base} : Locates r .zeroPageY [(r.ahead 1,base)] ((base.toNat + r.y.toNat) % 256)
  | absolute {low high} :
      Locates r .absolute [(r.ahead 1,low),(r.ahead 2,high)] (paired low high)
  | absoluteX {low high} :
      Locates r .absoluteX [(r.ahead 1,low),(r.ahead 2,high)] ((paired low high + r.x.toNat) % 65536)
  | absoluteY {low high} :
      Locates r .absoluteY [(r.ahead 1,low),(r.ahead 2,high)] ((paired low high + r.y.toNat) % 65536)
  | indexedIndirect {base low high pointer} (indexed : pointer = (base.toNat + r.x.toNat) % 256) :
      Locates r .indexedIndirect [(r.ahead 1,base),(pointer,low),((pointer + 1) % 256,high)]
        (paired low high)
  | indirectIndexed {base low high} :
      Locates r .indirectIndexed [(r.ahead 1,base),(base.toNat,low),((base.toNat + 1) % 256,high)]
        ((paired low high + r.y.toNat) % 65536)
  | indirect {low high low' high' pointer} (pointed : pointer = paired low high) :
      Locates r .indirect
        [(r.ahead 1,low),(r.ahead 2,high),(pointer,low'),((pointer + 1) % 65536,high')]
        (paired low' high')

theorem toNat_paired (low high : UInt8) : (word low high).toNat = paired low high := toNat_word low high

section Cells

variable (byte : UInt8) (word : UInt16)

theorem cell_byte : byte.toUInt32.toNat % 65536 = byte.toNat := by
  have := byte.toNat_lt
  rw [UInt8.toNat_toUInt32]
  omega

theorem cell_word : word.toUInt32.toNat % 65536 = word.toNat := by
  rw [UInt16.toNat_toUInt32]
  exact Nat.mod_eq_of_lt word.toNat_lt

theorem cell_sum : (word.toUInt32 + byte.toUInt32).toNat % 65536 = (word.toNat + byte.toNat) % 65536 := by
  rw [UInt32.toNat_add,UInt16.toNat_toUInt32,UInt8.toNat_toUInt32]
  omega

theorem cell_succ : (word.toUInt32 + 1).toNat % 65536 = (word.toNat + 1) % 65536 := by
  rw [UInt32.toNat_add,UInt16.toNat_toUInt32]
  simp

theorem Registers.cell_advance (r : Registers) (count : UInt16) :
    (r.advance count).pc.toUInt32.toNat % 65536 = r.ahead count.toNat := by
  rw [cell_word,advance,UInt16.toNat_add]
  rfl

end Cells

section Looks

variable {σ : Type} [ByteSource σ] (r : Registers) (bus : Bus σ)

theorem fetchByte_looks (count : UInt16) : ∃ byte left,
    (r.advance count).fetchByte.run bus = ((byte,r.advance (count + 1)),left) ∧
    ((r.advance count).fetchByte.reads bus).map Read.look = [(r.ahead count.toNat,byte)] := by
  refine ⟨(bus.read (r.advance count).pc.toUInt32).1,(bus.read (r.advance count).pc.toUInt32).2,?_,?_⟩
  · simp only [Registers.fetchByte,Transaction.run_bind,Transaction.run_fetch,Transaction.run_pure,
      Registers.advance_advance]
  · simp only [Registers.fetchByte,Transaction.reads_bind,Transaction.reads_fetch,Transaction.reads_pure,
      List.append_nil,List.map_cons,List.map_nil,Read.look,r.cell_advance]

theorem fetchWord_looks : ∃ low high left,
    (r.advance 1).fetchWord.run bus = ((word low high,r.advance 3),left) ∧
    ((r.advance 1).fetchWord.reads bus).map Read.look = [(r.ahead 1,low),(r.ahead 2,high)] := by
  obtain ⟨low,middle,ran,looks⟩ := fetchByte_looks r bus 1
  obtain ⟨high,left,ran',looks'⟩ := fetchByte_looks r middle 2
  refine ⟨low,high,left,?_,?_⟩
  · simp only [Registers.fetchWord,Transaction.run_bind,ran,UInt16.reduceAdd,ran',Transaction.run_pure]
  · simp only [Registers.fetchWord,Transaction.reads_bind,ran,UInt16.reduceAdd,Transaction.reads_pure,
      List.append_nil,List.map_append,looks,looks']
    rfl

theorem pointer_looks (pointer : UInt16) : ∃ low high left,
    (Transaction.fetchWord pointer.toUInt32).run bus = (word low high,left) ∧
    ((Transaction.fetchWord pointer.toUInt32).reads bus).map Read.look =
      [(pointer.toNat,low),((pointer.toNat + 1) % 65536,high)] := by
  refine ⟨_,_,_,rfl,?_⟩
  simp only [Transaction.reads_fetchWord,List.map_cons,List.map_nil,Read.look,cell_word,cell_succ]
  rfl

theorem zeroPagePointer_looks (base : UInt8) : ∃ low high left,
    (zeroPagePointer base).run bus = (word low high,left) ∧
    ((zeroPagePointer base).reads bus).map Read.look =
      [(base.toNat,low),((base.toNat + 1) % 256,high)] := by
  refine ⟨_,_,_,rfl,?_⟩
  simp only [zeroPagePointer,Transaction.reads_bind,Transaction.reads_fetch,Transaction.reads_pure,
    Transaction.run_fetch,List.append_nil,List.nil_append,List.cons_append,List.map_cons,List.map_nil,
    Read.look,cell_byte,UInt8.toNat_add]
  rfl

end Looks

namespace Mode

variable {σ : Type} [ByteSource σ] {mode : Mode} {r : Registers} {bus : Bus σ} {place : UInt32}

theorem resolve_locates (found : ((mode.resolve (r.advance 1)).run bus).1.1 = .address place) :
    Locates r mode (((mode.resolve (r.advance 1)).reads bus).map Read.look) (place.toNat % 65536) := by
  cases mode with
  | implied | accumulator | immediate | relative => simp [resolve] at found
  | zeroPage | zeroPageX | zeroPageY =>
    obtain ⟨base,left,ran,looks⟩ := fetchByte_looks r bus 1
    simp only [resolve,Transaction.run_bind,ran,Transaction.run_pure,Operand.address.injEq] at found
    subst found
    simp only [resolve,Transaction.reads_bind,Transaction.reads_pure,List.append_nil,looks,cell_byte,
      UInt8.toNat_add]
    constructor
  | absolute | absoluteX | absoluteY =>
    obtain ⟨low,high,left,ran,looks⟩ := fetchWord_looks r bus
    simp only [resolve,Transaction.run_bind,ran,Transaction.run_pure,Operand.address.injEq] at found
    subst found
    simp only [resolve,Transaction.reads_bind,Transaction.reads_pure,List.append_nil,looks,cell_word,
      cell_sum,toNat_paired]
    constructor
  | indirect =>
    obtain ⟨low,high,left,ran,looks⟩ := fetchWord_looks r bus
    obtain ⟨low',high',left',ran',looks'⟩ := pointer_looks left (word low high)
    simp only [resolve,Transaction.run_bind,ran,ran',Transaction.run_pure,Operand.address.injEq] at found
    subst found
    simp only [resolve,Transaction.reads_bind,ran,Transaction.reads_pure,List.append_nil,List.map_append,
      looks,looks',cell_word,toNat_paired]
    exact .indirect rfl
  | indexedIndirect =>
    obtain ⟨base,left,ran,looks⟩ := fetchByte_looks r bus 1
    obtain ⟨low,high,left',ran',looks'⟩ := zeroPagePointer_looks left (base + r.x)
    have x (count : UInt16) : (r.advance count).x = r.x := rfl
    simp only [resolve,Transaction.run_bind,ran,x,ran',Transaction.run_pure,Operand.address.injEq] at found
    subst found
    simp only [resolve,Transaction.reads_bind,ran,x,Transaction.reads_pure,List.append_nil,
      List.map_append,looks,looks',cell_word,toNat_paired]
    exact .indexedIndirect (UInt8.toNat_add _ _)
  | indirectIndexed =>
    obtain ⟨base,left,ran,looks⟩ := fetchByte_looks r bus 1
    obtain ⟨low,high,left',ran',looks'⟩ := zeroPagePointer_looks left base
    simp only [resolve,Transaction.run_bind,ran,ran',Transaction.run_pure,Operand.address.injEq] at found
    subst found
    simp only [resolve,Transaction.reads_bind,ran,Transaction.reads_pure,List.append_nil,List.map_append,
      looks,looks',cell_sum,toNat_paired]
    exact .indirectIndexed

def inMemory : Mode → Bool
  | .zeroPage | .zeroPageX | .zeroPageY | .absolute | .absoluteX | .absoluteY => true
  | .indirect | .indexedIndirect | .indirectIndexed => true
  | .implied | .accumulator | .immediate | .relative => false

theorem resolve_address (stored : mode.inMemory = true) :
    ∃ place,((mode.resolve r).run bus).1.1 = .address place := by
  cases mode <;> simp [inMemory] at stored <;> simp [resolve]

end Mode

def Instruction.writesData : Instruction → Bool
  | .sta | .stx | .sty | .asl | .lsr | .rol | .ror | .inc | .dec => true
  | _ => false

namespace Prepared

variable {σ : Type} {p : Prepared σ} {byte : UInt8} {target : UInt32}

-- Pulls and BRK have no operand in memory, so nothing but the operand is read there.
theorem innerCells_nil (form : (byte,p.opcode.mode) ∈ p.opcode.instruction.forms)
    (stored : p.opcode.mode.inMemory = true) (config : Config) :
    p.opcode.instruction.action.innerCells config p.registers = [] := by
  obtain ⟨⟨instruction,mode⟩,operand,r,bus⟩ := p
  cases instruction with
  | pla | plp | rts | rti | brk =>
    simp only [Instruction.forms,List.mem_singleton,Prod.mk.injEq] at form
    rw [form.2] at stored
    cases stored
  | _ => rfl

theorem places_eq (form : (byte,p.opcode.mode) ∈ p.opcode.instruction.forms)
    (stored : p.opcode.mode.inMemory = true) (operand : p.operand = .address target)
    (inside : p.opcode.instruction ≠ .jsr) (config : Config) :
    p.opcode.instruction.action.places config p.operand p.registers =
      if p.opcode.instruction.writesData then [target] else [] := by
  obtain ⟨⟨instruction,mode⟩,_,r,bus⟩ := p
  subst operand
  cases instruction with
  | pha | php | brk =>
    simp only [Instruction.forms,List.mem_singleton,Prod.mk.injEq] at form
    rw [form.2] at stored
    cases stored
  | jsr => exact absurd rfl inside
  | _ => rfl

end Prepared

namespace Machine

variable {σ : Type} [ByteSource σ] {m : Machine σ} {p : Prepared σ} {opcode : Opcode}

theorem prepare_locates (found : m.prepare = some p) (stored : p.opcode.mode.inMemory = true) :
    ∃ looks target,p.operand = .address target ∧
      Locates m.registers p.opcode.mode looks (target.toNat % 65536) ∧
      m.reads.map Read.look = (m.registers.pc.toNat,m.fetched.1) :: (looks ++
        ((p.opcode.instruction.action.perform m.config p.operand p.registers).reads p.bus).map Read.look) := by
  obtain ⟨target,resolved⟩ : ∃ target,
      ((p.opcode.mode.resolve (m.registers.advance 1)).run m.fetched.2).1.1 = .address target :=
    Mode.resolve_address stored
  refine ⟨_,target,(prepares found).operand.trans resolved,Mode.resolve_locates resolved,?_⟩
  rw [reads_performed found,List.map_cons,List.map_append,Read.look,cell_word]

theorem data_looks (found : m.prepare = some p) (stored : p.opcode.mode.inMemory = true)
    {target : UInt32} (operand : p.operand = .address target) :
    (((p.opcode.instruction.action.perform m.config p.operand p.registers).reads p.bus).map
      Read.look).map Prod.fst = if p.opcode.instruction.readsData then [target.toNat % 65536] else [] := by
  have form := decode_form (prepares found).known
  have cells := Action.reads_perform p.opcode.instruction.action m.config p.operand p.registers p.bus
  have data : p.dataCells = if p.opcode.instruction.readsData then [target] else [] := by
    simp only [Prepared.dataCells,operand]
  rw [p.action_dataCells,Prepared.innerCells_nil form stored,List.append_nil,data] at cells
  rw [look_cells,cells]
  split <;> rfl

theorem jump_pc (found : m.prepare = some p) (jumps : p.opcode.instruction ∈ [.jmp,.jsr]) {target : UInt32}
    (operand : p.operand = .address target) :
    m.step.2.registers.pc.toNat = target.toNat % 65536 := by
  simp only [List.mem_cons,List.not_mem_nil,or_false] at jumps
  rw [step_prepared found,Prepared.perform,operand]
  rcases jumps with same | same
  · rw [same]
    exact UInt32.toNat_toUInt16 target
  · rw [same]
    simp [Instruction.action,Action.perform]

theorem effectiveAddress_eq (found : m.prepare = some p) {target : UInt32} {address : Nat}
    (operand : p.operand = .address target) (designates : m.effectiveAddress p.opcode.mode = some address) :
    address = target.toNat % 65536 := by
  obtain ⟨⟨place,same,rfl⟩,_⟩ := prepare_address found designates
  rw [operand] at same
  rw [Operand.address.inj same]

theorem zeroPage_indexed (instruction : Instruction) :
    ((∃ byte,decode byte = some ⟨instruction,.zeroPageY⟩) ↔ instruction ∈ [.ldx,.stx]) ∧
    ((∃ byte,decode byte = some ⟨instruction,.zeroPageX⟩) ↔ instruction ∈
      [.lda,.sta,.ldy,.sty,.adc,.sbc,.and,.ora,.eor,.cmp,.asl,.lsr,.rol,.ror,.inc,.dec]) := by
  simp only [decode_eq_some_iff]
  cases instruction <;> simp [Instruction.forms]

-- Before a step touches its operand it reads the bytes that lead to the place and nothing else;
-- at that place it then reads, writes, or does both, as the instruction asks.
theorem operand_at_effective_address (ready : m.registers.ready = true)
    (known : decode m.fetched.1 = some opcode) :
    (opcode.mode.inMemory = true →
      ∃ looks place data,Locates m.registers opcode.mode looks place ∧
        m.reads.map Read.look = (m.registers.pc.toNat,m.fetched.1) :: (looks ++ data) ∧
        data.map Prod.fst = (if opcode.instruction.readsData then [place] else []) ∧
        (opcode.instruction ≠ .jsr → (m.writes.map fun write => write.1.toNat % 65536) =
          if opcode.instruction.writesData then [place] else []) ∧
        (opcode.instruction ∈ [.jmp,.jsr] → m.step.2.registers.pc.toNat = place) ∧
        ∀ address,m.effectiveAddress opcode.mode = some address → address = place) ∧
    (∀ instruction : Instruction,
      ((∃ byte,decode byte = some ⟨instruction,.zeroPageY⟩) ↔ instruction ∈ [.ldx,.stx]) ∧
      ((∃ byte,decode byte = some ⟨instruction,.zeroPageX⟩) ↔ instruction ∈
        [.lda,.sta,.ldy,.sty,.adc,.sbc,.and,.ora,.eor,.cmp,.asl,.lsr,.rol,.ror,.inc,.dec])) ∧
    ∀ (mode : Mode) (r : Registers) (bus : Bus σ),
      let ((_,after),left) := (mode.resolve r).run bus
      after = { r with pc := after.pc } ∧ (mode.resolve r).writes bus = [] ∧ left.memory = bus.memory := by
  obtain ⟨p,found,rfl⟩ := exists_prepared ready known
  refine ⟨?_,zeroPage_indexed,?_⟩
  · intro stored
    obtain ⟨looks,target,operand,locates,reads⟩ := prepare_locates found stored
    refine ⟨looks,_,_,locates,reads,data_looks found stored operand,?_,
      fun jumps => jump_pc found jumps operand,fun address => effectiveAddress_eq found operand⟩
    intro inside
    have places := Action.writes_perform p.opcode.instruction.action m.config p.operand p.registers p.bus
    rw [Prepared.places_eq (decode_form (prepares found).known) stored operand inside] at places
    have cells := congrArg (List.map fun place : UInt32 => place.toNat % 65536) places
    rw [List.map_map] at cells
    refine (congrArg (List.map _) (writes_prepared found)).trans (cells.trans ?_)
    split <;> rfl
  · intro mode r bus
    refine ⟨?_,mode.writes_resolve r bus,?_⟩
    · rw [mode.resolve_registers r bus]
      rfl
    · rw [Transaction.run_memory,mode.writes_resolve,Memory.pokeAll_nil]

def storing : Machine Constant where
  registers := { a := 0x5A,y := 0x20,pc := 0x200,ready := true }
  bus := ⟨Memory.zero.pokeAll [(0x200,0x91),(0x201,0xFF),(0xFF,0xF0),(0x00,0xFF)],⟨0⟩⟩
  config := {}

theorem wrapped_store_located :
    storing.registers.ready = true ∧ decode storing.fetched.1 = some ⟨.sta,.indirectIndexed⟩ ∧
    Mode.inMemory .indirectIndexed = true ∧
    Locates storing.registers .indirectIndexed [(0x201,0xFF),(0xFF,0xF0),(0x00,0xFF)] 0x10 ∧
    (storing.writes.map fun write => write.1.toNat % 65536) = [0x10] := by
  obtain ⟨known,asked,written⟩ : decode storing.fetched.1 = some ⟨.sta,.indirectIndexed⟩ ∧
      storing.reads.map Read.look = [(0x200,0x91),(0x201,0xFF),(0xFF,0xF0),(0x00,0xFF)] ∧
      (storing.writes.map fun write => write.1.toNat % 65536) = [0x10] := by
    decide +kernel
  obtain ⟨located,_,_⟩ := operand_at_effective_address (m := storing) rfl known
  obtain ⟨looks,place,data,locates,reads,unread,writes,_⟩ := located rfl
  obtain rfl : data = [] := List.map_eq_nil_iff.mp unread
  have found : looks = [(0x201,0xFF),(0xFF,0xF0),(0x00,0xFF)] := by
    rw [asked,List.append_nil] at reads
    exact (List.cons.inj reads).2.symm
  have here : place = 0x10 := by
    have single := (writes (by decide)).symm.trans written
    exact (List.cons.inj single).1
  rw [found,here] at locates
  exact ⟨rfl,known,rfl,locates,written⟩

end Machine

end Console6502
