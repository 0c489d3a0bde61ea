import Console6502.Proofs.Addressing
import Console6502.Proofs.ShiftChain

-- What an instruction makes of the byte that its mode designates, where the result goes, and
-- what the flags tell about it.
namespace Console6502

-- `top` is the byte that a pull would give.
def Instruction.computes (instruction : Instruction) (r : Registers) (value top : UInt8) :
    Option (Nat × Nat) :=
  let v := value.toNat
  let carry := (r.p.has .carry).toNat
  match instruction with
  | .lda | .ldx | .ldy => some (v,carry)
  | .and => some ((r.a &&& value).toNat,carry)
  | .ora => some ((r.a ||| value).toNat,carry)
  | .eor => some ((r.a ^^^ value).toNat,carry)
  | .tax | .tay => some (r.a.toNat,carry)
  | .txa => some (r.x.toNat,carry)
  | .tya => some (r.y.toNat,carry)
  | .tsx => some (r.sp.toNat,carry)
  | .inx => some ((r.x.toNat + 1) % 256,carry)
  | .iny => some ((r.y.toNat + 1) % 256,carry)
  | .dex => some ((r.x.toNat + 255) % 256,carry)
  | .dey => some ((r.y.toNat + 255) % 256,carry)
  | .pla => some (top.toNat,carry)
  | .asl => some (2 * v % 256,v / 128)
  | .lsr => some (v / 2,v % 2)
  | .rol => some ((2 * v + carry) % 256,v / 128)
  | .ror => some (v / 2 + 128 * carry,v % 2)
  | .inc => some ((v + 1) % 256,carry)
  | .dec => some ((v + 255) % 256,carry)
  | _ => none

def Opcode.receiver (opcode : Opcode) : Option Register :=
  match opcode.instruction with
  | .lda | .and | .ora | .eor | .txa | .tya | .pla => some .a
  | .ldx | .tax | .tsx | .inx | .dex => some .x
  | .ldy | .tay | .iny | .dey => some .y
  | _ => if opcode.mode = .accumulator then some .a else none

theorem Instruction.store_forms {instruction : Instruction} {source : Register} {byte : UInt8}
    (stores : (instruction,source) ∈ [(.sta,.a),(.stx,.x),(.sty,.y)]) :
    instruction.action = .store source ∧ instruction.writesData = true ∧
      (byte,Mode.accumulator) ∉ instruction.forms := by
  simp only [List.mem_cons,Prod.mk.injEq,List.not_mem_nil,or_false] at stores
  rcases stores with ⟨rfl,rfl⟩ | ⟨rfl,rfl⟩ | ⟨rfl,rfl⟩
  all_goals exact ⟨rfl,rfl,by simp [forms]⟩

namespace Transform

theorem apply_left_parts {transform : Transform} (left : transform ∈ [rotateLeft,shiftLeft])
    (value : UInt8) (carry : Bool) :
    (transform.apply value carry).1.toNat = (2 * value.toNat + (transform.letsIn carry).toNat) % 256 ∧
      (transform.apply value carry).2.toNat = value.toNat / 128 := by
  have exact := apply_left left value carry
  have result := (transform.apply value carry).1.toNat_lt
  have entering := (transform.letsIn carry).toNat_le
  omega

theorem apply_right_parts {transform : Transform} (right : transform ∈ [rotateRight,shiftRight])
    (value : UInt8) (carry : Bool) :
    (transform.apply value carry).1.toNat = value.toNat / 2 + 128 * (transform.letsIn carry).toNat ∧
      (transform.apply value carry).2.toNat = value.toNat % 2 := by
  have exact := apply_right right value carry
  have leaving := (transform.apply value carry).2.toNat_le
  omega

theorem computes {instruction : Instruction} {transform : Transform}
    (modifies : instruction.action = .modify transform) (r : Registers) (value top : UInt8) :
    let changed := transform.apply value (r.p.has .carry)
    instruction.computes r value top = some (changed.1.toNat,changed.2.toNat) := by
  have second {first other : Transform} : other ∈ [first,other] :=
    List.mem_cons_of_mem _ List.mem_cons_self
  cases instruction with
  | asl =>
    cases modifies
    obtain ⟨result,out⟩ := apply_left_parts second value (r.p.has .carry)
    simp only [result,out]
    rfl
  | rol =>
    cases modifies
    obtain ⟨result,out⟩ := apply_left_parts List.mem_cons_self value (r.p.has .carry)
    simp only [result,out]
    rfl
  | lsr =>
    cases modifies
    obtain ⟨result,out⟩ := apply_right_parts second value (r.p.has .carry)
    simp only [result,out]
    rfl
  | ror =>
    cases modifies
    obtain ⟨result,out⟩ := apply_right_parts List.mem_cons_self value (r.p.has .carry)
    simp only [result,out]
    rfl
  | inc =>
    cases modifies
    simp only [apply,UInt8.toNat_add]
    rfl
  | dec =>
    cases modifies
    have result : (value - 1).toNat = (value.toNat + 255) % 256 := by
      rw [UInt8.toNat_sub,Nat.add_comm]
      rfl
    simp only [apply,result]
    rfl
  | _ => cases modifies

end Transform

theorem Memory.poke_congr (m : Memory) {place address : UInt32} (value : UInt8)
    (same : masked place = masked address) : m.poke place value = m.poke address value := by
  simp only [poke,same,Region.ofAddress_congr same]

variable {σ : Type} [ByteSource σ]

structure Machine.Shows (m : Machine σ) (result carry : Nat) : Prop where
  negative : m.step.2.registers.p.has .negative = result.testBit 7
  zero : m.step.2.registers.p.has .zero = decide (result = 0)
  carry : (m.step.2.registers.p.has .carry).toNat = carry

-- The step writes one byte at a place. It is read back there if the place is in RAM or in save
-- RAM, and no other cell changes.
structure Machine.Stores (m : Machine σ) (place : Nat) (value : UInt8) : Prop where
  memory : m.step.2.bus.memory = m.bus.memory.poke (UInt32.ofNat place) value
  taken : place < 0x2000 ∨ (0x6000 ≤ place ∧ place < 0x8000) →
    m.step.2.bus.read (UInt32.ofNat place) = (value,m.step.2.bus)
  dropped : (0x2000 ≤ place ∧ place < 0x6000) ∨ 0x8000 ≤ place → m.step.2.bus.memory = m.bus.memory
  others : ∀ address : UInt32,address.toNat % 65536 ≠ place →
    m.step.2.bus.memory.peek address = m.bus.memory.peek address

-- A result that memory drops is shown in the flags all the same.
structure Machine.Delivers (m : Machine σ) (opcode : Opcode) (result carry : Nat) : Prop
    extends m.Shows result carry where
  received :
    match opcode.receiver with
    | some target =>
      (m.step.2.registers.get target).toNat = result ∧ m.step.2.bus.memory = m.bus.memory
    | none => ∃ place,m.effectiveAddress opcode.mode = some place ∧ m.Stores place (UInt8.ofNat result)

structure Machine.Puts (m : Machine σ) (place : Nat) (value : UInt8) : Prop
    extends m.Stores place value where
  flags : m.step.2.registers.p = m.registers.p

namespace Machine

variable {m : Machine σ} {p : Prepared σ} {opcode : Opcode}

theorem stores_of_poke {place : Nat} (small : place < 65536) {value : UInt8}
    (memory : m.step.2.bus.memory = m.bus.memory.poke (UInt32.ofNat place) value) :
    m.Stores place value := by
  have number : (UInt32.ofNat place).toNat = place :=
    UInt32.toNat_ofNat_of_lt' (Nat.lt_trans small (by decide))
  have cell : (UInt32.ofNat place).toNat % 65536 = place := by rw [number,Nat.mod_eq_of_lt small]
  refine ⟨memory,?_,?_,?_⟩
  · intro kept
    have writable : (Region.ofAddress (UInt32.ofNat place)).writable = true := by
      rw [Region.writable_iff,cell]
      exact kept
    have shown : m.step.2.bus.memory.peek (UInt32.ofNat place) = some value := by
      rw [memory,Memory.peek_poke,if_pos ⟨writable,rfl⟩]
    rw [Bus.read,shown]
  · intro lost
    rw [memory,Memory.poke_dropped]
    rw [← Bool.not_eq_true,Region.writable_iff,cell]
    omega
  · intro address apart
    rw [memory,Memory.peek_poke,if_neg]
    rintro ⟨_,same⟩
    rw [masked_eq_iff,cell] at same
    exact apart same.symm

theorem shows_of_status {s : Status} {value : UInt8}
    (status : m.step.2.registers.p = s.withResult value) :
    m.Shows value.toNat (s.has .carry).toNat := by
  refine ⟨?_,?_,?_⟩
  · rw [status,Status.has_withResult]
    exact (getLsbD_seven value).symm
  · rw [status,Status.has_withResult,if_pos rfl,beq_eq_decide,decide_eq_decide,← UInt8.toNat_inj]
    rfl
  · rw [status,Status.has_withResult,if_neg (by decide),if_neg (by decide)]

theorem load_delivers (found : m.prepare = some p) {before : Registers} {target : Register}
    {value : UInt8} {bus : Bus σ} {result carry : Nat}
    (performed : p.perform m.config = (before.load target value,bus))
    (receiver : p.opcode.receiver = some target) (memory : bus.memory = m.bus.memory)
    (number : value.toNat = result) (kept : (before.p.has .carry).toNat = carry) :
    m.Delivers p.opcode result carry := by
  subst number kept
  have after : m.step.2.registers = before.load target value := by rw [step_prepared found,performed]
  refine ⟨shows_of_status (by rw [after,Registers.load_p]),?_⟩
  rw [receiver]
  refine ⟨?_,?_⟩
  · rw [after,Registers.load_get,if_pos rfl]
  · rw [step_prepared found,performed,memory]

theorem designated_memory (found : m.prepare = some p) (direct : p.opcode.mode ≠ .indirect) :
    (m.designated p.opcode.mode).2.memory = m.bus.memory := by
  rw [← operand_designated found direct,Transaction.run_memory,Action.writes_value,Memory.pokeAll_nil,
    (prepares found).memory]

theorem perform_designated (found : m.prepare = some p) (direct : p.opcode.mode ≠ .indirect)
    {change : UInt8 → Registers}
    (asks : p.opcode.instruction.action.perform m.config p.operand p.registers = (do
      let value ← p.operand.value p.registers
      return change value)) :
    p.perform m.config = (change (m.designated p.opcode.mode).1,(m.designated p.opcode.mode).2) := by
  rw [Prepared.perform,asks,Transaction.run_bind,operand_designated found direct]
  rfl

-- Only a jump goes through a pointer that may lie anywhere.
theorem direct_of_form (found : m.prepare = some p) (other : p.opcode.instruction ≠ .jmp) :
    p.opcode.mode ≠ .indirect := by
  have form := decode_form (prepares found).known
  intro indirect
  rw [indirect] at form
  generalize p.opcode.instruction = instruction at form other
  cases instruction <;> simp [Instruction.forms] at form other

theorem exists_effectiveAddress (found : m.prepare = some p)
    (writes : p.opcode.instruction.writesData = true) (other : p.opcode.mode ≠ .accumulator) :
    ∃ place,m.effectiveAddress p.opcode.mode = some place := by
  have form := decode_form (prepares found).known
  generalize p.opcode.instruction = instruction at form writes
  generalize p.opcode.mode = mode at form other ⊢
  cases instruction with
  | sta | stx | sty | asl | lsr | rol | ror | inc | dec =>
    cases mode <;> simp_all [Instruction.forms,effectiveAddress]
  | _ => cases writes

theorem poke_effectiveAddress {place : Nat} {target : UInt32} (same : target.toNat % 65536 = place)
    (memory : Memory) (value : UInt8) :
    memory.poke target value = memory.poke (UInt32.ofNat place) value := by
  apply Memory.poke_congr
  rw [masked_eq_iff,← same,UInt32.toNat_ofNat']
  omega

def changed (m : Machine σ) (transform : Transform) (mode : Mode) : UInt8 × Bool :=
  transform.apply (m.designated mode).1 (m.registers.p.has .carry)

variable {transform : Transform}

theorem modify_accumulator (found : m.prepare = some p)
    (modifies : p.opcode.instruction.action = .modify transform)
    (accumulator : p.opcode.mode = .accumulator) :
    p.perform m.config = ((p.registers.putFlag .carry (m.changed transform p.opcode.mode).2).load .a
      (m.changed transform p.opcode.mode).1,p.bus) := by
  have facts := prepares found
  have operand : p.operand = .accumulator := by
    rw [facts.operand,accumulator]
    rfl
  rw [Prepared.perform,modifies,operand,accumulator,facts.registers]
  rfl

theorem modify_memory (found : m.prepare = some p)
    (modifies : p.opcode.instruction.action = .modify transform) {place : Nat}
    (designates : m.effectiveAddress p.opcode.mode = some place) :
    m.step.2.registers.p = (p.registers.p.put .carry (m.changed transform p.opcode.mode).2).withResult
      (m.changed transform p.opcode.mode).1 ∧
    m.step.2.bus.memory =
      m.bus.memory.poke (UInt32.ofNat place) (m.changed transform p.opcode.mode).1 := by
  have direct : p.opcode.mode ≠ .indirect := direct_of_form found fun jump => by
    rw [jump] at modifies
    cases modifies
  have carry : p.registers.p.has .carry = m.registers.p.has .carry := by
    rw [(prepares found).registers,Registers.advance_p]
  obtain ⟨⟨target,operand,same⟩,_⟩ := prepare_address found designates
  have read : p.bus.read target = m.designated p.opcode.mode := by
    rw [← operand_designated found direct,operand]
    rfl
  rw [step_prepared found]
  simp only [Prepared.perform,modifies,operand,Action.perform,Registers.modifyCell,
    Transaction.run_bind,Transaction.run_fetch,Transaction.run_store,Transaction.run_pure,read,carry]
  refine ⟨rfl,?_⟩
  rw [Bus.write_memory,designated_memory found direct,poke_effectiveAddress same]
  rfl

theorem modify_delivers (found : m.prepare = some p)
    (modifies : p.opcode.instruction.action = .modify transform) :
    m.Delivers p.opcode (m.changed transform p.opcode.mode).1.toNat
      (m.changed transform p.opcode.mode).2.toNat := by
  obtain ⟨writes,receiver⟩ : p.opcode.instruction.writesData = true ∧
      p.opcode.receiver = if p.opcode.mode = .accumulator then some .a else none := by
    unfold Opcode.receiver
    generalize p.opcode.instruction = instruction at modifies ⊢
    cases instruction with
    | asl | lsr | rol | ror | inc | dec => exact ⟨rfl,rfl⟩
    | _ => cases modifies
  by_cases accumulator : p.opcode.mode = .accumulator
  · refine load_delivers found (modify_accumulator found modifies accumulator)
      (by rw [receiver,if_pos accumulator]) (prepares found).memory rfl ?_
    rw [Registers.putFlag_p,Status.has_put,if_pos rfl]
  · obtain ⟨place,designates⟩ := exists_effectiveAddress found writes accumulator
    obtain ⟨status,stored⟩ := modify_memory found modifies designates
    have shows := shows_of_status status
    rw [Status.has_put,if_pos rfl] at shows
    refine ⟨shows,?_⟩
    rw [receiver,if_neg accumulator]
    refine ⟨place,designates,stores_of_poke (effectiveAddress_lt designates) ?_⟩
    rw [stored,UInt8.ofNat_toNat]

theorem computes_delivers (found : m.prepare = some p) {result carry : Nat}
    (computed : p.opcode.instruction.computes m.registers (m.designated p.opcode.mode).1
      (m.bus.memory.stacked (m.registers.sp + 1)) = some (result,carry)) :
    m.Delivers p.opcode result carry := by
  have facts := prepares found
  have registers := facts.registers
  have memory := facts.memory
  cases kind : p.opcode.instruction with
  | asl | lsr | rol | ror | inc | dec =>
    obtain ⟨transform,modifies⟩ : ∃ transform,p.opcode.instruction.action = .modify transform := by
      rw [kind]
      exact ⟨_,rfl⟩
    rw [Transform.computes modifies] at computed
    cases computed
    exact modify_delivers found modifies
  | lda | ldx | ldy | and | ora | eor =>
    have direct : p.opcode.mode ≠ .indirect := direct_of_form found (by rw [kind]; decide)
    have performed := perform_designated found direct (by rw [kind]; rfl)
    rw [kind] at computed
    cases computed
    rw [registers] at performed
    exact load_delivers found performed (by rw [Opcode.receiver,kind]) (designated_memory found direct)
      (by rfl) (by rfl)
  | tax | tay | txa | tya | tsx | inx | iny | dex | dey =>
    rw [kind] at computed
    cases computed
    exact load_delivers found (by rw [Prepared.perform,kind,registers]; rfl) (by rw [Opcode.receiver,kind])
      memory (by rfl) (by rfl)
  | pla =>
    have performed : p.perform m.config = (Registers.load { p.registers with sp := m.registers.sp + 1 } .a
        (m.bus.memory.stacked (m.registers.sp + 1)),p.bus) := by
      simp only [Prepared.perform,kind,Instruction.action,Action.perform,Transaction.run_bind,
        Registers.run_pull,Transaction.run_pure,memory,facts.sp_eq]
    rw [kind] at computed
    cases computed
    exact load_delivers found performed (by rw [Opcode.receiver,kind]) memory rfl (by rw [registers]; rfl)
  | _ =>
    rw [kind] at computed
    cases computed

theorem bit_flags (found : m.prepare = some p) (kind : p.opcode.instruction = .bit) :
    let value := (m.designated p.opcode.mode).1
    m.step.2.registers.p.has .zero = decide (m.registers.a &&& value = 0) ∧
    m.step.2.registers.p.has .negative = value.toNat.testBit 7 ∧
    m.step.2.registers.p.has .overflow = value.toNat.testBit 6 ∧
    ∀ target,m.step.2.registers.get target = m.registers.get target := by
  intro value
  have direct : p.opcode.mode ≠ .indirect := direct_of_form found (by rw [kind]; decide)
  have performed := perform_designated found direct (by rw [kind]; rfl)
  have after : m.step.2.registers = (m.registers.advance p.opcode.length).testBits value := by
    rw [step_prepared found,performed,(prepares found).registers]
  have overflow : (value &&& 0x40 != 0) = value.toNat.testBit 6 := Status.has_eq ⟨value⟩ .overflow
  have negative : (value &&& 0x80 != 0) = value.toNat.testBit 7 := Status.has_eq ⟨value⟩ .negative
  refine ⟨?_,?_,?_,?_⟩
  · rw [after]
    simp only [Registers.testBits,Registers.putFlag_p,Status.has_put,reduceCtorEq,if_false,if_true]
    exact beq_eq_decide _ _
  · rw [after,← negative]
    simp only [Registers.testBits,Registers.putFlag_p,Status.has_put,reduceCtorEq,if_false,if_true]
  · rw [after,← overflow]
    simp only [Registers.testBits,Registers.putFlag_p,Status.has_put,if_true]
  · intro target
    rw [after,Registers.testBits_get,Registers.advance_get]

theorem store_puts (found : m.prepare = some p) {source : Register}
    (stores : (p.opcode.instruction,source) ∈ [(.sta,.a),(.stx,.x),(.sty,.y)]) :
    ∃ place,m.effectiveAddress p.opcode.mode = some place ∧
      m.Puts place (m.registers.get source) := by
  have facts := prepares found
  obtain ⟨kind,writes,absent⟩ := Instruction.store_forms stores
  have other : p.opcode.mode ≠ .accumulator := fun same => absent (same ▸ decode_form facts.known)
  obtain ⟨place,designates⟩ := exists_effectiveAddress found writes other
  obtain ⟨⟨target,operand,same⟩,_⟩ := prepare_address found designates
  have after := step_prepared found
  simp only [Prepared.perform,kind,operand,Action.perform,Transaction.run_bind,Transaction.run_store,
    Transaction.run_pure] at after
  refine ⟨place,designates,stores_of_poke (effectiveAddress_lt designates) ?_,?_⟩
  · rw [after]
    dsimp only
    rw [Bus.write_memory,facts.memory,poke_effectiveAddress same,facts.registers,Registers.advance_get]
  · rw [after,facts.registers]
    rfl

theorem txs_copies (found : m.prepare = some p) (kind : p.opcode.instruction = .txs) :
    m.step.2.registers.sp = m.registers.x ∧ m.step.2.registers.p = m.registers.p := by
  rw [step_prepared found,Prepared.perform,kind,(prepares found).registers]
  exact ⟨rfl,rfl⟩

theorem push_puts (found : m.prepare = some p) {value : UInt8}
    (pushes : (p.opcode.instruction,value) ∈
      [(.pha,m.registers.a),(.php,m.registers.p.byte ||| 0x30)]) :
    m.Puts (0x100 + m.registers.sp.toNat) value := by
  have bound := m.registers.sp.toNat_lt
  have facts := prepares found
  have performed : p.perform m.config =
      ({ p.registers with sp := p.registers.sp - 1 },p.bus.write (stackCell p.registers.sp) value) := by
    simp only [List.mem_cons,Prod.mk.injEq,List.not_mem_nil,or_false] at pushes
    rcases pushes with ⟨kind,rfl⟩ | ⟨kind,rfl⟩
    · rw [Prepared.perform,kind,facts.registers]
      rfl
    · rw [Prepared.perform,kind,facts.registers,← Status.pushed_eq]
      rfl
  refine ⟨stores_of_poke (by omega) ?_,?_⟩
  · rw [step_prepared found,performed]
    dsimp only
    rw [Bus.write_memory,facts.memory,facts.sp_eq,stackCell_eq]
  · rw [step_prepared found,performed,facts.registers]
    rfl

theorem plp_status (found : m.prepare = some p) (kind : p.opcode.instruction = .plp) :
    m.step.2.registers.p.byte = m.bus.memory.stacked (m.registers.sp + 1) := by
  have facts := prepares found
  rw [step_prepared found,Prepared.perform,kind,Instruction.action,Action.perform,
    Registers.run_pullStatus,facts.memory,facts.sp_eq]

theorem data_path (ready : m.registers.ready = true) (known : decode m.fetched.1 = some opcode) :
    let r := m.registers
    let after := m.step.2.registers
    let value := (m.designated opcode.mode).1
    let top := m.bus.memory.stacked (r.sp + 1)
    (∀ result carry,opcode.instruction.computes r value top = some (result,carry) →
      m.Delivers opcode result carry) ∧
    (opcode.instruction = .bit →
      after.p.has .zero = decide (r.a &&& value = 0) ∧
      after.p.has .negative = value.toNat.testBit 7 ∧ after.p.has .overflow = value.toNat.testBit 6 ∧
      ∀ target,after.get target = r.get target) ∧
    (∀ source,(opcode.instruction,source) ∈ [(.sta,.a),(.stx,.x),(.sty,.y)] →
      ∃ place,m.effectiveAddress opcode.mode = some place ∧ m.Puts place (r.get source)) ∧
    (∀ byte,(opcode.instruction,byte) ∈ [(.pha,r.a),(.php,r.p.byte ||| 0x30)] →
      m.Puts (0x100 + r.sp.toNat) byte) ∧
    (opcode.instruction = .txs → after.sp = r.x ∧ after.p = r.p) ∧
    (opcode.instruction = .plp → after.p.byte = top) := by
  obtain ⟨p,found,rfl⟩ := exists_prepared ready known
  exact ⟨fun _ _ => computes_delivers found,bit_flags found,fun _ => store_puts found,
    fun _ => push_puts found,txs_copies found,plp_status found⟩

-- DEC $8000 on zeroed memory: the cell does not take the byte, and the flags tell of 0xFF.
def decrementing : Machine Constant where
  registers := { pc := 0x10,ready := true }
  bus := ⟨Memory.zero.pokeAll [(0x10,0xCE),(0x12,0x80)],⟨0⟩⟩
  config := {}

theorem dropped_result_shown :
    decrementing.registers.ready = true ∧ decode decrementing.fetched.1 = some ⟨.dec,.absolute⟩ ∧
    Instruction.dec.computes decrementing.registers (decrementing.designated .absolute).1
      (decrementing.bus.memory.stacked (decrementing.registers.sp + 1)) = some (255,0) ∧
    decrementing.Delivers ⟨.dec,.absolute⟩ 255 0 ∧
    decrementing.step.2.bus.memory = decrementing.bus.memory := by
  have known : decode decrementing.fetched.1 = some ⟨.dec,.absolute⟩ := by decide +kernel
  have computed : Instruction.dec.computes decrementing.registers (decrementing.designated .absolute).1
      (decrementing.bus.memory.stacked (decrementing.registers.sp + 1)) = some (255,0) := by
    decide +kernel
  have here : decrementing.effectiveAddress .absolute = some 0x8000 := by decide +kernel
  have delivers := (data_path (m := decrementing) rfl known).1 _ _ computed
  obtain ⟨place,designates,stores⟩ := delivers.received
  obtain rfl : 0x8000 = place := Option.some.inj (here.symm.trans designates)
  exact ⟨rfl,known,computed,delivers,stores.dropped (.inr (Nat.le_refl _))⟩

end Machine

end Console6502
