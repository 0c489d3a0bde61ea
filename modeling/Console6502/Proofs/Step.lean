import Mathlib.Data.List.Nodup
import Console6502.Machine
import Console6502.Proofs.Requests

-- One step in three cases: a refusal, a fault, or an instruction whose operand has been
-- found and which is then performed.
namespace Console6502

namespace Opcode

def bytes : List UInt8 := documented.map Prod.fst

theorem bytes_length : bytes.length = 151 := by decide +kernel

theorem bytes_nodup : bytes.Nodup := by
  have distinct : (bytes.map UInt8.toNat).Nodup := by decide +kernel
  exact distinct.of_map

end Opcode

theorem decode_eq_lookup (byte : UInt8) : decode byte = Opcode.documented.lookup byte := by
  simp [decode,Opcode.table]

theorem decode_eq_none_iff {byte : UInt8} : decode byte = none ↔ byte ∉ Opcode.bytes := by
  rw [decode_eq_lookup,List.lookup_eq_none_iff]
  constructor
  · intro unlisted present
    obtain ⟨entry,member,rfl⟩ := List.mem_map.mp present
    exact absurd (unlisted entry member) (by simp)
  · intro absent entry member
    exact bne_iff_ne.mpr fun same => absent (List.mem_map.mpr ⟨entry,member,same.symm⟩)

theorem decode_form {byte : UInt8} {opcode : Opcode} (known : decode byte = some opcode) :
    (byte,opcode.mode) ∈ opcode.instruction.forms := by
  rw [decode_eq_lookup,List.lookup_eq_some_iff] at known
  obtain ⟨before,after,listing,_⟩ := known
  have member : (byte,opcode) ∈ Opcode.documented := by
    rw [listing]
    exact List.mem_append_right _ List.mem_cons_self
  obtain ⟨instruction,_,form⟩ := List.mem_flatMap.mp member
  obtain ⟨entry,inside,equal⟩ := List.mem_map.mp form
  cases equal
  exact inside

theorem Instruction.mem_all (instruction : Instruction) : instruction ∈ Instruction.all := by
  cases instruction <;> decide

theorem decode_eq_some_iff {byte : UInt8} {opcode : Opcode} :
    decode byte = some opcode ↔ (byte,opcode.mode) ∈ opcode.instruction.forms := by
  constructor
  · exact decode_form
  · intro form
    have listed : (byte,opcode) ∈ Opcode.documented :=
      List.mem_flatMap.mpr ⟨_,opcode.instruction.mem_all,List.mem_map.mpr ⟨_,form,rfl⟩⟩
    obtain ⟨before,after,listing⟩ := List.append_of_mem listed
    have distinct := Opcode.bytes_nodup
    rw [Opcode.bytes,listing,List.map_append,List.map_cons] at distinct
    rw [decode_eq_lookup,List.lookup_eq_some_iff]
    refine ⟨before,after,listing,?_⟩
    intro entry earlier
    have apart := (List.nodup_append.mp distinct).2.2 _ (List.mem_map_of_mem earlier) _ List.mem_cons_self
    exact bne_iff_ne.mpr apart.symm

namespace Registers

@[simp] theorem advance_zero (r : Registers) : r.advance 0 = r := by simp [advance]

@[simp] theorem advance_advance (r : Registers) (first second : UInt16) :
    (r.advance first).advance second = r.advance (first + second) := by
  simp [advance,UInt16.add_assoc]

end Registers

namespace Mode

variable {σ : Type} [ByteSource σ]

@[simp] theorem writes_resolve (mode : Mode) (r : Registers) (bus : Bus σ) :
    (mode.resolve r).writes bus = [] := by
  cases mode <;> simp [resolve,Registers.fetchByte,Registers.fetchWord,zeroPagePointer]

theorem resolve_registers (mode : Mode) (r : Registers) (bus : Bus σ) :
    ((mode.resolve r).run bus).1.2 = r.advance mode.operandLength := by
  cases mode <;>
    simp [resolve,operandLength,Registers.fetchByte,Registers.fetchWord,zeroPagePointer]

theorem resolve_absolute (r : Registers) (bus : Bus σ) :
    ∃ target,((Mode.absolute.resolve r).run bus).1.1 = .address target := by
  simp [resolve]

end Mode

structure Prepared (σ : Type) where
  opcode : Opcode
  operand : Operand
  registers : Registers
  bus : Bus σ

namespace Machine

variable {σ : Type} [ByteSource σ]

def fetched (m : Machine σ) : UInt8 × Bus σ := m.bus.read m.registers.pc.toUInt32

def prepare (m : Machine σ) : Option (Prepared σ) :=
  if m.registers.ready then
    (decode m.fetched.1).map fun opcode =>
      let resolved := (opcode.mode.resolve (m.registers.advance 1)).run m.fetched.2
      ⟨opcode,resolved.1.1,resolved.1.2,resolved.2⟩
  else none

def instruction (m : Machine σ) : Option Instruction := m.prepare.map fun p => p.opcode.instruction

end Machine

def Prepared.perform {σ : Type} [ByteSource σ] (p : Prepared σ) (config : Config) : Registers × Bus σ :=
  (p.opcode.instruction.action.perform config p.operand p.registers).run p.bus

namespace Machine

variable {σ : Type} [ByteSource σ] {m : Machine σ} {p : Prepared σ}

theorem step_idle (idle : m.registers.ready = false) : m.step = (.error .halted,m) := by
  simp [step,Registers.step,idle]

theorem step_undocumented (ready : m.registers.ready = true)
    (unknown : decode m.fetched.1 = none) :
    m.step = (.error (.invalidOpcode m.fetched.1 m.registers.pc),
      { m with registers := { m.registers with ready := false },
               bus := m.fetched.2 }) := by
  simp only [fetched] at unknown ⊢
  simp [step,Registers.step,ready,unknown]

theorem step_prepared (found : m.prepare = some p) :
    m.step = (.ok (if (p.perform m.config).1.ready then .running else .halted),
      { m with registers := (p.perform m.config).1,bus := (p.perform m.config).2 }) := by
  unfold prepare at found
  split at found
  · rename_i ready
    obtain ⟨opcode,known,rfl⟩ := Option.map_eq_some_iff.mp found
    simp only [fetched] at known ⊢
    simp only [step,Registers.step,ready,Bool.not_true,Bool.false_eq_true,if_false,Transaction.run_bind,
      Transaction.run_fetch,Transaction.run_log,Transaction.run_pure,known,Prepared.perform]
    rfl
  · cases found

theorem step_cases (m : Machine σ) :
    (m.registers.ready = false ∧ m.prepare = none) ∨
    (m.registers.ready = true ∧ decode m.fetched.1 = none ∧ m.prepare = none) ∨
    ∃ p,m.prepare = some p := by
  cases ready : m.registers.ready with
  | false => exact .inl ⟨rfl,by simp [prepare,ready]⟩
  | true =>
    cases known : decode m.fetched.1 with
    | none => exact .inr (.inl ⟨rfl,rfl,by simp [prepare,ready,known]⟩)
    | some opcode => exact .inr (.inr ⟨_,by simp [prepare,ready,known]; rfl⟩)

theorem exists_prepared {opcode : Opcode} (ready : m.registers.ready = true)
    (known : decode m.fetched.1 = some opcode) : ∃ p,m.prepare = some p ∧ p.opcode = opcode :=
  ⟨_,by simp only [prepare,ready,known,if_true,Option.map_some]; rfl,rfl⟩

-- Every write of a step, dropped ones included.
def writes (m : Machine σ) : List Write := (m.registers.step m.config).writes m.bus

theorem writes_prepared (found : m.prepare = some p) : m.writes =
    (p.opcode.instruction.action.perform m.config p.operand p.registers).writes p.bus := by
  unfold prepare at found
  split at found
  · rename_i ready
    obtain ⟨opcode,known,rfl⟩ := Option.map_eq_some_iff.mp found
    simp only [fetched] at known ⊢
    simp only [writes,Registers.step,ready,Bool.not_true,Bool.false_eq_true,if_false,
      Transaction.writes_bind,Transaction.writes_fetch,Transaction.writes_log,Transaction.writes_pure,
      Transaction.run_fetch,Transaction.run_log,known,Mode.writes_resolve,List.append_nil,
      List.nil_append]
  · cases found

structure Prepares (m : Machine σ) (p : Prepared σ) : Prop where
  ready : m.registers.ready = true
  known : decode m.fetched.1 = some p.opcode
  operand : p.operand = ((p.opcode.mode.resolve (m.registers.advance 1)).run
    m.fetched.2).1.1
  registers : p.registers = m.registers.advance p.opcode.length
  memory : p.bus.memory = m.bus.memory

theorem prepares (found : m.prepare = some p) : m.Prepares p := by
  unfold prepare at found
  split at found
  · rename_i ready
    obtain ⟨opcode,known,rfl⟩ := Option.map_eq_some_iff.mp found
    refine ⟨ready,known,rfl,?_,?_⟩
    · exact (Mode.resolve_registers _ _ _).trans (Registers.advance_advance _ _ _)
    · dsimp only
      rw [Transaction.run_memory,Mode.writes_resolve]
      exact Bus.read_memory _ _
  · cases found

theorem Prepares.sp_eq (facts : m.Prepares p) : p.registers.sp = m.registers.sp := by
  rw [facts.registers]
  rfl

theorem Prepares.mode_eq {byte : UInt8} {mode : Mode} (facts : m.Prepares p)
    (sole : p.opcode.instruction.forms = [(byte,mode)]) : p.opcode.mode = mode := by
  have form := decode_form facts.known
  rw [sole] at form
  exact (Prod.mk.inj (List.mem_singleton.mp form)).2

theorem Prepares.call_target (facts : m.Prepares p) (kind : p.opcode.instruction = .jsr) :
    (∃ target,p.operand = .address target) ∧ p.registers.pc - 1 = m.registers.pc + 2 := by
  have mode : p.opcode.mode = .absolute := facts.mode_eq (by rw [kind]; rfl)
  obtain ⟨target,resolved⟩ := Mode.resolve_absolute (m.registers.advance 1) m.fetched.2
  refine ⟨⟨target,by rw [facts.operand,mode,resolved]⟩,?_⟩
  simp only [facts.registers,Opcode.length,mode,Mode.operandLength,Registers.advance]
  grind

theorem Prepares.break_return (facts : m.Prepares p) (kind : p.opcode.instruction = .brk) :
    p.registers.pc + 1 = m.registers.pc + 2 := by
  have mode : p.opcode.mode = .implied := facts.mode_eq (by rw [kind]; rfl)
  simp only [facts.registers,Opcode.length,mode,Mode.operandLength,Registers.advance]
  grind

end Machine

end Console6502
