import Console6502.Proofs.Step

-- The byte that an instruction works on, told mode by mode in numbers: where it lies, and what
-- a read of that place gives.
namespace Console6502

namespace Memory

def pageZero (m : Memory) (place : UInt8) : UInt8 := m.ram.read place.toUInt32

def pointer (m : Memory) (place : UInt8) : Nat :=
  (m.pageZero place).toNat + 256 * (m.pageZero (place + 1)).toNat

theorem toNat_pointer (m : Memory) (place : UInt8) :
    (word (m.pageZero place) (m.pageZero (place + 1))).toNat = m.pointer place := toNat_word _ _

theorem pointer_lt (m : Memory) (place : UInt8) : m.pointer place < 65536 := by
  rw [← toNat_pointer]
  exact UInt16.toNat_lt _

end Memory

variable {σ : Type} [ByteSource σ]

namespace Bus

theorem read_congr (bus : Bus σ) {place address : UInt32}
    (same : place.toNat % 65536 = address.toNat % 65536) : bus.read place = bus.read address := by
  simp only [read,bus.memory.peek_congr (masked_eq_iff.mpr same)]

@[simp] theorem read_pageZero (bus : Bus σ) (place : UInt8) :
    bus.read place.toUInt32 = (bus.memory.pageZero place,bus) := by
  have bound := place.toNat_lt
  have small : place.toUInt32.toNat < 65536 := by
    rw [UInt8.toNat_toUInt32]
    omega
  have region : Region.ofAddress place.toUInt32 = .ram := by
    rw [Region.ofAddress_eq_iff,UInt8.toNat_toUInt32]
    simp only [Region.start,Region.stop]
    omega
  simp only [read,Memory.peek,region,masked_of_lt small,Memory.pageZero]

end Bus

namespace Machine

-- Each byte is read on the bus that the one before it left.
def firstOperand (m : Machine σ) : UInt8 × Bus σ := m.fetched.2.read (m.registers.pc + 1).toUInt32

def secondOperand (m : Machine σ) : UInt8 × Bus σ := m.firstOperand.2.read (m.registers.pc + 2).toUInt32

def pastOperand (m : Machine σ) (mode : Mode) : Bus σ :=
  match mode with
  | .implied | .accumulator => m.fetched.2
  | .immediate | .zeroPage | .zeroPageX | .zeroPageY | .indexedIndirect | .indirectIndexed
  | .relative => m.firstOperand.2
  | .absolute | .absoluteX | .absoluteY | .indirect => m.secondOperand.2

-- The pointer of an indirect jump is not an operand of this kind.
def effectiveAddress (m : Machine σ) (mode : Mode) : Option Nat :=
  let low := m.firstOperand.1
  let full := low.toNat + 256 * m.secondOperand.1.toNat
  let r := m.registers
  match mode with
  | .zeroPage => some low.toNat
  | .zeroPageX => some ((low.toNat + r.x.toNat) % 256)
  | .zeroPageY => some ((low.toNat + r.y.toNat) % 256)
  | .absolute => some full
  | .absoluteX => some ((full + r.x.toNat) % 65536)
  | .absoluteY => some ((full + r.y.toNat) % 65536)
  | .indexedIndirect => some (m.bus.memory.pointer (low + r.x))
  | .indirectIndexed => some ((m.bus.memory.pointer low + r.y.toNat) % 65536)
  | .implied | .accumulator | .immediate | .indirect | .relative => none

-- The byte that a mode designates, and the bus after looking at it.
def designated (m : Machine σ) (mode : Mode) : UInt8 × Bus σ :=
  match m.effectiveAddress mode with
  | some place => (m.pastOperand mode).read (UInt32.ofNat place)
  | none =>
    match mode with
    | .immediate => m.firstOperand
    | .accumulator => (m.registers.a,m.fetched.2)
    | _ => (0,m.pastOperand mode)

variable {m : Machine σ} {p : Prepared σ}

theorem fetched_memory (m : Machine σ) : m.fetched.2.memory = m.bus.memory := Bus.read_memory _ _

theorem firstOperand_memory (m : Machine σ) : m.firstOperand.2.memory = m.bus.memory :=
  (Bus.read_memory _ _).trans m.fetched_memory

theorem prepare_resolved (found : m.prepare = some p) :
    ((p.opcode.mode.resolve (m.registers.advance 1)).run m.fetched.2).1.1 = p.operand ∧
    ((p.opcode.mode.resolve (m.registers.advance 1)).run m.fetched.2).2 = p.bus := by
  unfold prepare at found
  split at found
  · obtain ⟨opcode,_,rfl⟩ := Option.map_eq_some_iff.mp found
    exact ⟨rfl,rfl⟩
  · cases found

theorem run_fetchByte (m : Machine σ) :
    (m.registers.advance 1).fetchByte.run m.fetched.2 =
      ((m.firstOperand.1,m.registers.advance 2),m.firstOperand.2) := by
  simp only [Registers.fetchByte,Transaction.run_bind,Transaction.run_fetch,Transaction.run_pure,
    Registers.advance_advance]
  rfl

theorem run_fetchWord (m : Machine σ) :
    (m.registers.advance 1).fetchWord.run m.fetched.2 =
      ((word m.firstOperand.1 m.secondOperand.1,m.registers.advance 3),m.secondOperand.2) := by
  rw [Registers.fetchWord,Transaction.run_bind,run_fetchByte]
  simp only [Registers.fetchByte,Transaction.run_bind,Transaction.run_fetch,Transaction.run_pure,
    Registers.advance_advance]
  rfl

theorem run_zeroPagePointer (base : UInt8) (bus : Bus σ) :
    (zeroPagePointer base).run bus =
      (word (bus.memory.pageZero base) (bus.memory.pageZero (base + 1)),bus) := by
  simp only [zeroPagePointer,Transaction.run_bind,Transaction.run_fetch,Transaction.run_pure,
    Bus.read_pageZero]

theorem prepare_address {place : Nat} (found : m.prepare = some p)
    (designates : m.effectiveAddress p.opcode.mode = some place) :
    (∃ target,p.operand = .address target ∧ target.toNat % 65536 = place) ∧
      p.bus = m.pastOperand p.opcode.mode := by
  obtain ⟨operand,bus⟩ := prepare_resolved found
  rw [← operand,← bus]
  generalize p.opcode.mode = mode at designates ⊢
  have low := m.firstOperand.1.toNat_lt
  have high := m.secondOperand.1.toNat_lt
  have x := m.registers.x.toNat_lt
  have y := m.registers.y.toNat_lt
  cases mode with
  | implied | accumulator | immediate | indirect | relative => cases designates
  | zeroPage | zeroPageX | zeroPageY =>
    simp only [Mode.resolve,Transaction.run_bind,run_fetchByte,Transaction.run_pure]
    refine ⟨⟨_,rfl,?_⟩,rfl⟩
    cases designates
    simp only [UInt8.toNat_toUInt32,UInt8.toNat_add,Registers.advance]
    omega
  | absolute | absoluteX | absoluteY =>
    simp only [Mode.resolve,Transaction.run_bind,run_fetchWord,Transaction.run_pure]
    refine ⟨⟨_,rfl,?_⟩,rfl⟩
    cases designates
    simp only [UInt32.toNat_add,UInt16.toNat_toUInt32,UInt8.toNat_toUInt32,toNat_word,Registers.advance]
    omega
  | indexedIndirect =>
    simp only [Mode.resolve,Transaction.run_bind,run_fetchByte,run_zeroPagePointer,Transaction.run_pure,
      firstOperand_memory]
    refine ⟨⟨_,rfl,?_⟩,rfl⟩
    cases designates
    rw [UInt16.toNat_toUInt32,Memory.toNat_pointer]
    exact Nat.mod_eq_of_lt (m.bus.memory.pointer_lt _)
  | indirectIndexed =>
    simp only [Mode.resolve,Transaction.run_bind,run_fetchByte,run_zeroPagePointer,Transaction.run_pure,
      firstOperand_memory]
    refine ⟨⟨_,rfl,?_⟩,rfl⟩
    cases designates
    have pointer := m.bus.memory.pointer_lt m.firstOperand.1
    simp only [UInt32.toNat_add,UInt16.toNat_toUInt32,UInt8.toNat_toUInt32,Memory.toNat_pointer,
      Registers.advance]
    omega

theorem effectiveAddress_lt {mode : Mode} {place : Nat}
    (designates : m.effectiveAddress mode = some place) : place < 65536 := by
  have low := m.firstOperand.1.toNat_lt
  have high := m.secondOperand.1.toNat_lt
  cases mode <;> simp only [effectiveAddress,Option.some.injEq,reduceCtorEq] at designates <;>
    subst designates
  case indexedIndirect => exact m.bus.memory.pointer_lt _
  all_goals omega

theorem operand_designated (found : m.prepare = some p) (direct : p.opcode.mode ≠ .indirect) :
    (p.operand.value p.registers).run p.bus = m.designated p.opcode.mode := by
  unfold designated
  cases designates : m.effectiveAddress p.opcode.mode with
  | some place =>
    obtain ⟨⟨target,operand,same⟩,bus⟩ := prepare_address found designates
    have bound : place < 65536 := by
      rw [← same]
      exact Nat.mod_lt _ (by decide)
    have small : place < UInt32.size := Nat.lt_trans bound (by decide)
    rw [operand,bus]
    apply Bus.read_congr
    rw [UInt32.toNat_ofNat_of_lt' small,same,Nat.mod_eq_of_lt bound]
  | none =>
    obtain ⟨operand,bus⟩ := prepare_resolved found
    have accumulator : p.registers.a = m.registers.a := by
      rw [(prepares found).registers]
      rfl
    rw [← operand,← bus]
    generalize p.opcode.mode = mode at designates direct ⊢
    cases mode with
    | immediate | relative =>
      simp only [Mode.resolve,Transaction.run_bind,run_fetchByte,Transaction.run_pure,Operand.value,
        pastOperand]
    | accumulator =>
      simp only [Mode.resolve,Transaction.run_pure,Operand.value,accumulator]
    | implied => rfl
    | indirect => exact absurd rfl direct
    | _ => cases designates

end Machine

end Console6502
