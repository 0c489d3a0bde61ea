import Console6502.Proofs.Cells
import Console6502.Transaction

-- The writes of a transaction as a list, and the memory that they leave. Reads may move
-- the source but change no stored byte.
namespace Console6502

abbrev Write : Type := UInt32 × UInt8

def Memory.pokeAll (m : Memory) (writes : List Write) : Memory :=
  writes.foldl (fun m write => m.poke write.1 write.2) m

namespace Memory

@[simp] theorem pokeAll_nil (m : Memory) : m.pokeAll [] = m := rfl
@[simp] theorem pokeAll_cons (m : Memory) (write : Write) (rest : List Write) :
    m.pokeAll (write :: rest) = (m.poke write.1 write.2).pokeAll rest := rfl

@[simp] theorem poke_rom (m : Memory) (place : UInt32) (value : UInt8) :
    (m.poke place value).rom = m.rom := by
  unfold poke
  cases Region.ofAddress place <;> rfl

theorem pokeAll_rom (m : Memory) (writes : List Write) : (m.pokeAll writes).rom = m.rom := by
  induction writes generalizing m with
  | nil => rfl
  | cons write rest ih => rw [pokeAll_cons,ih,poke_rom]

theorem pokeAll_changed {m : Memory} {writes : List Write} {address : UInt32}
    (changed : (m.pokeAll writes).peek address ≠ m.peek address) :
    ∃ write ∈ writes, masked write.1 = masked address ∧ (Region.ofAddress address).writable = true := by
  induction writes generalizing m with
  | nil => exact absurd rfl changed
  | cons write rest ih =>
    by_cases later : ((m.poke write.1 write.2).pokeAll rest).peek address = (m.poke write.1 write.2).peek address
    · rw [pokeAll_cons,later,peek_poke] at changed
      split at changed
      · rename_i kept
        exact ⟨write,List.mem_cons_self,kept.2,Region.ofAddress_congr kept.2 ▸ kept.1⟩
      · exact absurd rfl changed
    · obtain ⟨found,member,same⟩ := ih later
      exact ⟨found,List.mem_cons_of_mem _ member,same⟩

end Memory

namespace Bus

variable {σ : Type}

@[simp] theorem refill_rom (bus : Bus σ) (drawn : Vector UInt8 (2 ^ ramWidth) × σ) :
    (bus.refill drawn).memory.rom = bus.memory.rom := rfl

@[simp] theorem write_memory (bus : Bus σ) (address : UInt32) (value : UInt8) :
    (bus.write address value).memory = bus.memory.poke address value := rfl

variable [ByteSource σ]

@[simp] theorem random_memory (bus : Bus σ) : bus.random.2.memory = bus.memory := rfl

@[simp] theorem randomizeRam_rom (bus : Bus σ) : bus.randomizeRam.memory.rom = bus.memory.rom := by
  rw [randomizeRam,refill_rom]

theorem read_cases (bus : Bus σ) (address : UInt32) :
    (address.toNat % 65536 = 0x2000 ∧ bus.read address = bus.random) ∨
    (address.toNat % 65536 ≠ 0x2000 ∧ ∃ byte,bus.memory.peek address = some byte ∧
      bus.read address = (byte,bus)) := by
  by_cases here : address.toNat % 65536 = 0x2000
  · have region : Region.ofAddress address = .placeholder := by
      rw [Region.ofAddress_eq_iff]
      simp only [Region.start,Region.stop]
      omega
    exact .inl ⟨here,by simp only [read,Memory.peek,region]⟩
  · have region : Region.ofAddress address ≠ .placeholder := by
      intro found
      have bounds := Region.ofAddress_eq_iff.mp found
      simp only [Region.start,Region.stop] at bounds
      omega
    have stored : ∃ byte,bus.memory.peek address = some byte := by
      unfold Memory.peek
      cases found : Region.ofAddress address with
      | placeholder => exact absurd found region
      | ram | saveRam | rom | unmapped => exact ⟨_,rfl⟩
    obtain ⟨byte,found⟩ := stored
    exact .inr ⟨here,byte,found,by simp only [read,found]⟩

@[simp] theorem read_memory (bus : Bus σ) (address : UInt32) :
    (bus.read address).2.memory = bus.memory := by
  rcases bus.read_cases address with ⟨_,drawn⟩ | ⟨_,byte,_,same⟩
  · rw [drawn]
    rfl
  · rw [same]

@[simp] theorem readWord_memory (bus : Bus σ) (address : UInt32) :
    (bus.readWord address).2.memory = bus.memory := by
  simp [readWord]

end Bus

namespace Transaction

variable {α β σ : Type} [ByteSource σ]

def writes : Transaction α → Bus σ → List Write
  | .done _,_ => []
  | .read address next,bus =>
    let (byte,bus) := bus.read address
    (next byte).writes bus
  | .write address value next,bus => (address,value) :: next.writes (bus.write address value)
  | .note _ next,bus => next.writes bus

@[simp] theorem writes_pure (result : α) (bus : Bus σ) :
    (pure result : Transaction α).writes bus = [] := rfl
@[simp] theorem writes_fetch (address : UInt32) (bus : Bus σ) : (fetch address).writes bus = [] := rfl
@[simp] theorem writes_store (address : UInt32) (value : UInt8) (bus : Bus σ) :
    (store address value).writes bus = [(address,value)] := rfl
@[simp] theorem writes_log (event : Event) (bus : Bus σ) : (log event).writes bus = [] := rfl

@[simp] theorem writes_bind (t : Transaction α) (rest : α → Transaction β) (bus : Bus σ) :
    (t >>= rest).writes bus = t.writes bus ++ (rest (t.run bus).1).writes (t.run bus).2 := by
  induction t generalizing bus with
  | done => rfl
  | read address next ih => exact ih _ _
  | write address value next ih => exact congrArg ((address,value) :: ·) (ih _)
  | note event next ih => exact ih _

@[simp] theorem writes_map (change : α → β) (t : Transaction α) (bus : Bus σ) :
    (change <$> t).writes bus = t.writes bus := by
  rw [← bind_pure_comp,writes_bind,writes_pure,List.append_nil]

@[simp] theorem writes_fetchWord (address : UInt32) (bus : Bus σ) :
    (fetchWord address).writes bus = [] := by
  simp [fetchWord]

theorem run_memory (t : Transaction α) (bus : Bus σ) :
    (t.run bus).2.memory = bus.memory.pokeAll (t.writes bus) := by
  induction t generalizing bus with
  | done => rfl
  | read address next ih =>
    calc ((read address next).run bus).2.memory
        = (bus.read address).2.memory.pokeAll
            ((next (bus.read address).1).writes (bus.read address).2) := ih _ _
      _ = bus.memory.pokeAll ((read address next).writes bus) := by rw [Bus.read_memory]; rfl
  | write address value next ih => exact ih _
  | note event next ih => exact ih _

end Transaction

end Console6502
