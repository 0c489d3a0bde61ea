import Console6502.Proofs.Checks
import Console6502.Proofs.Draws

-- The memory map and the sources on a host that stops at operations outside their bounds. The
-- banks need nothing for it, whatever the address; a source has to be sound, and stays so.
namespace Console6502

-- The next byte as such a host gives it, where `largest` is the largest size or count that the
-- host can hold. From a sound source it comes without a trap.
class CheckedSource (σ : Type) [ByteSource σ] where
  take (largest : Nat) (s : σ) : Checked (UInt8 × σ)
  Sound (largest : Nat) (s : σ) : Prop
  take_eq {largest : Nat} {s : σ} (sound : Sound largest s) : take largest s = pure (next s)
  sound_next {largest : Nat} {s : σ} (sound : Sound largest s) : Sound largest (next s).2

export CheckedSource (take Sound)

instance : CheckedSource Constant where
  take _ s := pure (next s)
  Sound _ _ := True
  take_eq _ := rfl
  sound_next _ := trivial

instance {τ : Type} : CheckedSource (Generator τ) where
  take _ s := pure (next s)
  Sound _ _ := True
  take_eq _ := rfl
  sound_next _ := trivial

namespace Cycle

def take (largest : Nat) (s : Cycle) : Checked (UInt8 × Cycle) := do
  if s.bytes.isEmpty then return (0,s)
  let byte ← Checked.look s.bytes s.cursor
  let following ← Checked.within .overflow (s.cursor + 1 ≤ largest) (s.cursor + 1)
  let cursor ← Checked.within .division (0 < s.bytes.size) (following % s.bytes.size)
  return (byte,{ s with cursor := cursor })

structure Sound (largest : Nat) (s : Cycle) : Prop where
  size : s.bytes.size ≤ largest
  cursor : 0 < s.bytes.size → s.cursor < s.bytes.size

variable {largest : Nat} {s : Cycle}

theorem sound_ofBytes {bytes : Array UInt8} (size : bytes.size ≤ largest) :
    Sound largest (.ofBytes bytes) := ⟨size,id⟩

theorem take_eq (sound : Sound largest s) : s.take largest = pure (next s) := by
  cases empty : s.bytes.isEmpty with
  | true => simp [take,next,empty]
  | false =>
    have nonempty : 0 < s.bytes.size := by
      rw [Array.size_pos_iff]
      simpa using empty
    have inside := sound.cursor nonempty
    have fits : s.cursor + 1 ≤ largest := Nat.le_trans inside sound.size
    simp only [take,next,empty,Checked.look_of inside,Checked.within_of fits,Checked.within_of nonempty,
      Bool.false_eq_true,if_false,pure_bind,Array.getD,dif_pos inside]
    rfl

theorem sound_next (sound : Sound largest s) : Sound largest (next s).2 := by
  cases empty : s.bytes.isEmpty with
  | true => simpa [next,empty] using sound
  | false =>
    simp only [next,empty,Bool.false_eq_true,if_false]
    exact ⟨sound.size,fun nonempty => Nat.mod_lt _ nonempty⟩

example : take 10 ⟨#[1,2],2⟩ = throw .index := rfl

end Cycle

instance : CheckedSource Cycle where
  take := Cycle.take
  Sound := Cycle.Sound
  take_eq := Cycle.take_eq
  sound_next := Cycle.sound_next

theorem Yields.sound {σ : Type} [ByteSource σ] [CheckedSource σ] {largest : Nat} {s rest : σ}
    {bytes : List UInt8} (drawn : Yields s bytes rest) (sound : Sound largest s) : Sound largest rest := by
  induction drawn with
  | nil => exact sound
  | cons _ ih => exact ih (CheckedSource.sound_next sound)

namespace Checked

section Memory

variable {width : Nat}

def cell (bank : Bank width) (address : UInt32) : Checked UInt8 :=
  look bank.cells.toArray (address.toNat &&& (2 ^ width - 1))

def putCell (bank : Bank width) (address : UInt32) (value : UInt8) : Checked (Bank width) :=
  let place := address.toNat &&& (2 ^ width - 1)
  if inside : place < bank.cells.size then return ⟨bank.cells.set place value inside⟩ else throw .index

def tile (width : Nat) (image : Array UInt8) : Checked (Bank width) := do
  let cells ← Vector.ofFnM fun i => do
    let place ← within .division (0 < image.size) (i.val % image.size)
    look image place
  return ⟨cells⟩

@[simp] theorem cell_eq (bank : Bank width) (address : UInt32) :
    cell bank address = pure (bank.read address) := by
  have inside : address.toNat &&& (2 ^ width - 1) < bank.cells.toArray.size := by
    rw [Vector.size_toArray]
    exact (Bank.index width address).isLt
  exact look_of inside

@[simp] theorem putCell_eq (bank : Bank width) (address : UInt32) (value : UInt8) :
    putCell bank address value = pure (bank.write address value) :=
  dif_pos (Bank.index width address).isLt

theorem tile_eq (image : Array UInt8) (nonempty : 0 < image.size) :
    tile width image = pure (.tile width image nonempty) := by
  have element (i : Fin (2 ^ width)) := look_of (Nat.mod_lt i.val nonempty)
  simp only [tile,within_of nonempty,pure_bind,element,Vector.ofFnM_pure,Bank.tile]

def peek (m : Memory) (address : UInt32) : Checked (Option UInt8) :=
  let place := masked address
  match Region.ofAddress address with
  | .ram => some <$> cell m.ram place
  | .saveRam => some <$> cell m.saveRam place
  | .rom => some <$> cell m.rom place
  | .unmapped => return some 0
  | .placeholder => return none

def poke (m : Memory) (address : UInt32) (value : UInt8) : Checked Memory :=
  let place := masked address
  match Region.ofAddress address with
  | .ram => return { m with ram := ← putCell m.ram place value }
  | .saveRam => return { m with saveRam := ← putCell m.saveRam place value }
  | .placeholder | .unmapped | .rom => return m

def loadRom (m : Memory) (image : Array UInt8) : Checked (Except Fault Memory) :=
  if 2 ^ romWidth < image.size then return .error (.romTooLarge image.size)
  else if image.isEmpty then return .ok { m with rom := .zero _ }
  else return .ok { m with rom := ← tile _ image }

def loadSaveRam (m : Memory) (image : Array UInt8) : Checked (Except Fault Memory) :=
  if image.size ≠ 2 ^ saveRamWidth then return .error (.saveRamSize image.size)
  else if exact : image.size = m.saveRam.cells.toArray.size then
    return .ok { m with saveRam := ⟨⟨image,exact.trans m.saveRam.cells.size_toArray⟩⟩ }
  else throw .length

variable (m : Memory)

@[simp] theorem peek_eq (address : UInt32) : peek m address = pure (m.peek address) := by
  unfold peek Memory.peek
  cases Region.ofAddress address <;> simp

@[simp] theorem poke_eq (address : UInt32) (value : UInt8) :
    poke m address value = pure (m.poke address value) := by
  unfold poke Memory.poke
  cases Region.ofAddress address <;> simp

@[simp] theorem loadRom_eq (image : Array UInt8) : loadRom m image = pure (m.loadRom image) := by
  unfold loadRom Memory.loadRom
  split
  · rfl
  · by_cases nonempty : 0 < image.size
    · have filled : image.isEmpty = false := by simpa [Array.size_pos_iff] using nonempty
      simp [filled,nonempty,tile_eq image nonempty]
    · have empty : image.isEmpty = true := by simpa using nonempty
      simp [empty,nonempty]

@[simp] theorem loadSaveRam_eq (image : Array UInt8) :
    loadSaveRam m image = pure (m.loadSaveRam image) := by
  unfold loadSaveRam Memory.loadSaveRam
  by_cases exact : image.size = 2 ^ saveRamWidth
  · have whole : image.size = m.saveRam.cells.toArray.size := exact.trans m.saveRam.cells.size_toArray.symm
    rw [if_neg (not_not_intro exact),dif_pos whole,dif_pos exact]
  · rw [if_pos exact,dif_neg exact]

end Memory

variable {α σ : Type}

def write (bus : Bus σ) (address : UInt32) (value : UInt8) : Checked (Bus σ) :=
  return { bus with memory := ← poke bus.memory address value }

@[simp] theorem write_eq (bus : Bus σ) (address : UInt32) (value : UInt8) :
    write bus address value = pure (bus.write address value) := by
  simp [write,Bus.write]

variable [ByteSource σ] [CheckedSource σ] (largest : Nat)

def draw : (count : Nat) → σ → Checked (Vector UInt8 count × σ)
  | 0,s => return (.emptyWithCapacity 0,s)
  | count + 1,s => do
    let (bytes,s) ← draw count s
    let (byte,s) ← take largest s
    return (bytes.push byte,s)

def random (bus : Bus σ) : Checked (UInt8 × Bus σ) := do
  let (byte,source) ← take largest bus.source
  return (byte,{ bus with source := source })

def read (bus : Bus σ) (address : UInt32) : Checked (UInt8 × Bus σ) := do
  match ← peek bus.memory address with
  | some byte => return (byte,bus)
  | none => random largest bus

def readWord (bus : Bus σ) (address : UInt32) : Checked (UInt16 × Bus σ) := do
  let (low,bus) ← read largest bus address
  let (high,bus) ← read largest bus (address + 1)
  return (← word low high,bus)

def randomizeRam (bus : Bus σ) : Checked (Bus σ) := do
  let drawn ← draw largest (2 ^ ramWidth) bus.source
  return bus.refill drawn

def carryOut : Transaction α → Bus σ → Checked (α × Bus σ)
  | .done result,bus => return (result,bus)
  | .read address next,bus => do
    let (byte,bus) ← read largest bus address
    carryOut (next byte) bus
  | .write address value next,bus => do
    let bus ← write bus address value
    carryOut next bus
  | .note _ next,bus => carryOut next bus

variable {largest} {bus : Bus σ}

theorem draw_eq {s : σ} (sound : Sound largest s) (count : Nat) :
    draw largest count s = pure (Console6502.draw count s) := by
  induction count with
  | zero => rfl
  | succ count ih =>
    have later : Sound largest (Console6502.draw count s).2 := (yields_draw count s).sound sound
    simp only [draw,ih,pure_bind,CheckedSource.take_eq later,Console6502.draw]

theorem random_eq (sound : Sound largest bus.source) : random largest bus = pure bus.random := by
  simp only [random,CheckedSource.take_eq sound,pure_bind,Bus.random]

theorem random_sound (sound : Sound largest bus.source) : Sound largest bus.random.2.source :=
  CheckedSource.sound_next sound

theorem read_eq (sound : Sound largest bus.source) (address : UInt32) :
    read largest bus address = pure (bus.read address) := by
  simp only [read,peek_eq,pure_bind,Bus.read]
  cases bus.memory.peek address with
  | some byte => rfl
  | none => exact random_eq sound

theorem read_sound (sound : Sound largest bus.source) (address : UInt32) :
    Sound largest (bus.read address).2.source :=
  ((Transaction.fetch address).run_yields bus).sound sound

theorem readWord_eq (sound : Sound largest bus.source) (address : UInt32) :
    readWord largest bus address = pure (bus.readWord address) := by
  simp only [readWord,read_eq sound,pure_bind,read_eq (read_sound sound address),word_eq,Bus.readWord]

theorem randomizeRam_eq (sound : Sound largest bus.source) :
    randomizeRam largest bus = pure bus.randomizeRam := by
  rw [randomizeRam,draw_eq sound,pure_bind,Bus.randomizeRam]

theorem carryOut_eq (asked : Transaction α) (sound : Sound largest bus.source) :
    carryOut largest asked bus = pure (asked.run bus) := by
  induction asked generalizing bus with
  | done => rfl
  | read address next ih =>
    have later := read_sound sound address
    simp only [carryOut,read_eq sound,pure_bind,ih _ later,Transaction.run]
  | write address value next ih =>
    simp only [carryOut,write_eq,pure_bind,Transaction.run]
    exact ih sound
  | note event next ih => exact ih sound

end Checked

end Console6502
