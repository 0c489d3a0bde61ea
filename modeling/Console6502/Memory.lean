import Console6502.Bank
import Console6502.Fault
import Console6502.Region
import Console6502.Source
import Console6502.Word

namespace Console6502

structure Memory where
  ram : Bank ramWidth
  saveRam : Bank saveRamWidth
  rom : Bank romWidth
  deriving DecidableEq

namespace Memory

def zero : Memory := ⟨.zero _,.zero _,.zero _⟩

-- Nothing is stored at the placeholder register. Unmapped addresses hold a fixed zero.
@[inline] def peek (m : Memory) (address : UInt32) : Option UInt8 :=
  let place := masked address
  match Region.ofAddress address with
  | .ram => some (m.ram.read place)
  | .saveRam => some (m.saveRam.read place)
  | .rom => some (m.rom.read place)
  | .unmapped => some 0
  | .placeholder => none

@[inline] def poke (m : Memory) (address : UInt32) (value : UInt8) : Memory :=
  let place := masked address
  match Region.ofAddress address with
  | .ram => { m with ram := m.ram.write place value }
  | .saveRam => { m with saveRam := m.saveRam.write place value }
  | .placeholder | .unmapped | .rom => m

def loadRom (m : Memory) (image : Array UInt8) : Except Fault Memory :=
  if 2 ^ romWidth < image.size then .error (.romTooLarge image.size)
  else if nonempty : 0 < image.size then .ok { m with rom := .tile _ image nonempty }
  else .ok { m with rom := .zero _ }

def loadSaveRam (m : Memory) (image : Array UInt8) : Except Fault Memory :=
  if exact : image.size = 2 ^ saveRamWidth then .ok { m with saveRam := ⟨⟨image,exact⟩⟩ }
  else .error (.saveRamSize image.size)

end Memory

def Region.writable : Region → Bool
  | .ram | .saveRam => true
  | .placeholder | .unmapped | .rom => false

structure Bus (σ : Type) where
  memory : Memory
  source : σ

namespace Bus

variable {σ : Type}

@[inline] def write (bus : Bus σ) (address : UInt32) (value : UInt8) : Bus σ :=
  { bus with memory := bus.memory.poke address value }

variable [ByteSource σ]

def random (bus : Bus σ) : UInt8 × Bus σ :=
  let (byte,source) := next bus.source
  (byte,{ bus with source := source })

-- A read advances the source exactly when the address holds no stored byte.
def read (bus : Bus σ) (address : UInt32) : UInt8 × Bus σ :=
  match bus.memory.peek address with
  | some byte => (byte,bus)
  | none => bus.random

def readWord (bus : Bus σ) (address : UInt32) : UInt16 × Bus σ :=
  let (low,bus) := bus.read address
  let (high,bus) := bus.read (address + 1)
  (word low high,bus)

def refill (bus : Bus σ) (drawn : Vector UInt8 (2 ^ ramWidth) × σ) : Bus σ :=
  { bus with memory := { bus.memory with ram := ⟨drawn.1⟩ },source := drawn.2 }

def randomizeRam (bus : Bus σ) : Bus σ := bus.refill (draw (2 ^ ramWidth) bus.source)

end Bus

end Console6502
