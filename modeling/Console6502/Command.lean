import Console6502.Lifecycle

namespace Console6502

inductive Area where
  | ram
  | saveRam
  | rom
  deriving DecidableEq

inductive Setting where
  | register (target : Register) (value : UInt8)
  | pc (value : UInt16)
  | status (value : UInt8)
  | ready (value : Bool)
  deriving DecidableEq

def Registers.configure (r : Registers) : Setting → Registers
  | .register target value => r.put target value
  | .pc value => { r with pc := value }
  | .status value => { r with p := ⟨value⟩ }
  | .ready value => { r with ready := value }

-- What a host can ask of a console, and that comes to an end by itself. A run without a limit is
-- not among these.
inductive Command where
  | powerOn
  | reset
  | step
  | stepEach (count : Nat)
  | runFor (limit : Nat)
  | read (address : UInt32)
  | readWord (address : UInt32)
  | write (address : UInt32) (value : UInt8)
  | randomByte
  | randomizeRam
  | region (address : UInt32)
  | loadRom (image : Array UInt8)
  | loadSaveRam (image : Array UInt8)
  | patchRom (offset : Nat) (bytes : List UInt8)
  | patchRam (offset : Nat) (bytes : List UInt8)
  | dump (area : Area) (start count : Nat)
  | configure (setting : Setting)
  | inspect
  | bit (index : UInt8)
  | setBit (index value : UInt8)
  | anyFlag (mask : UInt8)
  | assignFlags (mask : UInt8) (on : Bool)
  | deriveFlags (result : UInt8)
  deriving DecidableEq

inductive Reply where
  | done
  | outcome (outcome : Outcome)
  | outcomes (steps : List (Except Fault Outcome × Registers))
  | count (instructions : Nat)
  | byte (value : UInt8)
  | word (value : UInt16)
  | region (region : Region)
  | bytes (values : List UInt8)
  | truth (value : Bool)
  | state (registers : Registers) (config : Config)
  | fault (fault : Fault)

def Memory.slice (m : Memory) (area : Area) (start count : Nat) : List UInt8 :=
  match area with
  | .ram => m.ram.slice start count
  | .saveRam => m.saveRam.slice start count
  | .rom => m.rom.slice start count

namespace Machine

variable {σ : Type}

def mapRegisters (m : Machine σ) (change : Registers → Registers) : Machine σ :=
  { m with registers := change m.registers }

def mapMemory (m : Machine σ) (change : Memory → Memory) : Machine σ :=
  { m with bus := { m.bus with memory := change m.bus.memory } }

def load (m : Machine σ) (loaded : Except Fault Memory) : Reply × Machine σ :=
  match loaded with
  | .ok memory => (.done,{ m with bus := { m.bus with memory := memory } })
  | .error fault => (.fault fault,m)

end Machine

variable {σ : Type} [ByteSource σ]

def Command.perform (command : Command) (m : Machine σ) : Reply × Machine σ :=
  match command with
  | .powerOn => (.done,m.powerOn)
  | .reset => (.done,m.reset)
  | .step =>
    match m.step with
    | (.ok outcome,m) => (.outcome outcome,m)
    | (.error fault,m) => (.fault fault,m)
  | .stepEach count =>
    let (steps,m) := m.stepEach count
    (.outcomes steps,m)
  | .runFor limit =>
    match m.runFor limit with
    | (.ok count,m) => (.count count,m)
    | (.error fault,m) => (.fault fault,m)
  | .read address =>
    let (byte,bus) := m.bus.read address
    (.byte byte,{ m with bus := bus })
  | .readWord address =>
    let (value,bus) := m.bus.readWord address
    (.word value,{ m with bus := bus })
  | .write address value => (.done,{ m with bus := m.bus.write address value })
  | .randomByte =>
    let (byte,bus) := m.bus.random
    (.byte byte,{ m with bus := bus })
  | .randomizeRam => (.done,{ m with bus := m.bus.randomizeRam })
  | .region address => (.region (.ofAddress address),m)
  | .loadRom image => m.load (m.bus.memory.loadRom image)
  | .loadSaveRam image => m.load (m.bus.memory.loadSaveRam image)
  | .patchRom offset bytes =>
    (.done,m.mapMemory fun memory => { memory with rom := memory.rom.patch offset bytes })
  | .patchRam offset bytes =>
    (.done,m.mapMemory fun memory => { memory with ram := memory.ram.patch offset bytes })
  | .dump area start count => (.bytes (m.bus.memory.slice area start count),m)
  | .configure setting => (.done,m.mapRegisters (·.configure setting))
  | .inspect => (.state m.registers m.config,m)
  | .bit index => (.byte (m.registers.p.bit index),m)
  | .setBit index value => (.done,m.mapRegisters (·.flags (·.withBit index value)))
  | .anyFlag mask => (.truth (m.registers.p.any mask),m)
  | .assignFlags mask on => (.done,m.mapRegisters (·.flags (·.assign mask on)))
  | .deriveFlags result => (.done,m.mapRegisters (·.flags (·.withResult result)))

def Command.events (command : Command) (m : Machine σ) : List Event :=
  match command with
  | .powerOn => m.powerOnEvents
  | .reset => m.resetEvents
  | .step => m.stepEvents
  | .stepEach count => m.stepEachEvents count
  | .runFor limit => m.runForEvents limit
  | .write address value => Event.ofWrite address value
  | _ => []

def Command.performAll : List Command → Machine σ → List Reply × Machine σ
  | [],m => ([],m)
  | command :: rest,m =>
    let (reply,m) := command.perform m
    let (replies,m) := performAll rest m
    (reply :: replies,m)

end Console6502
