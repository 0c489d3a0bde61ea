import Console6502.Run

namespace Console6502.Machine

variable {σ : Type} [ByteSource σ]

def reset (m : Machine σ) : Machine σ :=
  let (pc,bus) := m.bus.readWord resetVector
  { m with registers := { m.registers with pc := pc,ready := true },bus := bus }

-- The two bytes drawn for the program counter come high byte first and do not outlive the reset.
def powerOn (m : Machine σ) : Machine σ :=
  let bus := m.bus.randomizeRam
  let (high,bus) := bus.random
  let (low,bus) := bus.random
  let (a,bus) := bus.random
  let (x,bus) := bus.random
  let (y,bus) := bus.random
  let (sp,bus) := bus.random
  let (p,bus) := bus.random
  let registers := { m.registers with a := a,x := x,y := y,sp := sp,pc := word low high,p := ⟨p⟩ }
  reset { m with registers := registers,bus := bus }

def resetAndRun (m : Machine σ) : Option (Except Fault Nat × Machine σ) := m.reset.run

def powerOnAndRun (m : Machine σ) : Option (Except Fault Nat × Machine σ) := m.powerOn.run

def resetEvents (m : Machine σ) : List Event := [.resetTo m.reset.registers.pc]

def powerOnEvents (m : Machine σ) : List Event :=
  let registers := m.powerOn.registers
  [.poweredOn registers,.resetTo registers.pc]

def resetAndRunEvents (m : Machine σ) : Option (List Event) := do
  let later ← m.reset.runEvents
  return m.resetEvents ++ later

def powerOnAndRunEvents (m : Machine σ) : Option (List Event) := do
  let later ← m.powerOn.runEvents
  return m.powerOnEvents ++ later

end Console6502.Machine
