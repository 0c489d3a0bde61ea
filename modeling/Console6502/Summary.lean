import Console6502.Machine

namespace Console6502

-- What a value does not show ends the list as two dots.
namespace Summary

def fields (entries : List (String × String)) : String :=
  ", ".intercalate (entries.map fun entry => entry.1 ++ ": " ++ entry.2)

def record (name : String) (entries : List (String × String)) : String :=
  name ++ " \x7b " ++ fields entries ++ " \x7d"

def openRecord (name : String) (entries : List (String × String)) : String :=
  name ++ " \x7b " ++ fields entries ++ ", .. \x7d"

def number (n : Nat) : String := Numeral.decimal n

def truth (value : Bool) : String := if value then "true" else "false"

end Summary

open Summary

def Fault.summary : Fault → String
  | .invalidOpcode opcode pc =>
    record "InvalidOpcode" [("opcode",number opcode.toNat),("pc",number pc.toNat)]
  | .halted => "Halted"
  | .limitReached limit => record "StepLimitExceeded" [("limit",number limit)]
  | .romTooLarge size => record "RomTooLarge" [("len",number size)]
  | .saveRamSize size => record "SaveRamSizeMismatch" [("len",number size)]

def Bank.summary {width : Nat} (bank : Bank width) : String :=
  record "Bank" [("size",number bank.size)]

def Registers.summary (r : Registers) : String :=
  record "CpuState"
    [("a",number r.a.toNat),("x",number r.x.toNat),("y",number r.y.toNat),("sp",number r.sp.toNat),
      ("pc",number r.pc.toNat),("status",number r.p.byte.toNat),("ready",truth r.ready)]

def Memory.summary (m : Memory) : String :=
  openRecord "MemoryMap"
    [("ram",m.ram.summary),("save_ram",m.saveRam.summary),("rom",m.rom.summary)]

def Config.summary (config : Config) : String :=
  record "CpuConfig" [("overflow",config.overflow.name),("brk",config.onBreak.name)]

def Machine.summary {σ : Type} (m : Machine σ) : String :=
  record "Cpu"
    [("state",m.registers.summary),("memory",m.bus.memory.summary),("config",m.config.summary)]

end Console6502
