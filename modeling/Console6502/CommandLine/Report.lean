import Console6502.CommandLine.Arguments
import Console6502.CommandLine.Demo
import Console6502.Lifecycle
import Console6502.Xorshift

namespace Console6502.CommandLine

structure Report where
  exit : UInt32
  output : String
  errors : String
  deriving DecidableEq

def programName : String := "cart6502"

def programVersion : String := "0.1.0"

def lines (texts : List String) : String := "".intercalate (texts.map (· ++ "\n"))

def failure (exit : UInt32) (reason : String) : Report := ⟨exit,"",lines ["Error: " ++ reason]⟩

open Numeral in
def stateLines (r : Registers) (watched : UInt8) : List String :=
  ["A: 0x" ++ hexByte r.a,
    "X: 0x" ++ hexByte r.x,
    "Y: 0x" ++ hexByte r.y,
    "SP: 0x" ++ hexByte r.sp,
    "PC: 0x" ++ hexWord r.pc,
    "P (flags): 0b" ++ binaryByte r.p.byte,
    "mem[0x0200]: 0x" ++ hexByte watched]

def Options.config (options : Options) : Config :=
  if options.overflow then { overflow := .derive } else {}

def Options.machine (options : Options) : Machine (Generator UInt64) :=
  .new (Xorshift.source options.seed) options.config

def Options.report (options : Options) (image : Array UInt8) : Report :=
  let machine := options.machine
  match machine.bus.memory.loadRom image with
  | .error fault => failure 2 fault.message
  | .ok memory =>
    let ready := { machine with bus := { machine.bus with memory := memory } }.powerOn
    let (result,final) := ready.runFor options.limit.toNat
    let state := stateLines final.registers (final.bus.read 0x0200).1
    match result with
    | .ok count =>
      ⟨0,lines (state ++ ["halted after " ++ Numeral.decimal count ++ " instructions"]),""⟩
    | .error fault => ⟨1,lines state,lines ["Error: " ++ fault.message]⟩

def helpText : String :=
  lines
    ["Instruction-level 6502 interpreter over a fixed cartridge memory map",
      "",
      "Usage: " ++ programName ++ " [OPTIONS] [ROM]",
      "",
      "Arguments:",
      "  [ROM]  Raw ROM image (up to 32 KiB, mirrored into $8000-$FFFF). Uses a built-in demo " ++
        "program when omitted",
      "",
      "Options:",
      "  -s, --seed <SEED>            Seed for the power-on random source [default: 25858]",
      "  -m, --max-steps <MAX_STEPS>  Stop after this many instructions if the program has not " ++
        "halted [default: 1000000]",
      "      --overflow               Derive the V flag on ADC / SBC",
      "  -h, --help                   Print help",
      "  -V, --version                Print version"]

-- `contents` is what reading the named file gave: its bytes, or the reason it could not
-- be read. Without a file it is not consulted.
def Request.report (request : Request) (contents : Except String (Array UInt8)) : Report :=
  match request with
  | .version => ⟨0,lines [programName ++ " " ++ programVersion],""⟩
  | .help => ⟨0,helpText,""⟩
  | .run options =>
    match options.rom with
    | none => options.report demoRom
    | some path =>
      match contents with
      | .ok image => options.report image
      | .error reason => failure 2 ("cannot read " ++ path ++ ": " ++ reason)

def UsageError.report (error : UsageError) : Report :=
  ⟨2,"",lines ["error: " ++ error.message,"","For more information, try '--help'."]⟩

end Console6502.CommandLine
