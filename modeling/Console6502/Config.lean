namespace Console6502

inductive OverflowRule where
  | ignore
  | derive
  deriving DecidableEq

inductive BreakRule where
  | halt
  | interrupt
  deriving DecidableEq

structure Config where
  overflow : OverflowRule := .ignore
  onBreak : BreakRule := .halt
  deriving DecidableEq

def OverflowRule.name : OverflowRule → String
  | .ignore => "Ignore"
  | .derive => "Derive"

def BreakRule.name : BreakRule → String
  | .halt => "Halt"
  | .interrupt => "Interrupt"

end Console6502
