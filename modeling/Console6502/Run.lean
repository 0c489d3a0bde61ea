import Console6502.Machine

namespace Console6502.Machine

variable {σ : Type} [ByteSource σ]

def runWithin (spent : Nat) : (left : Nat) → Machine σ → Except Fault Nat × Machine σ
  | 0,m => (.error (.limitReached spent),m)
  | left + 1,m =>
    match m.step with
    | (.error fault,m) => (.error fault,m)
    | (.ok .halted,m) => (.ok (spent + 1),m)
    | (.ok .running,m) => runWithin (spent + 1) left m

def runFor (limit : Nat) (m : Machine σ) : Except Fault Nat × Machine σ := m.runWithin 0 limit

-- A halt is not a fault, so a step after it is still tried.
def stepEach : (count : Nat) → Machine σ → List (Except Fault Outcome × Registers) × Machine σ
  | 0,m => ([],m)
  | count + 1,m =>
    match m.step with
    | (.error fault,m) => ([(.error fault,m.registers)],m)
    | (.ok outcome,m) =>
      let (later,last) := stepEach count m
      ((.ok outcome,m.registers) :: later,last)

-- The least solution of its equation: a program that never stops has no value here.
def runOn (spent : Nat) (m : Machine σ) : Option (Except Fault Nat × Machine σ) :=
  match m.step with
  | (.error fault,m) => some (.error fault,m)
  | (.ok .halted,m) => some (.ok (spent + 1),m)
  | (.ok .running,m) => m |>.runOn (spent + 1)
partial_fixpoint

def run (m : Machine σ) : Option (Except Fault Nat × Machine σ) := m.runOn 0

def runForEvents : (limit : Nat) → Machine σ → List Event
  | 0,_ => []
  | limit + 1,m =>
    m.stepEvents ++
      match m.step with
      | (.ok .running,m) => runForEvents limit m
      | _ => []

def stepEachEvents : (count : Nat) → Machine σ → List Event
  | 0,_ => []
  | count + 1,m =>
    m.stepEvents ++
      match m.step with
      | (.ok _,m) => stepEachEvents count m
      | _ => []

def runEvents (m : Machine σ) : Option (List Event) :=
  let first := m.stepEvents
  match m.step with
  | (.ok .running,m) => do
    let later ← m |>.runEvents
    return first ++ later
  | _ => some first
partial_fixpoint

end Console6502.Machine
