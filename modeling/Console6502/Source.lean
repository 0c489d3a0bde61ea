namespace Console6502

-- Where power-on contents and the placeholder register come from. A source is not assumed random:
-- equal states give equal bytes.
class ByteSource (σ : Type) where
  next : σ → UInt8 × σ

export ByteSource (next)

structure Constant where
  value : UInt8
  deriving DecidableEq

instance : ByteSource Constant where
  next s := (s.value,s)

structure Cycle where
  bytes : Array UInt8
  cursor : Nat
  deriving DecidableEq

def Cycle.ofBytes (bytes : Array UInt8) : Cycle := ⟨bytes,0⟩

instance : ByteSource Cycle where
  next s :=
    if s.bytes.isEmpty then (0,s)
    else (s.bytes.getD s.cursor 0,{ s with cursor := (s.cursor + 1) % s.bytes.size })

structure Generator (τ : Type) where
  state : τ
  advance : τ → UInt8 × τ

instance {τ : Type} : ByteSource (Generator τ) where
  next s :=
    let (byte,state) := s.advance s.state
    (byte,{ s with state := state })

def Generator.counter (start step : UInt8) : Generator UInt8 := ⟨start,fun n => (n + step,n + step)⟩

def draw {σ : Type} [ByteSource σ] : (count : Nat) → σ → Vector UInt8 count × σ
  | 0,s => (#v[],s)
  | count + 1,s =>
    let (bytes,s) := draw count s
    let (byte,s) := next s
    (bytes.push byte,s)

end Console6502
