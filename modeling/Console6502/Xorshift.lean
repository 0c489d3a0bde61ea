import Console6502.Source

namespace Console6502.Xorshift

def advance (word : UInt64) : UInt64 :=
  let word := word ^^^ (word <<< 13)
  let word := word ^^^ (word >>> 7)
  word ^^^ (word <<< 17)

def byte (word : UInt64) : UInt8 := (word >>> 24).toUInt8

-- Zero is the one word that never leaves itself, so seed 0 starts at 1.
def start (seed : UInt64) : UInt64 := max seed 1

def source (seed : UInt64) : Generator UInt64 :=
  ⟨start seed,fun word => let word := advance word; (byte word,word)⟩

end Console6502.Xorshift
