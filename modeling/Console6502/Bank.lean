namespace Console6502

-- Mathlib brings a second power of naturals. The sizes below, and all that is proved about them,
-- keep to this one.
attribute [instance (high)] instPowNat

structure Bank (width : Nat) where
  cells : Vector UInt8 (2 ^ width)
  deriving DecidableEq

namespace Bank

variable {width : Nat}

-- The mask keeps the low `width` bits, so a bank repeats across any window larger than itself.
@[inline] def index (width : Nat) (address : UInt32) : Fin (2 ^ width) :=
  ⟨address.toNat &&& (2 ^ width - 1),
    Nat.and_lt_two_pow _ (Nat.sub_lt (Nat.two_pow_pos width) Nat.one_pos)⟩

def zero (width : Nat) : Bank width := ⟨Vector.replicate (2 ^ width) 0⟩

@[inline] def read (bank : Bank width) (address : UInt32) : UInt8 := bank.cells[index width address]

@[inline] def write (bank : Bank width) (address : UInt32) (value : UInt8) : Bank width :=
  ⟨bank.cells.set (index width address) value (index width address).isLt⟩

def fill (_bank : Bank width) (value : UInt8) : Bank width := ⟨Vector.replicate (2 ^ width) value⟩

def clear (bank : Bank width) : Bank width := bank.fill 0

def size (_bank : Bank width) : Nat := 2 ^ width

def tile (width : Nat) (image : Array UInt8) (nonempty : 0 < image.size) : Bank width :=
  ⟨Vector.ofFn fun i =>
    have := Nat.mod_lt i.val nonempty
    image[i.val % image.size]⟩

def patch (bank : Bank width) (offset : Nat) : List UInt8 → Bank width
  | [] => bank
  | value :: rest => patch ⟨bank.cells.setIfInBounds offset value⟩ (offset + 1) rest

def slice (bank : Bank width) (start count : Nat) : List UInt8 :=
  (bank.cells.toArray.extract start (start + count)).toList

def nonzero (bank : Bank width) (limit : Nat) : List (Nat × UInt8) :=
  let found := (bank.cells.toList.zipIdx.filter fun cell => cell.1 != 0).take limit
  found.map fun cell => (cell.2,cell.1)

theorem index_val (width : Nat) (address : UInt32) :
    (index width address).val = address.toNat % 2 ^ width := Nat.and_two_pow_sub_one_eq_mod _ _

@[simp] theorem read_zero (width : Nat) (address : UInt32) : (zero width).read address = 0 := by
  simp [read,zero]

@[simp] theorem read_fill (bank : Bank width) (value : UInt8) (address : UInt32) :
    (bank.fill value).read address = value := by
  simp [read,fill]

theorem read_write (bank : Bank width) (place address : UInt32) (value : UInt8) :
    (bank.write place value).read address =
      if index width place = index width address then value else bank.read address := by
  simp only [read,write,Fin.getElem_fin,Vector.getElem_set,Fin.ext_iff]

end Bank

end Console6502
