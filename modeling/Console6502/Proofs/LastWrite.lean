import Console6502.Proofs.Draws

-- The address space under any sequence of reads and writes: a cell of RAM or save RAM holds
-- the last byte written to it, and every other cell ignores what is written.
namespace Console6502

inductive Access where
  | read (address : UInt32)
  | readWord (address : UInt32)
  | write (address : UInt32) (value : UInt8)

def Access.places : Access → List UInt32
  | .read address => [address]
  | .readWord address => [address,address + 1]
  | .write _ _ => []

def lastWrite (address : UInt32) (accesses : List Access) : Option UInt8 :=
  accesses.reverse.findSome? fun
    | .write place value => if place.toNat % 65536 = address.toNat % 65536 then some value else none
    | _ => none

-- How many of the bytes read have no stored byte behind them.
def drawCount (accesses : List Access) : Nat :=
  (accesses.flatMap Access.places).countP fun address => address.toNat % 65536 = 0x2000

theorem lastWrite_cons (address : UInt32) (access : Access) (later : List Access) :
    lastWrite address (access :: later) = (lastWrite address later).or (lastWrite address [access]) := by
  simp [lastWrite,List.findSome?_append]

theorem Bank.getElem?_masked {width : Nat} (narrow : width ≤ 16) (bank : Bank width) (address : UInt32) :
    bank.cells[address.toNat % 2 ^ width]? = some (bank.read (masked address)) := by
  have inside : address.toNat % 2 ^ width < 2 ^ width := Nat.mod_lt _ (Nat.two_pow_pos width)
  have folded : address.toNat % 65536 % 2 ^ width = address.toNat % 2 ^ width :=
    Nat.mod_mod_of_dvd _ (Nat.pow_dvd_pow 2 narrow)
  rw [Vector.getElem?_eq_getElem inside,read]
  simp only [Fin.getElem_fin,index_val,toNat_masked,folded]

theorem Memory.getElem?_cells (m : Memory) (address : UInt32) :
    match Region.ofAddress address with
    | .ram => m.ram.cells[address.toNat % 8192]? = m.peek address
    | .saveRam => m.saveRam.cells[address.toNat % 8192]? = m.peek address
    | .rom => m.rom.cells[address.toNat % 32768]? = m.peek address
    | .placeholder | .unmapped => True := by
  unfold peek
  cases Region.ofAddress address with
  | ram => exact m.ram.getElem?_masked (by decide) address
  | saveRam => exact m.saveRam.getElem?_masked (by decide) address
  | rom => exact m.rom.getElem?_masked (by decide) address
  | placeholder | unmapped => trivial

namespace Bus

variable {σ : Type} [ByteSource σ]

def access (bus : Bus σ) : Access → Bus σ
  | .read address => (bus.read address).2
  | .readWord address => (bus.readWord address).2
  | .write address value => bus.write address value

def accessAll (bus : Bus σ) (accesses : List Access) : Bus σ := accesses.foldl access bus

theorem peek_access (bus : Bus σ) (access : Access) (address : UInt32) :
    (bus.access access).memory.peek address =
      if (Region.ofAddress address).writable then
        (lastWrite address [access]).or (bus.memory.peek address)
      else bus.memory.peek address := by
  cases access with
  | read place | readWord place => simp [Bus.access,lastWrite]
  | write place value =>
    simp only [Bus.access,write_memory,Memory.peek_poke,masked_eq_iff]
    by_cases same : place.toNat % 65536 = address.toNat % 65536
    · simp [lastWrite,same,Region.ofAddress_congr (masked_eq_iff.mpr same)]
    · simp [lastWrite,same]

theorem peek_accessAll (bus : Bus σ) (accesses : List Access) (address : UInt32) :
    (bus.accessAll accesses).memory.peek address =
      if (Region.ofAddress address).writable then
        (lastWrite address accesses).or (bus.memory.peek address)
      else bus.memory.peek address := by
  induction accesses generalizing bus with
  | nil => simp [accessAll,lastWrite]
  | cons access later ih =>
    refine (ih (bus.access access)).trans ?_
    rw [peek_access,lastWrite_cons address access later,Option.or_assoc]
    split <;> rfl

theorem read_yields (bus : Bus σ) (address : UInt32) :
    ∃ bytes,bytes.length = [address].countP (fun address => address.toNat % 65536 = 0x2000) ∧
      Yields bus.source bytes (bus.read address).2.source := by
  rw [read_eq]
  by_cases here : address.toNat % 65536 = 0x2000
  · rw [if_pos here]
    exact ⟨_,by simp [here],.cons .nil⟩
  · rw [if_neg here]
    exact ⟨[],by simp [here],.nil⟩

theorem access_yields (bus : Bus σ) (access : Access) :
    ∃ bytes,bytes.length = drawCount [access] ∧ Yields bus.source bytes (bus.access access).source := by
  cases access with
  | read address =>
    obtain ⟨bytes,length,drew⟩ := bus.read_yields address
    exact ⟨bytes,length,drew⟩
  | readWord address =>
    obtain ⟨first,length,low⟩ := bus.read_yields address
    obtain ⟨second,length',high⟩ := (bus.read address).2.read_yields (address + 1)
    refine ⟨first ++ second,?_,low.append high⟩
    rw [List.length_append,length,length',← List.countP_append]
    rfl
  | write address value => exact ⟨[],rfl,.nil⟩

theorem accessAll_yields (bus : Bus σ) (accesses : List Access) :
    ∃ bytes,bytes.length = drawCount accesses ∧
      Yields bus.source bytes (bus.accessAll accesses).source := by
  induction accesses generalizing bus with
  | nil => exact ⟨[],rfl,.nil⟩
  | cons access later ih =>
    obtain ⟨first,length,drew⟩ := bus.access_yields access
    obtain ⟨second,length',drew'⟩ := ih (bus.access access)
    refine ⟨first ++ second,?_,drew.append drew'⟩
    rw [List.length_append,length,length',drawCount,drawCount,drawCount,← List.countP_append,
      ← List.flatMap_append]
    rfl

theorem accessAll_source (bus : Bus σ) (accesses : List Access) :
    (bus.accessAll accesses).source = (draw (drawCount accesses) bus.source).2 := by
  obtain ⟨bytes,length,drew⟩ := bus.accessAll_yields accesses
  rw [← length]
  exact (yields_iff.mp drew).2.symm

theorem peek_read (bus : Bus σ) {address : UInt32} (stored : address.toNat % 65536 ≠ 0x2000) :
    bus.memory.peek address = some (bus.read address).1 := by
  rcases bus.read_cases address with ⟨here,_⟩ | ⟨_,byte,found,looked⟩
  · exact absurd here stored
  · rw [found,looked]

-- What a read finds after any accesses; the region of the address says which case it is.
theorem last_write_wins (bus : Bus σ) (before : List Access) (address : UInt32) :
    let later := bus.accessAll before
    let found := later.read address
    let cell := address.toNat % 65536
    (match Region.ofAddress address with
      | .ram => 0 ≤ cell ∧ cell ≤ 0x1FFF ∧
          some found.1 = (lastWrite address before).or bus.memory.ram.cells[address.toNat % 8192]? ∧
          later.memory.ram.cells[address.toNat % 8192]? = some found.1
      | .placeholder => cell = 0x2000 ∧ found.1 = (next later.source).1
      | .unmapped => 0x2001 ≤ cell ∧ cell ≤ 0x5FFF ∧ found.1 = 0
      | .saveRam => 0x6000 ≤ cell ∧ cell ≤ 0x7FFF ∧
          some found.1 = (lastWrite address before).or bus.memory.saveRam.cells[address.toNat % 8192]? ∧
          later.memory.saveRam.cells[address.toNat % 8192]? = some found.1
      | .rom => 0x8000 ≤ cell ∧ some found.1 = bus.memory.rom.cells[address.toNat % 32768]? ∧
          later.memory.rom.cells[address.toNat % 32768]? = some found.1) ∧
    later.source = (draw (drawCount before) bus.source).2 ∧
    found.2 = { later with source := if cell = 0x2000 then (next later.source).2 else later.source } ∧
    ((later.readWord address).1.toNat = found.1.toNat + 256 * (found.2.read (address + 1)).1.toNat ∧
      (later.readWord address).2 = (found.2.read (address + 1)).2 ∧
      (later.readWord address).2.memory = later.memory) ∧
    ∀ value,(later.write address value).source = later.source := by
  intro later found cell
  have kept : later.memory.peek address = _ := bus.peek_accessAll before address
  have stored : cell ≠ 0x2000 → later.memory.peek address = some found.1 := later.peek_read
  have bounds := Region.ofAddress_bounds address
  have first := bus.memory.getElem?_cells address
  have last := later.memory.getElem?_cells address
  refine ⟨?_,bus.accessAll_source before,?_,⟨toNat_word _ _,rfl,readWord_memory _ _⟩,fun _ => rfl⟩
  · cases region : Region.ofAddress address with
    | placeholder =>
      simp only [region,Region.start,Region.stop] at bounds
      have here : cell = 0x2000 := by omega
      refine ⟨here,?_⟩
      simp only [found,read_eq]
      rw [if_pos here]
      rfl
    | unmapped =>
      simp only [region,Region.start,Region.stop] at bounds
      have shown := stored (by omega)
      simp only [Memory.peek,region,Option.some.injEq] at shown
      exact ⟨by omega,by omega,shown.symm⟩
    | ram | saveRam =>
      simp only [region,Region.start,Region.stop,Region.writable,if_true] at bounds kept first last
      have shown := stored (by omega)
      rw [shown] at kept last
      rw [first]
      exact ⟨by omega,by omega,kept,last⟩
    | rom =>
      simp only [region,Region.start,Region.writable,Bool.false_eq_true,if_false] at bounds kept first last
      have shown := stored (by omega)
      rw [shown] at kept last
      rw [first]
      exact ⟨by omega,kept,last⟩
  · simp only [found,read_eq]
    split <;> rfl

end Bus

end Console6502
