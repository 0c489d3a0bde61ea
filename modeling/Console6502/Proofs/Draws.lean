import Console6502.Proofs.Requests

-- The reads of a transaction as a list, and the bytes among them that the source gave. What
-- a transaction does to the source is told by that list alone.
namespace Console6502

section Source

variable {σ : Type} [ByteSource σ]

inductive Yields : σ → List UInt8 → σ → Prop where
  | nil {source} : Yields source [] source
  | cons {source rest bytes} (later : Yields (next source).2 bytes rest) :
      Yields source ((next source).1 :: bytes) rest

variable {source middle rest other : σ} {first second bytes : List UInt8}

theorem Yields.cons_iff {byte : UInt8} :
    Yields source (byte :: bytes) rest ↔ byte = (next source).1 ∧ Yields (next source).2 bytes rest := by
  constructor
  · intro whole
    cases whole with
    | cons later => exact ⟨rfl,later⟩
  · rintro ⟨rfl,later⟩
    exact .cons later

theorem Yields.append (left : Yields source first middle) (right : Yields middle second rest) :
    Yields source (first ++ second) rest := by
  induction left with
  | nil => exact right
  | cons _ ih => exact .cons (ih right)

theorem Yields.split (whole : Yields source (first ++ second) rest) :
    ∃ middle,Yields source first middle ∧ Yields middle second rest := by
  induction first generalizing source with
  | nil => exact ⟨source,.nil,whole⟩
  | cons byte first ih =>
    obtain ⟨rfl,later⟩ := cons_iff.mp whole
    obtain ⟨middle,left,right⟩ := ih later
    exact ⟨middle,.cons left,right⟩

theorem Yields.unique (left : Yields source first middle) (right : Yields source second rest)
    (same : first.length = second.length) : first = second ∧ middle = rest := by
  induction left generalizing second with
  | nil =>
    cases right with
    | nil => exact ⟨rfl,rfl⟩
    | cons => cases same
  | cons _ ih =>
    cases right with
    | nil => cases same
    | cons later =>
      obtain ⟨bytes,left⟩ := ih later (Nat.succ.inj same)
      exact ⟨congrArg _ bytes,left⟩

theorem yields_draw (count : Nat) (source : σ) :
    Yields source (draw count source).1.toList (draw count source).2 := by
  induction count with
  | zero => exact .nil
  | succ count ih =>
    rw [draw,Vector.toList_push]
    exact ih.append (.cons .nil)

theorem yields_iff : Yields source bytes rest ↔
    (draw bytes.length source).1.toList = bytes ∧ (draw bytes.length source).2 = rest := by
  have drawn := yields_draw bytes.length source
  constructor
  · intro given
    exact drawn.unique given Vector.length_toList
  · rintro ⟨same,left⟩
    rwa [same,left] at drawn

end Source

abbrev Read : Type := UInt32 × UInt8

def Read.drawn (read : Read) : Bool := read.1.toNat % 65536 = 0x2000

namespace Transaction

variable {α β σ : Type} [ByteSource σ]

def reads : Transaction α → Bus σ → List Read
  | .done _,_ => []
  | .read address next,bus =>
    let (byte,bus) := bus.read address
    (address,byte) :: (next byte).reads bus
  | .write address value next,bus => next.reads (bus.write address value)
  | .note _ next,bus => next.reads bus

@[simp] theorem reads_pure (result : α) (bus : Bus σ) :
    (pure result : Transaction α).reads bus = [] := rfl
@[simp] theorem reads_fetch (address : UInt32) (bus : Bus σ) :
    (fetch address).reads bus = [(address,(bus.read address).1)] := rfl
@[simp] theorem reads_store (address : UInt32) (value : UInt8) (bus : Bus σ) :
    (store address value).reads bus = [] := rfl
@[simp] theorem reads_log (event : Event) (bus : Bus σ) : (log event).reads bus = [] := rfl

@[simp] theorem reads_bind (t : Transaction α) (rest : α → Transaction β) (bus : Bus σ) :
    (t >>= rest).reads bus = t.reads bus ++ (rest (t.run bus).1).reads (t.run bus).2 := by
  induction t generalizing bus with
  | done => rfl
  | read address next ih => exact congrArg ((address,(bus.read address).1) :: ·) (ih _ _)
  | write address value next ih => exact ih _
  | note event next ih => exact ih _

@[simp] theorem reads_map (change : α → β) (t : Transaction α) (bus : Bus σ) :
    (change <$> t).reads bus = t.reads bus := by
  rw [← bind_pure_comp,reads_bind,reads_pure,List.append_nil]

theorem reads_fetchWord (address : UInt32) (bus : Bus σ) :
    (fetchWord address).reads bus =
      [(address,(bus.read address).1),(address + 1,((bus.read address).2.read (address + 1)).1)] := by
  simp [fetchWord]

def drawn (t : Transaction α) (bus : Bus σ) : List UInt8 := ((t.reads bus).filter Read.drawn).map Prod.snd

theorem drawn_read (address : UInt32) (next : UInt8 → Transaction α) (bus : Bus σ) :
    (read address next).drawn bus =
      (if address.toNat % 65536 = 0x2000 then [(bus.read address).1] else []) ++
        (next (bus.read address).1).drawn (bus.read address).2 := by
  by_cases here : address.toNat % 65536 = 0x2000 <;> simp [drawn,reads,Read.drawn,here]

theorem run_yields (t : Transaction α) (bus : Bus σ) :
    Yields bus.source (t.drawn bus) (t.run bus).2.source := by
  induction t generalizing bus with
  | done => exact .nil
  | read address next ih =>
    have later := ih (bus.read address).1 (bus.read address).2
    rw [drawn_read]
    rcases bus.read_cases address with ⟨here,drew⟩ | ⟨elsewhere,byte,_,looked⟩
    · rw [if_pos here]
      rw [drew] at later ⊢
      simp only [run,drew]
      exact .cons later
    · rw [if_neg elsewhere]
      rw [looked] at later ⊢
      simp only [run,looked]
      exact later
  | write address value next ih => exact ih (bus.write address value)
  | note event next ih => exact ih bus

end Transaction

variable {α σ τ : Type}

def Bus.withSource (bus : Bus σ) (other : τ) : Bus τ := ⟨bus.memory,other⟩

variable [ByteSource σ] [ByteSource τ]

theorem Bus.read_eq (bus : Bus σ) (address : UInt32) :
    bus.read address = if address.toNat % 65536 = 0x2000 then bus.random
      else ((bus.memory.peek address).getD 0,bus) := by
  rcases bus.read_cases address with ⟨here,drew⟩ | ⟨elsewhere,byte,stored,looked⟩
  · rw [if_pos here,drew]
  · rw [if_neg elsewhere,stored,looked]
    rfl

-- A transaction cannot tell two sources apart whose next bytes are the ones it takes.
theorem Transaction.run_withSource {t : Transaction α} {bus : Bus σ} {other rest : τ}
    (same : Yields other (t.drawn bus) rest) :
    t.run (bus.withSource other) = ((t.run bus).1,(t.run bus).2.withSource rest) := by
  induction t generalizing bus other with
  | done =>
    cases same
    rfl
  | read address next ih =>
    rw [drawn_read] at same
    simp only [run,Bus.read_eq] at same ⊢
    by_cases here : address.toNat % 65536 = 0x2000
    · simp only [if_pos here] at same ⊢
      obtain ⟨byte,later⟩ := Yields.cons_iff.mp same
      have drew : (bus.withSource other).random =
          (bus.random.1,bus.random.2.withSource (ByteSource.next other).2) := Prod.ext byte.symm rfl
      rw [drew]
      exact ih _ later
    · simp only [if_neg here] at same ⊢
      exact ih _ same
  | write address value next ih =>
    have later : Yields other (next.drawn (bus.write address value)) rest := same
    exact ih later
  | note event next ih => exact ih same

end Console6502
