import Console6502.Event
import Console6502.Memory

namespace Console6502

-- The next request may depend on every byte read so far. A transaction knows neither the memory
-- nor the source; its meaning is given by the interpreters below.
inductive Transaction (α : Type) where
  | done (result : α)
  | read (address : UInt32) (next : UInt8 → Transaction α)
  | write (address : UInt32) (value : UInt8) (next : Transaction α)
  | note (event : Event) (next : Transaction α)

namespace Transaction

variable {α β σ : Type}

def bind : Transaction α → (α → Transaction β) → Transaction β
  | .done result,rest => rest result
  | .read address next,rest => .read address fun byte => (next byte).bind rest
  | .write address value next,rest => .write address value (next.bind rest)
  | .note event next,rest => .note event (next.bind rest)

instance : Monad Transaction where
  pure := .done
  bind := .bind

instance : LawfulMonad Transaction :=
  .mk' _
    (fun t => by
      induction t with
      | done => rfl
      | read address next ih => exact congrArg (Transaction.read address) (funext ih)
      | write address value next ih => exact congrArg (Transaction.write address value) ih
      | note event next ih => exact congrArg (Transaction.note event) ih)
    (fun _ _ => rfl)
    (fun t _ _ => by
      induction t with
      | done => rfl
      | read address next ih => exact congrArg (Transaction.read address) (funext ih)
      | write address value next ih => exact congrArg (Transaction.write address value) ih
      | note event next ih => exact congrArg (Transaction.note event) ih)

def fetch (address : UInt32) : Transaction UInt8 := .read address .done

def store (address : UInt32) (value : UInt8) : Transaction Unit := .write address value (.done ())

def log (event : Event) : Transaction Unit := .note event (.done ())

def fetchWord (address : UInt32) : Transaction UInt16 := do
  let low ← fetch address
  let high ← fetch (address + 1)
  return word low high

def run [ByteSource σ] : Transaction α → Bus σ → α × Bus σ
  | .done result,bus => (result,bus)
  | .read address next,bus =>
    let (byte,bus) := bus.read address
    (next byte).run bus
  | .write address value next,bus => next.run (bus.write address value)
  | .note _ next,bus => next.run bus

end Transaction

def Event.ofWrite (address : UInt32) (value : UInt8) : List Event :=
  if (Region.ofAddress address).writable then [] else [.discarded value (masked address)]

variable {α β σ : Type}

def Transaction.events [ByteSource σ] : Transaction α → Bus σ → List Event
  | .done _,_ => []
  | .read address next,bus =>
    let (byte,bus) := bus.read address
    (next byte).events bus
  | .write address value next,bus =>
    Event.ofWrite address value ++ next.events (bus.write address value)
  | .note event next,bus => event :: next.events bus

namespace Transaction

variable [ByteSource σ]

@[simp] theorem run_pure (result : α) (bus : Bus σ) :
    (pure result : Transaction α).run bus = (result,bus) := rfl
@[simp] theorem run_fetch (address : UInt32) (bus : Bus σ) :
    (fetch address).run bus = bus.read address := rfl
@[simp] theorem run_store (address : UInt32) (value : UInt8) (bus : Bus σ) :
    (store address value).run bus = ((),bus.write address value) := rfl
@[simp] theorem run_log (event : Event) (bus : Bus σ) : (log event).run bus = ((),bus) := rfl

@[simp] theorem run_bind (t : Transaction α) (rest : α → Transaction β) (bus : Bus σ) :
    (t >>= rest).run bus = (rest (t.run bus).1).run (t.run bus).2 := by
  induction t generalizing bus with
  | done => rfl
  | read address next ih => exact ih _ _
  | write address value next ih => exact ih _
  | note event next ih => exact ih _

@[simp] theorem run_map (change : α → β) (t : Transaction α) (bus : Bus σ) :
    (change <$> t).run bus = (change (t.run bus).1,(t.run bus).2) := by
  rw [← bind_pure_comp,run_bind,run_pure]

@[simp] theorem run_fetchWord (address : UInt32) (bus : Bus σ) :
    (fetchWord address).run bus = bus.readWord address := by
  simp [fetchWord,Bus.readWord]

@[simp] theorem events_pure (result : α) (bus : Bus σ) :
    (pure result : Transaction α).events bus = [] := rfl
@[simp] theorem events_fetch (address : UInt32) (bus : Bus σ) :
    (fetch address).events bus = [] := rfl
@[simp] theorem events_store (address : UInt32) (value : UInt8) (bus : Bus σ) :
    (store address value).events bus = Event.ofWrite address value := by
  simp [store,events]
@[simp] theorem events_log (event : Event) (bus : Bus σ) : (log event).events bus = [event] := rfl

@[simp] theorem events_bind (t : Transaction α) (rest : α → Transaction β) (bus : Bus σ) :
    (t >>= rest).events bus = t.events bus ++ (rest (t.run bus).1).events (t.run bus).2 := by
  induction t generalizing bus with
  | done => rfl
  | read address next ih => exact ih _ _
  | write address value next ih =>
    exact (congrArg (Event.ofWrite address value ++ ·) (ih _)).trans (List.append_assoc _ _ _).symm
  | note event next ih => exact congrArg (event :: ·) (ih _)

@[simp] theorem events_map (change : α → β) (t : Transaction α) (bus : Bus σ) :
    (change <$> t).events bus = t.events bus := by
  rw [← bind_pure_comp,events_bind,events_pure,List.append_nil]

end Transaction

end Console6502
