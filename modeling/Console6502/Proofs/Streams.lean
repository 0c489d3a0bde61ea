import Console6502.Proofs.Loading
import Console6502.Proofs.Twins

-- A source told by the bytes it gives, one for each call. No session shows more of a source
-- than that.
namespace Console6502

variable {σ τ : Type} [ByteSource σ] [ByteSource τ]

def byteAt (s : σ) (i : Nat) : UInt8 := (next (draw i s).2).1

theorem draw_getElem (s : σ) {count i : Nat} (inside : i < count) : (draw count s).1[i] = byteAt s i := by
  induction count with
  | zero => exact absurd inside (Nat.not_lt_zero i)
  | succ count ih =>
    simp only [draw,Vector.getElem_push]
    split
    · rename_i earlier
      exact ih earlier
    · rename_i later
      rw [byteAt,Nat.eq_of_lt_succ_of_not_lt inside later]

theorem sameBytes_iff {s : σ} {t : τ} : SameBytes s t ↔ ∀ i,byteAt s i = byteAt t i := by
  constructor
  · intro same i
    have last := Nat.lt_succ_self i
    rw [← draw_getElem s last,← draw_getElem t last]
    simp only [same (i + 1)]
  · intro same count
    apply Vector.ext
    intro i inside
    rw [draw_getElem s inside,draw_getElem t inside,same]

theorem byteAt_still {s : σ} (still : (next s).2 = s) (i : Nat) : byteAt s i = (next s).1 := by
  have same : (draw i s).2 = s := by
    induction i with
    | zero => rfl
    | succ i ih => simp only [draw,ih,still]
  rw [byteAt,same]

namespace Cycle

theorem draw_ofBytes {bytes : Array UInt8} (nonempty : 0 < bytes.size) (count : Nat) :
    (draw count (ofBytes bytes)).2 = ⟨bytes,count % bytes.size⟩ := by
  have filled : bytes.isEmpty = false := by simpa using Nat.ne_of_gt nonempty
  induction count with
  | zero => rw [Nat.zero_mod]; rfl
  | succ count ih =>
    simp only [draw,ih,next,filled,Bool.false_eq_true,if_false,Nat.mod_add_mod]

theorem byteAt_ofBytes {bytes : Array UInt8} (nonempty : 0 < bytes.size) (i : Nat) :
    bytes[i % bytes.size]? = some (byteAt (ofBytes bytes) i) := by
  have filled : bytes.isEmpty = false := by simpa using Nat.ne_of_gt nonempty
  have inside := Nat.mod_lt i nonempty
  simp only [byteAt,draw_ofBytes nonempty,next,filled,Bool.false_eq_true,if_false]
  rw [Array.getElem?_eq_getElem inside,Array.getD_eq_getD_getElem?,Array.getElem?_eq_getElem inside]
  rfl

theorem byteAt_empty (i : Nat) : byteAt (ofBytes #[]) i = 0 := byteAt_still rfl i

theorem byteAt_repetition (bytes : Array UInt8) {count : Nat} (positive : 1 ≤ count) (i : Nat) :
    byteAt (ofBytes (repetition bytes count)) i = byteAt (ofBytes bytes) i := by
  rcases Nat.eq_zero_or_pos bytes.size with empty | nonempty
  · have none : bytes = #[] := Array.eq_empty_of_size_eq_zero empty
    have same : repetition bytes count = #[] := by
      apply Array.eq_empty_of_size_eq_zero
      rw [size_repetition,empty,Nat.mul_zero]
    rw [same,none]
  · have longer : 0 < (repetition bytes count).size := by
      rw [size_repetition]
      exact Nat.mul_pos positive nonempty
    have within : i % (repetition bytes count).size < count * bytes.size := by
      rw [← size_repetition]
      exact Nat.mod_lt i longer
    apply Option.some.inj
    rw [← byteAt_ofBytes longer,← byteAt_ofBytes nonempty,getElem?_repetition bytes within,size_repetition,
      Nat.mod_mul_left_mod]

end Cycle

theorem Constant.byteAt_eq (s : Constant) (i : Nat) : byteAt s i = s.value := byteAt_still rfl i

theorem Cycle.byteAt_constant {bytes : Array UInt8} {value : UInt8} (nonempty : 0 < bytes.size)
    (alike : ∀ byte ∈ bytes,byte = value) (i : Nat) : byteAt (ofBytes bytes) i = value :=
  alike _ (Array.mem_of_getElem? (byteAt_ofBytes nonempty i))

-- Every beginning of a session is a session, so over either source the two never part.
def Interchangeable (s : σ) (t : τ) : Prop :=
  ∀ config calls,Option.Rel (Together s t) (Call.performAll calls (.new s config))
    (Call.performAll calls (.new t config))

theorem interchangeable_of_byteAt {s : σ} {t : τ} (same : ∀ i,byteAt s i = byteAt t i) :
    Interchangeable s t := by
  intro config calls
  have twins : (Machine.new s config).Twins s t (.new t config) := ⟨rfl,rfl,rfl,.start s t⟩
  exact Call.performAll_twins (sameBytes_iff.mpr same) twins calls

-- A list is read round and round, and the empty one stands for zeros. Sources of any kinds that
-- give the same bytes stand for one another in every session.
theorem sources_interchange :
    (∀ (bytes : Array UInt8) (i : Nat),0 < bytes.size →
      bytes[i % bytes.size]? = some (byteAt (Cycle.ofBytes bytes) i) ∧
        (draw i (Cycle.ofBytes bytes)).2.cursor < bytes.size) ∧
    (∀ i,byteAt (Cycle.ofBytes #[]) i = 0) ∧
    (∀ (bytes : Array UInt8) (count : Nat),1 ≤ count →
      Interchangeable (Cycle.ofBytes bytes) (Cycle.ofBytes (repetition bytes count))) ∧
    (∀ (bytes : Array UInt8) (value : UInt8),0 < bytes.size → (∀ byte ∈ bytes,byte = value) →
      Interchangeable (Constant.mk value) (Cycle.ofBytes bytes)) ∧
    Interchangeable (Constant.mk 0) (Cycle.ofBytes #[]) ∧
    (∀ (σ τ : Type) [ByteSource σ] (s : σ) (closure : Generator τ),
      (∀ i,byteAt s i = byteAt closure i) → Interchangeable s closure) := by
  refine ⟨?_,Cycle.byteAt_empty,?_,?_,?_,?_⟩
  · intro bytes i nonempty
    refine ⟨Cycle.byteAt_ofBytes nonempty i,?_⟩
    rw [Cycle.draw_ofBytes nonempty]
    exact Nat.mod_lt i nonempty
  · intro bytes count positive
    exact interchangeable_of_byteAt fun i => (Cycle.byteAt_repetition bytes positive i).symm
  · intro bytes value nonempty alike
    apply interchangeable_of_byteAt
    intro i
    rw [Constant.byteAt_eq,Cycle.byteAt_constant nonempty alike]
  · apply interchangeable_of_byteAt
    intro i
    rw [Constant.byteAt_eq,Cycle.byteAt_empty]
  · intro σ τ _ s closure same
    exact interchangeable_of_byteAt same

end Console6502
