import Console6502.Xorshift
import Mathlib.Data.FinEnum
import Mathlib.Data.Fintype.EquivFin
import Mathlib.Dynamics.PeriodicPts.Lemmas

-- The words behind the seeded bytes. One call permutes the words and leaves zero alone, so a
-- start other than zero never gets there and comes round to itself.
namespace Console6502.Xorshift

-- A word mixed with a shifted copy of itself. Mixed twice, the two single shifts cancel and one
-- double shift is left; from the full width on nothing is shifted in at all.
theorem mix_injective {n : Nat} (shift : BitVec n → Nat → BitVec n)
    (distributes : ∀ x y k,shift (x ^^^ y) k = shift x k ^^^ shift y k)
    (adds : ∀ x j k,shift x (j + k) = shift (shift x j) k)
    (vanishes : ∀ x k,n ≤ k → shift x k = 0#n) {k : Nat} (positive : 0 < k) :
    Function.Injective fun x => x ^^^ shift x k := by
  by_cases whole : n ≤ k
  · intro x y same
    simpa only [vanishes _ k whole,BitVec.xor_zero] using same
  · have twice : (fun x => x ^^^ shift x k) ∘ (fun x => x ^^^ shift x k) =
        fun x => x ^^^ shift x (k + k) := by
      funext x
      calc (x ^^^ shift x k) ^^^ shift (x ^^^ shift x k) k
          = (x ^^^ shift x k) ^^^ (shift x k ^^^ shift x (k + k)) := by rw [distributes,adds]
        _ = x ^^^ shift x (k + k) := by
          rw [BitVec.xor_assoc,← BitVec.xor_assoc (shift x k),BitVec.xor_self,BitVec.zero_xor]
    have wider := mix_injective shift distributes adds vanishes (show 0 < k + k by omega)
    rw [← twice] at wider
    exact wider.of_comp
termination_by n - k

theorem injective_of_toBitVec {change : UInt64 → UInt64} {bits : BitVec 64 → BitVec 64}
    (shown : ∀ word,(change word).toBitVec = bits word.toBitVec) (injective : Function.Injective bits) :
    Function.Injective change := by
  intro word other same
  have sameBits := congrArg UInt64.toBitVec same
  rw [shown,shown] at sameBits
  exact UInt64.toBitVec_inj.mp (injective sameBits)

theorem advance_injective : Function.Injective advance := by
  have left {k : Nat} (positive : 0 < k) : Function.Injective fun x : BitVec 64 => x ^^^ x <<< k :=
    mix_injective (· <<< ·) BitVec.shiftLeft_xor_distrib BitVec.shiftLeft_add
      (fun _ _ => BitVec.shiftLeft_eq_zero) positive
  have right {k : Nat} (positive : 0 < k) : Function.Injective fun x : BitVec 64 => x ^^^ x >>> k :=
    mix_injective (· >>> ·) BitVec.ushiftRight_xor_distrib BitVec.shiftRight_add
      (fun _ _ => BitVec.ushiftRight_eq_zero) positive
  have first : Function.Injective fun word : UInt64 => word ^^^ (word <<< 13) :=
    injective_of_toBitVec (fun _ => rfl) (left (show 0 < 13 by decide))
  have second : Function.Injective fun word : UInt64 => word ^^^ (word >>> 7) :=
    injective_of_toBitVec (fun _ => rfl) (right (show 0 < 7 by decide))
  have third : Function.Injective fun word : UInt64 => word ^^^ (word <<< 17) :=
    injective_of_toBitVec (fun _ => rfl) (left (show 0 < 17 by decide))
  exact third.comp (second.comp first)

@[simp] theorem advance_zero : advance 0 = 0 := rfl

def wordAfter (seed : UInt64) (calls : Nat) : UInt64 := (draw calls (source seed)).2.state

theorem draw_source (seed : UInt64) (calls : Nat) :
    (draw calls (source seed)).2 = { source seed with state := advance^[calls] (start seed) } := by
  induction calls with
  | zero => rfl
  | succ calls ih =>
    rw [Function.iterate_succ_apply']
    simp only [draw,ih]
    rfl

theorem wordAfter_eq (seed : UInt64) (calls : Nat) : wordAfter seed calls = advance^[calls] (start seed) := by
  rw [wordAfter,draw_source]

theorem start_ne_zero (seed : UInt64) : start seed ≠ 0 := by
  have clamped : start seed = if seed ≤ 1 then 1 else seed := rfl
  rw [clamped]
  split
  · decide
  · rename_i above
    rintro rfl
    exact above (by decide)

theorem seeded_words :
    (∀ seed calls,wordAfter seed (calls + 1) = advance (wordAfter seed calls)) ∧
    Function.Injective advance ∧ Function.Bijective advance ∧ advance 0 = 0 ∧
    (∀ seed calls,wordAfter seed calls ≠ 0) ∧
    (∀ seed other calls,max seed 1 ≠ max other 1 → wordAfter seed calls ≠ wordAfter other calls) ∧
    ∀ seed,wordAfter seed 0 = max seed 1 ∧
      ∃ period,0 < period ∧ ∀ calls,wordAfter seed (calls + period) = wordAfter seed calls := by
  refine ⟨?_,advance_injective,advance_injective.bijective_of_finite,advance_zero,?_,?_,?_⟩
  · intro seed calls
    rw [wordAfter_eq,wordAfter_eq,Function.iterate_succ_apply']
  · intro seed calls zero
    have fixed : advance^[calls] 0 = 0 := Function.iterate_fixed advance_zero calls
    rw [wordAfter_eq,← fixed] at zero
    exact start_ne_zero seed (advance_injective.iterate calls zero)
  · intro seed other calls apart same
    rw [wordAfter_eq,wordAfter_eq] at same
    exact apart (advance_injective.iterate calls same)
  · intro seed
    refine ⟨rfl,?_⟩
    obtain ⟨period,positive,home⟩ := advance_injective.mem_periodicPts (start seed)
    refine ⟨period,positive,?_⟩
    intro calls
    rw [wordAfter_eq,wordAfter_eq,Function.iterate_add_apply,home]

end Console6502.Xorshift
