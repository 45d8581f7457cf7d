/-
Rounding to the nearest integer, halves to the even one.

`le_roundTiesEven_iff` says which numbers are rounded to `n` or above: those past the
middle between `n - 1` and `n`, and the middle itself if `n` is even.  That rounding keeps
order and leaves integers alone follows from it, and so does where it goes to `n` exactly.
-/
import Mathlib.Algebra.Order.Floor.Ring
import Mathlib.Algebra.Ring.Int.Parity
import Mathlib.Tactic.Linarith

namespace Rounding

variable {K : Type} [Field K] [LinearOrder K] [IsStrictOrderedRing K] [FloorRing K]

/-- The nearest integer; of two that are equally near, the even one. -/
def roundTiesEven (x : K) : ℤ :=
  if 2 * Int.fract x < 1 ∨ (2 * Int.fract x = 1 ∧ Even ⌊x⌋) then ⌊x⌋ else ⌊x⌋ + 1

theorem le_roundTiesEven_iff {x : K} {n : ℤ} :
    n ≤ roundTiesEven x ↔ 2 * (n : K) - 1 < 2 * x ∨ (2 * (n : K) - 1 = 2 * x ∧ Even n) := by
  have hx : x = ⌊x⌋ + Int.fract x := (Int.floor_add_fract x).symm
  have hnonneg := Int.fract_nonneg x
  have hlt := Int.fract_lt_one x
  -- Integers are compared in the field.
  have hcast : ∀ a b : ℤ, (a : K) < b + 1 → a ≤ b := by
    intro a b h
    exact Int.lt_add_one_iff.mp (by exact_mod_cast h)
  have hnext : (n : K) = ⌊x⌋ + 1 → n = ⌊x⌋ + 1 := by
    intro h
    exact_mod_cast h
  unfold roundTiesEven
  split
  · next hdown =>
      refine ⟨?_, ?_⟩
      · intro hn
        have hn' : (n : K) ≤ ⌊x⌋ := by exact_mod_cast hn
        exact Or.inl (by linarith)
      · intro h
        rcases h with h | ⟨h, heven⟩
        · refine hcast n ⌊x⌋ ?_
          rcases hdown with hdown | ⟨hdown, -⟩ <;> linarith
        · rcases hdown with hdown | ⟨hdown, heven'⟩
          · exact hcast n ⌊x⌋ (by linarith)
          · -- Both neighbours of a half would be even.
            rw [hnext (by linarith)] at heven
            exact absurd heven (by simpa using heven'.add_one)
  · next hup =>
      obtain ⟨hhalf, htie⟩ := not_or.mp hup
      have hhalf := not_lt.mp hhalf
      refine ⟨?_, ?_⟩
      · intro hn
        have hn' : (n : K) ≤ ⌊x⌋ + 1 := by exact_mod_cast hn
        rcases lt_or_eq_of_le (show 2 * (n : K) - 1 ≤ 2 * x by linarith) with h | h
        · exact Or.inl h
        · have hodd : ¬ Even ⌊x⌋ := fun heven => htie ⟨by linarith, heven⟩
          refine Or.inr ⟨h, ?_⟩
          rw [hnext (by linarith)]
          exact (Int.not_even_iff_odd.mp hodd).add_one
      · intro h
        refine hcast n (⌊x⌋ + 1) ?_
        push_cast
        rcases h with h | ⟨h, -⟩ <;> linarith

theorem roundTiesEven_mono {x y : K} (h : x ≤ y) : roundTiesEven x ≤ roundTiesEven y := by
  rcases le_roundTiesEven_iff.mp (le_refl (roundTiesEven x)) with hx | ⟨hx, heven⟩
  · exact le_roundTiesEven_iff.mpr (Or.inl (by linarith))
  · rcases lt_or_eq_of_le h with hlt | rfl
    · exact le_roundTiesEven_iff.mpr (Or.inl (by linarith))
    · exact le_refl _

theorem roundTiesEven_intCast (n : ℤ) : roundTiesEven (n : K) = n := by
  refine le_antisymm ?_ (le_roundTiesEven_iff.mpr (Or.inl (by linarith)))
  refine Int.le_of_lt_add_one (not_le.mp fun hc => ?_)
  have hc' := le_roundTiesEven_iff.mp hc
  push_cast at hc'
  rcases hc' with h | ⟨h, -⟩ <;> linarith

theorem roundTiesEven_natCast (n : ℕ) : roundTiesEven (n : K) = n := by
  exact_mod_cast roundTiesEven_intCast (K := K) n

/-- Exactly the numbers less than a half away go to `n`, and the halves if `n` is even. -/
theorem roundTiesEven_eq_iff {x : K} {n : ℤ} :
    roundTiesEven x = n ↔ |2 * x - 2 * n| < 1 ∨ (|2 * x - 2 * n| = 1 ∧ Even n) := by
  have hsucc : n + 1 ≤ roundTiesEven x ↔
      1 < 2 * x - 2 * n ∨ (2 * x - 2 * n = 1 ∧ ¬ Even n) := by
    rw [le_roundTiesEven_iff, Int.even_add_one]
    push_cast
    refine or_congr ⟨?_, ?_⟩ (and_congr_left' ⟨?_, ?_⟩) <;> intro h <;> linarith
  have hself : n ≤ roundTiesEven x ↔ -1 < 2 * x - 2 * n ∨ (2 * x - 2 * n = -1 ∧ Even n) := by
    rw [le_roundTiesEven_iff]
    refine or_congr ⟨?_, ?_⟩ (and_congr_left' ⟨?_, ?_⟩) <;> intro h <;> linarith
  rw [show roundTiesEven x = n ↔ n ≤ roundTiesEven x ∧ ¬ n + 1 ≤ roundTiesEven x by omega,
    hself, hsucc, abs_lt, abs_eq zero_le_one, not_or, not_lt, not_and_not_right]
  generalize 2 * x - 2 * (n : K) = d
  refine ⟨?_, ?_⟩
  · intro h
    obtain ⟨hlow | ⟨hlow, heven⟩, hhigh, htie⟩ := h
    · rcases lt_or_eq_of_le hhigh with hlt | heq
      · exact Or.inl ⟨hlow, hlt⟩
      · exact Or.inr ⟨Or.inl heq, htie heq⟩
    · exact Or.inr ⟨Or.inr hlow, heven⟩
  · intro h
    rcases h with ⟨hlow, hhigh⟩ | ⟨heq | heq, heven⟩
    · exact ⟨Or.inl hlow, hhigh.le, fun heq => absurd heq hhigh.ne⟩
    · exact ⟨Or.inl (by linarith), heq.le, fun _ => heven⟩
    · exact ⟨Or.inr ⟨heq, heven⟩, by linarith, fun _ => heven⟩

end Rounding
