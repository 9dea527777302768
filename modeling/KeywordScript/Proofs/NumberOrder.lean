import Mathlib.Data.Prod.Lex
import Mathlib.Order.Compare
import KeywordScript.Value.Basic

/-! The order of numbers: every number but NaN has a rank in a linear order, and numbers are
compared by their ranks. Both zeros have the same rank. -/

namespace KeywordScript.Number

open Float.Model

/-- By sign, then by exponent, then by significand. The numbers below zero count down. -/
def rankOf : UnpackedFloat → Option (ℤ ×ₗ ℤ ×ₗ ℤ)
  | .notANumber => none
  | .infinity .negative => some (toLex (-2, toLex (0, 0)))
  | .finite .negative m e _ => some (toLex (-1, toLex (-e, -m)))
  | .zero _ => some (toLex (0, toLex (0, 0)))
  | .finite .positive m e _ => some (toLex (1, toLex (e, m)))
  | .infinity .positive => some (toLex (2, toLex (0, 0)))

def rank (x : Float) : Option (ℤ ×ₗ ℤ ×ₗ ℤ) :=
  rankOf x.toModel.unpack

theorem compare_toLex {α β : Type} [Ord α] [Ord β] (a b : α) (c d : β) :
    compare (toLex (a, c)) (toLex (b, d)) = (compare a b).then (compare c d) := by
  rw [Prod.Lex.compare_def]
  rfl

theorem compare_natCast (m n : ℕ) : compare (m : ℤ) (n : ℤ) = compare m n := by
  simp only [compare, compareOfLessAndEq, Int.ofNat_lt, Int.natCast_inj]

theorem compare_neg (a b : ℤ) : compare (-a) (-b) = (compare a b).swap := by
  rw [Int.compare_swap]
  simp [compare, compareOfLessAndEq, eq_comm]

private theorem compare_eq_compare_rankOf (u v : UnpackedFloat) :
    u.compare v = (rankOf u).bind fun a => (rankOf v).map fun b => compare a b := by
  cases u with
  | notANumber => rfl
  | infinity s =>
    cases v with
    | notANumber => cases s <;> rfl
    | infinity t => cases s <;> cases t <;> rfl
    | zero t => cases s <;> rfl
    | finite t n f hn => cases s <;> cases t <;> rfl
  | zero s =>
    cases v with
    | notANumber => rfl
    | infinity t => cases t <;> rfl
    | zero t => rfl
    | finite t n f hn => cases t <;> rfl
  | finite s m e hm =>
    cases v with
    | notANumber => cases s <;> rfl
    | infinity t => cases s <;> cases t <;> rfl
    | zero t => cases s <;> rfl
    | finite t n f hn =>
      -- Two numbers of one sign are compared by exponent and significand, the other way round below
      -- zero.
      cases s <;> cases t
      · have hcompare :
          compare (toLex (-1, toLex (-e, -(m : ℤ)))) (toLex (-1, toLex (-f, -(n : ℤ)))) =
            ((compare e f).then (compare m n)).swap := by
          rw [compare_toLex, compare_toLex, compare_neg e f, compare_neg m n, compare_natCast,
            Ordering.swap_then]
          rfl
        exact congrArg some hcompare.symm
      · rfl
      · rfl
      · have hcompare : compare (toLex (1, toLex (e, (m : ℤ)))) (toLex (1, toLex (f, (n : ℤ)))) =
            (compare e f).then (compare m n) := by
          rw [compare_toLex, compare_toLex, compare_natCast]
          rfl
        exact congrArg some hcompare.symm

theorem compare_eq_compare_rank (x y : Float) :
    x.toModel.compare y.toModel = (rank x).bind fun a => (rank y).map fun b => compare a b :=
  compare_eq_compare_rankOf _ _

private theorem rankOf_eq_none_iff (u : UnpackedFloat) : rankOf u = none ↔ u.isNaN = true := by
  cases u with
  | notANumber => exact iff_of_true rfl rfl
  | zero s => exact iff_of_false (Option.some_ne_none _) Bool.false_ne_true
  | infinity s => cases s <;> exact iff_of_false (Option.some_ne_none _) Bool.false_ne_true
  | finite s m e hm => cases s <;> exact iff_of_false (Option.some_ne_none _) Bool.false_ne_true

theorem rank_eq_none_iff {x : Float} : rank x = none ↔ x.isNaN = true :=
  rankOf_eq_none_iff x.toModel.unpack

theorem compare_swap (x y : Float) :
    y.toModel.compare x.toModel = (x.toModel.compare y.toModel).map Ordering.swap := by
  rw [compare_eq_compare_rank, compare_eq_compare_rank]
  cases rank x with
  | none => cases rank y <;> rfl
  | some a =>
    cases rank y with
    | none => rfl
    | some b =>
      have hswap : compare b a = (compare a b).swap := Std.OrientedOrd.eq_swap
      exact congrArg some hswap

theorem compare_eq_none_iff {x y : Float} :
    x.toModel.compare y.toModel = none ↔ (x.isNaN || y.isNaN) = true := by
  rw [compare_eq_compare_rank, Bool.or_eq_true, ← rank_eq_none_iff, ← rank_eq_none_iff]
  cases rank x <;> cases rank y <;> simp

theorem beq_eq_compare (x y : Float) : (x == y) = (x.toModel.compare y.toModel == some .eq) := rfl

/-- Two numbers are equal if they have the same rank; a NaN, which has none, equals nothing. -/
theorem beq_iff {x y : Float} :
    (x == y) = true ↔ (x.isNaN = false ∧ y.isNaN = false) ∧ rank x = rank y := by
  rw [beq_eq_compare, beq_iff_eq, compare_eq_compare_rank, ← Bool.not_eq_true, ← Bool.not_eq_true,
    ← rank_eq_none_iff, ← rank_eq_none_iff]
  cases rank x with
  | none => simp
  | some a =>
    cases rank y with
    | none => simp
    | some b => simp [compare_eq_iff_eq]

end KeywordScript.Number
