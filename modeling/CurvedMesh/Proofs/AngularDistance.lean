import CurvedMesh.Proofs.Period
import Mathlib.Algebra.Order.Round
import Mathlib.Data.Rat.Floor

/-!
# The distance of two angles

The remainder of a difference depends on the order of the two angles, and the shorter of the two
arcs does not. Its length is the way from one angle to the nearest of those that are whole turns
away from the other, which makes it a metric of the circle.
-/

namespace CurvedMesh

open AddCommGroup

variable {K : Type} [Field K] [LinearOrder K] [FloorRing K]

theorem Scalar.rem_eq (x y : K) : Scalar.rem x y = x - y * truncate (x / y) :=
  rfl

theorem Scalar.rem_modEq (x y : K) : Scalar.rem x y ≡ x [PMOD y] := by
  rw [modEq_iff_zsmul']
  refine ⟨truncate (x / y), ?_⟩
  rw [rem_eq, sub_sub_cancel, zsmul_eq_mul, mul_comm]

variable [IsStrictOrderedRing K]

theorem abs_sub_truncate_lt (x : K) : |x - truncate x| < 1 := by
  unfold truncate
  split
  · rw [Int.self_sub_floor, Int.abs_fract]
    exact Int.fract_lt_one x
  · rw [abs_sub_comm, abs_of_nonneg (sub_nonneg.2 (Int.le_ceil x))]
    exact sub_left_lt_of_lt_add (Int.ceil_lt_add_one x)

namespace Angle

variable {turn : K}

/-! ## The residue -/

theorem abs_rem_lt (hturn : 0 < turn) (x : K) : |Scalar.rem x turn| < turn := by
  have hfactor : Scalar.rem x turn = turn * (x / turn - truncate (x / turn)) := by
    rw [Scalar.rem_eq, mul_sub, mul_div_cancel₀ x hturn.ne']
  rw [hfactor, abs_mul, abs_of_pos hturn]
  exact mul_lt_of_lt_one_right hturn (abs_sub_truncate_lt (x / turn))

theorem residue_eq_wrap (hturn : 0 < turn) (x : K) : residue turn x = Period.wrap turn x := by
  obtain ⟨hlow, hhigh⟩ := abs_lt.1 (abs_rem_lt hturn x)
  rw [Period.eq_wrap_iff hturn]
  unfold residue
  dsimp only
  split
  · rename_i hneg
    refine ⟨⟨?_, ?_⟩, ?_⟩
    · linarith
    · linarith
    · exact (add_modEq_left.2 self_modEq_zero).trans (Scalar.rem_modEq x turn)
  · rename_i hnonneg
    exact ⟨⟨not_lt.1 hnonneg, hhigh⟩, Scalar.rem_modEq x turn⟩

/-! ## The nearest turn -/

theorem distance_eq_min (hturn : 0 < turn) (a b : K) :
    distance turn a b =
      min (Period.wrap turn (a - b)) (turn - Period.wrap turn (a - b)) := by
  unfold distance
  rw [residue_eq_wrap hturn, Scalar.lesser_eq_min]

theorem distance_eq_abs (hturn : 0 < turn) (a b : K) :
    distance turn a b = turn * |(a - b) / turn - round ((a - b) / turn)| := by
  rw [abs_sub_round_eq_min, mul_min_of_nonneg _ _ hturn.le, distance_eq_min hturn,
    Period.wrap_eq_toIcoMod hturn, toIcoMod_eq_fract_mul, mul_sub, mul_one, mul_comm turn]

theorem turn_mul_abs (hturn : 0 < turn) (x : K) (k : ℤ) :
    turn * |x / turn - k| = |x + (-k : ℤ) * turn| := by
  have hfactor : x + (-k : ℤ) * turn = turn * (x / turn - k) := by
    rw [mul_sub, mul_div_cancel₀ x hturn.ne', Int.cast_neg]
    ring
  rw [hfactor, abs_mul, abs_of_pos hturn]

theorem exists_distance_eq (hturn : 0 < turn) (a b : K) :
    ∃ k : ℤ, distance turn a b = |a - b + k * turn| := by
  refine ⟨-round ((a - b) / turn), ?_⟩
  rw [distance_eq_abs hturn, turn_mul_abs hturn]

theorem distance_le (hturn : 0 < turn) (a b : K) (k : ℤ) :
    distance turn a b ≤ |a - b + k * turn| := by
  have hround := round_le ((a - b) / turn) (-k)
  calc distance turn a b
      = turn * |(a - b) / turn - round ((a - b) / turn)| := distance_eq_abs hturn a b
    _ ≤ turn * |(a - b) / turn - (-k : ℤ)| := mul_le_mul_of_nonneg_left hround hturn.le
    _ = |a - b + k * turn| := by rw [turn_mul_abs hturn, neg_neg]

theorem isLeast_distance (hturn : 0 < turn) (a b : K) :
    IsLeast (Set.range fun k : ℤ => |a - b + k * turn|) (distance turn a b) := by
  constructor
  · obtain ⟨k, hk⟩ := exists_distance_eq hturn a b
    exact ⟨k, hk.symm⟩
  · rintro _ ⟨k, rfl⟩
    exact distance_le hturn a b k

/-! ## The metric -/

theorem distance_nonneg (hturn : 0 < turn) (a b : K) : 0 ≤ distance turn a b := by
  obtain ⟨k, hk⟩ := exists_distance_eq hturn a b
  rw [hk]
  exact abs_nonneg _

theorem distance_le_half (hturn : 0 < turn) (a b : K) : distance turn a b ≤ turn / 2 := by
  calc distance turn a b
      = turn * |(a - b) / turn - round ((a - b) / turn)| := distance_eq_abs hturn a b
    _ ≤ turn * (1 / 2) := mul_le_mul_of_nonneg_left (abs_sub_round _) hturn.le
    _ = turn / 2 := mul_one_div turn 2

theorem distance_le_swap (hturn : 0 < turn) (a b : K) :
    distance turn a b ≤ distance turn b a := by
  obtain ⟨k, hk⟩ := exists_distance_eq hturn b a
  have hswap : |b - a + k * turn| = |a - b + (-k : ℤ) * turn| := by
    rw [← abs_neg]
    congr 1
    push_cast
    ring
  rw [hk, hswap]
  exact distance_le hturn a b (-k)

theorem distance_comm (hturn : 0 < turn) (a b : K) : distance turn a b = distance turn b a :=
  le_antisymm (distance_le_swap hturn a b) (distance_le_swap hturn b a)

theorem distance_eq_zero_iff (hturn : 0 < turn) (a b : K) :
    distance turn a b = 0 ↔ a ≡ b [PMOD turn] := by
  rw [modEq_iff_zsmul']
  constructor
  · intro hzero
    obtain ⟨k, hk⟩ := exists_distance_eq hturn a b
    have hdiff : a - b + k * turn = 0 := abs_eq_zero.1 (hk.symm.trans hzero)
    refine ⟨k, ?_⟩
    rw [zsmul_eq_mul]
    linarith
  · rintro ⟨k, hk⟩
    have hdiff : a - b + k * turn = 0 := by
      rw [zsmul_eq_mul] at hk
      linarith
    refine le_antisymm ?_ (distance_nonneg hturn a b)
    calc distance turn a b ≤ |a - b + k * turn| := distance_le hturn a b k
      _ = 0 := by rw [hdiff, abs_zero]

theorem distance_add_mul (hturn : 0 < turn) (a b : K) (j k : ℤ) :
    distance turn (a + j * turn) (b + k * turn) = distance turn a b := by
  have hdiff : a + j * turn - (b + k * turn) = a - b - (k - j : ℤ) * turn := by
    push_cast
    ring
  rw [distance_eq_min hturn, hdiff, Period.wrap_sub_mul hturn, ← distance_eq_min hturn]

theorem distance_triangle (hturn : 0 < turn) (a b c : K) :
    distance turn a c ≤ distance turn a b + distance turn b c := by
  -- The ways from `a` to `b` and from `b` to `c` make up a way from `a` to `c`.
  obtain ⟨j, hj⟩ := exists_distance_eq hturn a b
  obtain ⟨k, hk⟩ := exists_distance_eq hturn b c
  have hway : a - c + (j + k : ℤ) * turn = (a - b + j * turn) + (b - c + k * turn) := by
    push_cast
    ring
  calc distance turn a c ≤ |a - c + (j + k : ℤ) * turn| := distance_le hturn a c (j + k)
    _ ≤ |a - b + j * turn| + |b - c + k * turn| := by
      rw [hway]
      exact abs_add_le _ _
    _ = distance turn a b + distance turn b c := by rw [hj, hk]

/-- The distance is the length of the shortest way around the circle, a metric on the angles modulo
the turn that is nowhere more than half a turn. -/
theorem distance_metric (hturn : 0 < turn) (a b c : K) :
    IsLeast (Set.range fun k : ℤ => |a - b + k * turn|) (distance turn a b) ∧
      distance turn a b ∈ Set.Icc 0 (turn / 2) ∧
      distance turn a b = distance turn b a ∧
      (distance turn a b = 0 ↔ a ≡ b [PMOD turn]) ∧
      (∀ j k : ℤ, distance turn (a + j * turn) (b + k * turn) = distance turn a b) ∧
      distance turn a c ≤ distance turn a b + distance turn b c := by
  refine ⟨isLeast_distance hturn a b, ⟨distance_nonneg hturn a b, distance_le_half hturn a b⟩,
    distance_comm hturn a b, distance_eq_zero_iff hturn a b, ?_, distance_triangle hturn a b c⟩
  intro j k
  exact distance_add_mul hturn a b j k

/-- From `-9` the way to `1` is half a turn of length four, and the way back as long. -/
theorem distance_metric_half_turn :
    (0 : ℚ) < 4 ∧ distance (4 : ℚ) (-9) 1 = 2 ∧
      distance (4 : ℚ) 1 (-9) = 2 ∧ ¬ (-9 : ℚ) ≡ 1 [PMOD 4] ∧
      distance (4 : ℚ) (-9 + (3 : ℤ) * 4) (1 + (-1 : ℤ) * 4) = 2 ∧
      distance (4 : ℚ) (-9) 2 ≤ 2 + distance (4 : ℚ) 1 2 := by
  have hturn : (0 : ℚ) < 4 := by norm_num
  have hhalf : distance (4 : ℚ) (-9) 1 = 2 := by decide +kernel
  obtain ⟨-, -, hcomm, hzero, hturns, htriangle⟩ := distance_metric hturn (-9) 1 2
  rw [hhalf] at hcomm hzero hturns htriangle
  exact ⟨hturn, hhalf, hcomm.symm, fun h => two_ne_zero (hzero.2 h), hturns 3 (-1), htriangle⟩

end Angle

end CurvedMesh
