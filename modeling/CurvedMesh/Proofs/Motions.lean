import CurvedMesh.Proofs.PlacedRadius
import Mathlib.LinearAlgebra.UnitaryGroup

/-!
# Motions of space

Above two dimensions a new point around a center moves with the center and the given points, however
space is turned, mirrored and shifted. The weights have to sum to one for that, since the center is
subtracted from the centroid. Only the fallback in three dimensions depends on the axes of the
chart, and a motion does not change whether it is needed.
-/

namespace CurvedMesh

variable {d : Nat}

/-- A Euclidean motion: an orthogonal matrix, then a shift. -/
structure Motion (d : Nat) where
  turn : Matrix.orthogonalGroup (Fin d) ℝ
  shift : Point ℝ d

namespace Motion

def linear (g : Motion d) (u : Point ℝ d) : Point ℝ d :=
  Vector.ofFn (g.turn.val.mulVec u.get)

def apply (g : Motion d) (p : Point ℝ d) : Point ℝ d :=
  g.linear p + g.shift

variable (g : Motion d)

/-! ## Vectors -/

theorem get_linear (u : Point ℝ d) : (g.linear u).get = g.turn.val.mulVec u.get := by
  funext i
  exact Vector.getElem_ofFn i.isLt

theorem linear_add (u v : Point ℝ d) : g.linear (u + v) = g.linear u + g.linear v := by
  have hget : (u + v).get = u.get + v.get := funext (Point.get_add u v)
  refine Point.ext_get fun i => ?_
  rw [Point.get_add, get_linear, get_linear, get_linear, hget, Matrix.mulVec_add, Pi.add_apply]

theorem linear_scale (u : Point ℝ d) (a : ℝ) : g.linear (u.scale a) = (g.linear u).scale a := by
  have hget : (u.scale a).get = a • u.get := by
    funext i
    rw [Point.get_scale, Pi.smul_apply, smul_eq_mul, mul_comm]
  refine Point.ext_get fun i => ?_
  rw [Point.get_scale, get_linear, get_linear, hget, Matrix.mulVec_smul, Pi.smul_apply, smul_eq_mul,
    mul_comm]

theorem linear_zero : g.linear 0 = 0 := by
  have hscale := g.linear_scale 0 0
  rwa [Point.scale_zero, Point.scale_zero] at hscale

theorem dot_linear (u v : Point ℝ d) : (g.linear u).dot (g.linear v) = u.dot v := by
  change dotProduct (g.linear u).get (g.linear v).get = dotProduct u.get v.get
  have horthogonal := (Matrix.mem_orthogonalGroup_iff' (Fin d) ℝ).1 g.turn.2
  rw [get_linear, get_linear, Matrix.dotProduct_mulVec, Matrix.vecMul_mulVec, horthogonal,
    Matrix.vecMul_one]

theorem norm_linear (u : Point ℝ d) : (g.linear u).norm = u.norm := by
  rw [Point.norm_eq_sqrt, Point.norm_eq_sqrt, dot_linear]

theorem linear_weightedSum (weights : List ℝ) (points : List (Point ℝ d)) :
    g.linear (Point.weightedSum weights points) =
      Point.weightedSum weights (points.map g.linear) := by
  unfold Point.weightedSum
  rw [List.zip_map_right, List.foldl_map]
  conv_rhs => rw [← g.linear_zero]
  refine (List.foldl_hom g.linear fun sum entry => ?_).symm
  rw [linear_add, linear_scale]
  rfl

theorem apply_add (p u : Point ℝ d) : g.apply (p + u) = g.apply p + g.linear u := by
  refine Point.ext_get fun i => ?_
  simp only [apply, linear_add, Point.get_add]
  ring

theorem apply_sub_apply (p p' : Point ℝ d) : g.apply p - g.apply p' = g.linear (p - p') := by
  have hsum := g.apply_add p' (p - p')
  rw [Point.add_sub_cancel] at hsum
  rw [hsum, Point.add_sub_self]

end Motion

/-! ## Points around a center -/

def WeightedPoints.move (q : WeightedPoints ℝ d) (g : Motion d) : WeightedPoints ℝ d :=
  ⟨q.weights, q.points.map g.apply⟩

def Spheres.move (s : Spheres ℝ d) (g : Motion d) : Spheres ℝ d :=
  ⟨g.apply s.center, s.two_le⟩

variable {g : Motion d} {s : Spheres ℝ d} {q : WeightedPoints ℝ d}

theorem WeightedPoints.WellFormed.move (hq : q.WellFormed) (g : Motion d) :
    (q.move g).WellFormed :=
  hq.of_weights rfl (List.length_map _)

theorem WeightedPoints.mean_move (q : WeightedPoints ℝ d) (g : Motion d) (f : Point ℝ d → ℝ) :
    (q.move g).mean f = q.mean fun p => f (g.apply p) := by
  unfold mean pairs move
  rw [List.zip_map_right, List.map_map]
  rfl

namespace Spheres

theorem averageRadius_move (s : Spheres ℝ d) (q : WeightedPoints ℝ d) (g : Motion d) :
    (s.move g).averageRadius (q.move g) = s.averageRadius q := by
  rw [averageRadius_eq_mean, averageRadius_eq_mean, q.mean_move]
  simp only [move, g.apply_sub_apply, g.norm_linear]

theorem centroid_move (s : Spheres ℝ d) (hq : q.WellFormed) (hsum : q.weights.sum = 1)
    (g : Motion d) : (s.move g).centroid (q.move g) = g.linear (s.centroid q) := by
  have hsum' : (q.move g).weights.sum = 1 := hsum
  rw [centroid_eq_weightedSum _ (hq.move g) hsum', s.centroid_eq_weightedSum hq hsum,
    g.linear_weightedSum, WeightedPoints.move, List.map_map, List.map_map]
  simp only [Function.comp_def, move, g.apply_sub_apply]

theorem projection_move (s : Spheres ℝ d) (hq : q.WellFormed) (hsum : q.weights.sum = 1)
    (g : Motion d) : (s.move g).projection (q.move g) = g.apply (s.projection q) := by
  rw [projection, projection, g.apply_add, g.linear_scale, s.averageRadius_move,
    s.centroid_move hq hsum, g.norm_linear]
  rfl

/-! ## The fallback -/

/-- Measured by the average distance, the centroid is too near to the center to give a direction. -/
def Centered (s : Spheres ℝ d) (q : WeightedPoints ℝ d) : Prop :=
  (s.centroid q).norm ≤ radiusTolerance * max (s.averageRadius q) 1

theorem centered_move (hq : q.WellFormed) (hsum : q.weights.sum = 1) (g : Motion d) :
    (s.move g).Centered (q.move g) ↔ s.Centered q := by
  rw [Centered, Centered, s.averageRadius_move, s.centroid_move hq hsum, g.norm_linear]

/-- The centroid gave no direction, so the point was placed by averaging angles. -/
def FallsBack (s : Spheres ℝ d) (q : WeightedPoints ℝ d) : Prop :=
  ∃ placement, s.manifold.place q = .ok placement ∧ placement.fallback? ≠ none

theorem not_fallsBack_of_place {p : Point ℝ d} (h : s.place q = .ok { point := p }) :
    ¬ s.FallsBack q := by
  rintro ⟨placement, hplace, hfallback⟩
  cases h.symm.trans hplace
  exact hfallback rfl

/-- Two lengths and the dimension decide how a point is placed. -/
theorem place_eq_ite (hd : 3 ≤ d) (hq : q.WellFormed) (hsum : q.weights.sum = 1) :
    s.place q =
      if s.averageRadius q ≤ radiusTolerance then .ok { point := s.center }
      else if (s.centroid q).norm ≤ radiusTolerance * max (s.averageRadius q) 1 then
        if 3 < d then .error (.chart (.unsupportedDimension d))
        else (s.chart.place q).map fun p =>
          { point := p, fallback? := some ⟨s.center, s.averageRadius q⟩ }
      else .ok { point := s.projection q } := by
  have htwo : d ≠ 2 := by omega
  have hcheck := WeightedPoints.check_eq_ok_iff.2 hq
  split
  · rename_i hsmall
    exact place_eq_center hq hsum hsmall
  · rename_i hlarge
    split
    · rename_i hnear
      exact (if_neg htwo).trans (project_of_no_direction hcheck (not_le.1 hlarge) hnear)
    · rename_i hfar
      exact s.place_eq_projection htwo hcheck (not_le.1 hfar)

theorem fallsBack_iff (hd : 3 ≤ d) (hq : q.WellFormed) (hsum : q.weights.sum = 1) :
    s.FallsBack q ↔ d = 3 ∧ radiusTolerance < s.averageRadius q ∧ s.Centered q := by
  have hplace := s.place_eq_ite hd hq hsum
  split_ifs at hplace with hsmall hnear hfour
  · exact iff_of_false (not_fallsBack_of_place hplace) fun h => absurd hsmall (not_le.2 h.2.1)
  · refine iff_of_false ?_ fun h => absurd h.1 (by omega)
    rintro ⟨placement, hok, -⟩
    cases hok.symm.trans hplace
  · obtain ⟨p, hp⟩ := exists_chart_place (not_lt.1 hfour)
      (WeightedPoints.check_eq_ok_iff.2 hq) (not_le.1 hsmall)
    rw [hp] at hplace
    exact iff_of_true ⟨_, hplace, Option.some_ne_none _⟩ ⟨by omega, not_le.1 hsmall, hnear⟩
  · exact iff_of_false (not_fallsBack_of_place hplace) fun h => hnear h.2.2

theorem fallsBack_move (hd : 3 ≤ d) (hq : q.WellFormed) (hsum : q.weights.sum = 1)
    (g : Motion d) : (s.move g).FallsBack (q.move g) ↔ s.FallsBack q := by
  rw [fallsBack_iff hd hq hsum, fallsBack_iff hd (hq.move g) hsum, s.averageRadius_move,
    centered_move hq hsum]

/-! ## New points -/

theorem place_move (hd : 3 ≤ d) (hq : q.WellFormed) (hsum : q.weights.sum = 1) (g : Motion d)
    (hfallback : d = 3 → ¬ s.FallsBack q) :
    (s.move g).place (q.move g) =
      (s.place q).map fun placement => { point := g.apply placement.point } := by
  have hsum' : (q.move g).weights.sum = 1 := hsum
  rw [place_eq_ite hd hq hsum, place_eq_ite hd (hq.move g) hsum', s.averageRadius_move,
    s.centroid_move hq hsum, g.norm_linear, s.projection_move hq hsum]
  split_ifs with hsmall hnear hfour
  · rfl
  · rfl
  -- Angles are averaged, which `hfallback` excludes.
  · refine absurd ?_ (hfallback (by omega))
    exact (fallsBack_iff hd hq hsum).2 ⟨by omega, not_le.1 hsmall, hnear⟩
  · rfl

/-- Whether the centroid gives a direction is the same after a motion, and so is whether angles are
averaged instead. If they are not, the new point moves along, or there is none in either place. -/
theorem motion_equivariant (hd : 3 ≤ d) (hq : q.WellFormed) (hsum : q.weights.sum = 1)
    (g : Motion d) :
    (((s.move g).centroid (q.move g)).norm ≤
        radiusTolerance * max ((s.move g).averageRadius (q.move g)) 1 ↔
      (s.centroid q).norm ≤ radiusTolerance * max (s.averageRadius q) 1) ∧
    ((s.move g).FallsBack (q.move g) ↔ s.FallsBack q) ∧
    ((d = 3 → ¬ s.FallsBack q) → (s.move g).manifold.place (q.move g) =
      (s.manifold.place q).map fun placement => { point := g.apply placement.point }) :=
  ⟨centered_move hq hsum g, fallsBack_move hd hq hsum g, place_move hd hq hsum g⟩

theorem motion_equivariant_mirrored :
    (.halves #v[1, 0, 0] #v[0, 1, 0] : WeightedPoints ℝ 3).WellFormed ∧
      (.halves #v[1, 0, 0] #v[0, 1, 0] : WeightedPoints ℝ 3).weights.sum = 1 ∧
      ¬ (⟨#v[0, 0, 0], by decide⟩ : Spheres ℝ 3).FallsBack (.halves #v[1, 0, 0] #v[0, 1, 0]) ∧
      ((⟨#v[0, 0, 0], by decide⟩ : Spheres ℝ 3).move ⟨-1, #v[1, 2, 3]⟩).manifold.place
          ((WeightedPoints.halves #v[1, 0, 0] #v[0, 1, 0]).move ⟨-1, #v[1, 2, 3]⟩) =
        ((⟨#v[0, 0, 0], by decide⟩ : Spheres ℝ 3).manifold.place
          (.halves #v[1, 0, 0] #v[0, 1, 0])).map fun placement =>
            { point := (⟨-1, #v[1, 2, 3]⟩ : Motion 3).apply placement.point } := by
  have hq := WeightedPoints.check_eq_ok_iff.1
    (WeightedPoints.check_halves (#v[1, 0, 0] : Point ℝ 3) #v[0, 1, 0])
  have hsum : (.halves #v[1, 0, 0] #v[0, 1, 0] : WeightedPoints ℝ 3).weights.sum = 1 := by
    norm_num [WeightedPoints.halves, Scalar.half_eq]
  have hdot : (#v[1, 0, 0] - #v[0, 0, 0] : Point ℝ 3).dot (#v[0, 1, 0] - #v[0, 0, 0]) = 0 := by
    simp [Point.dot, Fin.sum_univ_three, Vector.get]
  have hfirst : (#v[1, 0, 0] - #v[0, 0, 0] : Point ℝ 3).norm = 1 := by
    simp [Point.norm_eq_sqrt, Point.dot, Fin.sum_univ_three, Vector.get]
  have hsecond : (#v[0, 1, 0] - #v[0, 0, 0] : Point ℝ 3).norm = 1 := by
    simp [Point.norm_eq_sqrt, Point.dot, Fin.sum_univ_three, Vector.get]
  have hfar := tolerance_lt_norm_centroid (s := ⟨#v[0, 0, 0], by decide⟩) hdot.ge
    (by rw [hfirst]; norm_num) (by rw [hsecond]; norm_num)
  have hfallback := not_fallsBack_of_place (place_eq_projection _ (by decide)
    (WeightedPoints.check_halves _ _) hfar)
  exact ⟨hq, hsum, hfallback, (motion_equivariant le_rfl hq hsum _).2.2 fun _ => hfallback⟩

end Spheres

end CurvedMesh
