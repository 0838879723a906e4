import CurvedMesh.Proofs.SphereRadius

/-!
# Bisecting chords of a sphere

Two points of one sphere are bisected by the direction of their middle, if it lies far enough from
the center. The halves then are shorter chords, so their middles lie farther out.
-/

namespace CurvedMesh.Spheres

variable {d : Nat} {s : Spheres ℝ d} {radius : ℝ} {p q : Point ℝ d}

/-- The ends of a chord of the sphere whose middle is far enough out to give a direction. -/
structure Bisectable (s : Spheres ℝ d) (radius : ℝ) (p q : Point ℝ d) : Prop where
  first : (p - s.center).norm = radius
  second : (q - s.center).norm = radius
  far : radiusTolerance * max radius 1 < (Point.mean p q - s.center).norm

theorem norm_mean_sub (s : Spheres ℝ d) (p q : Point ℝ d) :
    (Point.mean p q - s.center).norm = ((p - s.center) + (q - s.center)).norm / 2 := by
  change (s.centroid (.halves p q)).norm = _
  rw [centroid_halves, Point.norm_scale _ one_half_pos.le]
  ring

theorem norm_add_le {u v : Point ℝ d} (hu : u.norm = radius) (hv : v.norm = radius) :
    (u + v).norm ≤ 2 * radius := by
  calc (u + v).norm ≤ u.norm + v.norm := Point.norm_add_le u v
    _ = 2 * radius := by rw [hu, hv, two_mul]

theorem two_mul_dot_add {u v : Point ℝ d} (hu : u.norm = radius) (hv : v.norm = radius) :
    2 * u.dot (u + v) = (u + v).norm * (u + v).norm := by
  rw [Point.norm_add_mul_self, Point.dot_add, ← Point.norm_mul_self, hu, hv]
  ring

namespace Bisectable

theorem comm (h : s.Bisectable radius p q) : s.Bisectable radius q p := by
  refine ⟨h.second, h.first, ?_⟩
  rw [Point.mean_comm]
  exact h.far

theorem averageRadius_eq (h : s.Bisectable radius p q) :
    s.averageRadius (.halves p q) = radius := by
  rw [averageRadius_halves, h.first, h.second, add_self_div_two]

theorem tolerance_lt (h : s.Bisectable radius p q) : radiusTolerance < radius := by
  have hfar := h.far
  have hlong := norm_add_le h.first h.second
  have hscale : (radiusTolerance : ℝ) * 1 ≤ radiusTolerance * max radius 1 :=
    mul_le_mul_of_nonneg_left (le_max_right radius 1) radiusTolerance_pos.le
  rw [norm_mean_sub] at hfar
  linarith

theorem norm_pos (h : s.Bisectable radius p q) :
    0 < ((p - s.center) + (q - s.center)).norm := by
  have hfar := h.far
  have hscale : (0 : ℝ) < radiusTolerance * max radius 1 :=
    mul_pos radiusTolerance_pos (lt_max_of_lt_right one_pos)
  rw [norm_mean_sub] at hfar
  linarith

theorem midpoint_eq (hd : d ≠ 2) (h : s.Bisectable radius p q) :
    s.manifold.midpoint p q = .ok { point := s.bisector p q } := by
  apply midpoint_eq_bisector_of_far hd
  rw [h.averageRadius_eq]
  exact h.far

theorem bisector_sub (h : s.Bisectable radius p q) :
    s.bisector p q - s.center = ((p - s.center) + (q - s.center)).scale
      (radius / ((p - s.center) + (q - s.center)).norm) := by
  have hne := h.norm_pos.ne'
  rw [bisector_sub_center, h.averageRadius_eq, centroid_halves, Point.norm_scale _ one_half_pos.le]
  congr 1
  field_simp

theorem bisector_eq (h : s.Bisectable radius p q) :
    s.bisector p q = s.center + ((p - s.center) + (q - s.center)).scale
      (radius / ((p - s.center) + (q - s.center)).norm) := by
  rw [← h.bisector_sub, Point.add_sub_cancel]

theorem norm_bisector (h : s.Bisectable radius p q) :
    (s.bisector p q - s.center).norm = radius := by
  have hpos : 0 ≤ radius / ((p - s.center) + (q - s.center)).norm :=
    div_nonneg (radiusTolerance_pos.trans h.tolerance_lt).le h.norm_pos.le
  rw [h.bisector_sub, Point.norm_scale _ hpos, div_mul_cancel₀ _ h.norm_pos.ne']

theorem first_half (h : s.Bisectable radius p q) : s.Bisectable radius p (s.bisector p q) := by
  refine ⟨h.first, h.norm_bisector, h.far.trans_le ?_⟩
  have hdot : 2 * (p - s.center).dot (s.bisector p q - s.center) =
      radius * ((p - s.center) + (q - s.center)).norm := by
    have hne := h.norm_pos.ne'
    have hmiddle := two_mul_dot_add h.first h.second
    rw [h.bisector_sub, Point.dot_scale]
    field_simp
    linear_combination radius * hmiddle
  have hhalf := Point.norm_add_mul_self (p - s.center) (s.bisector p q - s.center)
  rw [h.first, h.norm_bisector, hdot] at hhalf
  rw [norm_mean_sub, norm_mean_sub]
  have hlong := sub_nonneg.2 (norm_add_le h.first h.second)
  have hpos := radiusTolerance_pos.trans h.tolerance_lt
  set x := ((p - s.center) + (q - s.center)).norm
  set y := ((p - s.center) + (s.bisector p q - s.center)).norm
  have hbound : x * x ≤ y * y := by
    linarith [mul_nonneg h.norm_pos.le hlong, mul_nonneg hpos.le hlong]
  have hle : x ≤ y := (mul_self_le_mul_self_iff h.norm_pos.le (Point.norm_nonneg _)).2 hbound
  linarith

theorem second_half (h : s.Bisectable radius p q) : s.Bisectable radius (s.bisector p q) q := by
  have hhalf := h.comm.first_half
  rw [bisector_comm] at hhalf
  exact hhalf.comm

end Bisectable

end CurvedMesh.Spheres
