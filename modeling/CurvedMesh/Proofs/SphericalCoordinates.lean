import CurvedMesh.Proofs.Circle

/-!
# Reading and writing spherical coordinates

Reading a point in the chart and mapping the coordinates back gives the point, and the other way
round, up to what the coordinates leave open: the whole turns of the last angle, and that angle
altogether on the axis it turns around.
-/

namespace CurvedMesh

open AnalyticScalar

namespace Spheres

/-! ## Vectors in space -/

/-- The part of a vector across the third axis. -/
def across (r : Point ℝ 3) : Point ℝ 2 :=
  Vector.ofFn fun i => r.get i.castSucc

/-- The vector in the half plane between the third axis and the part across it. -/
noncomputable def meridian (r : Point ℝ 3) : Point ℝ 2 :=
  #v[r.get (Fin.last 2), (across r).norm]

theorem get_across (r : Point ℝ 3) (i : Fin 2) : (across r).get i = r.get i.castSucc :=
  Vector.getElem_ofFn _

theorem norm_across (r : Point ℝ 3) :
    (across r).norm = √(r.get 0 * r.get 0 + r.get 1 * r.get 1) := by
  rw [Point.norm_eq_sqrt, Point.dot, Fin.sum_univ_two, get_across, get_across]
  rfl

theorem norm_meridian (r : Point ℝ 3) : (meridian r).norm = r.norm := by
  have hacross := Point.norm_mul_self (across r)
  rw [Point.dot, Fin.sum_univ_two, get_across, get_across] at hacross
  have hdot : (meridian r).dot (meridian r) = r.dot r := by
    rw [Point.dot, Point.dot, Fin.sum_univ_two, Fin.sum_univ_three]
    change r.get 2 * r.get 2 + (across r).norm * (across r).norm = _
    rw [hacross]
    change r.get 2 * r.get 2 + (r.get 0 * r.get 0 + r.get 1 * r.get 1) = _
    ring
  rw [Point.norm_eq_sqrt, Point.norm_eq_sqrt, hdot]

/-- The angle between a vector and the third axis. -/
noncomputable def fromAxis (r : Point ℝ 3) : ℝ :=
  atan2 (across r).norm (r.get (Fin.last 2))

theorem fromAxis_mem_Icc (r : Point ℝ 3) : fromAxis r ∈ Set.Icc 0 Real.pi :=
  ⟨Complex.arg_nonneg_iff.2 (Point.norm_nonneg (across r)), Complex.arg_le_pi _⟩

theorem cos_fromAxis_mul_norm (r : Point ℝ 3) : Real.cos (fromAxis r) * r.norm = r.get 2 := by
  rw [← norm_meridian]
  exact (direction_scale_eq_iff.1 (direction_atan2_scale (meridian r))).1

theorem sin_fromAxis_mul_norm (r : Point ℝ 3) :
    Real.sin (fromAxis r) * r.norm = (across r).norm := by
  rw [← norm_meridian]
  exact (direction_scale_eq_iff.1 (direction_atan2_scale (meridian r))).2

theorem toAngles_eq (r : Point ℝ 3) : toAngles r =
    .ok #v[r.norm, fromAxis r, Period.wrap twoPi (atan2 (r.get 1) (r.get 0))] := by
  rw [fromAxis, norm_across]
  rfl

theorem ofAngles_of_toAngles (r : Point ℝ 3) : ofAngles (#v[r.norm, fromAxis r,
    Period.wrap twoPi (atan2 (r.get 1) (r.get 0))] : Point ℝ 3) = .ok r := by
  have hacross : (direction (Period.wrap twoPi (atan2 (r.get 1) (r.get 0)))).scale
      (across r).norm = across r := by
    rw [direction_wrap]
    exact direction_atan2_scale (across r)
  generalize Period.wrap twoPi (atan2 (r.get 1) (r.get 0)) = around at hacross ⊢
  obtain ⟨hfirst, hsecond⟩ := direction_scale_eq_iff.1 hacross
  refine congrArg Except.ok (Point.ext_get fun i => ?_)
  fin_cases i
  · change r.norm * Real.sin (fromAxis r) * Real.cos around = r.get 0
    rw [mul_comm r.norm, sin_fromAxis_mul_norm, mul_comm]
    exact hfirst
  · change r.norm * Real.sin (fromAxis r) * Real.sin around = r.get 1
    rw [mul_comm r.norm, sin_fromAxis_mul_norm, mul_comm]
    exact hsecond
  · change r.norm * Real.cos (fromAxis r) = r.get 2
    rw [mul_comm]
    exact cos_fromAxis_mul_norm r

theorem atan2_mul {radius x : ℝ} (hradius : 0 < radius) (hx : x ∈ Set.Icc 0 Real.pi) :
    atan2 (radius * Real.sin x) (radius * Real.cos x) = x := by
  have hpolar : (⟨radius * Real.cos x, radius * Real.sin x⟩ : ℂ) =
      radius * (Complex.cos x + Complex.sin x * Complex.I) := by
    apply Complex.ext <;> simp [Complex.cos_ofReal_re, Complex.sin_ofReal_re]
  change Complex.arg ⟨radius * Real.cos x, radius * Real.sin x⟩ = x
  rw [hpolar]
  exact Complex.arg_mul_cos_add_sin_mul_I hradius ⟨by linarith [hx.1, Real.pi_pos], hx.2⟩

theorem sin_eq_zero_iff_of_mem_Icc {x : ℝ} (hx : x ∈ Set.Icc 0 Real.pi) :
    Real.sin x = 0 ↔ x = 0 ∨ x = Real.pi := by
  constructor
  · intro hsin
    rcases eq_or_lt_of_le hx.1 with hzero | hpos
    · exact .inl hzero.symm
    · rcases eq_or_lt_of_le hx.2 with hpi | hlt
      · exact .inr hpi
      · exact absurd hsin (Real.sin_pos_of_pos_of_lt_pi hpos hlt).ne'
  · rintro (rfl | rfl)
    · exact Real.sin_zero
    · exact Real.sin_pi

theorem wrap_atan2_zero : Period.wrap twoPi (atan2 (0 : ℝ) 0) = 0 := by
  have harg : atan2 (0 : ℝ) 0 = 0 := Complex.arg_zero
  rw [harg, Period.wrap_eq_self twoPi_pos ⟨le_rfl, twoPi_pos⟩]

theorem toAngles_of_ofAngles {radius tilt : ℝ} (hradius : 0 < radius)
    (htilt : tilt ∈ Set.Icc 0 Real.pi) (around : ℝ) :
    ∃ r, ofAngles (#v[radius, tilt, around] : Point ℝ 3) = .ok r ∧
      toAngles r = .ok #v[radius, tilt,
        if tilt = 0 ∨ tilt = Real.pi then 0 else Period.wrap twoPi around] := by
  set r : Point ℝ 3 := #v[radius * Real.sin tilt * Real.cos around,
    radius * Real.sin tilt * Real.sin around, radius * Real.cos tilt]
  have hsin : 0 ≤ radius * Real.sin tilt :=
    mul_nonneg hradius.le (Real.sin_nonneg_of_mem_Icc htilt)
  have hofAngles : ofAngles (#v[radius, tilt, around] : Point ℝ 3) = .ok r := rfl
  have hnorm : r.norm = radius := norm_ofAngles (by decide) hofAngles hradius.le
  have hacross : (across r).norm = radius * Real.sin tilt := by
    have hscale : (direction around).scale (radius * Real.sin tilt) = across r :=
      direction_scale_eq_iff.2 ⟨mul_comm _ _, mul_comm _ _⟩
    rw [← hscale, norm_direction_scale hsin]
  refine ⟨r, hofAngles, ?_⟩
  rw [toAngles_eq, fromAxis, hnorm, hacross]
  change Except.ok #v[radius, atan2 (radius * Real.sin tilt) (radius * Real.cos tilt),
    Period.wrap twoPi (atan2 (radius * Real.sin tilt * Real.sin around)
      (radius * Real.sin tilt * Real.cos around))] = _
  rw [atan2_mul hradius htilt]
  split
  · rename_i haxis
    rw [(sin_eq_zero_iff_of_mem_Icc htilt).2 haxis, mul_zero, zero_mul, zero_mul,
      wrap_atan2_zero]
  · rename_i haxis
    have hpos : 0 < radius * Real.sin tilt :=
      hsin.lt_of_ne' (mul_ne_zero hradius.ne' (mt (sin_eq_zero_iff_of_mem_Icc htilt).1 haxis))
    rw [mul_comm _ (Real.sin around), mul_comm _ (Real.cos around), wrap_atan2 hpos]

/-! ## Chart points -/

variable {d : Nat}

/-- The chart axis that is periodic. -/
def lastAngle (s : Spheres ℝ d) : Fin d :=
  ⟨d - 1, Nat.sub_one_lt_of_lt s.two_le⟩

/-- The chart axis of the angle from the third axis. In the plane there is only one angle. -/
def firstAngle (s : Spheres ℝ d) : Fin d :=
  ⟨1, s.two_le⟩

/-- The coordinates that points are read in. -/
structure Canonical (s : Spheres ℝ d) (q : Point ℝ d) : Prop where
  radius : 0 ≤ q.get s.radial
  last : q.get s.lastAngle ∈ Set.Ico 0 twoPi
  first : d = 3 → q.get s.firstAngle ∈ Set.Icc 0 Real.pi

/-- The point lies on the third axis, where the angle around it says nothing. -/
def OnAxis (s : Spheres ℝ d) (q : Point ℝ d) : Prop :=
  d = 3 ∧ (q.get s.firstAngle = 0 ∨ q.get s.firstAngle = Real.pi)

/-- The chart point with another last angle. -/
def turnTo (s : Spheres ℝ d) (q : Point ℝ d) (x : ℝ) : Point ℝ d :=
  q.set s.lastAngle x s.lastAngle.isLt

noncomputable instance (s : Spheres ℝ d) (q : Point ℝ d) : Decidable (s.OnAxis q) :=
  inferInstanceAs (Decidable (_ ∧ _))

theorem get_turnTo (s : Spheres ℝ d) (q : Point ℝ d) (x : ℝ) (i : Fin d) :
    (s.turnTo q x).get i = if d - 1 = i.val then x else q.get i :=
  Vector.getElem_set _ _

theorem turnTo_plane (s : Spheres ℝ 2) (q : Point ℝ 2) (x : ℝ) :
    s.turnTo q x = #v[q.get 0, x] := by
  refine Point.ext_get fun i => (s.get_turnTo q x i).trans ?_
  fin_cases i <;> rfl

theorem turnTo_space (s : Spheres ℝ 3) (q : Point ℝ 3) (x : ℝ) :
    s.turnTo q x = #v[q.get 0, q.get 1, x] := by
  refine Point.ext_get fun i => (s.get_turnTo q x i).trans ?_
  fin_cases i <;> rfl

theorem exists_canonical_angles (s : Spheres ℝ d) (hd : d ≤ 3) (r : Point ℝ d) :
    ∃ q, toAngles r = .ok q ∧ s.Canonical q ∧ ofAngles q = .ok r := by
  obtain rfl | rfl : d = 2 ∨ d = 3 := by
    have := s.two_le
    omega
  · refine ⟨_, rfl, ⟨Point.norm_nonneg r, Period.wrap_mem_Ico twoPi_pos _, nofun⟩, ?_⟩
    exact (ofAngles_wrap r.norm _).trans (congrArg Except.ok (direction_atan2_scale r))
  · refine ⟨_, toAngles_eq r, ?_, ofAngles_of_toAngles r⟩
    exact ⟨Point.norm_nonneg r, Period.wrap_mem_Ico twoPi_pos _, fun _ => fromAxis_mem_Icc r⟩

theorem exists_angles_turnTo {s : Spheres ℝ d} (hd : d ≤ 3) {q : Point ℝ d} (hq : s.Canonical q)
    (hradius : 0 < q.get s.radial) (x : ℝ) :
    ∃ r, ofAngles (s.turnTo q x) = .ok r ∧
      toAngles r = .ok (s.turnTo q (if s.OnAxis q then 0 else Period.wrap twoPi x)) := by
  obtain rfl | rfl : d = 2 ∨ d = 3 := by
    have := s.two_le
    omega
  · have haxis : ¬ s.OnAxis q := fun h => absurd h.1 (by decide)
    rw [turnTo_plane, turnTo_plane, if_neg haxis]
    exact ⟨_, ofAngles_eq_direction _ x, toAngles_direction hradius x⟩
  · rw [turnTo_space, turnTo_space]
    obtain ⟨r, hr, hangles⟩ := toAngles_of_ofAngles hradius (hq.first rfl) x
    have haxis : q.get 1 = 0 ∨ q.get 1 = Real.pi ↔ s.OnAxis q := (and_iff_right rfl).symm
    refine ⟨r, hr, hangles.trans ?_⟩
    exact congrArg (fun y => Except.ok #v[q.get 0, q.get 1, y]) (if_congr haxis rfl rfl)

/-! ## The chart -/

theorem get_radial_turnTo (s : Spheres ℝ d) (q : Point ℝ d) (x : ℝ) :
    (s.turnTo q x).get s.radial = q.get s.radial := by
  have hd := s.two_le
  rw [get_turnTo, if_neg]
  change d - 1 ≠ 0
  omega

theorem turnTo_self (s : Spheres ℝ d) (q : Point ℝ d) : s.turnTo q (q.get s.lastAngle) = q := by
  refine Point.ext_get fun i => ?_
  rw [get_turnTo]
  split
  · rename_i hi
    exact congrArg q.get (Fin.ext hi)
  · rfl

theorem exists_ofSpace (s : Spheres ℝ d) (hd : d ≤ 3) (p : Point ℝ d) :
    ∃ q, s.chart.ofSpace p = .ok q ∧ s.Canonical q ∧ s.chart.toSpace q =
      .ok (if radiusTolerance < (p - s.center).norm then p else s.center) := by
  obtain ⟨q, hread, hq, hwrite⟩ := s.exists_canonical_angles hd (p - s.center)
  have hradius : q.get s.radial = (p - s.center).norm := get_zero_toAngles _ hread
  refine ⟨q, hread, hq, ?_⟩
  rw [← hradius]
  change s.toSpace q = _
  split
  · rename_i hlarge
    rw [toSpace_of_tolerance_lt hlarge, hwrite]
    exact congrArg Except.ok (Point.add_sub_cancel s.center p)
  · rename_i hsmall
    exact toSpace_of_le_tolerance hq.radius (not_lt.1 hsmall)

theorem exists_toSpace_turnTo {s : Spheres ℝ d} (hd : d ≤ 3) {q : Point ℝ d} (hq : s.Canonical q)
    (hradius : radiusTolerance < q.get s.radial) (x : ℝ) :
    ∃ p, s.chart.toSpace (s.turnTo q x) = .ok p ∧
      s.chart.ofSpace p =
        .ok (s.turnTo q (if s.OnAxis q then 0 else Period.wrap twoPi x)) := by
  obtain ⟨r, hwrite, hread⟩ := exists_angles_turnTo hd hq (radiusTolerance_pos.trans hradius) x
  refine ⟨s.center + r, ?_, ?_⟩
  · rw [← s.get_radial_turnTo q x] at hradius
    change s.toSpace _ = _
    rw [toSpace_of_tolerance_lt hradius, hwrite]
    rfl
  · change toAngles (s.center + r - s.center) = _
    rw [Point.add_sub_self, hread]

theorem exists_toSpace {s : Spheres ℝ d} (hd : d ≤ 3) {q : Point ℝ d} (hq : s.Canonical q)
    (hradius : radiusTolerance < q.get s.radial) :
    ∃ p, s.chart.toSpace q = .ok p ∧
      s.chart.ofSpace p = .ok (if s.OnAxis q then s.turnTo q 0 else q) := by
  obtain ⟨p, hwrite, hread⟩ := exists_toSpace_turnTo hd hq hradius (q.get s.lastAngle)
  rw [turnTo_self] at hwrite
  refine ⟨p, hwrite, hread.trans (congrArg Except.ok ?_)⟩
  split
  · rfl
  · rw [Period.wrap_eq_self twoPi_pos hq.last, turnTo_self]

/-- The chart maps are inverse to each other, up to the turns of the last angle, and up to that
angle on the third axis. -/
theorem chart_inverse (s : Spheres ℝ d) (hd : d ≤ 3) :
    (∀ p, ∃ q, s.chart.ofSpace p = .ok q ∧ s.Canonical q ∧ s.chart.toSpace q =
      .ok (if radiusTolerance < (p - s.center).norm then p else s.center)) ∧
    (∀ q, s.Canonical q → radiusTolerance < q.get s.radial → ∃ p, s.chart.toSpace q = .ok p ∧
      s.chart.ofSpace p = .ok (if s.OnAxis q then s.turnTo q 0 else q)) ∧
    ∀ q, s.Canonical q → radiusTolerance < q.get s.radial → ∀ x,
      ∃ p, s.chart.toSpace (s.turnTo q x) = .ok p ∧
        s.chart.ofSpace p =
          .ok (s.turnTo q (if s.OnAxis q then 0 else Period.wrap twoPi x)) := by
  refine ⟨s.exists_ofSpace hd, fun q hq hradius => ?_, fun q hq hradius => ?_⟩
  · exact exists_toSpace hd hq hradius
  · exact exists_toSpace_turnTo hd hq hradius

theorem chart_inverse_south_pole :
    3 ≤ 3 ∧ (⟨#v[0, 0, 0], by decide⟩ : Spheres ℝ 3).Canonical #v[2, Real.pi, Real.pi] ∧
      radiusTolerance < (2 : ℝ) ∧
      ∃ p, (⟨#v[0, 0, 0], by decide⟩ : Spheres ℝ 3).chart.toSpace #v[2, Real.pi, Real.pi] = .ok p ∧
        (⟨#v[0, 0, 0], by decide⟩ : Spheres ℝ 3).chart.ofSpace p = .ok #v[2, Real.pi, 0] := by
  have hcanonical :
      (⟨#v[0, 0, 0], by decide⟩ : Spheres ℝ 3).Canonical #v[2, Real.pi, Real.pi] := by
    refine ⟨zero_le_two, ⟨Real.pi_pos.le, ?_⟩, fun _ => ⟨Real.pi_pos.le, le_rfl⟩⟩
    exact lt_two_mul_self Real.pi_pos
  have hradius : radiusTolerance < (2 : ℝ) := by
    rw [radiusTolerance_eq]
    norm_num
  obtain ⟨p, hwrite, hread⟩ :=
    (chart_inverse ⟨#v[0, 0, 0], by decide⟩ le_rfl).2.1 _ hcanonical hradius
  rw [if_pos ⟨rfl, .inr rfl⟩, turnTo_space] at hread
  exact ⟨le_rfl, hcanonical, hradius, p, hwrite, hread⟩

end Spheres

end CurvedMesh
