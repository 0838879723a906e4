import CurvedMesh.Proofs.SphereRadius
import CurvedMesh.Proofs.Polygon
import CurvedMesh.Proofs.Totality

/-!
# Refining a circle

Refining the regular polygon in a circle gives the regular polygon with more segments. The midpoint
of two points of the circle is half way along the arc between them, and the segment that closes the
polygon crosses the seam of the angle without a difference.
-/

namespace CurvedMesh

open AnalyticScalar AddCommGroup

/-- The unit vector at an angle from the first axis. -/
def direction {α : Type} [AnalyticScalar α] (angle : α) : Point α 2 :=
  #v[cos angle, sin angle]

/-- The point of the circle at an angle from the first axis. -/
def arc {α : Type} [AnalyticScalar α] (center : Point α 2) (radius angle : α) : Point α 2 :=
  center + (direction angle).scale radius

namespace Mesh

variable {α : Type} [AnalyticScalar α]

/-- The mesh of the regular polygon in a circle. -/
def regular (center : Point α 2) (radius : α) (n : Nat) : Mesh α 2 .segment where
  vertices := (Array.range n).map fun (i : Nat) => arc center radius (twoPi * i / n)
  cells := polygon n

theorem circle_eq_ok (center : Point α 2) {radius : α} {n : Nat} (hn : 3 ≤ n)
    (hradius : 0 < radius) : circle center radius n = .ok (regular center radius n) := by
  unfold circle
  rw [if_neg (by omega), if_pos hradius]
  rfl

theorem valid_regular (center : Point α 2) (radius : α) (n : Nat) :
    (regular center radius n).Valid :=
  valid_of_polygon rfl (by simp [regular])

end Mesh

namespace Spheres

/-! ## Angles -/

theorem twoPi_pos : (0 : ℝ) < twoPi :=
  Real.two_pi_pos

theorem direction_add_mul (x : ℝ) (k : ℤ) : direction (x + k * twoPi) = direction x := by
  have hcos : Real.cos (x + k * (2 * Real.pi)) = Real.cos x := Real.cos_add_int_mul_two_pi x k
  have hsin : Real.sin (x + k * (2 * Real.pi)) = Real.sin x := Real.sin_add_int_mul_two_pi x k
  exact congrArg₂ (fun a b : ℝ => (#v[a, b] : Point ℝ 2)) hcos hsin

theorem direction_wrap (x : ℝ) : direction (Period.wrap twoPi x) = direction x := by
  obtain ⟨k, hk⟩ := Period.exists_wrap_eq twoPi_pos x
  rw [hk, ← direction_add_mul _ k, sub_add_cancel]

theorem norm_direction_scale {radius : ℝ} (hradius : 0 ≤ radius) (x : ℝ) :
    ((direction x).scale radius).norm = radius := by
  have hsq : (direction x).dot (direction x) = 1 := by
    rw [Point.dot, Fin.sum_univ_two]
    change Real.cos x * Real.cos x + Real.sin x * Real.sin x = 1
    linear_combination Real.sin_sq_add_cos_sq x
  rw [Point.norm_scale _ hradius, Point.norm_eq_sqrt, hsq, Real.sqrt_one, mul_one]

theorem direction_scale_eq_iff {x radius : ℝ} {u : Point ℝ 2} : (direction x).scale radius = u ↔
    Real.cos x * radius = u.get 0 ∧ Real.sin x * radius = u.get 1 := by
  have hcos : ((direction x).scale radius).get 0 = Real.cos x * radius := Point.get_scale _ _ 0
  have hsin : ((direction x).scale radius).get 1 = Real.sin x * radius := Point.get_scale _ _ 1
  rw [← hcos, ← hsin]
  constructor
  · rintro rfl
    exact ⟨rfl, rfl⟩
  · rintro ⟨hfirst, hsecond⟩
    refine Point.ext_get fun i => ?_
    fin_cases i
    · exact hfirst
    · exact hsecond

theorem direction_atan2_scale (u : Point ℝ 2) :
    (direction (atan2 (u.get 1) (u.get 0))).scale u.norm = u := by
  have hnorm : u.norm = ‖(⟨u.get 0, u.get 1⟩ : ℂ)‖ := by
    rw [Complex.norm_def, Complex.normSq_apply, Point.norm_eq_sqrt, Point.dot, Fin.sum_univ_two]
  rw [direction_scale_eq_iff, hnorm, mul_comm, mul_comm (Real.sin _)]
  exact ⟨Complex.norm_mul_cos_arg ⟨u.get 0, u.get 1⟩, Complex.norm_mul_sin_arg ⟨u.get 0, u.get 1⟩⟩

theorem exists_direction (u : Point ℝ 2) : ∃ x, u = (direction x).scale u.norm :=
  ⟨_, (direction_atan2_scale u).symm⟩

theorem wrap_atan2 {r : ℝ} (hr : 0 < r) (x : ℝ) :
    Period.wrap twoPi (atan2 (Real.sin x * r) (Real.cos x * r)) = Period.wrap twoPi x := by
  have hpolar : (⟨Real.cos x * r, Real.sin x * r⟩ : ℂ) =
      r * (Complex.cos x + Complex.sin x * Complex.I) := by
    apply Complex.ext <;> simp [Complex.cos_ofReal_re, Complex.sin_ofReal_re, mul_comm]
  have harg : atan2 (Real.sin x * r) (Real.cos x * r) = toIocMod Real.two_pi_pos (-Real.pi) x := by
    change Complex.arg ⟨Real.cos x * r, Real.sin x * r⟩ = _
    rw [hpolar, Complex.arg_mul_cos_add_sin_mul_I_eq_toIocMod hr]
  rw [harg, Period.wrap_eq_wrap_iff twoPi_pos, modEq_iff_zsmul']
  exact ⟨toIocDiv Real.two_pi_pos (-Real.pi) x, self_sub_toIocMod _ _ _⟩

/-! ## The circle in the chart -/

variable {s : Spheres ℝ 2} {radius : ℝ}

theorem toAngles_direction (hradius : 0 < radius) (x : ℝ) :
    toAngles ((direction x).scale radius) = .ok #v[radius, Period.wrap twoPi x] := by
  have hcos : ((direction x).scale radius).get 0 = Real.cos x * radius := Point.get_scale _ _ 0
  have hsin : ((direction x).scale radius).get 1 = Real.sin x * radius := Point.get_scale _ _ 1
  change Except.ok #v[((direction x).scale radius).norm, Period.wrap twoPi
    (atan2 (((direction x).scale radius).get 1) (((direction x).scale radius).get 0))] = _
  rw [norm_direction_scale hradius.le, hcos, hsin, wrap_atan2 hradius]

theorem ofAngles_eq_direction (radius x : ℝ) :
    ofAngles (#v[radius, x] : Point ℝ 2) = .ok ((direction x).scale radius) :=
  congrArg Except.ok (direction_scale_eq_iff.2 ⟨mul_comm _ _, mul_comm _ _⟩).symm

theorem ofAngles_wrap (radius x : ℝ) :
    ofAngles (#v[radius, Period.wrap twoPi x] : Point ℝ 2) =
      .ok ((direction x).scale radius) := by
  rw [ofAngles_eq_direction, direction_wrap]

theorem middle_angles (radius : ℝ) {x y : ℝ} (hnear : |x - y| < Real.pi) :
    Chart.middle periodicity (#v[radius, Period.wrap twoPi x] : Point ℝ 2)
      #v[radius, Period.wrap twoPi y] = #v[radius, Period.wrap twoPi ((x + y) / 2)] := by
  have hradial : (periodicity : Point ℝ 2).get 0 = 0 := Vector.getElem_ofFn _
  have hangular : (periodicity : Point ℝ 2).get 1 = twoPi := Vector.getElem_ofFn _
  have hhalf : |x - y| < twoPi / 2 := by
    change |x - y| < 2 * Real.pi / 2
    linarith
  refine Point.ext_get fun i => ?_
  fin_cases i
  · change (Chart.middle _ _ _).get 0 = radius
    rw [Chart.get_middle, hradial, if_neg (lt_irrefl 0), Point.get_mean]
    change (radius + radius) / 2 = radius
    ring
  · change (Chart.middle _ _ _).get 1 = Period.wrap twoPi ((x + y) / 2)
    rw [Chart.get_middle, hangular, if_pos twoPi_pos]
    exact Period.middle_wrap twoPi_pos hhalf

theorem midpoint_arc (hradius : radiusTolerance < radius) {x y : ℝ} (hnear : |x - y| < Real.pi) :
    s.manifold.midpoint (arc s.center radius x) (arc s.center radius y) =
      .ok { point := arc s.center radius ((x + y) / 2) } := by
  have hpos : 0 < radius := radiusTolerance_pos.trans hradius
  have hread (z : ℝ) :
      s.ofSpace (arc s.center radius z) = .ok #v[radius, Period.wrap twoPi z] := by
    rw [ofSpace, arc, Point.add_sub_self, toAngles_direction hpos]
  have hspace (z : ℝ) :
      s.toSpace #v[radius, Period.wrap twoPi z] = .ok (arc s.center radius z) := by
    have hchart := toSpace_of_tolerance_lt (s := s) (q := #v[radius, Period.wrap twoPi z]) hradius
    rw [hchart, ofAngles_wrap]
    rfl
  have hplace : s.chart.place (.halves (arc s.center radius x) (arc s.center radius y)) =
      .ok (arc s.center radius ((x + y) / 2)) := by
    refine Chart.place_eq_ok_iff.2 ⟨WeightedPoints.check_halves _ _,
      [#v[radius, Period.wrap twoPi x], #v[radius, Period.wrap twoPi y]], ?_, ?_⟩
    · change [s.ofSpace _, s.ofSpace _] = _
      rw [hread, hread]
      rfl
    · change s.toSpace (Chart.middle periodicity _ _) = _
      rw [middle_angles radius hnear, hspace]
  rw [Manifold.midpoint_eq_place]
  change s.place _ = _
  unfold place
  rw [if_pos rfl, hplace]
  rfl

/-! ## The regular polygon -/

theorem arc_mod {n : Nat} (hn : 0 < n) (center : Point ℝ 2) (radius : ℝ) (i : Nat) :
    arc center radius (twoPi * (i % n : Nat) / n) = arc center radius (twoPi * i / n) := by
  have hangle : (twoPi * i / n : ℝ) =
      twoPi * (i % n : Nat) / n + ((i / n : Nat) : ℤ) * twoPi := by
    have hsplit : (i : ℝ) = (i % n : Nat) + n * (i / n : Nat) := by
      exact_mod_cast (Nat.mod_add_div i n).symm
    have hne : (n : ℝ) ≠ 0 := by positivity
    rw [Int.cast_natCast, hsplit]
    field_simp
  rw [hangle, arc, arc, direction_add_mul]

theorem abs_angle_sub_lt {n : Nat} (hn : 3 ≤ n) (i : Nat) :
    |(twoPi * i / n - twoPi * (i + 1 : Nat) / n : ℝ)| < Real.pi := by
  have hmany : (3 : ℝ) ≤ n := by exact_mod_cast hn
  have hstep : (twoPi * i / n - twoPi * (i + 1 : Nat) / n : ℝ) = -(2 * Real.pi / n) := by
    change 2 * Real.pi * i / n - 2 * Real.pi * (i + 1 : Nat) / n = _
    push_cast
    ring
  rw [hstep, abs_neg, abs_of_pos (by positivity), div_lt_iff₀ (by positivity)]
  nlinarith [Real.pi_pos]

end Spheres

namespace Mesh

variable {s : Spheres ℝ 2} {radius : ℝ} {n : Nat}

theorem place_stop_regular (hradius : Spheres.radiusTolerance < radius) (hn : 3 ≤ n) (j : Nat) :
    (Origin.stop n j).place s.manifold (regular s.center radius n).vertices =
      .ok { point := arc s.center radius (twoPi * j / (2 * n : Nat)) } := by
  have hpos : 0 < n := by omega
  have hne : (n : ℝ) ≠ 0 := by positivity
  -- the closing segment ends at angle `twoPi`, which is where vertex 0 lies
  have hvertex (i : Nat) : (regular s.center radius n).vertices[i % n]? =
      some (arc s.center radius (twoPi * i / n)) := by
    rw [regular, Array.getElem?_map, Array.getElem?_range, if_pos (Nat.mod_lt i hpos),
      Option.map_some, Spheres.arc_mod hpos]
  obtain ⟨i, rfl | rfl⟩ := Nat.even_or_odd' j
  · have hangle : (twoPi * i / n : ℝ) = twoPi * (2 * i : Nat) / (2 * n : Nat) := by
      push_cast
      field_simp
    rw [Origin.stop_even, Origin.place_vertex (hvertex i), hangle]
  · have hnear := Spheres.abs_angle_sub_lt hn i
    have hangle : ((twoPi * i / n + twoPi * (i + 1 : Nat) / n) / 2 : ℝ) =
        twoPi * (2 * i + 1 : Nat) / (2 * n : Nat) := by
      push_cast
      field_simp
      ring
    rw [Origin.stop_odd]
    refine Origin.place_edge_mk (hvertex i) (hvertex (i + 1)) ?_ ?_
    · rw [Spheres.midpoint_arc hradius hnear, hangle]
    · rw [abs_sub_comm] at hnear
      rw [Spheres.midpoint_arc hradius hnear, add_comm, hangle]

theorem refine_regular (hradius : Spheres.radiusTolerance < radius) (hn : 3 ≤ n) :
    ∃ round, (regular s.center radius n).refine s.manifold =
      .ok (regular s.center radius (2 * n), round) :=
  refine_polygon hn rfl (valid_regular s.center radius n) fun j _ => place_stop_regular hradius hn j

theorem refineTimes_regular (hradius : Spheres.radiusTolerance < radius) (hn : 3 ≤ n) (k : Nat) :
    ∃ rounds, (regular s.center radius n).refineTimes s.manifold k =
      .ok (regular s.center radius (n * 2 ^ k), rounds) := by
  induction k generalizing n with
  | zero =>
    rw [Nat.pow_zero, Nat.mul_one]
    exact ⟨[], rfl⟩
  | succ k ih =>
    obtain ⟨round, hrefine⟩ := refine_regular (s := s) hradius hn
    obtain ⟨rounds, htimes⟩ := ih (n := 2 * n) (by omega)
    rw [Nat.pow_succ', ← Nat.mul_assoc, Nat.mul_comm n 2]
    exact ⟨round :: rounds,
      refineTimes_succ_eq_ok_iff.2 ⟨_, round, rounds, hrefine, htimes, rfl⟩⟩

/-- Refining a circle around its own center gives the circle with twice as many segments in each
round. The cells are those of that circle whatever places the midpoints. -/
theorem refineTimes_circle {segments : Nat} (hsegments : 3 ≤ segments) (k : Nat) :
    (∀ (s : Spheres ℝ 2) (radius : ℝ), Spheres.radiusTolerance < radius →
      ∃ coarse fine rounds, circle s.center radius segments = .ok coarse ∧
        coarse.refineTimes s.manifold k = .ok (fine, rounds) ∧
        circle s.center radius (segments * 2 ^ k) = .ok fine) ∧
    (∀ {α : Type} [AnalyticScalar α] (center : Point α 2) (radius : α) (m : Manifold α 2),
      0 < radius → m.HasMidpoints →
      ∃ coarse fine refined rounds, circle center radius segments = .ok coarse ∧
        coarse.refineTimes m k = .ok (refined, rounds) ∧
        circle center radius (segments * 2 ^ k) = .ok fine ∧ refined.cells = fine.cells ∧
        refined.cells.getLast? = some (.segment (segments * 2 ^ k - 1) 0)) := by
  have hmany : 3 ≤ segments * 2 ^ k := le_mul_of_le_of_one_le hsegments Nat.one_le_two_pow
  constructor
  · intro s radius hradius
    have hpos : 0 < radius := Spheres.radiusTolerance_pos.trans hradius
    obtain ⟨rounds, htimes⟩ := refineTimes_regular (s := s) hradius hsegments k
    exact ⟨_, _, rounds, circle_eq_ok s.center hsegments hpos, htimes,
      circle_eq_ok s.center hmany hpos⟩
  · intro α _ center radius m hradius hm
    have hcheck := check_eq_ok_iff.2 (valid_regular center radius segments)
    obtain ⟨refined, rounds, htimes, -⟩ := exists_refineTimes hm hcheck k
    have hcells := cells_refineTimes_polygon hsegments rfl k htimes
    refine ⟨_, _, refined, rounds, circle_eq_ok center hsegments hradius, htimes,
      circle_eq_ok center hmany hradius, hcells, ?_⟩
    rw [hcells]
    exact getLast?_polygon (by omega)

theorem refineTimes_circle_unit :
    3 ≤ 3 ∧ Spheres.radiusTolerance < (1 : ℝ) ∧ (0 : ℝ) < 1 ∧
      (FlatSpace.euclidean : FlatSpace ℝ 2).manifold.HasMidpoints ∧
      (∃ coarse fine rounds, circle (#v[0, 0] : Point ℝ 2) 1 3 = .ok coarse ∧
        coarse.refineTimes (Spheres.manifold ⟨#v[0, 0], le_rfl⟩) 2 = .ok (fine, rounds) ∧
        circle (#v[0, 0] : Point ℝ 2) 1 12 = .ok fine) ∧
      ∃ coarse fine straight rounds, circle (#v[0, 0] : Point ℝ 2) 1 3 = .ok coarse ∧
        coarse.refineTimes FlatSpace.euclidean.manifold 2 = .ok (straight, rounds) ∧
        circle (#v[0, 0] : Point ℝ 2) 1 12 = .ok fine ∧ straight.cells = fine.cells ∧
        straight.cells.getLast? = some (.segment 11 0) := by
  have htolerance : Spheres.radiusTolerance < (1 : ℝ) := by
    rw [Spheres.radiusTolerance_eq]
    norm_num
  have hm : (FlatSpace.euclidean : FlatSpace ℝ 2).manifold.HasMidpoints :=
    FlatSpace.bisectsBy_mean.hasMidpoints
  obtain ⟨hround, hstraight⟩ := refineTimes_circle (le_refl 3) 2
  exact ⟨le_rfl, htolerance, one_pos, hm, hround ⟨#v[0, 0], le_rfl⟩ 1 htolerance,
    hstraight #v[0, 0] 1 FlatSpace.euclidean.manifold one_pos hm⟩

end Mesh

end CurvedMesh
