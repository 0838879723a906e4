import CurvedMesh.Proofs.Bisector
import CurvedMesh.Proofs.Circle
import CurvedMesh.Proofs.Transport
import CurvedMesh.Proofs.VertexInvariant

/-!
# Equators

A circle is the equator of the spheres around its center, one dimension up. New points of the circle
are placed by averaging angles, those of the sphere by projecting the middle of a chord. Both bisect
the arc, so refining a mesh in the circle is the same on either manifold.
-/

namespace CurvedMesh

open AnalyticScalar

/-! ## One dimension up -/

namespace Point

variable {d : Nat}

theorem push_add_push (p q : Point ℝ d) (a b : ℝ) : p.push a + q.push b = (p + q).push (a + b) := by
  ext i h
  simp only [Vector.getElem_add, Vector.getElem_push]
  split <;> rfl

theorem push_sub_push (p q : Point ℝ d) (a b : ℝ) : p.push a - q.push b = (p - q).push (a - b) := by
  ext i h
  simp only [Vector.getElem_sub, Vector.getElem_push]
  split <;> rfl

theorem scale_push (p : Point ℝ d) (a b : ℝ) :
    Point.scale (p.push a) b = (p.scale b).push (a * b) := by
  ext i h
  simp only [getElem_scale, Vector.getElem_push]
  split <;> rfl

theorem norm_push_zero (p : Point ℝ d) : Point.norm (p.push 0) = p.norm := by
  have hdot : Point.dot (p.push 0) (p.push 0) = p.dot p := by
    have hget (i : Fin d) : Vector.get (p.push 0) i.castSucc = p.get i :=
      Vector.getElem_push_lt i.isLt
    have hlast : Vector.get (p.push 0) (Fin.last d) = 0 := Vector.getElem_push_eq
    simp only [dot, Fin.sum_univ_castSucc, hget, hlast, mul_zero, add_zero]
  rw [norm_eq_sqrt, norm_eq_sqrt, hdot]

end Point

namespace Spheres

/-- The spheres one dimension up whose center lies at height `z`. -/
def raise {d : Nat} (s : Spheres ℝ d) (z : ℝ) : Spheres ℝ (d + 1) where
  center := s.center.push z
  two_le := Nat.le_succ_of_le s.two_le

theorem push_sub_center {d : Nat} (s : Spheres ℝ d) (p : Point ℝ d) (z : ℝ) :
    p.push z - (s.raise z).center = (p - s.center).push 0 := by
  rw [raise, Point.push_sub_push, sub_self]

namespace Bisectable

variable {d : Nat} {s : Spheres ℝ d} {radius : ℝ} {p q : Point ℝ d}

theorem raise (h : s.Bisectable radius p q) (z : ℝ) :
    (s.raise z).Bisectable radius (p.push z) (q.push z) := by
  have hfar := h.far
  rw [norm_mean_sub] at hfar
  refine ⟨?_, ?_, ?_⟩
  · rw [push_sub_center, Point.norm_push_zero, h.first]
  · rw [push_sub_center, Point.norm_push_zero, h.second]
  · rw [norm_mean_sub, push_sub_center, push_sub_center, Point.push_add_push, add_zero,
      Point.norm_push_zero]
    exact hfar

theorem bisector_raise (h : s.Bisectable radius p q) (z : ℝ) :
    (s.raise z).bisector (p.push z) (q.push z) = (s.bisector p q).push z := by
  rw [(h.raise z).bisector_eq, h.bisector_eq, push_sub_center, push_sub_center,
    Point.push_add_push, add_zero, Point.norm_push_zero, Point.scale_push, zero_mul, Spheres.raise,
    Point.push_add_push, add_zero]

end Bisectable

/-! ## Arcs -/

section Arcs

variable {s : Spheres ℝ 2} {radius : ℝ} {p q : Point ℝ 2}

theorem exists_arc (h : (p - s.center).norm = radius) : ∃ x, p = arc s.center radius x := by
  obtain ⟨x, hx⟩ := exists_direction (p - s.center)
  rw [h] at hx
  exact ⟨x, by rw [arc, ← hx, Point.add_sub_cancel]⟩

theorem exists_direction_eq (x y : ℝ) :
    ∃ y', direction y' = direction y ∧ x - Real.pi < y' ∧ y' ≤ x + Real.pi := by
  refine ⟨toIocMod twoPi_pos (x - Real.pi) y, ?_, ?_⟩
  · have hturn : toIocMod twoPi_pos (x - Real.pi) y =
        y + (-toIocDiv twoPi_pos (x - Real.pi) y : ℤ) * twoPi := by
      rw [toIocMod, zsmul_eq_mul]
      push_cast
      ring
    rw [hturn, direction_add_mul]
  · obtain ⟨hlow, hhigh⟩ := toIocMod_mem_Ioc twoPi_pos (x - Real.pi) y
    change _ ≤ x - Real.pi + 2 * Real.pi at hhigh
    exact ⟨hlow, by linarith⟩

theorem direction_add_direction (x y : ℝ) :
    direction x + direction y =
      (direction ((x + y) / 2)).scale (2 * Real.cos ((x - y) / 2)) := by
  refine Point.ext_get fun i => ?_
  rw [Point.get_add, Point.get_scale]
  fin_cases i
  · change Real.cos x + Real.cos y = Real.cos ((x + y) / 2) * (2 * Real.cos ((x - y) / 2))
    rw [Real.cos_add_cos]
    ring
  · change Real.sin x + Real.sin y = Real.sin ((x + y) / 2) * (2 * Real.cos ((x - y) / 2))
    rw [Real.sin_add_sin]
    ring

theorem arc_sub_add_arc_sub (center : Point ℝ 2) (radius x y : ℝ) :
    (arc center radius x - center) + (arc center radius y - center) =
      (direction ((x + y) / 2)).scale (2 * Real.cos ((x - y) / 2) * radius) := by
  rw [arc, arc, Point.add_sub_self, Point.add_sub_self, ← Point.scale_scale,
    ← direction_add_direction]
  refine Point.ext_get fun i => ?_
  simp only [Point.get_add, Point.get_scale]
  ring

theorem Bisectable.exists_arcs (h : s.Bisectable radius p q) :
    ∃ x y, |x - y| < Real.pi ∧ p = arc s.center radius x ∧ q = arc s.center radius y := by
  obtain ⟨x, hp⟩ := exists_arc h.first
  obtain ⟨y₀, hq⟩ := exists_arc h.second
  obtain ⟨y, hy, hlow, hhigh⟩ := exists_direction_eq x y₀
  rw [arc, ← hy] at hq
  have hne : y ≠ x + Real.pi := by
    intro hopposite
    have hpos := h.norm_pos
    have hright : (x - (x + Real.pi)) / 2 = -(Real.pi / 2) := by ring
    have hzero : (0 : ℝ) ≤ 2 * Real.cos ((x - y) / 2) * radius := by
      rw [hopposite, hright, Real.cos_neg, Real.cos_pi_div_two, mul_zero, zero_mul]
    rw [hp, hq, ← arc, arc_sub_add_arc_sub, Point.norm_scale _ hzero, hopposite, hright,
      Real.cos_neg, Real.cos_pi_div_two, mul_zero, zero_mul, zero_mul] at hpos
    exact lt_irrefl 0 hpos
  have hlt := lt_of_le_of_ne hhigh hne
  exact ⟨x, y, abs_lt.2 ⟨by linarith, by linarith⟩, hp, hq⟩

theorem Bisectable.bisector_arc {x y : ℝ} (hnear : |x - y| < Real.pi)
    (h : s.Bisectable radius (arc s.center radius x) (arc s.center radius y)) :
    s.bisector (arc s.center radius x) (arc s.center radius y) =
      arc s.center radius ((x + y) / 2) := by
  have hradius : 0 < radius := radiusTolerance_pos.trans h.tolerance_lt
  have hcos : 0 < Real.cos ((x - y) / 2) := by
    obtain ⟨hlow, hhigh⟩ := abs_lt.1 hnear
    exact Real.cos_pos_of_mem_Ioo ⟨by linarith, by linarith⟩
  have hlength : 0 < 2 * Real.cos ((x - y) / 2) * radius := by positivity
  rw [h.bisector_eq, arc_sub_add_arc_sub, norm_direction_scale hlength.le, Point.scale_scale,
    mul_div_cancel₀ _ hlength.ne']
  rfl

theorem Bisectable.midpoint_eq_of_circle (h : s.Bisectable radius p q) :
    s.manifold.midpoint p q = .ok { point := s.bisector p q } := by
  obtain ⟨x, y, hnear, rfl, rfl⟩ := h.exists_arcs
  rw [midpoint_arc h.tolerance_lt hnear, h.bisector_arc hnear]

end Arcs

end Spheres

/-! ## Meshes in a circle -/

/-- The ends of every side are the ends of a chord that can be bisected. -/
def Cell.Bisectable {d : Nat} {shape : Shape} (s : Spheres ℝ d) (radius : ℝ)
    (t : Cell (Point ℝ d) shape) : Prop :=
  ∀ side ∈ t.sides, s.Bisectable radius side.1 side.2

namespace Cell.Bisectable

variable {s : Spheres ℝ 2} {radius : ℝ} {t : Cell (Point ℝ 2) .segment}

theorem midpoints (h : t.Bisectable s radius) {p q : Point ℝ 2}
    (hside : (p, q) ∈ t.sides ∨ (q, p) ∈ t.sides) (z : ℝ) :
    s.manifold.midpoint p q = .ok { point := s.bisector p q } ∧
      (s.raise z).manifold.midpoint (p.push z) (q.push z) =
        .ok { point := (s.bisector p q).push z } := by
  have hpq : s.Bisectable radius p q := by
    rcases hside with hside | hside
    · exact h _ hside
    · exact (h _ hside).comm
  refine ⟨hpq.midpoint_eq_of_circle, ?_⟩
  rw [(hpq.raise z).midpoint_eq (by decide), hpq.bisector_raise]

theorem halves (h : t.Bisectable s radius) :
    ∀ half ∈ t.bisect s.bisector, half.Bisectable s radius := by
  obtain ⟨p, q⟩ := t
  have hpq : s.Bisectable radius p q := h (p, q) List.mem_cons_self
  refine List.forall_mem_cons.2 ⟨?_, List.forall_mem_singleton.2 ?_⟩
  · exact List.forall_mem_singleton.2 hpq.first_half
  · exact List.forall_mem_singleton.2 hpq.second_half

end Cell.Bisectable

namespace Mesh

variable {s : Spheres ℝ 2} {mesh : Mesh ℝ 2 .segment} {radius : ℝ}

/-- The mesh in the circle and its image in the equator have the same connectivity after any number
of rounds, and their vertices differ by the height alone. -/
theorem refineTimes_equator (hcheck : mesh.check = .ok ())
    (hon : mesh.ReferencedIn fun p => (p - s.center).norm = radius)
    (hfar : ∀ cell ∈ mesh.cells, ∀ p q, cell.points? mesh.vertices = some (.segment p q) →
      Spheres.radiusTolerance * max radius 1 < (Point.mean p q - s.center).norm)
    (z : ℝ) (n : Nat) :
    ∃ fine rounds rounds', mesh.refineTimes s.manifold n = .ok (fine, rounds) ∧
      (mesh.map (·.push z)).refineTimes (s.raise z).manifold n =
        .ok (fine.map (·.push z), rounds') ∧
      ∀ round ∈ rounds', round.fallbacks = [] := by
  obtain ⟨soup, hsoup⟩ := exists_soup (check_eq_ok_iff.1 hcheck)
  have hstart : ∀ t ∈ soup, t.Bisectable s radius := by
    intro t ht
    obtain ⟨cell, hcell, hpoints⟩ := exists_mem_cells hsoup ht
    obtain ⟨p, q⟩ := t
    refine List.forall_mem_singleton.2 ⟨?_, ?_, hfar cell hcell p q hpoints⟩
    · exact hon.of_mem_corners hcell hpoints List.mem_cons_self
    · exact hon.of_mem_corners hcell hpoints (List.mem_cons_of_mem _ List.mem_cons_self)
  exact exists_refineTimes_map s.bisector_comm (fun t ht p q hside => ht.midpoints hside z)
    (fun t ht => ht.halves) hsoup hstart n

theorem refineTimes_equator_seam :
    (⟨#[#v[4 / 5, -3 / 5], #v[4 / 5, 3 / 5]], [.segment 0 1]⟩ : Mesh ℝ 2 .segment).check = .ok () ∧
      (⟨#[#v[4 / 5, -3 / 5], #v[4 / 5, 3 / 5]], [.segment 0 1]⟩ :
        Mesh ℝ 2 .segment).ReferencedIn (fun p => (p - #v[0, 0]).norm = 1) ∧
      (Spheres.radiusTolerance : ℝ) * max 1 1 <
        Point.norm (Point.mean (#v[4 / 5, -3 / 5] : Point ℝ 2) #v[4 / 5, 3 / 5] - #v[0, 0]) ∧
      ∃ fine rounds rounds',
        (⟨#[#v[4 / 5, -3 / 5], #v[4 / 5, 3 / 5]], [.segment 0 1]⟩ : Mesh ℝ 2 .segment).refineTimes
          (Spheres.manifold ⟨#v[0, 0], le_rfl⟩) 3 = .ok (fine, rounds) ∧
        (Mesh.map (·.push 2) (⟨#[#v[4 / 5, -3 / 5], #v[4 / 5, 3 / 5]], [.segment 0 1]⟩ :
          Mesh ℝ 2 .segment)).refineTimes (Spheres.raise ⟨#v[0, 0], le_rfl⟩ 2).manifold 3 =
            .ok (fine.map (·.push 2), rounds') := by
  have hnorm (a b : ℝ) : Point.norm ((#v[a, b] : Point ℝ 2) - #v[0, 0]) = √(a * a + b * b) := by
    rw [Point.norm_eq_sqrt, Point.dot, Fin.sum_univ_two, Point.get_sub, Point.get_sub]
    change √((a - 0) * (a - 0) + (b - 0) * (b - 0)) = _
    rw [sub_zero, sub_zero]
  have hcheck : (⟨#[#v[4 / 5, -3 / 5], #v[4 / 5, 3 / 5]], [.segment 0 1]⟩ :
      Mesh ℝ 2 .segment).check = .ok () := rfl
  have hon : (⟨#[#v[4 / 5, -3 / 5], #v[4 / 5, 3 / 5]], [.segment 0 1]⟩ :
      Mesh ℝ 2 .segment).ReferencedIn fun p => (p - #v[0, 0]).norm = 1 := by
    apply VerticesIn.referencedIn
    intro p hp
    have hvertex : p = #v[4 / 5, -3 / 5] ∨ p = #v[4 / 5, 3 / 5] := by simpa using hp
    rcases hvertex with rfl | rfl
    · rw [hnorm]
      norm_num
    · rw [hnorm]
      norm_num
  have hfar : (Spheres.radiusTolerance : ℝ) * max 1 1 <
      Point.norm (Point.mean (#v[4 / 5, -3 / 5] : Point ℝ 2) #v[4 / 5, 3 / 5] - #v[0, 0]) := by
    have hmean : (Point.mean #v[4 / 5, -3 / 5] #v[4 / 5, 3 / 5] : Point ℝ 2) = #v[4 / 5, 0] := by
      refine Point.ext_get fun i => ?_
      rw [Point.get_mean]
      fin_cases i
      · exact add_self_div_two (4 / 5 : ℝ)
      · change (-3 / 5 + 3 / 5 : ℝ) / 2 = 0
        norm_num
    rw [hmean, hnorm, mul_zero, add_zero, Real.sqrt_mul_self (by norm_num),
      Spheres.radiusTolerance_eq]
    norm_num
  obtain ⟨fine, rounds, rounds', htimes, htimes', -⟩ :=
    refineTimes_equator (s := ⟨#v[0, 0], le_rfl⟩) hcheck hon
      (List.forall_mem_singleton.2 fun p q hpoints => by cases hpoints; exact hfar) 2 3
  exact ⟨hcheck, hon, hfar, fine, rounds, rounds', htimes, htimes'⟩

end Mesh

end CurvedMesh
