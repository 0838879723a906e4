import CurvedMesh.Proofs.SphereMidpoint
import CurvedMesh.Proofs.Triangle
import CurvedMesh.Proofs.CellInvariant
import CurvedMesh.Mesh.Coarse

/-!
# Triangles on a sphere that face outward

A triangle that is counter-clockwise when seen from outside, and whose corners are seen from the
center under no more than right angles, is split into four such triangles. No midpoint of its sides
comes near the center, so the chart is never asked for one.
-/

namespace CurvedMesh

open Point

/-! ## Seen from the center -/

structure Outward (u v w : Point ℝ 3) : Prop where
  uv : 0 ≤ u.dot v
  vw : 0 ≤ v.dot w
  wu : 0 ≤ w.dot u
  u_far : 2 / 10 ^ 10 < u.norm
  v_far : 2 / 10 ^ 10 < v.norm
  w_far : 2 / 10 ^ 10 < w.norm
  det_pos : 0 < det u v w

namespace Outward

variable {u v w : Point ℝ 3}

theorem of_orthogonal {radius : ℝ} (hradius : 2 / 10 ^ 10 < radius)
    (hu : u.dot u = radius * radius) (hv : v.dot v = radius * radius)
    (hw : w.dot w = radius * radius) (huv : u.dot v = 0) (hvw : v.dot w = 0) (hwu : w.dot u = 0)
    (hdet : det u v w = radius * (radius * radius)) : Outward u v w := by
  have hpos : 0 < radius := by linarith
  have hnorm {x : Point ℝ 3} (hx : x.dot x = radius * radius) : x.norm = radius := by
    rw [norm_eq_sqrt, hx]
    exact Real.sqrt_mul_self hpos.le
  refine ⟨huv.ge, hvw.ge, hwu.ge, ?_, ?_, ?_, ?_⟩
  · rwa [hnorm hu]
  · rwa [hnorm hv]
  · rwa [hnorm hw]
  · rw [hdet]
    positivity

theorem rotate (h : Outward u v w) : Outward v w u :=
  ⟨h.vw, h.wu, h.uv, h.v_far, h.w_far, h.u_far, by rw [det_rotate]; exact h.det_pos⟩

theorem add_dot_add (h : Outward u v w) : 0 ≤ (u + v).dot (w + u) := by
  have huu := dot_self_nonneg u
  have huw : 0 ≤ u.dot w := by rw [dot_comm]; exact h.wu
  have hvu : 0 ≤ v.dot u := by rw [dot_comm]; exact h.uv
  have hvw := h.vw
  rw [add_dot, dot_add, dot_add]
  positivity

theorem corner (h : Outward u v w) {a b : ℝ} (ha : 0 < a) (hb : 0 < b)
    (hfar : 2 / 10 ^ 10 < ((u + v).scale a).norm) (hfar' : 2 / 10 ^ 10 < ((w + u).scale b).norm) :
    Outward u ((u + v).scale a) ((w + u).scale b) := by
  have huu := dot_self_nonneg u
  have huv := h.uv
  have hwu := h.wu
  have hsum := h.add_dot_add
  have hdet := h.det_pos
  refine ⟨?_, ?_, ?_, h.u_far, hfar, hfar', ?_⟩
  · rw [dot_scale, dot_add]
    positivity
  · rw [scale_dot, dot_scale]
    positivity
  · rw [scale_dot, add_dot]
    positivity
  · rw [det_corner]
    positivity

theorem middle (h : Outward u v w) {a b c : ℝ} (ha : 0 < a) (hb : 0 < b) (hc : 0 < c)
    (hfar : 2 / 10 ^ 10 < ((u + v).scale a).norm) (hfar' : 2 / 10 ^ 10 < ((v + w).scale b).norm)
    (hfar'' : 2 / 10 ^ 10 < ((w + u).scale c).norm) :
    Outward ((u + v).scale a) ((v + w).scale b) ((w + u).scale c) := by
  have huv := h.rotate.add_dot_add
  have hvw := h.rotate.rotate.add_dot_add
  have hwu := h.add_dot_add
  have hdet := h.det_pos
  refine ⟨?_, ?_, ?_, hfar, hfar', hfar'', ?_⟩
  · rw [scale_dot, dot_scale, dot_comm]
    positivity
  · rw [scale_dot, dot_scale, dot_comm]
    positivity
  · rw [scale_dot, dot_scale, dot_comm]
    positivity
  · rw [det_middle]
    positivity

end Outward

/-! ## One triangle -/

namespace Cell

def FacesOut (c : Point ℝ 3) : Cell (Point ℝ 3) .triangle → Prop
  | .triangle p q r => Outward (p - c) (q - c) (r - c)

theorem facesOut_triangle {c p q r : Point ℝ 3} :
    (triangle p q r).FacesOut c ↔ Outward (p - c) (q - c) (r - c) :=
  Iff.rfl

variable {s : Spheres ℝ 3} {t : Cell (Point ℝ 3) .triangle}

theorem FacesOut.side (h : t.FacesOut s.center) {p q : Point ℝ 3}
    (hside : (p, q) ∈ t.sides ∨ (q, p) ∈ t.sides) :
    0 ≤ (p - s.center).dot (q - s.center) ∧ 2 / 10 ^ 10 < (p - s.center).norm ∧
      2 / 10 ^ 10 < (q - s.center).norm := by
  have hforward {p q : Point ℝ 3} (hside : (p, q) ∈ t.sides) :
      0 ≤ (p - s.center).dot (q - s.center) ∧ 2 / 10 ^ 10 < (p - s.center).norm ∧
        2 / 10 ^ 10 < (q - s.center).norm := by
    cases t with
    | triangle x y z =>
      simp only [sides, List.mem_cons, List.not_mem_nil, or_false, Prod.mk.injEq] at hside
      rcases hside with ⟨rfl, rfl⟩ | ⟨rfl, rfl⟩ | ⟨rfl, rfl⟩
      · exact ⟨h.uv, h.u_far, h.v_far⟩
      · exact ⟨h.vw, h.v_far, h.w_far⟩
      · exact ⟨h.wu, h.w_far, h.u_far⟩
  rcases hside with hside | hside
  · exact hforward hside
  · obtain ⟨hdot, hq, hp⟩ := hforward hside
    rw [dot_comm] at hdot
    exact ⟨hdot, hp, hq⟩

theorem FacesOut.midpoint (h : t.FacesOut s.center) {p q : Point ℝ 3}
    (hside : (p, q) ∈ t.sides ∨ (q, p) ∈ t.sides) :
    s.manifold.midpoint p q = .ok { point := s.bisector p q } := by
  obtain ⟨hdot, hp, hq⟩ := h.side hside
  exact Spheres.midpoint_eq_bisector (by decide) hdot hp hq

theorem FacesOut.bisect (h : t.FacesOut s.center) :
    ∀ t' ∈ t.bisect s.bisector, t'.FacesOut s.center := by
  cases t with
  | triangle p q r =>
    have hout := facesOut_triangle.1 h
    obtain ⟨a, ha, hd, hd_far⟩ := Spheres.exists_bisector_eq_scale hout.uv hout.u_far hout.v_far
    obtain ⟨b, hb, he, he_far⟩ := Spheres.exists_bisector_eq_scale hout.vw hout.v_far hout.w_far
    obtain ⟨c, hc, hf, hf_far⟩ := Spheres.exists_bisector_eq_scale hout.wu hout.w_far hout.u_far
    intro t' ht'
    simp only [Cell.bisect, List.mem_cons, List.not_mem_nil, or_false] at ht'
    -- the other two corners are the first corner of the triangle turned once and twice
    rcases ht' with rfl | rfl | rfl | rfl
    · rw [facesOut_triangle, hd, hf]
      exact hout.corner ha hc hd_far hf_far
    · rw [facesOut_triangle, hd, he]
      exact (hout.rotate.corner hb ha he_far hd_far).rotate.rotate
    · rw [facesOut_triangle, hf, he]
      exact (hout.rotate.rotate.corner hc hb hf_far he_far).rotate
    · rw [facesOut_triangle, hd, he, hf]
      exact hout.middle ha hb hc hd_far he_far hf_far

end Cell

/-! ## All triangles -/

namespace Mesh

def FacesOut (c : Point ℝ 3) (mesh : Mesh ℝ 3 .triangle) : Prop :=
  ∀ cell ∈ mesh.cells, ∃ t, cell.points? mesh.vertices = some t ∧ t.FacesOut c

/-- Refining `n` times succeeds without a fallback, and every triangle of the result faces out. -/
def StaysOut (s : Spheres ℝ 3) (mesh : Mesh ℝ 3 .triangle) (n : Nat) : Prop :=
  ∃ fine rounds, mesh.refineTimes s.manifold n = .ok (fine, rounds) ∧
    (∀ round ∈ rounds, round.fallbacks = []) ∧ fine.FacesOut s.center ∧
    ∀ cell ∈ fine.cells, ∃ p q r, cell.points? fine.vertices = some (.triangle p q r) ∧
      0 < ((q - p).cross (r - p)).dot (p - s.center)

theorem FacesOut.staysOut {s : Spheres ℝ 3} {mesh : Mesh ℝ 3 .triangle}
    (h : mesh.FacesOut s.center) (hcheck : mesh.check = .ok ()) (n : Nat) : StaysOut s mesh n := by
  obtain ⟨soup, hsoup⟩ := exists_soup (check_eq_ok_iff.1 hcheck)
  obtain ⟨fine, rounds, soup', htimes, hrounds, hfine, hout⟩ :=
    refineTimes_of_children (P := Cell.FacesOut s.center) s.bisector_comm
      (fun _ ht _ _ hside => ht.midpoint hside) (fun _ ht => ht.bisect) hsoup
      ((forall_soup_iff hsoup).2 h) n
  have hfaces : fine.FacesOut s.center := (forall_soup_iff hfine).1 hout
  refine ⟨fine, rounds, htimes, hrounds, hfaces, ?_⟩
  intro cell hcell
  obtain ⟨t, hpoints, ht⟩ := hfaces cell hcell
  cases t with
  | triangle p q r =>
    refine ⟨p, q, r, hpoints, ?_⟩
    rw [cross_sub_dot]
    exact ht.det_pos

/-! ## The octahedron -/

theorem exists_octahedron (c : Point ℝ 3) {radius : ℝ} (hradius : 2 / 10 ^ 10 < radius) :
    ∃ mesh, octahedron c radius = .ok mesh ∧ mesh.check = .ok () ∧ mesh.FacesOut c := by
  have hpos : 0 < radius := by linarith
  unfold octahedron
  rw [if_pos hpos]
  refine ⟨_, rfl, rfl, ?_⟩
  intro cell hcell
  simp only [List.mem_cons, List.not_mem_nil, or_false] at hcell
  rcases hcell with rfl | rfl | rfl | rfl | rfl | rfl | rfl | rfl
  all_goals
    refine ⟨_, rfl, Outward.of_orthogonal hradius ?_ ?_ ?_ ?_ ?_ ?_ ?_⟩ <;>
      simp [det_eq, dot, Fin.sum_univ_three, Vector.get]

/-- A surface of triangles that face away from the center of a sphere still does after any number of
rounds. An octahedron is one. -/
theorem staysOut_refineTimes (s : Spheres ℝ 3) (n : Nat) :
    (∀ mesh : Mesh ℝ 3 .triangle, mesh.check = .ok () → mesh.FacesOut s.center →
      mesh.StaysOut s n) ∧
    ∀ radius > 2 / 10 ^ 10, ∃ mesh, octahedron s.center radius = .ok mesh ∧
      mesh.FacesOut s.center ∧ mesh.StaysOut s n := by
  constructor
  · intro mesh hcheck hmesh
    exact hmesh.staysOut hcheck n
  · intro radius hradius
    obtain ⟨mesh, hmesh, hcheck, hfaces⟩ := exists_octahedron s.center hradius
    exact ⟨mesh, hmesh, hfaces, hfaces.staysOut hcheck n⟩

theorem staysOut_refineTimes_unit_octahedron :
    ∃ mesh, octahedron #v[0, 0, 0] (1 : ℝ) = .ok mesh ∧ mesh.check = .ok () ∧
      mesh.FacesOut #v[0, 0, 0] ∧ mesh.StaysOut ⟨#v[0, 0, 0], by decide⟩ 2 := by
  have hradius : (2 / 10 ^ 10 : ℝ) < 1 := by norm_num
  obtain ⟨mesh, hmesh, hcheck, hfaces⟩ := exists_octahedron #v[0, 0, 0] hradius
  refine ⟨mesh, hmesh, hcheck, hfaces, ?_⟩
  exact (staysOut_refineTimes ⟨#v[0, 0, 0], by decide⟩ 2).1 mesh hcheck hfaces

end Mesh

end CurvedMesh
