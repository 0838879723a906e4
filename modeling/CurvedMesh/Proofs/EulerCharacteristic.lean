import CurvedMesh.Proofs.Conformity
import CurvedMesh.Proofs.NewEdges
import CurvedMesh.Mesh.Coarse

/-!
# The Euler characteristic

Refinement makes a vertex of every edge, halves every edge and draws three more inside a triangle.
So vertices less edges plus triangles stay the same, and so do vertices less edges of a segment
mesh. The octahedron keeps the Euler characteristic of the sphere.
-/

namespace CurvedMesh.Mesh

variable {α : Type} {d : Nat} {s : Shape}

/-- Vertices less edges plus triangles. Vertices that no cell refers to do not count, and the cells
of a segment mesh are its edges. -/
def euler : {s : Shape} → Mesh α d s → ℤ
  | .segment, mesh => mesh.referenced.card - mesh.edges.card
  | .triangle, mesh => mesh.referenced.card - mesh.edges.card + mesh.cells.length

/-! ## Counts -/

/-- The numbers of vertices, edges and cells after a round, from those before it. -/
structure Grows (mesh fine : Mesh α d s) : Prop where
  vertices : fine.referenced.card = mesh.referenced.card + mesh.edges.card
  edges : fine.edges.card = 2 * mesh.edges.card + s.inner * mesh.cells.length
  cells : fine.cells.length = s.parts * mesh.cells.length
  size : fine.vertices.size = fine.referenced.card

theorem Grows.euler_eq {mesh fine : Mesh α d s} (h : Grows mesh fine) : fine.euler = mesh.euler := by
  have hvertices := h.vertices
  have hedges := h.edges
  have hcells := h.cells
  cases s with
  | segment =>
    simp only [Shape.inner, euler] at hedges ⊢
    omega
  | triangle =>
    simp only [Shape.inner, Shape.parts, euler] at hedges hcells ⊢
    omega

/-- Every corner is a vertex, and the corners of a cell are distinct. -/
structure Proper (mesh : Mesh α d s) : Prop where
  checked : mesh.check = .ok ()
  distinct : ∀ cell ∈ mesh.cells, cell.corners.Nodup

/-! ## The octahedron -/

/-- The numbers of vertices, edges and cells of the octahedron after `k` rounds. -/
structure IsSphere (k : Nat) (mesh : Mesh α d .triangle) : Prop where
  simplicial : mesh.Simplicial
  size : mesh.vertices.size = mesh.referenced.card
  vertices : mesh.referenced.card = 4 ^ (k + 1) + 2
  edges : mesh.edges.card = 12 * 4 ^ k
  cells : mesh.cells.length = 8 * 4 ^ k

def octahedronCells : List (Cell Nat .triangle) :=
  [.triangle 0 2 4, .triangle 2 1 4, .triangle 1 3 4, .triangle 3 0 4, .triangle 2 0 5,
    .triangle 1 2 5, .triangle 3 1 5, .triangle 0 3 5]

theorem isSphere_zero {mesh : Mesh α d .triangle} (hsize : mesh.vertices.size = 6)
    (hcells : mesh.cells = octahedronCells) : mesh.IsSphere 0 := by
  have hreferenced : mesh.referenced.card = 6 := by
    rw [referenced, hcells]
    decide
  refine ⟨⟨check_eq_ok_iff.2 ?_, ?_, ?_⟩, hsize.trans hreferenced.symm, hreferenced, ?_, ?_⟩
  · rw [Valid, hsize, hcells]
    decide
  · rw [hcells]
    decide
  · rw [hcells]
    decide
  · rw [edges, hcells]
    decide
  · rw [hcells]
    rfl

/-! ## Rounds -/

variable [Scalar α] {m : Manifold α d}

theorem exists_refine_grows (hm : m.HasMidpoints) {mesh : Mesh α d s} (h : mesh.Proper)
    (hinner : (mesh.cells.flatMap Cell.inner).Nodup) :
    ∃ mid fine round, mesh.refine m = .ok (fine, round) ∧ IsRefinement mid mesh fine ∧
      Grows mesh fine := by
  obtain ⟨mid, hmid⟩ := hm.exists_bisectsBy
  obtain ⟨fine, round, hrefine, hfine⟩ := exists_refine hmid (check_eq_ok_iff.1 h.checked)
  have hsize : fine.vertices.size = fine.referenced.card := by
    rw [hfine.referenced_eq, Finset.card_range]
  exact ⟨mid, fine, round, hrefine, hfine, hfine.card_referenced,
    hfine.card_edges h.distinct hinner, length_refine hrefine, hsize⟩

theorem exists_refine_grows_triangles (hm : m.HasMidpoints) {mesh : Mesh α d .triangle}
    (h : mesh.Simplicial) :
    ∃ fine round, mesh.refine m = .ok (fine, round) ∧ fine.Simplicial ∧
      mesh.Simplicial ∧ fine.Simplicial ∧ Grows mesh fine := by
  obtain ⟨mid, fine, round, hrefine, hfine, hgrows⟩ :=
    exists_refine_grows hm ⟨h.checked, h.distinct⟩ h.nodup_inner
  have hafter := hfine.simplicial h
  exact ⟨fine, round, hrefine, hafter, h, hafter, hgrows⟩

theorem exists_refine_grows_segments (hm : m.HasMidpoints) {mesh : Mesh α d .segment}
    (h : mesh.Proper) :
    ∃ fine round, mesh.refine m = .ok (fine, round) ∧ fine.Proper ∧
      mesh.Proper ∧ fine.Proper ∧ Grows mesh fine := by
  have hinner : (mesh.cells.flatMap Cell.inner).Nodup := by
    rw [inner_segment]
    exact List.nodup_nil
  obtain ⟨mid, fine, round, hrefine, hfine, hgrows⟩ := exists_refine_grows hm h hinner
  have hafter : fine.Proper := ⟨check_eq_ok_iff.2 hfine.valid, hfine.nodup_corners h.distinct⟩
  exact ⟨fine, round, hrefine, hafter, h, hafter, hgrows⟩

theorem exists_refineTimes_euler {P : Mesh α d s → Prop}
    (step : ∀ mesh, P mesh → ∃ fine round, mesh.refine m = .ok (fine, round) ∧ P fine ∧
      P mesh ∧ P fine ∧ Grows mesh fine)
    {mesh : Mesh α d s} (h : P mesh) (n : Nat) :
    ∃ fine rounds, mesh.refineTimes m n = .ok (fine, rounds) ∧ fine.euler = mesh.euler := by
  have keep : ∀ (k : Nat) (coarse : Mesh α d s), P coarse ∧ coarse.euler = mesh.euler →
      ∃ fine round, coarse.refine m = .ok (fine, round) ∧
        (P fine ∧ fine.euler = mesh.euler) ∧ True := by
    rintro - coarse ⟨hcoarse, heuler⟩
    obtain ⟨fine, round, hrefine, hfine, -, -, hgrows⟩ := step coarse hcoarse
    exact ⟨fine, round, hrefine, ⟨hfine, hgrows.euler_eq.trans heuler⟩, trivial⟩
  obtain ⟨fine, rounds, htimes, ⟨-, hfine⟩, -⟩ := refineTimes_of_step keep n (k := 0) ⟨h, rfl⟩
  exact ⟨fine, rounds, htimes, hfine⟩

/-! ## Refining the octahedron -/

theorem exists_octahedron_isSphere (center : Point α 3) {radius : α} (h : 0 < radius) :
    ∃ mesh, octahedron center radius = .ok mesh ∧ mesh.IsSphere 0 :=
  ⟨_, if_pos h, isSphere_zero rfl rfl⟩

theorem IsSphere.exists_refine (hm : m.HasMidpoints) {k : Nat} {mesh : Mesh α d .triangle}
    (h : mesh.IsSphere k) :
    ∃ fine round, mesh.refine m = .ok (fine, round) ∧ fine.IsSphere (k + 1) ∧ True := by
  obtain ⟨fine, round, hrefine, hfine, -, -, hgrows⟩ := exists_refine_grows_triangles hm h.simplicial
  have hvertices := hgrows.vertices
  have hedges := hgrows.edges
  have hcells := hgrows.cells
  rw [h.vertices, h.edges] at hvertices
  rw [h.edges, h.cells, Shape.inner] at hedges
  rw [h.cells, Shape.parts] at hcells
  refine ⟨fine, round, hrefine, ⟨hfine, hgrows.size, ?_, ?_, ?_⟩, trivial⟩ <;> omega

theorem IsSphere.exists_refineTimes (hm : m.HasMidpoints) {mesh : Mesh α d .triangle}
    (h : mesh.IsSphere 0) (n : Nat) :
    ∃ fine rounds, mesh.refineTimes m n = .ok (fine, rounds) ∧
      fine.vertices.size = 4 ^ (n + 1) + 2 ∧ fine.cells.length = 8 * 4 ^ n := by
  obtain ⟨fine, rounds, htimes, hfine, -⟩ :=
    refineTimes_of_step (fun _ _ hmesh => hmesh.exists_refine hm) n h
  rw [Nat.zero_add] at hfine
  exact ⟨fine, rounds, htimes, hfine.size.trans hfine.vertices, hfine.cells⟩

/-! ## All meshes -/

/-- Every round adds as many vertices and cells as the laws of growth say, and the Euler
characteristic stays as it is. -/
theorem euler_refineTimes (α : Type) [Scalar α] :
    (∀ {d : Nat} {m : Manifold α d}, m.HasMidpoints →
      (∀ mesh : Mesh α d .triangle, mesh.Simplicial → ∀ n,
        AtRound m mesh n (fun coarse fine =>
          coarse.Simplicial ∧ fine.Simplicial ∧ Grows coarse fine) ∧
        ∃ fine rounds, mesh.refineTimes m n = .ok (fine, rounds) ∧ fine.euler = mesh.euler) ∧
      ∀ mesh : Mesh α d .segment, mesh.Proper → ∀ n,
        AtRound m mesh n (fun coarse fine => coarse.Proper ∧ fine.Proper ∧ Grows coarse fine) ∧
        ∃ fine rounds, mesh.refineTimes m n = .ok (fine, rounds) ∧ fine.euler = mesh.euler) ∧
    ∀ {m : Manifold α 3}, m.HasMidpoints → ∀ (center : Point α 3) (radius : α), 0 < radius →
      ∃ coarse, octahedron center radius = .ok coarse ∧ ∀ n,
        ∃ fine rounds, coarse.refineTimes m n = .ok (fine, rounds) ∧
          fine.vertices.size = 4 ^ (n + 1) + 2 ∧ fine.cells.length = 8 * 4 ^ n := by
  refine ⟨fun {d m} hm => ⟨fun mesh hmesh n => ⟨?_, ?_⟩, fun mesh hmesh n => ⟨?_, ?_⟩⟩, ?_⟩
  · exact atRound_of_step (fun _ => exists_refine_grows_triangles hm) hmesh n
  · exact exists_refineTimes_euler (fun _ => exists_refine_grows_triangles hm) hmesh n
  · exact atRound_of_step (fun _ => exists_refine_grows_segments hm) hmesh n
  · exact exists_refineTimes_euler (fun _ => exists_refine_grows_segments hm) hmesh n
  · intro m hm center radius hradius
    obtain ⟨coarse, hcoarse, hsphere⟩ := exists_octahedron_isSphere center hradius
    exact ⟨coarse, hcoarse, hsphere.exists_refineTimes hm⟩

theorem euler_refineTimes_square :
    (FlatSpace.euclidean : FlatSpace ℚ 2).manifold.HasMidpoints ∧ unitSquare.Simplicial ∧
      squareOutline.Proper ∧ (FlatSpace.euclidean : FlatSpace ℚ 3).manifold.HasMidpoints ∧
      (0 : ℚ) < 1 ∧
      (∃ fine rounds, unitSquare.refineTimes FlatSpace.euclidean.manifold 3 = .ok (fine, rounds) ∧
        fine.euler = 1) ∧
      (∃ fine rounds,
        squareOutline.refineTimes FlatSpace.euclidean.manifold 3 = .ok (fine, rounds) ∧
        fine.euler = 0) ∧
      ∃ coarse fine rounds, octahedron 0 (1 : ℚ) = .ok coarse ∧
        coarse.refineTimes FlatSpace.euclidean.manifold 2 = .ok (fine, rounds) ∧
        fine.vertices.size = 66 ∧ fine.cells.length = 128 := by
  have hm {d : Nat} : (FlatSpace.euclidean : FlatSpace ℚ d).manifold.HasMidpoints :=
    FlatSpace.bisectsBy_mean.hasMidpoints
  have hsquare : unitSquare.Simplicial := ⟨rfl, by decide, by decide⟩
  have houtline : squareOutline.Proper := ⟨rfl, by decide⟩
  obtain ⟨hflat, hsphere⟩ := euler_refineTimes ℚ
  obtain ⟨htriangles, hsegments⟩ := hflat (d := 2) hm
  obtain ⟨coarse, hcoarse, hrounds⟩ := hsphere hm 0 1 one_pos
  obtain ⟨fine, rounds, htimes, hsize, hcells⟩ := hrounds 2
  have hone : unitSquare.euler = 1 := by decide
  have hzero : squareOutline.euler = 0 := by decide
  refine ⟨hm, hsquare, houtline, hm, one_pos, ?_, ?_, coarse, fine, rounds, hcoarse, htimes, hsize,
    hcells⟩
  · rw [← hone]
    exact (htriangles unitSquare hsquare 3).2
  · rw [← hzero]
    exact (hsegments squareOutline houtline 3).2

end CurvedMesh.Mesh
