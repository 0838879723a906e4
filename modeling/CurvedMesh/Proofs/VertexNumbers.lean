import CurvedMesh.Proofs.Round
import Mathlib.Data.Rat.Floor

/-!
# The vertices of a refined mesh

A refined mesh has one vertex for each old vertex that a cell refers to and one for each edge, in
the order in which the children come upon them.
-/

namespace CurvedMesh.Mesh

variable {α : Type} {d : Nat} {s : Shape}
variable {mid : Point α d → Point α d → Point α d} {mesh fine : Mesh α d s}

/-! ## Slots -/

theorem flatMap_corners_parts (mesh : Mesh α d s) :
    (mesh.parts.map (Cell.map mesh.rank)).flatMap Cell.corners = mesh.origins.map mesh.rank := by
  simp only [origins_eq, List.flatMap_map, List.map_flatMap, Cell.corners_map]

theorem getElem?_map_rank_eq_iff (mesh : Mesh α d s) (i j : Nat) :
    (mesh.origins.map mesh.rank)[i]? = (mesh.origins.map mesh.rank)[j]? ↔
      mesh.origins[i]? = mesh.origins[j]? := by
  rw [List.getElem?_map, List.getElem?_map]
  cases hi : mesh.origins[i]? with
  | none => cases mesh.origins[j]? <;> simp
  | some o =>
    cases mesh.origins[j]? with
    | none => simp
    | some o' => simp [rank_inj (List.mem_of_getElem? hi)]

namespace IsRefinement

theorem slot_eq_iff (h : IsRefinement mid mesh fine) (i j : Nat) :
    (fine.cells.flatMap Cell.corners)[i]? = (fine.cells.flatMap Cell.corners)[j]? ↔
      mesh.origins[i]? = mesh.origins[j]? := by
  rw [h.cells, flatMap_corners_parts, getElem?_map_rank_eq_iff]

theorem exists_corner (h : IsRefinement mid mesh fine) {k : Nat} (hk : k < fine.vertices.size) :
    ∃ cell ∈ fine.cells, k ∈ cell.corners := by
  rw [h.size_vertices] at hk
  obtain ⟨o, ho, rfl⟩ := exists_rank_eq hk
  rw [← List.mem_flatMap, h.cells, flatMap_corners_parts]
  exact List.mem_map_of_mem ho

end IsRefinement

/-! ## Numbers by first occurrence -/

variable [Scalar α]

/-- The new vertices are numbered by first occurrence: slots of the new cells hold the same number
exactly if they stand for the same old vertex or for the midpoint of the same edge. -/
theorem refine_numbers_origins {m : Manifold α d} (hm : m.BisectsBy mid)
    (hvalid : mesh.check = .ok ()) :
    ∃ fine round, mesh.refine m = .ok (fine, round) ∧
      fine.vertices.toList.map some =
        mesh.origins.eraseDups.map (Origin.point? mid mesh.vertices) ∧
      fine.cells =
        mesh.children.map (Cell.map fun label => mesh.origins.eraseDups.idxOf label.origin) ∧
      (∀ i j : Nat, (fine.cells.flatMap Cell.corners)[i]? = (fine.cells.flatMap Cell.corners)[j]? ↔
        mesh.origins[i]? = mesh.origins[j]?) ∧
      fine.vertices.size = mesh.referenced.card + mesh.edges.card ∧
      (∀ k < fine.vertices.size, ∃ cell ∈ fine.cells, k ∈ cell.corners) ∧
      (∀ i, .vertex i ∈ mesh.origins.eraseDups ↔ i ∈ mesh.referenced) := by
  obtain ⟨fine, round, hrefine, hfine⟩ := exists_refine hm (check_eq_ok_iff.1 hvalid)
  refine ⟨fine, round, hrefine, hfine.vertices, ?_, hfine.slot_eq_iff, ?_, ?_, ?_⟩
  · rw [hfine.cells, ← map_number_children]
    exact List.map_congr_left fun c _ => Cell.map_congr fun l _ => number_numbering mesh l
  · rw [hfine.size_vertices, length_eraseDups_origins]
  · exact fun k hk => hfine.exists_corner hk
  · intro i
    rw [List.mem_eraseDups, vertex_mem_origins]

theorem refine_numbers_origins_unitSquare :
    (FlatSpace.euclidean : FlatSpace ℚ 2).manifold.BisectsBy Point.mean ∧
      unitSquare.check = .ok () ∧ unitSquare.referenced = {0, 1, 2, 3} ∧
      ∃ fine round, unitSquare.refine FlatSpace.euclidean.manifold = .ok (fine, round) ∧
        fine.vertices.size = 9 ∧ ∀ i, .vertex i ∈ unitSquare.origins.eraseDups ↔ i < 4 := by
  have hcheck : unitSquare.check = .ok () := rfl
  have hreferenced : unitSquare.referenced = {0, 1, 2, 3} := by decide
  obtain ⟨fine, round, hrefine, -, -, -, hsize, -, hkept⟩ :=
    refine_numbers_origins FlatSpace.bisectsBy_mean hcheck
  refine ⟨FlatSpace.bisectsBy_mean, hcheck, hreferenced, fine, round, hrefine, hsize, fun i => ?_⟩
  rw [hkept, hreferenced]
  simp
  omega

end CurvedMesh.Mesh
