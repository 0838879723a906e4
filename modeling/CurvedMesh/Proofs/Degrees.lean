import CurvedMesh.Proofs.Boundary

/-!
# Degrees in a segment mesh

A round on segments leaves the segments at an old vertex as they are. A midpoint gets one in and one
out for each segment halved there.
-/

namespace CurvedMesh

variable {α : Type} {d : Nat} {s : Shape}

namespace Mesh

/-- How many cells have a side from here. -/
def leaving (mesh : Mesh α d s) (i : Nat) : Nat :=
  mesh.cells.countP fun cell => i ∈ cell.sides.map Prod.fst

def entering (mesh : Mesh α d s) (i : Nat) : Nat :=
  mesh.cells.countP fun cell => i ∈ cell.sides.map Prod.snd

end Mesh

namespace Cell

variable (c : Cell Nat .segment)

theorem countP_leaving_vertex (i : Nat) :
    c.parts.countP (fun part => .vertex i ∈ part.sides.map Prod.fst) =
      if i ∈ c.sides.map Prod.fst then 1 else 0 := by
  cases c
  simp [parts, split, sides, List.countP_cons]

theorem countP_entering_vertex (i : Nat) :
    c.parts.countP (fun part => .vertex i ∈ part.sides.map Prod.snd) =
      if i ∈ c.sides.map Prod.snd then 1 else 0 := by
  cases c
  simp [parts, split, sides, List.countP_cons]

theorem countP_leaving_edge (ends : Sym2 Nat) :
    c.parts.countP (fun part => .edge ends ∈ part.sides.map Prod.fst) =
      if ends ∈ c.edges then 1 else 0 := by
  cases c
  simp [parts, split, sides, edges, List.countP_cons]

theorem countP_entering_edge (ends : Sym2 Nat) :
    c.parts.countP (fun part => .edge ends ∈ part.sides.map Prod.snd) =
      if ends ∈ c.edges then 1 else 0 := by
  cases c
  simp [parts, split, sides, edges, List.countP_cons]

end Cell

namespace Mesh

/-- Old vertices keep their segments, and a midpoint has one in and one out for each segment that it
halves. -/
structure KeepsDegrees (mesh fine : Mesh α d .segment) : Prop where
  leaving_vertex : ∀ i, fine.leaving (mesh.numbering.number (.vertex i)) = mesh.leaving i
  entering_vertex : ∀ i, fine.entering (mesh.numbering.number (.vertex i)) = mesh.entering i
  leaving_midpoint : ∀ a b,
    fine.leaving (mesh.numbering.number (.midpoint a b)) = mesh.cellsAt s(a, b)
  entering_midpoint : ∀ a b,
    fine.entering (mesh.numbering.number (.midpoint a b)) = mesh.cellsAt s(a, b)

/-- As many segments end at a vertex as begin there. -/
def Balanced (mesh : Mesh α d s) : Prop :=
  ∀ i, mesh.leaving i = mesh.entering i

namespace IsRefinement

variable {mid : Point α d → Point α d → Point α d}

theorem leaving_rank {mesh fine : Mesh α d s} (h : IsRefinement mid mesh fine) (o : Origin) :
    fine.leaving (mesh.rank o) = mesh.parts.countP fun part => o ∈ part.sides.map Prod.fst := by
  apply h.countP_cells
  intro part hpart
  simp only [decide_eq_true_eq, Cell.sides_map, List.mem_map]
  constructor
  · rintro ⟨_, ⟨side, hside, rfl⟩, hrank⟩
    have ho := mem_origins_of_mem_parts hpart (Cell.fst_mem_corners hside)
    exact ⟨side, hside, (rank_inj ho).1 hrank⟩
  · rintro ⟨side, hside, rfl⟩
    exact ⟨_, ⟨side, hside, rfl⟩, rfl⟩

theorem entering_rank {mesh fine : Mesh α d s} (h : IsRefinement mid mesh fine) (o : Origin) :
    fine.entering (mesh.rank o) = mesh.parts.countP fun part => o ∈ part.sides.map Prod.snd := by
  apply h.countP_cells
  intro part hpart
  simp only [decide_eq_true_eq, Cell.sides_map, List.mem_map]
  constructor
  · rintro ⟨_, ⟨side, hside, rfl⟩, hrank⟩
    have ho := mem_origins_of_mem_parts hpart (Cell.snd_mem_corners hside)
    exact ⟨side, hside, (rank_inj ho).1 hrank⟩
  · rintro ⟨side, hside, rfl⟩
    exact ⟨_, ⟨side, hside, rfl⟩, rfl⟩

variable {mesh fine : Mesh α d .segment}

theorem keepsDegrees (h : IsRefinement mid mesh fine) : KeepsDegrees mesh fine := by
  constructor
  · intro i
    rw [number_numbering, Label.origin, h.leaving_rank]
    exact countP_flatMap_eq fun cell _ => cell.countP_leaving_vertex i
  · intro i
    rw [number_numbering, Label.origin, h.entering_rank]
    exact countP_flatMap_eq fun cell _ => cell.countP_entering_vertex i
  · intro a b
    rw [number_numbering, Label.origin, h.leaving_rank]
    exact countP_flatMap_eq fun cell _ => cell.countP_leaving_edge s(a, b)
  · intro a b
    rw [number_numbering, Label.origin, h.entering_rank]
    exact countP_flatMap_eq fun cell _ => cell.countP_entering_edge s(a, b)

theorem leaving_eq_zero {mesh : Mesh α d s} (hvalid : mesh.Valid) {i : Nat}
    (hi : mesh.vertices.size ≤ i) : mesh.leaving i = 0 ∧ mesh.entering i = 0 := by
  have hlt (j : Nat) (hj : j ∈ mesh.referenced) : j ≠ i := by
    have := lt_of_mem_referenced hvalid hj
    omega
  constructor
  · refine List.countP_eq_zero.2 fun cell hcell hmem => ?_
    obtain ⟨side, hside, hfst⟩ := List.mem_map.1 (of_decide_eq_true hmem)
    exact hlt _ (mem_referenced.2 ⟨cell, hcell, Cell.fst_mem_corners hside⟩) hfst
  · refine List.countP_eq_zero.2 fun cell hcell hmem => ?_
    obtain ⟨side, hside, hsnd⟩ := List.mem_map.1 (of_decide_eq_true hmem)
    exact hlt _ (mem_referenced.2 ⟨cell, hcell, Cell.snd_mem_corners hside⟩) hsnd

theorem balanced (h : IsRefinement mid mesh fine) (hmesh : mesh.Balanced) : fine.Balanced := by
  intro k
  by_cases hk : k < fine.vertices.size
  · rw [h.size_vertices] at hk
    obtain ⟨o, ho, rfl⟩ := exists_rank_eq hk
    cases o with
    | vertex i =>
      have hleaving := h.keepsDegrees.leaving_vertex i
      have hentering := h.keepsDegrees.entering_vertex i
      rw [number_numbering, Label.origin] at hleaving hentering
      rw [hleaving, hentering]
      exact hmesh i
    | edge ends =>
      induction ends with | _ a b
      have hleaving := h.keepsDegrees.leaving_midpoint a b
      have hentering := h.keepsDegrees.entering_midpoint a b
      rw [number_numbering, Label.origin] at hleaving hentering
      rw [hleaving, hentering]
  · obtain ⟨hleaving, hentering⟩ := leaving_eq_zero h.valid (Nat.not_lt.1 hk)
    rw [hleaving, hentering]

end IsRefinement

end Mesh

end CurvedMesh
