import CurvedMesh.Mesh.Basic
import Mathlib.Data.Finset.Card
import Mathlib.Data.Finset.Dedup
import Mathlib.Data.Rat.Defs
import Mathlib.Data.Sym.Sym2

/-!
# Vertices and edges of a mesh

The sides of a cell run from corner to corner in the direction that orients the cell. An edge of a
mesh is a side of one of its cells without its direction, so cells on both sides of it share it.
-/

namespace CurvedMesh

variable {α : Type} {d : Nat} {s : Shape}

namespace Cell

variable {ι κ ν : Type}

theorem map_map (f : ι → κ) (g : κ → ν) (c : Cell ι s) :
    (c.map f).map g = c.map fun i => g (f i) := by
  cases c <;> rfl

theorem map_congr {f g : ι → κ} {c : Cell ι s} (h : ∀ i ∈ c.corners, f i = g i) :
    c.map f = c.map g := by
  cases c <;> simp_all [map, corners]

def sides : Cell ι s → List (ι × ι)
  | .segment a b => [(a, b)]
  | .triangle a b c => [(a, b), (b, c), (c, a)]

def edges (c : Cell ι s) : List (Sym2 ι) :=
  c.sides.map fun side => s(side.1, side.2)

theorem sides_map (f : ι → κ) (c : Cell ι s) : (c.map f).sides = c.sides.map (Prod.map f f) := by
  cases c <;> rfl

theorem fst_mem_corners {c : Cell ι s} {side : ι × ι} (h : side ∈ c.sides) :
    side.1 ∈ c.corners := by
  cases c with
  | segment a b => simp_all [sides, corners]
  | triangle a b c =>
    simp only [sides, List.mem_cons, List.not_mem_nil, or_false] at h
    rcases h with rfl | rfl | rfl <;> simp [corners]

theorem snd_mem_corners {c : Cell ι s} {side : ι × ι} (h : side ∈ c.sides) :
    side.2 ∈ c.corners := by
  cases c with
  | segment a b => simp_all [sides, corners]
  | triangle a b c =>
    simp only [sides, List.mem_cons, List.not_mem_nil, or_false] at h
    rcases h with rfl | rfl | rfl <;> simp [corners]

end Cell

namespace Mesh

def referenced (mesh : Mesh α d s) : Finset Nat :=
  (mesh.cells.flatMap Cell.corners).toFinset

def sides (mesh : Mesh α d s) : Finset (Nat × Nat) :=
  (mesh.cells.flatMap Cell.sides).toFinset

def edges (mesh : Mesh α d s) : Finset (Sym2 Nat) :=
  (mesh.cells.flatMap Cell.edges).toFinset

theorem mem_referenced {mesh : Mesh α d s} {i : Nat} :
    i ∈ mesh.referenced ↔ ∃ cell ∈ mesh.cells, i ∈ cell.corners := by
  unfold referenced
  rw [List.mem_toFinset, List.mem_flatMap]

theorem mem_sides {mesh : Mesh α d s} {side : Nat × Nat} :
    side ∈ mesh.sides ↔ ∃ cell ∈ mesh.cells, side ∈ cell.sides := by
  unfold sides
  rw [List.mem_toFinset, List.mem_flatMap]

theorem mem_edges {mesh : Mesh α d s} {ends : Sym2 Nat} :
    ends ∈ mesh.edges ↔ ∃ cell ∈ mesh.cells, ends ∈ cell.edges := by
  unfold edges
  rw [List.mem_toFinset, List.mem_flatMap]

theorem mem_referenced_of_mem_edges {mesh : Mesh α d s} {ends : Sym2 Nat}
    (h : ends ∈ mesh.edges) {i : Nat} (hi : i ∈ ends) : i ∈ mesh.referenced := by
  obtain ⟨cell, hcell, hends⟩ := mem_edges.1 h
  obtain ⟨side, hside, rfl⟩ := List.mem_map.1 hends
  rcases Sym2.mem_iff.1 hi with rfl | rfl
  · exact mem_referenced.2 ⟨cell, hcell, Cell.fst_mem_corners hside⟩
  · exact mem_referenced.2 ⟨cell, hcell, Cell.snd_mem_corners hside⟩

theorem lt_of_mem_referenced {mesh : Mesh α d s} (h : mesh.Valid) {i : Nat}
    (hi : i ∈ mesh.referenced) : i < mesh.vertices.size := by
  obtain ⟨cell, hcell, hcorner⟩ := mem_referenced.1 hi
  exact h cell hcell i hcorner

/-- The unit square, cut along its diagonal, and a vertex that no cell refers to. -/
def unitSquare : Mesh ℚ 2 .triangle where
  vertices := #[#v[0, 0], #v[1, 0], #v[1, 1], #v[0, 1], #v[7, 7]]
  cells := [.triangle 0 1 2, .triangle 0 2 3]

example : unitSquare.edges.card = 5 ∧ unitSquare.referenced.card = 4 := by decide

end Mesh

end CurvedMesh
