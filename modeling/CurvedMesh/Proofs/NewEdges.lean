import Mathlib.Algebra.BigOperators.Group.Finset.Basic
import CurvedMesh.Proofs.Lineage
import CurvedMesh.Proofs.Simplicial
import CurvedMesh.Proofs.VertexNumbers

/-!
# Edges of a refined mesh

An edge of a refined mesh is half of an old edge or joins the midpoints of two edges of one cell.
A half names the edge it comes from, and two edges of a triangle name all its corners. So nothing is
counted twice, and the numbers of new vertices, edges and cells follow from the old ones.
-/

namespace CurvedMesh

variable {α : Type} {d : Nat} {s : Shape}

/-! ## Halves of an edge -/

namespace Origin

/-- The two new edges that an old one is cut into. -/
def halves (ends : Sym2 Nat) : Finset (Sym2 Origin) :=
  ends.toFinset.image fun i => s(.vertex i, .edge ends)

theorem mem_halves {ends : Sym2 Nat} {new : Sym2 Origin} :
    new ∈ halves ends ↔ ∃ i ∈ ends, s(.vertex i, .edge ends) = new := by
  simp only [halves, Finset.mem_image, Sym2.mem_toFinset]

theorem card_halves {ends : Sym2 Nat} (h : ¬ ends.IsDiag) : (halves ends).card = 2 := by
  unfold halves
  rw [Finset.card_image_of_injective, Sym2.card_toFinset_of_not_isDiag ends h]
  intro i j hij
  simpa using hij

theorem disjoint_halves {p q : Sym2 Nat} (h : p ≠ q) : Disjoint (halves p) (halves q) := by
  rw [Finset.disjoint_left]
  intro new hp hq
  obtain ⟨i, -, rfl⟩ := mem_halves.1 hp
  obtain ⟨j, -, heq⟩ := mem_halves.1 hq
  simp only [Sym2.eq_iff] at heq
  grind

end Origin

/-! ## One cell -/

/-- The number of edges that splitting draws inside a cell. -/
def Shape.inner : Shape → Nat
  | segment => 0
  | triangle => 3

namespace Cell

theorem edges_map {ι κ : Type} (f : ι → κ) (c : Cell ι s) :
    (c.map f).edges = c.edges.map (Sym2.map f) := by
  cases c <;> rfl

/-- The edges that splitting draws inside the cell, from midpoint to midpoint. -/
def inner : Cell Nat s → List (Sym2 Origin)
  | .segment _ _ => []
  | .triangle a b c =>
    [s(.edge s(a, b), .edge s(b, c)), s(.edge s(b, c), .edge s(c, a)),
      s(.edge s(c, a), .edge s(a, b))]

theorem length_inner (c : Cell Nat s) : c.inner.length = s.inner := by
  cases c <;> rfl

theorem mem_edges_parts {c : Cell Nat s} {new : Sym2 Origin} :
    new ∈ c.parts.flatMap edges ↔ (∃ ends ∈ c.edges, new ∈ Origin.halves ends) ∨ new ∈ c.inner := by
  cases c with
  | segment a b =>
    simp [parts, split, edges, sides, inner, Origin.mem_halves]
    grind
  | triangle a b c =>
    simp [parts, split, edges, sides, inner, Origin.mem_halves]
    grind

theorem exists_of_mem_inner {c : Cell Nat s} (h : c.corners.Nodup) {new : Sym2 Origin}
    (hnew : new ∈ c.inner) :
    ∃ p ∈ c.edges, ∃ q ∈ c.edges, p ≠ q ∧ new = s(.edge p, .edge q) := by
  cases c with
  | segment a b => cases hnew
  | triangle a b c =>
    have hedges := nodup_edges h
    simp only [inner, edges, sides, List.map_cons, List.map_nil, List.mem_cons, List.not_mem_nil,
      or_false, List.nodup_cons, not_or] at hnew hedges ⊢
    grind

theorem not_isDiag_of_mem_edges {c : Cell Nat s} (h : c.corners.Nodup) {ends : Sym2 Nat}
    (hends : ends ∈ c.edges) : ¬ ends.IsDiag := by
  cases c <;> simp [corners, edges, sides] at h hends <;> grind [Sym2.mk_isDiag_iff]

theorem nodup_inner {c : Cell Nat s} (h : c.corners.Nodup) : c.inner.Nodup := by
  cases c with
  | segment a b => exact List.nodup_nil
  | triangle a b c =>
    simp [corners, inner] at h ⊢
    grind

end Cell

/-! ## All cells -/

namespace Mesh

/-- The edges of the parts, before their corners are numbered. -/
def newEdges (mesh : Mesh α d s) : Finset (Sym2 Origin) :=
  (mesh.parts.flatMap Cell.edges).toFinset

variable {mid : Point α d → Point α d → Point α d} {mesh fine : Mesh α d s}

theorem newEdges_eq (mesh : Mesh α d s) : mesh.newEdges =
    mesh.edges.biUnion Origin.halves ∪ (mesh.cells.flatMap Cell.inner).toFinset := by
  ext new
  simp only [newEdges, parts, List.flatMap_assoc, List.mem_toFinset, Finset.mem_union,
    Finset.mem_biUnion, List.mem_flatMap, mem_edges]
  constructor
  · rintro ⟨c, hc, hnew⟩
    rcases Cell.mem_edges_parts.1 (List.mem_flatMap.2 hnew) with ⟨ends, hends, hhalf⟩ | hinner
    · exact .inl ⟨ends, ⟨c, hc, hends⟩, hhalf⟩
    · exact .inr ⟨c, hc, hinner⟩
  · rintro (⟨ends, ⟨c, hc, hends⟩, hhalf⟩ | ⟨c, hc, hinner⟩)
    · exact ⟨c, hc, List.mem_flatMap.1 (Cell.mem_edges_parts.2 (.inl ⟨ends, hends, hhalf⟩))⟩
    · exact ⟨c, hc, List.mem_flatMap.1 (Cell.mem_edges_parts.2 (.inr hinner))⟩

theorem card_halves_edges (h : ∀ cell ∈ mesh.cells, cell.corners.Nodup) :
    (mesh.edges.biUnion Origin.halves).card = 2 * mesh.edges.card := by
  have htwo : ∀ ends ∈ mesh.edges, (Origin.halves ends).card = 2 := by
    intro ends hends
    obtain ⟨cell, hcell, hmem⟩ := mem_edges.1 hends
    exact Origin.card_halves (Cell.not_isDiag_of_mem_edges (h cell hcell) hmem)
  rw [Finset.card_biUnion fun p _ q _ hpq => Origin.disjoint_halves hpq, Finset.sum_congr rfl htwo,
    Finset.sum_const, smul_eq_mul, Nat.mul_comm]

theorem disjoint_halves_inner (h : ∀ cell ∈ mesh.cells, cell.corners.Nodup) :
    Disjoint (mesh.edges.biUnion Origin.halves) (mesh.cells.flatMap Cell.inner).toFinset := by
  rw [Finset.disjoint_left]
  intro new hhalf hinner
  obtain ⟨ends, -, hends⟩ := Finset.mem_biUnion.1 hhalf
  obtain ⟨i, -, rfl⟩ := Origin.mem_halves.1 hends
  obtain ⟨cell, hcell, hmem⟩ := List.mem_flatMap.1 (List.mem_toFinset.1 hinner)
  obtain ⟨p, -, q, -, -, heq⟩ := Cell.exists_of_mem_inner (h cell hcell) hmem
  simp at heq

theorem card_newEdges (h : ∀ cell ∈ mesh.cells, cell.corners.Nodup)
    (hinner : (mesh.cells.flatMap Cell.inner).Nodup) :
    mesh.newEdges.card = 2 * mesh.edges.card + s.inner * mesh.cells.length := by
  rw [newEdges_eq, Finset.card_union_of_disjoint (disjoint_halves_inner h), card_halves_edges h,
    List.toFinset_card_of_nodup hinner, length_flatMap_of_length fun c _ => c.length_inner]

theorem mem_origins_of_mem_newEdges {new : Sym2 Origin} (hnew : new ∈ mesh.newEdges) {o : Origin}
    (ho : o ∈ new) : o ∈ mesh.origins := by
  obtain ⟨part, hpart, hmem⟩ := List.mem_flatMap.1 (List.mem_toFinset.1 hnew)
  obtain ⟨side, hside, rfl⟩ := List.mem_map.1 hmem
  rcases Sym2.mem_iff.1 ho with rfl | rfl
  · exact mem_origins_of_mem_parts hpart (Cell.fst_mem_corners hside)
  · exact mem_origins_of_mem_parts hpart (Cell.snd_mem_corners hside)

theorem map_rank_injOn (mesh : Mesh α d s) :
    Set.InjOn (Sym2.map mesh.rank) (mesh.newEdges : Set (Sym2 Origin)) := by
  intro new hnew new' _ heq
  induction new with | _ o o'
  induction new' with | _ p p'
  have ho : o ∈ mesh.origins := mem_origins_of_mem_newEdges hnew (Sym2.mem_mk_left o o')
  have ho' : o' ∈ mesh.origins := mem_origins_of_mem_newEdges hnew (Sym2.mem_mk_right o o')
  rw [Sym2.map_mk, Sym2.map_mk, Sym2.eq_iff, rank_inj ho, rank_inj ho, rank_inj ho',
    rank_inj ho'] at heq
  exact Sym2.eq_iff.2 heq

namespace IsRefinement

theorem edges_eq (h : IsRefinement mid mesh fine) :
    fine.edges = mesh.newEdges.image (Sym2.map mesh.rank) := by
  ext ends
  simp only [edges, newEdges, h.cells, List.flatMap_map, Cell.edges_map, ← List.map_flatMap,
    List.mem_toFinset, Finset.mem_image, List.mem_map]

theorem card_edges (h : IsRefinement mid mesh fine)
    (hdistinct : ∀ cell ∈ mesh.cells, cell.corners.Nodup)
    (hinner : (mesh.cells.flatMap Cell.inner).Nodup) :
    fine.edges.card = 2 * mesh.edges.card + s.inner * mesh.cells.length := by
  rw [h.edges_eq, Finset.card_image_of_injOn mesh.map_rank_injOn, card_newEdges hdistinct hinner]

theorem referenced_eq (h : IsRefinement mid mesh fine) :
    fine.referenced = Finset.range fine.vertices.size := by
  ext k
  rw [Finset.mem_range]
  constructor
  · exact lt_of_mem_referenced h.valid
  · exact fun hk => mem_referenced.2 (h.exists_corner hk)

theorem card_referenced (h : IsRefinement mid mesh fine) :
    fine.referenced.card = mesh.referenced.card + mesh.edges.card := by
  rw [h.referenced_eq, Finset.card_range, h.size_vertices, length_eraseDups_origins]

end IsRefinement

/-! ## Inner edges -/

theorem inner_segment (mesh : Mesh α d .segment) : mesh.cells.flatMap Cell.inner = [] := by
  refine List.flatMap_eq_nil_iff.2 fun c _ => ?_
  cases c
  rfl

theorem Simplicial.nodup_inner {mesh : Mesh α d .triangle} (h : mesh.Simplicial) :
    (mesh.cells.flatMap Cell.inner).Nodup := by
  rw [List.nodup_flatMap]
  refine ⟨fun c hc => Cell.nodup_inner (h.distinct c hc), ?_⟩
  have hpair : mesh.cells.Pairwise fun c c' => c.corners.toFinset ≠ c'.corners.toFinset :=
    List.pairwise_map.1 h.apart
  refine hpair.imp_of_mem fun {c c'} hc hc' hne => ?_
  change List.Disjoint _ _
  rw [List.disjoint_left]
  intro new hnew hnew'
  obtain ⟨p, hp, q, hq, hpq, rfl⟩ := Cell.exists_of_mem_inner (h.distinct c hc) hnew
  obtain ⟨p', hp', q', hq', hpq', heq⟩ := Cell.exists_of_mem_inner (h.distinct c' hc') hnew'
  apply hne
  rw [Cell.toFinset_corners hp hq hpq, Cell.toFinset_corners hp' hq' hpq']
  rcases Sym2.eq_iff.1 heq with ⟨hfst, hsnd⟩ | ⟨hfst, hsnd⟩
  · rw [Origin.edge.inj hfst, Origin.edge.inj hsnd]
  · rw [Origin.edge.inj hfst, Origin.edge.inj hsnd, Finset.union_comm]

end Mesh

end CurvedMesh
