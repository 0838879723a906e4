import CurvedMesh.Proofs.Sides

/-!
# Simplicial meshes

The corners of a simplicial triangle mesh are distinct, and a set of corners belongs to one cell.
Refinement keeps this. The corners of a part are made from the corners of its cell, all of them, so
parts of different cells have different corners. Parts of one cell differ in the old vertices that
they keep.
-/

namespace CurvedMesh

variable {α : Type} {d : Nat}

namespace Origin

/-- The old vertices that an origin is made from. -/
def support : Origin → Finset Nat
  | .vertex i => {i}
  | .edge ends => ends.toFinset

def kept : Origin → Finset Nat
  | .vertex i => {i}
  | .edge _ => ∅

end Origin

/-! ## One triangle -/

namespace Cell

variable {c : Cell Nat .triangle} {part : Cell Origin .triangle}

theorem nodup_edges (h : c.corners.Nodup) : c.edges.Nodup := by
  cases c
  simp [edges, sides, corners] at h ⊢
  grind

theorem toFinset_corners {p q : Sym2 Nat} (hp : p ∈ c.edges) (hq : q ∈ c.edges) (hpq : p ≠ q) :
    c.corners.toFinset = p.toFinset ∪ q.toFinset := by
  cases c
  simp only [edges, sides, List.map_cons, List.map_nil, List.mem_cons, List.not_mem_nil,
    or_false] at hp hq
  ext i
  rcases hp with rfl | rfl | rfl <;> rcases hq with rfl | rfl | rfl <;>
    simp [corners] at hpq ⊢ <;> tauto

theorem nodup_corners_part {s : Shape} {c : Cell Nat s} {part : Cell Origin s}
    (h : c.corners.Nodup) (hpart : part ∈ c.parts) : part.corners.Nodup := by
  cases c with
  | segment a b =>
    simp only [parts, split, List.mem_cons, List.not_mem_nil, or_false] at hpart
    rcases hpart with rfl | rfl <;> simp [corners]
  | triangle a b c =>
    simp only [parts, split, List.mem_cons, List.not_mem_nil, or_false] at hpart
    rcases hpart with rfl | rfl | rfl | rfl <;> simp [corners] at h ⊢ <;> grind

theorem support_part (hpart : part ∈ c.parts) :
    part.corners.toFinset.biUnion Origin.support = c.corners.toFinset := by
  cases c
  simp only [parts, split, List.mem_cons, List.not_mem_nil, or_false] at hpart
  ext i
  rcases hpart with rfl | rfl | rfl | rfl <;> simp [corners, Origin.support] <;> tauto

theorem nodup_parts (h : c.corners.Nodup) :
    (c.parts.map fun part => part.corners.toFinset).Nodup := by
  -- each corner part keeps one old vertex, a different one, and the middle part keeps none
  refine List.Nodup.of_map (fun corners => corners.biUnion Origin.kept) ?_
  cases c
  simp [parts, split, corners, Origin.kept] at h ⊢
  grind

end Cell

/-! ## All triangles -/

namespace Mesh

structure Simplicial (mesh : Mesh α d .triangle) : Prop where
  checked : mesh.check = .ok ()
  distinct : ∀ cell ∈ mesh.cells, cell.corners.Nodup
  apart : (mesh.cells.map fun cell => cell.corners.toFinset).Nodup

variable {mid : Point α d → Point α d → Point α d} {mesh fine : Mesh α d .triangle}

namespace Simplicial

/-- Two edges lie in at most one cell together. -/
theorem countP_edges_le (h : mesh.Simplicial) {p q : Sym2 Nat} (hpq : p ≠ q) :
    mesh.cells.countP (fun cell => p ∈ cell.edges ∧ q ∈ cell.edges ∧ p ≠ q) ≤ 1 := by
  calc mesh.cells.countP (fun cell => p ∈ cell.edges ∧ q ∈ cell.edges ∧ p ≠ q)
      ≤ mesh.cells.countP (fun cell => cell.corners.toFinset == p.toFinset ∪ q.toFinset) := by
        refine List.countP_mono_left fun cell _ hcell => ?_
        obtain ⟨hp, hq, -⟩ := of_decide_eq_true hcell
        exact beq_iff_eq.2 (Cell.toFinset_corners hp hq hpq)
    _ = (mesh.cells.map fun cell => cell.corners.toFinset).count (p.toFinset ∪ q.toFinset) := by
        rw [List.count_eq_countP, List.countP_map]
        rfl
    _ ≤ 1 := List.nodup_iff_count_le_one.1 h.apart _

theorem nodup_parts (h : mesh.Simplicial) :
    (mesh.parts.map fun part => part.corners.toFinset).Nodup := by
  unfold parts
  rw [List.map_flatMap, List.nodup_flatMap]
  refine ⟨fun cell hcell => Cell.nodup_parts (h.distinct cell hcell), ?_⟩
  have hpair : mesh.cells.Pairwise fun c c' => c.corners.toFinset ≠ c'.corners.toFinset :=
    List.pairwise_map.1 h.apart
  refine hpair.imp fun hne => ?_
  change List.Disjoint _ _
  rw [List.disjoint_left]
  intro corners hcorners hcorners'
  obtain ⟨part, hpart, rfl⟩ := List.mem_map.1 hcorners
  obtain ⟨part', hpart', heq⟩ := List.mem_map.1 hcorners'
  apply hne
  rw [← Cell.support_part hpart, ← Cell.support_part hpart', heq]

end Simplicial

theorem toFinset_eq_of_rank {part part' : Cell Origin .triangle} (hpart : part ∈ mesh.parts)
    (hpart' : part' ∈ mesh.parts)
    (heq : (part.corners.map mesh.rank).toFinset = (part'.corners.map mesh.rank).toFinset) :
    part.corners.toFinset = part'.corners.toFinset := by
  have hrank : Set.InjOn mesh.rank (mesh.origins.toFinset : Set Origin) :=
    fun o ho o' _ => (rank_inj (List.mem_toFinset.1 ho)).1
  have hsub {part : Cell Origin .triangle} (hpart : part ∈ mesh.parts) :
      part.corners.toFinset ∈ mesh.origins.toFinset.powerset := by
    refine Finset.mem_powerset.2 fun o ho => ?_
    exact List.mem_toFinset.2 (mem_origins_of_mem_parts hpart (List.mem_toFinset.1 ho))
  have himage (part : Cell Origin .triangle) :
      (part.corners.map mesh.rank).toFinset = part.corners.toFinset.image mesh.rank := by
    ext k
    simp
  rw [himage, himage] at heq
  exact Finset.image_injOn_powerset_of_injOn hrank (hsub hpart) (hsub hpart') heq

namespace IsRefinement

theorem nodup_corners {s : Shape} {mesh fine : Mesh α d s} (hfine : IsRefinement mid mesh fine)
    (h : ∀ cell ∈ mesh.cells, cell.corners.Nodup) : ∀ cell ∈ fine.cells, cell.corners.Nodup := by
  intro cell hcell
  rw [hfine.cells] at hcell
  obtain ⟨part, hpart, rfl⟩ := List.mem_map.1 hcell
  obtain ⟨c, hc, hpc⟩ := List.mem_flatMap.1 hpart
  rw [Cell.corners_map]
  refine (Cell.nodup_corners_part (h c hc) hpc).map_on fun o ho o' _ => ?_
  exact (rank_inj (mem_origins_of_mem_parts hpart ho)).1

theorem simplicial (hfine : IsRefinement mid mesh fine) (h : mesh.Simplicial) :
    fine.Simplicial := by
  refine ⟨check_eq_ok_iff.2 hfine.valid, hfine.nodup_corners h.distinct, ?_⟩
  rw [hfine.cells, List.map_map]
  refine List.Nodup.map_on ?_ h.nodup_parts.of_map
  intro part hpart part' hpart' heq
  simp only [Function.comp_apply, Cell.corners_map] at heq
  exact List.inj_on_of_nodup_map h.nodup_parts hpart hpart' (toFinset_eq_of_rank hpart hpart' heq)

end IsRefinement

end Mesh

end CurvedMesh
