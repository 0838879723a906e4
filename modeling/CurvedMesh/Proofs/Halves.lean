import CurvedMesh.Proofs.Simplicial

/-!
# Halves of sides

A round of refinement cuts each side in two halves that lie in as many cells as the side did. A new
side that is no half runs inside one old cell, and so does its reverse.
-/

namespace CurvedMesh

variable {α : Type} {d : Nat} {s : Shape}

namespace Mesh

/-! ## Halves -/

/-- The new side from the first end of an old one to its midpoint. -/
def firstHalf (mesh : Mesh α d s) (side : Nat × Nat) : Nat × Nat :=
  (mesh.numbering.number (.vertex side.1), mesh.numbering.number (.midpoint side.1 side.2))

def secondHalf (mesh : Mesh α d s) (side : Nat × Nat) : Nat × Nat :=
  (mesh.numbering.number (.midpoint side.1 side.2), mesh.numbering.number (.vertex side.2))

def IsHalf (mesh : Mesh α d s) (side : Nat × Nat) : Prop :=
  ∃ old ∈ mesh.sides, side = mesh.firstHalf old ∨ side = mesh.secondHalf old

/-- The side joins the midpoints of two sides of one cell. -/
def IsInner (mesh : Mesh α d s) (side : Nat × Nat) : Prop :=
  ∃ cell ∈ mesh.cells, ∃ p ∈ cell.sides, ∃ q ∈ cell.sides, p ≠ q ∧
    side = (mesh.numbering.number (.midpoint p.1 p.2), mesh.numbering.number (.midpoint q.1 q.2))

theorem firstHalf_eq (mesh : Mesh α d s) (a b : Nat) :
    mesh.firstHalf (a, b) = (mesh.rank (.vertex a), mesh.rank (.edge s(a, b))) := by
  simp only [firstHalf, number_numbering, Label.origin]

theorem secondHalf_eq (mesh : Mesh α d s) (a b : Nat) :
    mesh.secondHalf (a, b) = (mesh.rank (.edge s(a, b)), mesh.rank (.vertex b)) := by
  simp only [secondHalf, number_numbering, Label.origin]

theorem swap_firstHalf (mesh : Mesh α d s) (side : Nat × Nat) :
    (mesh.firstHalf side).swap = mesh.secondHalf side.swap := by
  obtain ⟨a, b⟩ := side
  rw [firstHalf_eq, Prod.swap_prod_mk, Prod.swap_prod_mk, secondHalf_eq, Sym2.eq_swap]

theorem swap_secondHalf (mesh : Mesh α d s) (side : Nat × Nat) :
    (mesh.secondHalf side).swap = mesh.firstHalf side.swap := by
  rw [← Prod.swap_swap side, ← swap_firstHalf, Prod.swap_swap, Prod.swap_swap]

variable {mesh : Mesh α d s} {side side' : Nat × Nat}

theorem vertex_mem_origins_of_mem_sides (h : side ∈ mesh.sides) :
    .vertex side.1 ∈ mesh.origins ∧ .vertex side.2 ∈ mesh.origins := by
  obtain ⟨cell, hcell, hside⟩ := mem_sides.1 h
  constructor
  · exact vertex_mem_origins.2 (mem_referenced.2 ⟨cell, hcell, Cell.fst_mem_corners hside⟩)
  · exact vertex_mem_origins.2 (mem_referenced.2 ⟨cell, hcell, Cell.snd_mem_corners hside⟩)

theorem edge_mem_origins_of_mem_sides (h : side ∈ mesh.sides) :
    .edge s(side.1, side.2) ∈ mesh.origins := by
  obtain ⟨cell, hcell, hside⟩ := mem_sides.1 h
  exact edge_mem_origins.2 (mem_edges.2 ⟨cell, hcell, List.mem_map_of_mem hside⟩)

theorem firstHalf_inj (h : side ∈ mesh.sides) (heq : mesh.firstHalf side = mesh.firstHalf side') :
    side = side' := by
  obtain ⟨a, b⟩ := side
  obtain ⟨a', b'⟩ := side'
  rw [firstHalf_eq, firstHalf_eq, Prod.mk.injEq, rank_inj (vertex_mem_origins_of_mem_sides h).1,
    rank_inj (edge_mem_origins_of_mem_sides h)] at heq
  grind

theorem secondHalf_inj (h : side ∈ mesh.sides)
    (heq : mesh.secondHalf side = mesh.secondHalf side') : side = side' := by
  obtain ⟨a, b⟩ := side
  obtain ⟨a', b'⟩ := side'
  rw [secondHalf_eq, secondHalf_eq, Prod.mk.injEq, rank_inj (vertex_mem_origins_of_mem_sides h).2,
    rank_inj (edge_mem_origins_of_mem_sides h)] at heq
  grind

theorem firstHalf_ne_secondHalf (h : side ∈ mesh.sides) :
    mesh.firstHalf side ≠ mesh.secondHalf side' := by
  obtain ⟨a, b⟩ := side
  obtain ⟨a', b'⟩ := side'
  rw [firstHalf_eq, secondHalf_eq, Ne, Prod.mk.injEq,
    rank_inj (vertex_mem_origins_of_mem_sides h).1]
  simp

theorem card_halves {sides : Finset (Nat × Nat)} (h : ∀ side ∈ sides, side ∈ mesh.sides) :
    (sides.image mesh.firstHalf ∪ sides.image mesh.secondHalf).card = 2 * sides.card := by
  have hdisjoint : Disjoint (sides.image mesh.firstHalf) (sides.image mesh.secondHalf) := by
    rw [Finset.disjoint_left]
    intro half hfirst hsecond
    obtain ⟨side, hside, rfl⟩ := Finset.mem_image.1 hfirst
    obtain ⟨side', -, heq⟩ := Finset.mem_image.1 hsecond
    exact firstHalf_ne_secondHalf (h side hside) heq.symm
  have hfirst : (sides.image mesh.firstHalf).card = sides.card :=
    Finset.card_image_of_injOn fun side hside _ _ heq => firstHalf_inj (h side hside) heq
  have hsecond : (sides.image mesh.secondHalf).card = sides.card :=
    Finset.card_image_of_injOn fun side hside _ _ heq => secondHalf_inj (h side hside) heq
  rw [Finset.card_union_of_disjoint hdisjoint, hfirst, hsecond]
  omega

/-! ## What a round does to sides -/

/-- Both halves of a side lie in as many cells as the side did, in its direction, and no cell keeps
a side whole. Any other side runs inside one old cell, and so does its reverse. -/
structure SplitsSides (mesh fine : Mesh α d s) : Prop where
  first_half : ∀ side, fine.cellsWith (mesh.firstHalf side) = mesh.cellsWith side
  second_half : ∀ side, fine.cellsWith (mesh.secondHalf side) = mesh.cellsWith side
  rest : ∀ side ∈ fine.sides, mesh.IsHalf side ∨
    mesh.IsInner side ∧ fine.cellsWith side = 1 ∧ fine.cellsWith side.swap = 1
  cut : ∀ a b, (mesh.numbering.number (.vertex a), mesh.numbering.number (.vertex b)) ∉ fine.sides

namespace IsRefinement

variable {mid : Point α d → Point α d → Point α d}

theorem cut {fine : Mesh α d s} (h : IsRefinement mid mesh fine) (a b : Nat) :
    (mesh.rank (.vertex a), mesh.rank (.vertex b)) ∉ fine.sides := by
  rw [← cellsWith_pos, h.cellsWith_rank, List.countP_pos_iff]
  rintro ⟨part, hpart, hside⟩
  obtain ⟨cell, -, hpart⟩ := List.mem_flatMap.1 hpart
  rcases Cell.mem_sides_part hpart (of_decide_eq_true hside) with ⟨x, y, -, h | h⟩ | ⟨p, q, h⟩
  · cases h
  · cases h
  · cases h

theorem isHalf_or_inner {fine : Mesh α d s} (h : IsRefinement mid mesh fine)
    (hside : side ∈ fine.sides) :
    mesh.IsHalf side ∨ ∃ cell ∈ mesh.cells, ∃ part ∈ cell.parts, ∃ p q,
      (.edge p, .edge q) ∈ part.sides ∧ side = (mesh.rank (.edge p), mesh.rank (.edge q)) := by
  obtain ⟨part, hpart, o, o', hmem, rfl⟩ := h.mem_sides hside
  obtain ⟨cell, hcell, hpart⟩ := List.mem_flatMap.1 hpart
  rcases Cell.mem_sides_part hpart hmem with ⟨a, b, hab, hhalf⟩ | ⟨p, q, hpq⟩
  · refine .inl ⟨(a, b), Mesh.mem_sides.2 ⟨cell, hcell, hab⟩, ?_⟩
    rw [firstHalf_eq, secondHalf_eq]
    rcases hhalf with hhalf | hhalf
    · cases hhalf
      exact .inl rfl
    · cases hhalf
      exact .inr rfl
  · cases hpq
    exact .inr ⟨cell, hcell, part, hpart, p, q, hmem, rfl⟩

theorem splitsSides {fine : Mesh α d s} (h : IsRefinement mid mesh fine)
    (hsides : ∀ cell ∈ mesh.cells, cell.sides.Nodup)
    (hrest : ∀ side ∈ fine.sides, mesh.IsHalf side ∨
      mesh.IsInner side ∧ fine.cellsWith side = 1 ∧ fine.cellsWith side.swap = 1) :
    SplitsSides mesh fine := by
  refine ⟨?_, ?_, hrest, ?_⟩
  · intro side
    rw [firstHalf_eq, h.cellsWith_first_half hsides]
  · intro side
    rw [secondHalf_eq, h.cellsWith_second_half hsides]
  · intro a b
    rw [number_numbering, number_numbering]
    exact h.cut a b

theorem isHalf_of_segment {mesh fine : Mesh α d .segment} (h : IsRefinement mid mesh fine)
    (hside : side ∈ fine.sides) : mesh.IsHalf side := by
  rcases h.isHalf_or_inner hside with hhalf | ⟨cell, -, part, hpart, p, q, hpq, -⟩
  · exact hhalf
  · exact absurd hpq (Cell.not_mem_sides_segment_part hpart p q)

variable {mesh fine : Mesh α d .triangle}

theorem cellsWith_inner (h : IsRefinement mid mesh fine) (hmesh : mesh.Simplicial)
    {cell : Cell Nat .triangle} (hcell : cell ∈ mesh.cells) {p q : Sym2 Nat} (hp : p ∈ cell.edges)
    (hq : q ∈ cell.edges) (hpq : p ≠ q) :
    fine.cellsWith (mesh.rank (.edge p), mesh.rank (.edge q)) = 1 := by
  have hcount : fine.cellsWith (mesh.rank (.edge p), mesh.rank (.edge q)) =
      mesh.cells.countP fun cell => p ∈ cell.edges ∧ q ∈ cell.edges ∧ p ≠ q := by
    rw [h.cellsWith_rank]
    apply countP_flatMap_eq
    exact fun cell hcell => Cell.countP_inner (Cell.nodup_edges (hmesh.distinct cell hcell)) p q
  rw [hcount]
  refine le_antisymm (hmesh.countP_edges_le hpq) (List.countP_pos_iff.2 ⟨cell, hcell, ?_⟩)
  simp [hp, hq, hpq]

theorem isInner_of_edges {cell : Cell Nat .triangle} (hcell : cell ∈ mesh.cells) {p q : Sym2 Nat}
    (hp : p ∈ cell.edges) (hq : q ∈ cell.edges) (hpq : p ≠ q) :
    mesh.IsInner (mesh.rank (.edge p), mesh.rank (.edge q)) := by
  obtain ⟨side, hside, rfl⟩ := List.mem_map.1 hp
  obtain ⟨side', hside', rfl⟩ := List.mem_map.1 hq
  refine ⟨cell, hcell, side, hside, side', hside', ?_, ?_⟩
  · rintro rfl
    exact hpq rfl
  · simp only [number_numbering, Label.origin]

theorem splitsSides_of_simplicial (h : IsRefinement mid mesh fine) (hmesh : mesh.Simplicial) :
    SplitsSides mesh fine := by
  have hedges : ∀ cell ∈ mesh.cells, cell.edges.Nodup :=
    fun cell hcell => Cell.nodup_edges (hmesh.distinct cell hcell)
  refine h.splitsSides (fun cell hcell => (hedges cell hcell).of_map) fun side hside => ?_
  rcases h.isHalf_or_inner hside with hhalf | ⟨cell, hcell, part, hpart, p, q, hmem, rfl⟩
  · exact .inl hhalf
  · have hpos : 0 < cell.parts.countP fun part => (.edge p, .edge q) ∈ part.sides :=
      List.countP_pos_iff.2 ⟨part, hpart, decide_eq_true hmem⟩
    rw [Cell.countP_inner (hedges cell hcell)] at hpos
    obtain ⟨hp, hq, hpq⟩ : p ∈ cell.edges ∧ q ∈ cell.edges ∧ p ≠ q := by
      by_contra hnot
      rw [if_neg hnot] at hpos
      exact absurd hpos (Nat.lt_irrefl 0)
    refine .inr ⟨isInner_of_edges hcell hp hq hpq, h.cellsWith_inner hmesh hcell hp hq hpq, ?_⟩
    exact h.cellsWith_inner hmesh hcell hq hp hpq.symm

end IsRefinement

end Mesh

end CurvedMesh
