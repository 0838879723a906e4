import CurvedMesh.Proofs.Halves

/-!
# The boundary of a mesh

What follows from `SplitsSides` for the mesh as a whole. Sides inside an old cell come with their
reverses, so only the halves matter for the boundary.
-/

namespace CurvedMesh

variable {α : Type} {d : Nat} {s : Shape}

namespace Mesh

/-- Every side is met as often as its reverse. -/
def Closed (mesh : Mesh α d s) : Prop :=
  ∀ side, mesh.cellsWith side = mesh.cellsWith side.swap

/-- The sides whose reverse is in no cell. -/
def unmatched (mesh : Mesh α d s) : Finset (Nat × Nat) :=
  mesh.sides.filter fun side => side.swap ∉ mesh.sides

def cellsAt (mesh : Mesh α d s) (ends : Sym2 Nat) : Nat :=
  mesh.cells.countP fun cell => ends ∈ cell.edges

/-- The edges of one cell only. -/
def boundary (mesh : Mesh α d s) : Finset (Sym2 Nat) :=
  mesh.edges.filter fun ends => mesh.cellsAt ends = 1

/-! ## Halves only -/

namespace SplitsSides

variable {mesh fine : Mesh α d s}

theorem cellsWith_le_one (h : SplitsSides mesh fine) (hmesh : ∀ side, mesh.cellsWith side ≤ 1)
    (side : Nat × Nat) : fine.cellsWith side ≤ 1 := by
  by_cases hside : side ∈ fine.sides
  · rcases h.rest side hside with ⟨old, -, rfl | rfl⟩ | ⟨-, hone, -⟩
    · rw [h.first_half]
      exact hmesh old
    · rw [h.second_half]
      exact hmesh old
    · omega
  · have := mt cellsWith_pos.1 hside
    omega

theorem closed (h : SplitsSides mesh fine) (hmesh : mesh.Closed) : fine.Closed := by
  have hin : ∀ side ∈ fine.sides, fine.cellsWith side = fine.cellsWith side.swap := by
    intro side hside
    rcases h.rest side hside with ⟨old, -, rfl | rfl⟩ | ⟨-, hone, hswap⟩
    · rw [swap_firstHalf, h.first_half, h.second_half]
      exact hmesh old
    · rw [swap_secondHalf, h.first_half, h.second_half]
      exact hmesh old
    · omega
  intro side
  by_cases hside : side ∈ fine.sides
  · exact hin side hside
  · by_cases hswap : side.swap ∈ fine.sides
    · have := hin side.swap hswap
      rw [Prod.swap_swap] at this
      exact this.symm
    · have hzero := mt cellsWith_pos.1 hside
      have hzero' := mt cellsWith_pos.1 hswap
      omega

theorem filter_sides_eq (h : SplitsSides mesh fine) {P : Nat → Nat → Prop} [DecidableRel P]
    (hone : ¬ P 1 1) :
    (fine.sides.filter fun side => P (fine.cellsWith side) (fine.cellsWith side.swap)) =
      (mesh.sides.filter fun side =>
          P (mesh.cellsWith side) (mesh.cellsWith side.swap)).image mesh.firstHalf ∪
        (mesh.sides.filter fun side =>
          P (mesh.cellsWith side) (mesh.cellsWith side.swap)).image mesh.secondHalf := by
  ext side
  rw [Finset.mem_filter, Finset.mem_union, Finset.mem_image, Finset.mem_image]
  constructor
  · rintro ⟨hside, hP⟩
    rcases h.rest side hside with ⟨o, ho, rfl | rfl⟩ | ⟨-, hside, hswap⟩
    · rw [swap_firstHalf, h.first_half, h.second_half] at hP
      exact .inl ⟨o, Finset.mem_filter.2 ⟨ho, hP⟩, rfl⟩
    · rw [swap_secondHalf, h.first_half, h.second_half] at hP
      exact .inr ⟨o, Finset.mem_filter.2 ⟨ho, hP⟩, rfl⟩
    · rw [hside, hswap] at hP
      exact absurd hP hone
  · rintro (⟨o, ho, rfl⟩ | ⟨o, ho, rfl⟩)
    · obtain ⟨hmem, hP⟩ := Finset.mem_filter.1 ho
      rw [← cellsWith_pos, swap_firstHalf, h.first_half, h.second_half]
      exact ⟨cellsWith_pos.2 hmem, hP⟩
    · obtain ⟨hmem, hP⟩ := Finset.mem_filter.1 ho
      rw [← cellsWith_pos, swap_secondHalf, h.first_half, h.second_half]
      exact ⟨cellsWith_pos.2 hmem, hP⟩

/-- How many sides are met `k` times and backwards `l` times doubles, unless both are one. -/
theorem card_filter_sides (h : SplitsSides mesh fine) {P : Nat → Nat → Prop} [DecidableRel P]
    (hone : ¬ P 1 1) :
    (fine.sides.filter fun side => P (fine.cellsWith side) (fine.cellsWith side.swap)).card =
      2 * (mesh.sides.filter fun side =>
        P (mesh.cellsWith side) (mesh.cellsWith side.swap)).card := by
  rw [h.filter_sides_eq hone]
  apply card_halves
  exact fun side hside => (Finset.mem_filter.1 hside).1

theorem card_unmatched (h : SplitsSides mesh fine) :
    fine.unmatched.card = 2 * mesh.unmatched.card := by
  have hunmatched (mesh : Mesh α d s) : mesh.unmatched =
      mesh.sides.filter fun side => mesh.cellsWith side.swap = 0 := by
    refine Finset.filter_congr fun side _ => ?_
    rw [← cellsWith_pos]
    omega
  rw [hunmatched, hunmatched]
  apply h.card_filter_sides (P := fun _ l => l = 0)
  exact one_ne_zero

end SplitsSides

end Mesh

/-! ## Edges of one cell -/

namespace Cell

theorem mem_edges_iff {c : Cell Nat s} {a b : Nat} :
    s(a, b) ∈ c.edges ↔ (a, b) ∈ c.sides ∨ (b, a) ∈ c.sides := by
  cases c <;> simp [edges, sides] <;> grind

theorem swap_not_mem_sides {c : Cell Nat .triangle} (h : c.corners.Nodup) {a b : Nat}
    (hab : (a, b) ∈ c.sides) : (b, a) ∉ c.sides := by
  cases c
  simp [sides, corners] at h hab ⊢
  grind

end Cell

namespace Mesh.Simplicial

variable {mesh : Mesh α d .triangle}

theorem cellsAt_eq (h : mesh.Simplicial) (a b : Nat) :
    mesh.cellsAt s(a, b) = mesh.cellsWith (a, b) + mesh.cellsWith (b, a) := by
  unfold cellsAt cellsWith
  apply countP_eq_add
  · intro cell _
    simp only [Cell.mem_edges_iff, Bool.decide_or]
  · intro cell hcell hab
    have := Cell.swap_not_mem_sides (h.distinct cell hcell) (of_decide_eq_true hab)
    exact decide_eq_false this

theorem card_boundary (h : mesh.Simplicial) : mesh.boundary.card =
    (mesh.sides.filter fun side => mesh.cellsWith side + mesh.cellsWith side.swap = 1).card := by
  have himage : mesh.boundary = (mesh.sides.filter fun side =>
      mesh.cellsWith side + mesh.cellsWith side.swap = 1).image fun side => s(side.1, side.2) := by
    ext ends
    unfold boundary
    rw [Finset.mem_filter, Finset.mem_image, mem_edges]
    constructor
    · rintro ⟨⟨cell, hcell, hends⟩, hone⟩
      obtain ⟨side, hside, rfl⟩ := List.mem_map.1 hends
      rw [h.cellsAt_eq] at hone
      exact ⟨side, Finset.mem_filter.2 ⟨mem_sides.2 ⟨cell, hcell, hside⟩, hone⟩, rfl⟩
    · rintro ⟨side, hside, rfl⟩
      obtain ⟨hmem, hone⟩ := Finset.mem_filter.1 hside
      obtain ⟨cell, hcell, hside⟩ := mem_sides.1 hmem
      refine ⟨⟨cell, hcell, List.mem_map_of_mem hside⟩, ?_⟩
      rwa [h.cellsAt_eq]
  rw [himage]
  apply Finset.card_image_of_injOn
  intro side hside side' hside' heq
  obtain ⟨hmem, hone⟩ := Finset.mem_filter.1 hside
  obtain ⟨hmem', -⟩ := Finset.mem_filter.1 hside'
  rw [← cellsWith_pos] at hmem hmem'
  rcases Sym2.eq_iff.1 heq with ⟨hfst, hsnd⟩ | ⟨hfst, hsnd⟩
  · exact Prod.ext hfst hsnd
  -- an edge met in both directions lies in two cells
  · have hswap : side' = side.swap := Prod.ext hsnd.symm hfst.symm
    rw [hswap] at hmem'
    omega

end Mesh.Simplicial

end CurvedMesh
