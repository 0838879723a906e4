import CurvedMesh.Proofs.Round
import Mathlib.Data.Finset.Powerset

/-!
# How sides are split

`Mesh.cellsWith` counts the cells that run through a side. A round of refinement cuts every side in
two halves, each in as many cells as the side was. The other new sides lie inside a triangle and
join the midpoints of two of its edges.
-/

namespace CurvedMesh

variable {α : Type} {d : Nat} {s : Shape}

/-! ## One cell -/

namespace Cell

theorem nodup_sides_segment (c : Cell Nat .segment) : c.sides.Nodup := by
  cases c
  simp [sides]

theorem countP_first_half {c : Cell Nat s} (h : c.sides.Nodup) (a b : Nat) :
    c.parts.countP (fun part => (.vertex a, .edge s(a, b)) ∈ part.sides) =
      if (a, b) ∈ c.sides then 1 else 0 := by
  cases c with
  | segment x y =>
    simp [parts, split, sides, List.countP_cons]
    grind
  | triangle x y z =>
    simp [parts, split, sides, List.countP_cons] at h ⊢
    grind

theorem countP_second_half {c : Cell Nat s} (h : c.sides.Nodup) (a b : Nat) :
    c.parts.countP (fun part => (.edge s(a, b), .vertex b) ∈ part.sides) =
      if (a, b) ∈ c.sides then 1 else 0 := by
  cases c with
  | segment x y =>
    simp [parts, split, sides, List.countP_cons]
    grind
  | triangle x y z =>
    simp [parts, split, sides, List.countP_cons] at h ⊢
    grind

theorem countP_inner {c : Cell Nat .triangle} (h : c.edges.Nodup) (p q : Sym2 Nat) :
    c.parts.countP (fun part => (.edge p, .edge q) ∈ part.sides) =
      if p ∈ c.edges ∧ q ∈ c.edges ∧ p ≠ q then 1 else 0 := by
  cases c with
  | triangle x y z =>
    simp [parts, split, sides, edges, List.countP_cons] at h ⊢
    grind

theorem mem_sides_part {c : Cell Nat s} {part : Cell Origin s} (hpart : part ∈ c.parts)
    {side : Origin × Origin} (hside : side ∈ part.sides) :
    (∃ a b, (a, b) ∈ c.sides ∧
        (side = (.vertex a, .edge s(a, b)) ∨ side = (.edge s(a, b), .vertex b))) ∨
      ∃ p q, side = (.edge p, .edge q) := by
  cases c with
  | segment x y =>
    simp only [parts, split, List.mem_cons, List.not_mem_nil, or_false] at hpart
    rcases hpart with rfl | rfl <;> simp [sides] at hside ⊢ <;> grind
  | triangle x y z =>
    simp only [parts, split, List.mem_cons, List.not_mem_nil, or_false] at hpart
    rcases hpart with rfl | rfl | rfl | rfl <;> simp [sides] at hside ⊢ <;> grind

theorem not_mem_sides_segment_part {c : Cell Nat .segment} {part : Cell Origin .segment}
    (hpart : part ∈ c.parts) (p q : Sym2 Nat) : (.edge p, .edge q) ∉ part.sides := by
  cases c with
  | segment x y =>
    simp only [parts, split, List.mem_cons, List.not_mem_nil, or_false] at hpart
    rcases hpart with rfl | rfl <;> simp [sides]

end Cell

/-! ## All cells -/

theorem countP_flatMap_eq {β γ : Type} {l : List β} {f : β → List γ} {p : β → Prop}
    [DecidablePred p] {q : γ → Bool} (h : ∀ b ∈ l, (f b).countP q = if p b then 1 else 0) :
    (l.flatMap f).countP q = l.countP fun b => p b := by
  induction l with
  | nil => rfl
  | cons b l ih =>
    have tail := ih fun b' hb' => h b' (List.mem_cons_of_mem b hb')
    rw [List.flatMap_cons, List.countP_append, List.countP_cons, h b List.mem_cons_self, tail]
    simp only [decide_eq_true_eq]
    omega

theorem countP_eq_add {β : Type} {l : List β} {p q r : β → Bool} (hor : ∀ b ∈ l, p b = (q b || r b))
    (hnot : ∀ b ∈ l, q b = true → r b = false) : l.countP p = l.countP q + l.countP r := by
  induction l with
  | nil => rfl
  | cons b l ih =>
    have tail := ih (fun b' hb' => hor b' (List.mem_cons_of_mem b hb')) fun b' hb' =>
      hnot b' (List.mem_cons_of_mem b hb')
    have head := hnot b List.mem_cons_self
    rw [List.countP_cons, List.countP_cons, List.countP_cons, tail, hor b List.mem_cons_self]
    cases hq : q b with
    | false =>
      simp only [Bool.false_or, Bool.false_eq_true, if_false]
      omega
    | true =>
      simp only [head hq, Bool.or_false, Bool.false_eq_true, if_true, if_false]
      omega

namespace Mesh

/-- How many cells have this side, in this direction. -/
def cellsWith (mesh : Mesh α d s) (side : Nat × Nat) : Nat :=
  mesh.cells.countP fun cell => side ∈ cell.sides

theorem cellsWith_pos {mesh : Mesh α d s} {side : Nat × Nat} :
    0 < mesh.cellsWith side ↔ side ∈ mesh.sides := by
  simp [cellsWith, List.countP_pos_iff, mem_sides]

namespace IsRefinement

variable {mid : Point α d → Point α d → Point α d} {mesh fine : Mesh α d s}

theorem countP_cells (h : IsRefinement mid mesh fine) {p : Cell Nat s → Bool}
    {q : Cell Origin s → Bool} (hpq : ∀ part ∈ mesh.parts, p (part.map mesh.rank) ↔ q part) :
    fine.cells.countP p = mesh.parts.countP q := by
  rw [h.cells, List.countP_map]
  exact List.countP_congr hpq

theorem cellsWith_rank (h : IsRefinement mid mesh fine) (o o' : Origin) :
    fine.cellsWith (mesh.rank o, mesh.rank o') =
      mesh.parts.countP fun part => (o, o') ∈ part.sides := by
  apply h.countP_cells
  intro part hpart
  simp only [decide_eq_true_eq, Cell.sides_map, List.mem_map]
  constructor
  · rintro ⟨side, hside, hrank⟩
    obtain ⟨hfst, hsnd⟩ := Prod.mk.inj hrank
    have ho := mem_origins_of_mem_parts hpart (Cell.fst_mem_corners hside)
    have ho' := mem_origins_of_mem_parts hpart (Cell.snd_mem_corners hside)
    rw [rank_inj ho] at hfst
    rw [rank_inj ho'] at hsnd
    rwa [← hfst, ← hsnd]
  · exact fun hside => ⟨(o, o'), hside, rfl⟩

theorem cellsWith_first_half (h : IsRefinement mid mesh fine)
    (hsides : ∀ cell ∈ mesh.cells, cell.sides.Nodup) (a b : Nat) :
    fine.cellsWith (mesh.rank (.vertex a), mesh.rank (.edge s(a, b))) =
      mesh.cellsWith (a, b) := by
  rw [h.cellsWith_rank]
  exact countP_flatMap_eq fun cell hcell => Cell.countP_first_half (hsides cell hcell) a b

theorem cellsWith_second_half (h : IsRefinement mid mesh fine)
    (hsides : ∀ cell ∈ mesh.cells, cell.sides.Nodup) (a b : Nat) :
    fine.cellsWith (mesh.rank (.edge s(a, b)), mesh.rank (.vertex b)) =
      mesh.cellsWith (a, b) := by
  rw [h.cellsWith_rank]
  exact countP_flatMap_eq fun cell hcell => Cell.countP_second_half (hsides cell hcell) a b

theorem mem_sides (h : IsRefinement mid mesh fine) {side : Nat × Nat} (hside : side ∈ fine.sides) :
    ∃ part ∈ mesh.parts, ∃ o o', (o, o') ∈ part.sides ∧ side = (mesh.rank o, mesh.rank o') := by
  obtain ⟨cell, hcell, hmem⟩ := Mesh.mem_sides.1 hside
  rw [h.cells] at hcell
  obtain ⟨part, hpart, rfl⟩ := List.mem_map.1 hcell
  rw [Cell.sides_map] at hmem
  obtain ⟨⟨o, o'⟩, hoo, rfl⟩ := List.mem_map.1 hmem
  exact ⟨part, hpart, o, o', hoo, rfl⟩

end IsRefinement

end Mesh

end CurvedMesh
