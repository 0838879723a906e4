import CurvedMesh.Proofs.CellInvariant

/-!
# Lineage

Which cells of a refined mesh a cell has become, round by round. They lie next to each other: after
`n` rounds the descendants of a cell are a block of as many cells as splitting `n` times makes, and
the blocks stand in the order of the cells. In the soup, the block of a cell is what the rounds make
of that cell alone.
-/

namespace CurvedMesh

variable {α : Type} {d : Nat} {s : Shape}

/-- The number of parts that a cell is split into. -/
def Shape.parts : Shape → Nat
  | segment => 2
  | triangle => 4

theorem Shape.parts_pos (s : Shape) : 0 < s.parts := by
  cases s <;> decide

theorem Cell.length_split {ι κ : Type} (corner : ι → κ) (midpoint : ι → ι → κ) (c : Cell ι s) :
    (c.split corner midpoint).length = s.parts := by
  cases c <;> rfl

theorem Cell.length_bisect (mid : Point α d → Point α d → Point α d) (c : Cell (Point α d) s) :
    (c.bisect mid).length = s.parts := by
  cases c <;> rfl

/-! ## Blocks of a list -/

section

variable {β γ : Type} {f : β → List γ} {b : Nat} {l : List β}

theorem length_flatMap_of_length (h : ∀ x ∈ l, (f x).length = b) :
    (l.flatMap f).length = b * l.length := by
  induction l with
  | nil => simp
  | cons x l ih =>
    rw [List.forall_mem_cons] at h
    rw [List.flatMap_cons, List.length_append, h.1, ih h.2, List.length_cons, Nat.mul_succ,
      Nat.add_comm]

theorem getElem?_flatMap_of_length (hb : 0 < b) (h : ∀ x ∈ l, (f x).length = b) (j : Nat) :
    (l.flatMap f)[j]? = l[j / b]?.bind fun x => (f x)[j % b]? := by
  induction l generalizing j with
  | nil => simp
  | cons x l ih =>
    rw [List.forall_mem_cons] at h
    rw [List.flatMap_cons, List.getElem?_append, h.1]
    split
    · rename_i hj
      rw [Nat.div_eq_of_lt hj, Nat.mod_eq_of_lt hj]
      rfl
    · rename_i hj
      have hle := Nat.le_of_not_lt hj
      rw [ih h.2, Nat.div_eq_sub_div hb hle, List.getElem?_cons_succ, Nat.mod_eq_sub_mod hle]

theorem take_drop_flatMap_of_length (h : ∀ x ∈ l, (f x).length = b) {i : Nat} {x : β}
    (hx : l[i]? = some x) : ((l.flatMap f).drop (i * b)).take b = f x := by
  induction l generalizing i with
  | nil => cases hx
  | cons y l ih =>
    rw [List.forall_mem_cons] at h
    rw [List.flatMap_cons]
    cases i with
    | zero =>
      cases hx
      rw [Nat.zero_mul, List.drop_zero, List.take_left' h.1]
    | succ i =>
      have hfirst : (f y ++ l.flatMap f).drop b = l.flatMap f := List.drop_left' h.1
      rw [Nat.succ_mul, Nat.add_comm, ← List.drop_drop, hfirst]
      exact ih h.2 hx

end

namespace Mesh

/-! ## Blocks of the soup -/

variable {mid : Point α d → Point α d → Point α d}

theorem length_iterate_subdivide (n : Nat) (soup : List (Cell (Point α d) s)) :
    ((subdivide mid)^[n] soup).length = s.parts ^ n * soup.length := by
  induction n generalizing soup with
  | zero => simp
  | succ n ih =>
    have hround : (subdivide mid soup).length = s.parts * soup.length :=
      length_flatMap_of_length fun t _ => t.length_bisect mid
    rw [Function.iterate_succ_apply, ih, hround, Nat.pow_succ, Nat.mul_assoc]

theorem take_drop_iterate_subdivide (n : Nat) {soup : List (Cell (Point α d) s)} {i : Nat}
    {t : Cell (Point α d) s} (ht : soup[i]? = some t) :
    (((subdivide mid)^[n] soup).drop (i * s.parts ^ n)).take (s.parts ^ n) =
      (subdivide mid)^[n] [t] := by
  rw [iterate_subdivide]
  refine take_drop_flatMap_of_length (fun t _ => ?_) ht
  rw [length_iterate_subdivide, List.length_singleton, Nat.mul_one]

/-! ## Parents -/

/-- The parts of all cells, each with the position of its cell. -/
def lineage (mesh : Mesh α d s) : List (Cell Label s × Nat) :=
  mesh.cells.zipIdx.flatMap fun entry =>
    (entry.1.split Label.vertex Label.midpoint).map fun part => (part, entry.2)

theorem map_fst_lineage (mesh : Mesh α d s) : mesh.lineage.map Prod.fst = mesh.children := by
  simp only [lineage, List.map_flatMap, List.map_map, Function.comp_def, List.map_id']
  conv_rhs => rw [children, ← List.zipIdx_map_fst 0 mesh.cells, List.flatMap_map]

/-- The cell at `j` of the refined mesh is a part of the cell at `i`. -/
def IsParent (mesh : Mesh α d s) (i j : Nat) : Prop :=
  ∃ part, mesh.lineage[j]? = some (part, i)

theorem isParent_iff {mesh : Mesh α d s} {i j : Nat} :
    mesh.IsParent i j ↔ i < mesh.cells.length ∧ j / s.parts = i := by
  have hsplit (entry : Cell Nat s × Nat) : ((entry.1.split Label.vertex Label.midpoint).map
      fun part => (part, entry.2)).length = s.parts := by
    rw [List.length_map, Cell.length_split]
  have hpart : mesh.lineage[j]? = mesh.cells[j / s.parts]?.bind fun c =>
      (c.split Label.vertex Label.midpoint)[j % s.parts]?.map fun part => (part, j / s.parts) := by
    rw [lineage, getElem?_flatMap_of_length s.parts_pos fun entry _ => hsplit entry,
      List.getElem?_zipIdx, Nat.zero_add, Option.bind_map]
    simp only [Function.comp_def, List.getElem?_map]
  unfold IsParent
  rw [hpart]
  constructor
  · rintro ⟨part, h⟩
    obtain ⟨c, hc, hmap⟩ := Option.bind_eq_some_iff.1 h
    obtain ⟨_, -, hentry⟩ := Option.map_eq_some_iff.1 hmap
    cases hentry
    exact ⟨(List.getElem?_eq_some_iff.1 hc).1, rfl⟩
  · rintro ⟨hi, rfl⟩
    have hlast : j % s.parts <
        (mesh.cells[j / s.parts].split Label.vertex Label.midpoint).length := by
      rw [Cell.length_split]
      exact Nat.mod_lt j s.parts_pos
    refine ⟨(mesh.cells[j / s.parts].split Label.vertex Label.midpoint)[j % s.parts], ?_⟩
    rw [List.getElem?_eq_getElem hi, Option.bind_some, List.getElem?_eq_getElem hlast,
      Option.map_some]

theorem length_children (mesh : Mesh α d s) :
    mesh.children.length = s.parts * mesh.cells.length :=
  length_flatMap_of_length fun c _ => c.length_split _ _

theorem length_parts (mesh : Mesh α d s) : mesh.parts.length = s.parts * mesh.cells.length := by
  rw [← map_children, List.length_map, length_children]

variable [Scalar α] {m : Manifold α d}

theorem length_refine {mesh fine : Mesh α d s} {round : Round α d}
    (h : mesh.refine m = .ok (fine, round)) :
    fine.cells.length = s.parts * mesh.cells.length := by
  obtain ⟨-, placements, -, rfl, -⟩ := refine_eq_ok_iff.1 h
  rw [List.length_map, length_parts]

/-! ## Descendants -/

/-- The cell at `k` after `n` rounds comes from the cell at `i`. -/
def Descends (m : Manifold α d) : Nat → Mesh α d s → Nat → Nat → Prop
  | 0, mesh, i, k => i < mesh.cells.length ∧ k = i
  | n + 1, mesh, i, k => ∃ next round j,
    mesh.refine m = .ok (next, round) ∧ mesh.IsParent i j ∧ Descends m n next j k

theorem descends_iff {mesh fine : Mesh α d s} {n : Nat} {rounds : List (Round α d)}
    (h : mesh.refineTimes m n = .ok (fine, rounds)) {i k : Nat} :
    Descends m n mesh i k ↔ i < mesh.cells.length ∧ k / s.parts ^ n = i := by
  induction n generalizing mesh rounds i with
  | zero => simp [Descends]
  | succ n ih =>
    obtain ⟨next, round, rest, hrefine, htimes, rfl⟩ := refineTimes_succ_eq_ok_iff.1 h
    have hlength := length_refine hrefine
    rw [Nat.pow_succ, ← Nat.div_div_eq_div_mul]
    constructor
    · rintro ⟨next', round', j, hrefine', hparent, hdescends⟩
      cases hrefine.symm.trans hrefine'
      obtain ⟨hi, rfl⟩ := isParent_iff.1 hparent
      obtain ⟨-, rfl⟩ := (ih htimes).1 hdescends
      exact ⟨hi, rfl⟩
    · rintro ⟨hi, rfl⟩
      have hparent : mesh.IsParent (k / s.parts ^ n / s.parts) (k / s.parts ^ n) :=
        isParent_iff.2 ⟨hi, rfl⟩
      refine ⟨next, round, k / s.parts ^ n, hrefine, hparent, (ih htimes).2 ⟨?_, rfl⟩⟩
      rw [hlength, Nat.mul_comm]
      exact (Nat.div_lt_iff_lt_mul s.parts_pos).1 hi

theorem descends_iff_block {mesh fine : Mesh α d s} {n : Nat} {rounds : List (Round α d)}
    (h : mesh.refineTimes m n = .ok (fine, rounds)) (i k : Nat) :
    Descends m n mesh i k ↔
      i < mesh.cells.length ∧ i * s.parts ^ n ≤ k ∧ k < (i + 1) * s.parts ^ n := by
  have hpos : 0 < s.parts ^ n := Nat.pow_pos s.parts_pos
  rw [descends_iff h, Nat.div_eq_iff hpos, Nat.succ_mul]
  omega

theorem length_refineTimes {mesh fine : Mesh α d s} {n : Nat} {rounds : List (Round α d)}
    (h : mesh.refineTimes m n = .ok (fine, rounds)) :
    fine.cells.length = s.parts ^ n * mesh.cells.length := by
  induction n generalizing mesh rounds with
  | zero =>
    cases h
    simp
  | succ n ih =>
    obtain ⟨next, round, rest, hrefine, htimes, rfl⟩ := refineTimes_succ_eq_ok_iff.1 h
    rw [ih htimes, length_refine hrefine, Nat.pow_succ, Nat.mul_assoc]

theorem exists_refineTimes_soup (hm : m.BisectsBy mid) (hsymm : ∀ p q, mid p q = mid q p)
    {mesh : Mesh α d s} {soup : List (Cell (Point α d) s)} (h : mesh.soup? = some soup) (n : Nat) :
    ∃ fine rounds, mesh.refineTimes m n = .ok (fine, rounds) ∧
      fine.soup? = some ((subdivide mid)^[n] soup) := by
  induction n generalizing mesh soup with
  | zero => exact ⟨mesh, [], rfl, h⟩
  | succ n ih =>
    obtain ⟨next, round, hrefine, hnext⟩ := exists_refine hm (valid_of_soup? h)
    obtain ⟨fine, rounds, htimes, hfine⟩ := ih (soup?_of_isRefinement hnext hsymm h)
    exact ⟨fine, round :: rounds,
      refineTimes_succ_eq_ok_iff.2 ⟨next, round, rounds, hrefine, htimes, rfl⟩, hfine⟩

end Mesh

end CurvedMesh
