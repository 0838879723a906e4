import CurvedMesh.Proofs.Soup

/-!
# Invariants of single vertices

A property of points that the midpoint of two points inherits from them holds for all vertices of a
refined mesh, if it holds for those that the cells refer to. The midpoint may also fail to exist:
the refinement then fails for the same reason.
-/

namespace CurvedMesh.Mesh

variable {α : Type} {d : Nat} {s : Shape}

/-- Every vertex that a cell refers to lies in `A`. -/
def ReferencedIn (A : Point α d → Prop) (mesh : Mesh α d s) : Prop :=
  ∀ i ∈ mesh.referenced, ∀ p ∈ mesh.vertices[i]?, A p

def VerticesIn (A : Point α d → Prop) (mesh : Mesh α d s) : Prop :=
  ∀ p ∈ mesh.vertices, A p

variable {A : Point α d → Prop} {E : Fault α → Prop} {mesh : Mesh α d s}

theorem VerticesIn.referencedIn (h : mesh.VerticesIn A) : mesh.ReferencedIn A := by
  intro i _ p hp
  exact h p (Array.mem_of_getElem? hp)

theorem ReferencedIn.of_mem_corners (h : mesh.ReferencedIn A) {cell : Cell Nat s}
    (hcell : cell ∈ mesh.cells) {t : Cell (Point α d) s}
    (ht : cell.points? mesh.vertices = some t) {p : Point α d} (hp : p ∈ t.corners) : A p := by
  have hmem : some p ∈ (t.map some).corners := by
    rw [Cell.corners_map]
    exact List.mem_map_of_mem hp
  rw [← Cell.points?_eq_some_iff.1 ht, Cell.corners_map] at hmem
  obtain ⟨i, hi, hvertex⟩ := List.mem_map.1 hmem
  exact h i (mem_referenced.2 ⟨cell, hcell, hi⟩) p hvertex

variable [Scalar α] {m : Manifold α d}

/-! ## One round -/

theorem ends_place (hvalid : mesh.Valid) (h : mesh.ReferencedIn A)
    (hmid : ∀ p q, A p → A q → Ends E (fun placement => A placement.point) (m.midpoint p q))
    {o : Origin} (ho : o ∈ mesh.origins) :
    Ends E (fun placement => A placement.point) (o.place m mesh.vertices) := by
  have hvertex {i : Nat} (hi : i ∈ mesh.referenced) : ∃ p, mesh.vertices[i]? = some p ∧ A p := by
    have hp := Array.getElem?_eq_getElem (lt_of_mem_referenced hvalid hi)
    exact ⟨_, hp, h i hi _ hp⟩
  cases o with
  | vertex i =>
    obtain ⟨p, hp, hA⟩ := hvertex (vertex_mem_origins.1 ho)
    rw [Origin.place_vertex hp]
    exact hA
  | edge ends =>
    have hends {i : Nat} (hi : i ∈ ends) : i ∈ mesh.referenced :=
      mem_referenced_of_mem_edges (edge_mem_origins.1 ho) hi
    obtain ⟨p, hp, hpA⟩ := hvertex (hends (Origin.inf_mem ends))
    obtain ⟨q, hq, hqA⟩ := hvertex (hends (Origin.sup_mem ends))
    rw [Origin.place_edge hp hq]
    exact hmid p q hpA hqA

theorem ends_refine (hvalid : mesh.Valid) (h : mesh.ReferencedIn A)
    (hmid : ∀ p q, A p → A q → Ends E (fun placement => A placement.point) (m.midpoint p q)) :
    Ends E (fun result => result.1.Valid ∧ result.1.VerticesIn A) (mesh.refine m) := by
  cases hrefine : mesh.refine m with
  | error fault =>
    rcases of_refine_eq_error hrefine with hcheck | ⟨o, ho, hfail⟩
    · rw [check_eq_ok_iff.2 hvalid] at hcheck
      cases hcheck
    · have hplace := ends_place hvalid h hmid ho
      rwa [hfail] at hplace
  | ok result =>
    obtain ⟨fine, round⟩ := result
    refine ⟨valid_of_refine hrefine, ?_⟩
    obtain ⟨-, placements, hplaced, rfl, -⟩ := refine_eq_ok_iff.1 hrefine
    intro p hp
    obtain ⟨placement, hin, rfl⟩ := Array.mem_map.1 hp
    have hok : Except.ok placement ∈ mesh.origins.eraseDups.map (Origin.place m mesh.vertices) :=
      hplaced ▸ List.mem_map_of_mem (Array.mem_toList_iff.2 hin)
    obtain ⟨o, ho, heq⟩ := List.mem_map.1 hok
    have hplace := ends_place hvalid h hmid (List.mem_eraseDups.1 ho)
    rwa [heq] at hplace

/-! ## Several rounds -/

theorem VerticesIn.ends_refineTimes
    (hmid : ∀ p q, A p → A q → Ends E (fun placement => A placement.point) (m.midpoint p q))
    (hvalid : mesh.Valid) (h : mesh.VerticesIn A) (n : Nat) :
    Ends E (fun result => result.1.Valid ∧ result.1.VerticesIn A) (mesh.refineTimes m n) := by
  induction n generalizing mesh with
  | zero => exact ⟨hvalid, h⟩
  | succ n ih =>
    rw [refineTimes]
    refine (ends_refine hvalid h.referencedIn hmid).bind ?_
    rintro ⟨next, round⟩ ⟨hnext, hvertices⟩
    refine (ih hnext hvertices).bind ?_
    rintro ⟨fine, rounds⟩ hfine
    exact hfine

/-- From the first round on, the vertices that no cell refers to are gone. -/
theorem ReferencedIn.ends_refineTimes
    (hmid : ∀ p q, A p → A q → Ends E (fun placement => A placement.point) (m.midpoint p q))
    (hvalid : mesh.Valid) (h : mesh.ReferencedIn A) {n : Nat} (hn : 1 ≤ n) :
    Ends E (fun result => result.1.Valid ∧ result.1.VerticesIn A) (mesh.refineTimes m n) := by
  obtain ⟨k, rfl⟩ := Nat.exists_eq_add_of_le' hn
  rw [refineTimes]
  refine (ends_refine hvalid h hmid).bind ?_
  rintro ⟨next, round⟩ ⟨hnext, hvertices⟩
  refine (hvertices.ends_refineTimes hmid hnext k).bind ?_
  rintro ⟨fine, rounds⟩ hfine
  exact hfine

end CurvedMesh.Mesh
