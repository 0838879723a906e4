import CurvedMesh.Proofs.Soup

/-!
# Invariants of single cells

A property of a cell's corner points that its parts inherit holds for all cells after any number of
rounds. The midpoints need only be known for the sides of cells with the property.
-/

namespace CurvedMesh.Mesh

variable {α : Type} {d : Nat} {s : Shape}
variable {mesh : Mesh α d s} {soup : List (Cell (Point α d) s)}

/-! ## From the mesh to its soup -/

theorem exists_mem_soup (h : mesh.soup? = some soup) {cell : Cell Nat s}
    (hcell : cell ∈ mesh.cells) : ∃ t ∈ soup, cell.points? mesh.vertices = some t := by
  have hmem : cell.points? mesh.vertices ∈ mesh.cells.map (Cell.points? mesh.vertices) :=
    List.mem_map_of_mem hcell
  rw [mapM_eq_some_iff.1 h] at hmem
  obtain ⟨t, ht, heq⟩ := List.mem_map.1 hmem
  exact ⟨t, ht, heq.symm⟩

theorem exists_mem_cells (h : mesh.soup? = some soup) {t : Cell (Point α d) s} (ht : t ∈ soup) :
    ∃ cell ∈ mesh.cells, cell.points? mesh.vertices = some t := by
  have hmem : some t ∈ soup.map some := List.mem_map_of_mem ht
  rw [← mapM_eq_some_iff.1 h] at hmem
  exact List.mem_map.1 hmem

theorem forall_soup_iff (h : mesh.soup? = some soup) {P : Cell (Point α d) s → Prop} :
    (∀ t ∈ soup, P t) ↔
      ∀ cell ∈ mesh.cells, ∃ t, cell.points? mesh.vertices = some t ∧ P t := by
  constructor
  · intro hP cell hcell
    obtain ⟨t, ht, hpoints⟩ := exists_mem_soup h hcell
    exact ⟨t, hpoints, hP t ht⟩
  · intro hP t ht
    obtain ⟨cell, hcell, hpoints⟩ := exists_mem_cells h ht
    obtain ⟨t', hpoints', hP'⟩ := hP cell hcell
    rw [hpoints'] at hpoints
    cases hpoints
    exact hP'

theorem valid_of_soup? (h : mesh.soup? = some soup) : mesh.Valid := by
  intro cell hcell corner hcorner
  obtain ⟨t, -, hpoints⟩ := exists_mem_soup h hcell
  have hmem : mesh.vertices[corner]? ∈ (cell.map (mesh.vertices[·]?)).corners := by
    rw [Cell.corners_map]
    exact List.mem_map_of_mem hcorner
  rw [Cell.points?_eq_some_iff.1 hpoints, Cell.corners_map] at hmem
  obtain ⟨p, -, hp⟩ := List.mem_map.1 hmem
  exact (Array.getElem?_eq_some_iff.1 hp.symm).1

theorem exists_side_of_mem_edges (h : mesh.soup? = some soup) {ends : Sym2 Nat}
    (hends : ends ∈ mesh.edges) : ∃ t ∈ soup, ∃ p q, ((p, q) ∈ t.sides ∨ (q, p) ∈ t.sides) ∧
      mesh.vertices[ends.inf]? = some p ∧ mesh.vertices[ends.sup]? = some q := by
  obtain ⟨cell, hcell, hends⟩ := mem_edges.1 hends
  obtain ⟨⟨a, b⟩, hside, rfl⟩ := List.mem_map.1 hends
  obtain ⟨t, ht, hpoints⟩ := exists_mem_soup h hcell
  have hmem : (mesh.vertices[a]?, mesh.vertices[b]?) ∈ (cell.map (mesh.vertices[·]?)).sides := by
    rw [Cell.sides_map]
    exact List.mem_map.2 ⟨(a, b), hside, rfl⟩
  rw [Cell.points?_eq_some_iff.1 hpoints, Cell.sides_map] at hmem
  obtain ⟨⟨p, q⟩, hpq, heq⟩ := List.mem_map.1 hmem
  obtain ⟨hp, hq⟩ := Prod.mk.inj heq
  rw [Sym2.inf_mk, Sym2.sup_mk]
  rcases le_total a b with hle | hle
  · rw [inf_eq_left.2 hle, sup_eq_right.2 hle]
    exact ⟨t, ht, p, q, .inl hpq, hp.symm, hq.symm⟩
  · rw [inf_eq_right.2 hle, sup_eq_left.2 hle]
    exact ⟨t, ht, q, p, .inr hpq, hq.symm, hp.symm⟩

/-! ## Rounds -/

variable [Scalar α] {m : Manifold α d} {mid : Point α d → Point α d → Point α d}

theorem exists_refine_of_soup (hsymm : ∀ p q, mid p q = mid q p) (hsoup : mesh.soup? = some soup)
    (hmid : ∀ t ∈ soup, ∀ p q, (p, q) ∈ t.sides ∨ (q, p) ∈ t.sides →
      m.midpoint p q = .ok { point := mid p q }) :
    ∃ fine round, mesh.refine m = .ok (fine, round) ∧ fine.soup? = some (subdivide mid soup) ∧
      round.fallbacks = [] := by
  have hplace : ∀ o ∈ mesh.origins, ∃ p, o.place m mesh.vertices = .ok { point := p } ∧
      o.point? mid mesh.vertices = some p := by
    intro o ho
    cases o with
    | vertex i =>
      have hi := lt_of_mem_referenced (valid_of_soup? hsoup) (vertex_mem_origins.1 ho)
      have hp := Array.getElem?_eq_getElem hi
      exact ⟨_, Origin.place_vertex hp, hp⟩
    | edge ends =>
      obtain ⟨t, ht, p, q, hside, hp, hq⟩ := exists_side_of_mem_edges hsoup (edge_mem_origins.1 ho)
      refine ⟨mid p q, (Origin.place_edge hp hq).trans (hmid t ht p q hside), ?_⟩
      rw [Origin.point?, hp, hq]
      rfl
  have hround : ∃ fine round, mesh.refine m = .ok (fine, round) ∧ IsRefinement mid mesh fine := by
    apply exists_refine_of_place (valid_of_soup? hsoup)
    intro o ho
    obtain ⟨p, hok, hpoint⟩ := hplace o ho
    exact ⟨_, hok, hpoint⟩
  obtain ⟨fine, round, hrefine, hfine⟩ := hround
  refine ⟨fine, round, hrefine, soup?_of_isRefinement hfine hsymm hsoup, ?_⟩
  rw [List.eq_nil_iff_forall_not_mem]
  intro fallback hmem
  obtain ⟨o, ho, placement, hok, hfallback⟩ := exists_place_of_mem_fallbacks hrefine hmem
  obtain ⟨p, hp, -⟩ := hplace o ho
  rw [hp] at hok
  cases hok
  cases hfallback

theorem refineTimes_of_children {P : Cell (Point α d) s → Prop}
    (hsymm : ∀ p q, mid p q = mid q p)
    (hmid : ∀ t, P t → ∀ p q, (p, q) ∈ t.sides ∨ (q, p) ∈ t.sides →
      m.midpoint p q = .ok { point := mid p q })
    (hchildren : ∀ t, P t → ∀ t' ∈ t.bisect mid, P t')
    (hsoup : mesh.soup? = some soup) (h : ∀ t ∈ soup, P t) (n : Nat) :
    ∃ fine rounds soup', mesh.refineTimes m n = .ok (fine, rounds) ∧
      (∀ round ∈ rounds, round.fallbacks = []) ∧ fine.soup? = some soup' ∧ ∀ t ∈ soup', P t := by
  have step : ∀ (k : Nat) (coarse : Mesh α d s),
      (∃ soup, coarse.soup? = some soup ∧ ∀ t ∈ soup, P t) →
      ∃ fine round, coarse.refine m = .ok (fine, round) ∧
        (∃ soup, fine.soup? = some soup ∧ ∀ t ∈ soup, P t) ∧ round.fallbacks = [] := by
    rintro - coarse ⟨soup, hsoup, h⟩
    obtain ⟨fine, round, hrefine, hfine, hround⟩ :=
      exists_refine_of_soup hsymm hsoup fun t ht => hmid t (h t ht)
    have hparts : ∀ t' ∈ subdivide mid soup, P t' :=
      List.forall_mem_flatMap.2 fun t ht => hchildren t (h t ht)
    exact ⟨fine, round, hrefine, ⟨subdivide mid soup, hfine, hparts⟩, hround⟩
  obtain ⟨fine, rounds, htimes, ⟨soup', hfine, hsoup'⟩, hrounds⟩ :=
    refineTimes_of_step step n (k := 0) ⟨soup, hsoup, h⟩
  exact ⟨fine, rounds, soup', htimes, hrounds, hfine, hsoup'⟩

end CurvedMesh.Mesh
