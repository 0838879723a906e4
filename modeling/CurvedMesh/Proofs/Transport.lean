import CurvedMesh.Proofs.CellInvariant

/-!
# Refining the image of a mesh

A map may take the points of one space to those of another, with a manifold on either side. If it
takes the midpoints of sides to the midpoints of their images, then refining the image of a mesh
gives the image of the refined mesh, vertex by vertex and with the same connectivity.
-/

namespace CurvedMesh.Mesh

variable {α β : Type} {d e : Nat} {s : Shape} {g : Point α d → Point β e}

/-- The mesh with all vertices mapped and the same connectivity. -/
def map (g : Point α d → Point β e) (mesh : Mesh α d s) : Mesh β e s where
  vertices := mesh.vertices.map g
  cells := mesh.cells

theorem Valid.map {mesh : Mesh α d s} (h : mesh.Valid) (g : Point α d → Point β e) :
    (mesh.map g).Valid := by
  intro cell hcell corner hcorner
  rw [Mesh.map, Array.size_map]
  exact h cell hcell corner hcorner

variable [Scalar α] [Scalar β] {m : Manifold α d} {m' : Manifold β e} {mesh : Mesh α d s}

/-- The labels depend on the connectivity alone, so both meshes place the same ones. -/
theorem refine_map {fine : Mesh α d s} {round : Round α d}
    (hrefine : mesh.refine m = .ok (fine, round))
    (hplace : ∀ o ∈ mesh.origins, ∀ placement, o.place m mesh.vertices = .ok placement →
      o.place m' (mesh.vertices.map g) = .ok { point := g placement.point }) :
    ∃ round', (mesh.map g).refine m' = .ok (fine.map g, round') ∧ round'.fallbacks = [] := by
  obtain ⟨hvalid, placements, hplaced, rfl, -⟩ := refine_eq_ok_iff.1 hrefine
  have hplaced' := map_eq_map_of_ok
    (fun o ho placement hok => (hplace o (List.mem_eraseDups.1 ho) placement hok).symm) hplaced
  let placements' : Array (Placement β e) := placements.map fun pl => { point := g pl.point }
  refine ⟨_, refine_eq_ok_iff.2 ⟨hvalid.map g, placements', ?_, ?_, rfl⟩, ?_⟩
  · rw [Array.toList_map, List.map_map]
    exact hplaced'.symm
  · simp only [placements', map, Array.map_map]
    rfl
  · simp [placements']

/-! ## Midpoints of sides -/

variable {mid : Point α d → Point α d → Point α d} {soup : List (Cell (Point α d) s)}

theorem place_map (hsoup : mesh.soup? = some soup)
    (hmid : ∀ t ∈ soup, ∀ p q, (p, q) ∈ t.sides ∨ (q, p) ∈ t.sides →
      m.midpoint p q = .ok { point := mid p q } ∧
        m'.midpoint (g p) (g q) = .ok { point := g (mid p q) })
    {o : Origin} (ho : o ∈ mesh.origins) {placement : Placement α d}
    (hok : o.place m mesh.vertices = .ok placement) :
    o.place m' (mesh.vertices.map g) = .ok { point := g placement.point } := by
  have hvertex {i : Nat} {p : Point α d} (hp : mesh.vertices[i]? = some p) :
      (mesh.vertices.map g)[i]? = some (g p) := by
    rw [Array.getElem?_map, hp, Option.map_some]
  cases o with
  | vertex i =>
    have hi := lt_of_mem_referenced (valid_of_soup? hsoup) (vertex_mem_origins.1 ho)
    have hp := Array.getElem?_eq_getElem hi
    rw [Origin.place_vertex hp] at hok
    cases hok
    exact Origin.place_vertex (hvertex hp)
  | edge ends =>
    obtain ⟨t, ht, p, q, hside, hp, hq⟩ := exists_side_of_mem_edges hsoup (edge_mem_origins.1 ho)
    obtain ⟨hmidpoint, hmidpoint'⟩ := hmid t ht p q hside
    rw [Origin.place_edge hp hq, hmidpoint] at hok
    cases hok
    rw [← hmidpoint']
    exact Origin.place_edge (hvertex hp) (hvertex hq)

theorem exists_refineTimes_map {P : Cell (Point α d) s → Prop} (hsymm : ∀ p q, mid p q = mid q p)
    (hmid : ∀ t, P t → ∀ p q, (p, q) ∈ t.sides ∨ (q, p) ∈ t.sides →
      m.midpoint p q = .ok { point := mid p q } ∧
        m'.midpoint (g p) (g q) = .ok { point := g (mid p q) })
    (hchildren : ∀ t, P t → ∀ t' ∈ t.bisect mid, P t')
    (hsoup : mesh.soup? = some soup) (h : ∀ t ∈ soup, P t) (n : Nat) :
    ∃ fine rounds rounds', mesh.refineTimes m n = .ok (fine, rounds) ∧
      (mesh.map g).refineTimes m' n = .ok (fine.map g, rounds') ∧
      ∀ round ∈ rounds', round.fallbacks = [] := by
  induction n generalizing mesh soup with
  | zero => exact ⟨mesh, [], [], rfl, rfl, fun _ hround => absurd hround List.not_mem_nil⟩
  | succ n ih =>
    obtain ⟨next, round, hrefine, hnext, -⟩ :=
      exists_refine_of_soup hsymm hsoup fun t ht p q hside => (hmid t (h t ht) p q hside).1
    obtain ⟨round', hrefine', hround'⟩ := refine_map hrefine fun o ho placement hok =>
      place_map hsoup (fun t ht => hmid t (h t ht)) ho hok
    have hparts : ∀ t' ∈ subdivide mid soup, P t' :=
      List.forall_mem_flatMap.2 fun t ht => hchildren t (h t ht)
    obtain ⟨fine, rounds, rounds', htimes, htimes', hrounds'⟩ := ih hnext hparts
    exact ⟨fine, round :: rounds, round' :: rounds',
      refineTimes_succ_eq_ok_iff.2 ⟨next, round, rounds, hrefine, htimes, rfl⟩,
      refineTimes_succ_eq_ok_iff.2 ⟨next.map g, round', rounds', hrefine', htimes', rfl⟩,
      List.forall_mem_cons.2 ⟨hround', hrounds'⟩⟩

end CurvedMesh.Mesh
