import CurvedMesh.Proofs.Lineage
import CurvedMesh.Proofs.VertexNumbers
import Mathlib.Data.Set.Function
import Mathlib.Tactic.IntervalCases

/-!
# Other numbers for the same mesh

Two meshes can hold the same cells in another order and under other vertex numbers. Refinement
follows both orders, so the new numbers differ again, and an edge may be bisected from its other end.
Still the refined meshes are the same up to numbers: a new vertex of one is matched with the new
vertex of the other that stands for the same origin.
-/

namespace CurvedMesh

variable {α : Type} {d : Nat} {s : Shape}

/-! ## Blocks -/

/-- Where entry `k` goes if the entries form blocks of `b`, and `place` says where each block goes. -/
def inBlocks (b : Nat) (place : Nat → Nat) (k : Nat) : Nat :=
  place (k / b) * b + k % b

section

variable {b : Nat} {place : Nat → Nat}

theorem inBlocks_div (hb : 0 < b) (k : Nat) : inBlocks b place k / b = place (k / b) := by
  rw [inBlocks, Nat.mul_comm, Nat.mul_add_div hb, Nat.div_eq_of_lt (Nat.mod_lt k hb), Nat.add_zero]

theorem inBlocks_mod (k : Nat) : inBlocks b place k % b = k % b := by
  rw [inBlocks, Nat.mul_comm, Nat.mul_add_mod, Nat.mod_mod]

theorem inBlocks_inBlocks (b c : Nat) (place : Nat → Nat) :
    inBlocks c (inBlocks b place) = inBlocks (b * c) place := by
  funext k
  have hmod : k % (b * c) = k % c + c * (k / c % b) := by
    rw [Nat.mul_comm, Nat.mod_mul]
  rw [inBlocks, inBlocks, inBlocks, hmod, Nat.div_div_eq_div_mul, Nat.mul_comm c b]
  ring

theorem bijOn_inBlocks (hb : 0 < b) {m n : Nat}
    (h : Set.BijOn place (Set.Iio m) (Set.Iio n)) :
    Set.BijOn (inBlocks b place) (Set.Iio (b * m)) (Set.Iio (b * n)) := by
  have hblock {k l : Nat} : k < b * l ↔ k / b < l := by
    rw [Nat.div_lt_iff_lt_mul hb, Nat.mul_comm]
  refine ⟨fun k hk => ?_, fun k hk l hl heq => ?_, fun l hl => ?_⟩
  · rw [Set.mem_Iio, hblock, inBlocks_div hb]
    exact h.mapsTo (hblock.1 hk)
  · have hdiv := congrArg (· / b) heq
    have hmod := congrArg (· % b) heq
    simp only [inBlocks_div hb, inBlocks_mod] at hdiv hmod
    rw [← Nat.div_add_mod k b, ← Nat.div_add_mod l b, hmod,
      h.injOn (hblock.1 hk) (hblock.1 hl) hdiv]
  · obtain ⟨j, hj, hplace⟩ := h.surjOn (hblock.1 hl)
    have hlast := Nat.mod_lt l hb
    have hquot : (j * b + l % b) / b = j := by
      rw [Nat.mul_comm, Nat.mul_add_div hb, Nat.div_eq_of_lt hlast, Nat.add_zero]
    have hrem : (j * b + l % b) % b = l % b := by
      rw [Nat.mul_comm, Nat.mul_add_mod, Nat.mod_mod]
    refine ⟨j * b + l % b, ?_, ?_⟩
    · rw [Set.mem_Iio, hblock, hquot]
      exact hj
    · rw [inBlocks, hquot, hrem, hplace, Nat.mul_comm, Nat.div_add_mod]

end

/-! ## Origins under other numbers -/

namespace Origin

def map (number : Nat → Nat) : Origin → Origin
  | .vertex i => .vertex (number i)
  | .edge ends => .edge (ends.map number)

end Origin

theorem Cell.parts_map (number : Nat → Nat) (c : Cell Nat s) :
    (c.map number).parts = c.parts.map (Cell.map (Origin.map number)) := by
  cases c <;> rfl

namespace Mesh

/-- The cells of `other` are those of `mesh`: the one at `k` stands at `place k`, and what is vertex
`i` has the number `number i`. Vertices that no cell refers to do not count. -/
structure Renumbers (number place : Nat → Nat) (mesh other : Mesh α d s) : Prop where
  places : Set.BijOn place (Set.Iio mesh.cells.length) (Set.Iio other.cells.length)
  cells : ∀ k < mesh.cells.length, other.cells[place k]? = mesh.cells[k]?.map (Cell.map number)
  numbers : Set.InjOn number mesh.referenced
  vertices : ∀ i ∈ mesh.referenced, other.vertices[number i]? = mesh.vertices[i]?

/-- The meshes are the same up to the order of their cells and the numbers of their vertices. -/
structure Isomorphic (number place : Nat → Nat) (mesh other : Mesh α d s) : Prop where
  places : Set.BijOn place (Set.Iio mesh.cells.length) (Set.Iio other.cells.length)
  cells : ∀ k < mesh.cells.length, other.cells[place k]? = mesh.cells[k]?.map (Cell.map number)
  numbers : Set.BijOn number (Set.Iio mesh.vertices.size) (Set.Iio other.vertices.size)
  vertices : ∀ i < mesh.vertices.size, other.vertices[number i]? = mesh.vertices[i]?

variable {number place : Nat → Nat} {mesh other fine fine' : Mesh α d s}
variable {mid : Point α d → Point α d → Point α d}

theorem Isomorphic.renumbers (h : Isomorphic number place mesh other) (hvalid : mesh.Valid) :
    Renumbers number place mesh other := by
  have hsub : (mesh.referenced : Set Nat) ⊆ Set.Iio mesh.vertices.size :=
    fun i hi => lt_of_mem_referenced hvalid hi
  exact ⟨h.places, h.cells, h.numbers.injOn.mono hsub, fun i hi => h.vertices i (hsub hi)⟩

namespace Renumbers

theorem mem_cells (h : Renumbers number place mesh other) {cell : Cell Nat s} :
    cell ∈ other.cells ↔ ∃ old ∈ mesh.cells, old.map number = cell := by
  constructor
  · intro hcell
    obtain ⟨l, hl⟩ := List.getElem?_of_mem hcell
    obtain ⟨k, hk, rfl⟩ := h.places.surjOn (List.getElem?_eq_some_iff.1 hl).1
    rw [h.cells k hk] at hl
    obtain ⟨old, hold, hmap⟩ := Option.map_eq_some_iff.1 hl
    exact ⟨old, List.mem_of_getElem? hold, hmap⟩
  · rintro ⟨old, hold, rfl⟩
    obtain ⟨k, hk⟩ := List.getElem?_of_mem hold
    have hother := h.cells k (List.getElem?_eq_some_iff.1 hk).1
    rw [hk] at hother
    exact List.mem_of_getElem? hother

theorem valid (h : Renumbers number place mesh other) (hvalid : mesh.Valid) : other.Valid := by
  intro cell hcell corner hcorner
  obtain ⟨old, hold, rfl⟩ := h.mem_cells.1 hcell
  rw [Cell.corners_map] at hcorner
  obtain ⟨i, hi, rfl⟩ := List.mem_map.1 hcorner
  have hvertex := h.vertices i (mem_referenced.2 ⟨old, hold, hi⟩)
  rw [Array.getElem?_eq_getElem (hvalid old hold i hi)] at hvertex
  exact (Array.getElem?_eq_some_iff.1 hvertex).1

theorem mem_origins (h : Renumbers number place mesh other) {o : Origin} :
    o ∈ other.origins ↔ ∃ old ∈ mesh.origins, old.map number = o := by
  simp only [origins_eq, parts, List.flatMap_assoc, List.mem_flatMap, h.mem_cells]
  constructor
  · rintro ⟨_, ⟨c, hc, rfl⟩, part, hpart, ho⟩
    rw [Cell.parts_map] at hpart
    obtain ⟨part', hpart', rfl⟩ := List.mem_map.1 hpart
    rw [Cell.corners_map] at ho
    obtain ⟨o', ho', rfl⟩ := List.mem_map.1 ho
    exact ⟨o', ⟨c, hc, part', hpart', ho'⟩, rfl⟩
  · rintro ⟨o', ⟨c, hc, part, hpart, ho'⟩, rfl⟩
    refine ⟨c.map number, ⟨c, hc, rfl⟩, part.map (Origin.map number), ?_, ?_⟩
    · rw [Cell.parts_map]
      exact List.mem_map_of_mem hpart
    · rw [Cell.corners_map]
      exact List.mem_map_of_mem ho'

theorem map_origin_injOn (h : Renumbers number place mesh other) {o o' : Origin}
    (ho : o ∈ mesh.origins) (ho' : o' ∈ mesh.origins) (heq : o.map number = o'.map number) :
    o = o' := by
  have hends {ends : Sym2 Nat} (hmem : .edge ends ∈ mesh.origins) {i : Nat} (hi : i ∈ ends) :
      i ∈ mesh.referenced :=
    mem_referenced_of_mem_edges (edge_mem_origins.1 hmem) hi
  cases o with
  | vertex i =>
    cases o' with
    | vertex j =>
      rw [h.numbers (vertex_mem_origins.1 ho) (vertex_mem_origins.1 ho') (Origin.vertex.inj heq)]
    | edge ends => cases heq
  | edge ends =>
    cases o' with
    | vertex j => cases heq
    | edge ends' =>
      have hmap := Origin.edge.inj heq
      induction ends with | _ a b
      induction ends' with | _ a' b'
      have ha := hends ho (Sym2.mem_mk_left a b)
      have hb := hends ho (Sym2.mem_mk_right a b)
      have ha' := hends ho' (Sym2.mem_mk_left a' b')
      have hb' := hends ho' (Sym2.mem_mk_right a' b')
      rw [Sym2.map_mk, Sym2.map_mk, Sym2.eq_iff, h.numbers.eq_iff ha ha', h.numbers.eq_iff hb hb',
        h.numbers.eq_iff ha hb', h.numbers.eq_iff hb ha'] at hmap
      rw [Sym2.eq_iff.2 hmap]

end Renumbers

/-! ## One round -/

/-- The number in the other refined mesh of what has the number `k` in this one. -/
def newNumber (number : Nat → Nat) (mesh other : Mesh α d s) (k : Nat) : Nat :=
  other.rank ((mesh.origins.eraseDups.getD k (.vertex 0)).map number)

theorem newNumber_rank {o : Origin} (ho : o ∈ mesh.origins) :
    newNumber number mesh other (mesh.rank o) = other.rank (o.map number) := by
  rw [newNumber, List.getD_eq_getElem?_getD, getElem?_rank ho, Option.getD_some]

theorem getElem?_parts (mesh : Mesh α d s) (k : Nat) :
    mesh.parts[k]? = mesh.cells[k / s.parts]?.bind fun c => c.parts[k % s.parts]? :=
  getElem?_flatMap_of_length s.parts_pos (fun c _ => c.length_split _ _) k

namespace Renumbers

theorem getElem?_parts_inBlocks (h : Renumbers number place mesh other) {k : Nat}
    (hk : k < mesh.parts.length) : other.parts[inBlocks s.parts place k]? =
      mesh.parts[k]?.map (Cell.map (Origin.map number)) := by
  rw [length_parts, Nat.mul_comm] at hk
  rw [getElem?_parts, getElem?_parts, inBlocks_div s.parts_pos, inBlocks_mod,
    h.cells _ ((Nat.div_lt_iff_lt_mul s.parts_pos).2 hk), Option.bind_map, Option.map_bind]
  simp only [Function.comp_def, Cell.parts_map, List.getElem?_map]

theorem bijOn_newNumber (h : Renumbers number place mesh other) :
    Set.BijOn (newNumber number mesh other) (Set.Iio mesh.origins.eraseDups.length)
      (Set.Iio other.origins.eraseDups.length) := by
  refine ⟨fun k hk => ?_, fun k hk l hl heq => ?_, fun l hl => ?_⟩
  · obtain ⟨o, ho, rfl⟩ := exists_rank_eq hk
    rw [newNumber_rank ho]
    exact rank_lt (h.mem_origins.2 ⟨o, ho, rfl⟩)
  · obtain ⟨o, ho, rfl⟩ := exists_rank_eq hk
    obtain ⟨o', ho', rfl⟩ := exists_rank_eq hl
    rw [newNumber_rank ho, newNumber_rank ho', rank_inj (h.mem_origins.2 ⟨o, ho, rfl⟩)] at heq
    rw [h.map_origin_injOn ho ho' heq]
  · obtain ⟨o', ho', rfl⟩ := exists_rank_eq hl
    obtain ⟨o, ho, rfl⟩ := h.mem_origins.1 ho'
    exact ⟨mesh.rank o, rank_lt ho, newNumber_rank ho⟩

/-- Matching the vertices that stand for the same origins, if edges are bisected alike. -/
theorem isomorphic (h : Renumbers number place mesh other)
    (hedges : ∀ ends ∈ mesh.edges, (Origin.edge (ends.map number)).point? mid other.vertices =
      (Origin.edge ends).point? mid mesh.vertices)
    (hfine : IsRefinement mid mesh fine) (hfine' : IsRefinement mid other fine') :
    Isomorphic (newNumber number mesh other) (inBlocks s.parts place) fine fine' := by
  have hpoint : ∀ o ∈ mesh.origins,
      (o.map number).point? mid other.vertices = o.point? mid mesh.vertices := by
    intro o ho
    cases o with
    | vertex i => exact h.vertices i (vertex_mem_origins.1 ho)
    | edge ends => exact hedges ends (edge_mem_origins.1 ho)
  refine ⟨?_, fun k hk => ?_, ?_, fun k hk => ?_⟩
  · rw [hfine.cells, hfine'.cells, List.length_map, List.length_map, length_parts, length_parts]
    exact bijOn_inBlocks s.parts_pos h.places
  · rw [hfine.cells, List.length_map] at hk
    rw [hfine.cells, hfine'.cells, List.getElem?_map, List.getElem?_map,
      h.getElem?_parts_inBlocks hk, Option.map_map, Option.map_map]
    refine Option.map_congr fun part hpart => ?_
    simp only [Function.comp_apply, Cell.map_map]
    refine Cell.map_congr fun o ho => (newNumber_rank ?_).symm
    exact mem_origins_of_mem_parts (List.mem_of_getElem? hpart) ho
  · rw [hfine.size_vertices, hfine'.size_vertices]
    exact h.bijOn_newNumber
  · rw [hfine.size_vertices] at hk
    obtain ⟨o, ho, rfl⟩ := exists_rank_eq hk
    rw [newNumber_rank ho, hfine'.vertex_rank (h.mem_origins.2 ⟨o, ho, rfl⟩), hpoint o ho,
      hfine.vertex_rank ho]

theorem point?_edge_of_symm (h : Renumbers number place mesh other)
    (hsymm : ∀ p q, mid p q = mid q p) {ends : Sym2 Nat} (hends : ends ∈ mesh.edges) :
    (Origin.edge (ends.map number)).point? mid other.vertices =
      (Origin.edge ends).point? mid mesh.vertices := by
  induction ends with | _ a b
  rw [Sym2.map_mk, point?_edge hsymm, point?_edge hsymm,
    h.vertices a (mem_referenced_of_mem_edges hends (Sym2.mem_mk_left a b)),
    h.vertices b (mem_referenced_of_mem_edges hends (Sym2.mem_mk_right a b))]

theorem point?_edge_of_id (h : Renumbers id place mesh other) {ends : Sym2 Nat}
    (hends : ends ∈ mesh.edges) : (Origin.edge (ends.map id)).point? mid other.vertices =
      (Origin.edge ends).point? mid mesh.vertices := by
  have hvertex {i : Nat} (hi : i ∈ ends) : other.vertices[i]? = mesh.vertices[i]? :=
    h.vertices i (mem_referenced_of_mem_edges hends hi)
  rw [Sym2.map_id, id, Origin.point?, Origin.point?, hvertex (Origin.inf_mem ends),
    hvertex (Origin.sup_mem ends)]

end Renumbers

/-! ## Rounds -/

variable [Scalar α] {m : Manifold α d}

theorem Renumbers.exists_refine (hm : m.BisectsBy mid) (hvalid : mesh.Valid)
    (h : Renumbers number place mesh other)
    (hedges : ∀ ends ∈ mesh.edges, (Origin.edge (ends.map number)).point? mid other.vertices =
      (Origin.edge ends).point? mid mesh.vertices) :
    ∃ fine round fine' round' number', mesh.refine m = .ok (fine, round) ∧
      other.refine m = .ok (fine', round') ∧ fine.Valid ∧
      Isomorphic number' (inBlocks s.parts place) fine fine' := by
  obtain ⟨fine, round, hrefine, hfine⟩ := Mesh.exists_refine hm hvalid
  obtain ⟨fine', round', hrefine', hfine'⟩ := Mesh.exists_refine hm (h.valid hvalid)
  exact ⟨fine, round, fine', round', _, hrefine, hrefine', hfine.valid,
    h.isomorphic hedges hfine hfine'⟩

theorem Renumbers.exists_refineTimes (hm : m.BisectsBy mid) (hsymm : ∀ p q, mid p q = mid q p)
    (hvalid : mesh.Valid) (h : Renumbers number place mesh other) (n : Nat) :
    ∃ fine rounds fine' rounds' number', mesh.refineTimes m n = .ok (fine, rounds) ∧
      other.refineTimes m n = .ok (fine', rounds') ∧ fine.Valid ∧
      Renumbers number' (inBlocks (s.parts ^ n) place) fine fine' ∧
      (1 ≤ n → Isomorphic number' (inBlocks (s.parts ^ n) place) fine fine') := by
  induction n with
  | zero =>
    have hplace : inBlocks (s.parts ^ 0) place = place := by
      funext k
      rw [Nat.pow_zero, inBlocks, Nat.div_one, Nat.mul_one, Nat.mod_one, Nat.add_zero]
    rw [hplace]
    exact ⟨mesh, [], other, [], number, rfl, rfl, hvalid, h, nofun⟩
  | succ n ih =>
    obtain ⟨coarse, rounds, coarse', rounds', number', htimes, htimes', hcoarse, hnumber, -⟩ := ih
    obtain ⟨fine, round, fine', round', number'', hrefine, hrefine', hfine, hiso⟩ :=
      hnumber.exists_refine hm hcoarse fun _ => hnumber.point?_edge_of_symm hsymm
    rw [inBlocks_inBlocks, ← Nat.pow_succ] at hiso
    exact ⟨fine, rounds ++ [round], fine', rounds' ++ [round'], number'',
      refineTimes_succ_of_refine htimes hrefine, refineTimes_succ_of_refine htimes' hrefine', hfine,
      hiso.renumbers hfine, fun _ => hiso⟩

theorem descends_inBlocks (hplaces : Set.BijOn place (Set.Iio mesh.cells.length)
      (Set.Iio other.cells.length)) {n : Nat} {rounds rounds' : List (Round α d)}
    (htimes : mesh.refineTimes m n = .ok (fine, rounds))
    (htimes' : other.refineTimes m n = .ok (fine', rounds')) {i k : Nat}
    (h : Descends m n mesh i k) :
    Descends m n other (place i) (inBlocks (s.parts ^ n) place k) := by
  obtain ⟨hi, hk⟩ := (descends_iff htimes).1 h
  refine (descends_iff htimes').2 ⟨hplaces.mapsTo hi, ?_⟩
  rw [inBlocks_div (Nat.pow_pos s.parts_pos), hk]

/-- Meshes that differ in the numbers of their vertices and in the order of their cells have
refinements that differ in nothing else. Where the midpoint depends on the order of the ends, that
still holds of one round after a change in the order of the cells. -/
theorem isomorphic_refineTimes (hm : m.BisectsBy mid) (hcheck : mesh.check = .ok ()) :
    ((∀ p q, mid p q = mid q p) → ∀ number place other, Renumbers number place mesh other →
      ∀ n, 1 ≤ n → ∃ fine rounds fine' rounds' number',
        mesh.refineTimes m n = .ok (fine, rounds) ∧
        other.refineTimes m n = .ok (fine', rounds') ∧
        Isomorphic number' (inBlocks (s.parts ^ n) place) fine fine' ∧
        ∀ i k, Descends m n mesh i k →
          Descends m n other (place i) (inBlocks (s.parts ^ n) place k)) ∧
    (∀ place other, Renumbers id place mesh other →
      ∃ fine rounds fine' rounds' number', mesh.refineTimes m 1 = .ok (fine, rounds) ∧
        other.refineTimes m 1 = .ok (fine', rounds') ∧
        Isomorphic number' (inBlocks s.parts place) fine fine') := by
  have hvalid := check_eq_ok_iff.1 hcheck
  constructor
  · intro hsymm number place other h n hn
    obtain ⟨fine, rounds, fine', rounds', number', htimes, htimes', -, -, hiso⟩ :=
      h.exists_refineTimes hm hsymm hvalid n
    exact ⟨fine, rounds, fine', rounds', number', htimes, htimes', hiso hn,
      fun _ _ => descends_inBlocks h.places htimes htimes'⟩
  · intro place other h
    obtain ⟨fine, round, fine', round', number', hrefine, hrefine', -, hiso⟩ :=
      h.exists_refine hm hvalid fun _ => h.point?_edge_of_id
    exact ⟨fine, [round], fine', [round'], number',
      refineTimes_succ_eq_ok_iff.2 ⟨fine, round, [], hrefine, rfl, rfl⟩,
      refineTimes_succ_eq_ok_iff.2 ⟨fine', round', [], hrefine', rfl, rfl⟩, hiso⟩

/-- The unit square with its triangles swapped. -/
def swappedSquare : Mesh ℚ 2 .triangle where
  vertices := unitSquare.vertices
  cells := [.triangle 0 2 3, .triangle 0 1 2]

/-- The unit square with its triangles swapped and its vertices counted from the last one. -/
def reversedSquare : Mesh ℚ 2 .triangle where
  vertices := unitSquare.vertices.reverse
  cells := [.triangle 4 2 1, .triangle 4 3 2]

theorem bijOn_swap : Set.BijOn (1 - ·) (Set.Iio 2) (Set.Iio 2) := by
  refine ⟨fun k _ => ?_, fun k hk l hl heq => ?_, fun l hl => ⟨1 - l, ?_, ?_⟩⟩
  · exact Nat.lt_of_le_of_lt (Nat.sub_le 1 k) one_lt_two
  · simp only [Set.mem_Iio] at hk hl heq
    omega
  · exact Nat.lt_of_le_of_lt (Nat.sub_le 1 l) one_lt_two
  · simp only [Set.mem_Iio] at hl ⊢
    omega

theorem isomorphic_refineTimes_square :
    (FlatSpace.euclidean : FlatSpace ℚ 2).manifold.BisectsBy Point.mean ∧
      unitSquare.check = .ok () ∧ (∀ p q : Point ℚ 2, Point.mean p q = Point.mean q p) ∧
      Renumbers (4 - ·) (1 - ·) unitSquare reversedSquare ∧
      Renumbers id (1 - ·) unitSquare swappedSquare ∧
      (∃ fine rounds fine' rounds' number',
        unitSquare.refineTimes FlatSpace.euclidean.manifold 2 = .ok (fine, rounds) ∧
        reversedSquare.refineTimes FlatSpace.euclidean.manifold 2 = .ok (fine', rounds') ∧
        Isomorphic number' (inBlocks 16 (1 - ·)) fine fine') ∧
      ∃ fine rounds fine' rounds' number',
        unitSquare.refineTimes FlatSpace.euclidean.manifold 1 = .ok (fine, rounds) ∧
        swappedSquare.refineTimes FlatSpace.euclidean.manifold 1 = .ok (fine', rounds') ∧
        Isomorphic number' (inBlocks 4 (1 - ·)) fine fine' := by
  have hcheck : unitSquare.check = .ok () := rfl
  have hreferenced : unitSquare.referenced = {0, 1, 2, 3} := by decide
  have hreversed : Renumbers (4 - ·) (1 - ·) unitSquare reversedSquare := by
    refine ⟨bijOn_swap, fun k hk => ?_, fun i hi j hj heq => ?_, fun i hi => ?_⟩
    · have hk : k < 2 := hk
      interval_cases k <;> rfl
    · simp [hreferenced] at hi hj heq
      omega
    · simp only [hreferenced, Finset.mem_insert, Finset.mem_singleton] at hi
      have hsize : unitSquare.vertices.size = 5 := rfl
      have hback : unitSquare.vertices.size - 1 - (4 - i) = i := by omega
      rw [reversedSquare, Array.getElem?_reverse (by omega), hback]
  have hswapped : Renumbers id (1 - ·) unitSquare swappedSquare := by
    refine ⟨bijOn_swap, fun k hk => ?_, Function.injective_id.injOn, fun _ _ => rfl⟩
    have hk : k < 2 := hk
    interval_cases k <;> rfl
  obtain ⟨hsymmetric, hcells⟩ := isomorphic_refineTimes FlatSpace.bisectsBy_mean hcheck
  obtain ⟨fine, rounds, fine', rounds', number', htimes, htimes', hiso, -⟩ :=
    hsymmetric Point.mean_comm _ _ _ hreversed 2 one_le_two
  exact ⟨FlatSpace.bisectsBy_mean, hcheck, Point.mean_comm, hreversed, hswapped,
    ⟨fine, rounds, fine', rounds', number', htimes, htimes', hiso⟩, hcells _ _ hswapped⟩

end Mesh

end CurvedMesh
