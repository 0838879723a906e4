import CurvedMesh.Proofs.Midpoints
import CurvedMesh.Proofs.Origin
import CurvedMesh.Proofs.Results
import Mathlib.Data.Option.NAry

/-!
# What a round of refinement does

`refine_eq_ok_iff` says when a round succeeds and with which mesh. Where a manifold has a midpoint
for any two points, `exists_refine` gives the refined mesh by the origins of its vertices, and
`refineTimes_of_step` carries over rounds what every round keeps.
-/

namespace CurvedMesh

variable {α : Type} {d : Nat} {s : Shape}

/-! ## Points of origins -/

namespace Origin

/-- The point that an origin stands for, if the vertices it refers to are there. -/
def point? (mid : Point α d → Point α d → Point α d) (vertices : Array (Point α d)) :
    Origin → Option (Point α d)
  | .vertex i => vertices[i]?
  | .edge ends => Option.map₂ mid vertices[ends.inf]? vertices[ends.sup]?

end Origin

namespace Mesh

/-! ## The refined mesh -/

/-- The cells of `fine` are the children of those of `mesh`, its vertices the points of the distinct
origins. -/
structure IsRefinement (mid : Point α d → Point α d → Point α d) (mesh fine : Mesh α d s) :
    Prop where
  cells : fine.cells = mesh.parts.map (Cell.map mesh.rank)
  vertices : fine.vertices.toList.map some =
    mesh.origins.eraseDups.map (Origin.point? mid mesh.vertices)

namespace IsRefinement

variable {mid : Point α d → Point α d → Point α d} {mesh fine : Mesh α d s}

theorem size_vertices (h : IsRefinement mid mesh fine) :
    fine.vertices.size = mesh.origins.eraseDups.length := by
  have := congrArg List.length h.vertices
  rwa [List.length_map, List.length_map, Array.length_toList] at this

theorem vertex_rank (h : IsRefinement mid mesh fine) {o : Origin} (ho : o ∈ mesh.origins) :
    fine.vertices[mesh.rank o]? = o.point? mid mesh.vertices := by
  have hrank := congrArg (·[mesh.rank o]?) h.vertices
  simp only [List.getElem?_map, getElem?_rank ho, Array.getElem?_toList, Option.map_some] at hrank
  cases hv : fine.vertices[mesh.rank o]? with
  | none => rw [hv] at hrank; cases hrank
  | some p => rw [hv] at hrank; exact Option.some.inj hrank

theorem valid (h : IsRefinement mid mesh fine) : fine.Valid := by
  intro cell hcell corner hcorner
  rw [h.cells] at hcell
  obtain ⟨part, hpart, rfl⟩ := List.mem_map.1 hcell
  rw [Cell.corners_map] at hcorner
  obtain ⟨o, ho, rfl⟩ := List.mem_map.1 hcorner
  rw [h.size_vertices]
  exact rank_lt (mem_origins_of_mem_parts hpart ho)

end IsRefinement

/-! ## One round -/

theorem mapM_ofCorners_children (mesh : Mesh α d s) :
    (mesh.children.mapM fun child => Cell.ofCorners (child.corners.map mesh.numbering.number)) =
      Except.ok (ε := Fault α) (mesh.parts.map (Cell.map mesh.rank)) := by
  rw [mapM_eq_ok_iff, ← map_number_children, List.map_map]
  exact List.map_congr_left fun child _ => Cell.ofCorners_map _ child

variable [Scalar α]

theorem refine_eq_ok_iff {mesh fine : Mesh α d s} {m : Manifold α d} {round : Round α d} :
    mesh.refine m = .ok (fine, round) ↔
      mesh.Valid ∧ ∃ placements : Array (Placement α d),
        mesh.origins.eraseDups.map (Origin.place m mesh.vertices) = placements.toList.map .ok ∧
        fine = ⟨placements.map (·.point), mesh.parts.map (Cell.map mesh.rank)⟩ ∧
        round = ⟨placements.toList.filterMap (·.fallback?), mesh.vertices.size, placements.size,
          mesh.cells.length, mesh.parts.length⟩ := by
  have hplace : (fun l : Label => l.place m mesh.vertices) =
      Origin.place m mesh.vertices ∘ Label.origin :=
    funext fun l => (Origin.place_origin m mesh.vertices l).symm
  have hlength : mesh.children.length = mesh.parts.length := by
    rw [← map_children, List.length_map]
  simp only [refine, mapM_ofCorners_children, bind_eq_ok_iff, mapM_array_eq_ok_iff]
  rw [hplace, ← List.map_map, map_order_numbering, hlength]
  constructor
  · rintro ⟨_, hcheck, cells, ⟨⟩, placements, hplaced, hpure⟩
    cases hpure
    exact ⟨check_eq_ok_iff.1 hcheck, placements, hplaced, rfl, rfl⟩
  · rintro ⟨hvalid, placements, hplaced, rfl, rfl⟩
    exact ⟨(), check_eq_ok_iff.2 hvalid, _, rfl, placements, hplaced, rfl⟩

theorem valid_of_refine {mesh fine : Mesh α d s} {m : Manifold α d} {round : Round α d}
    (h : mesh.refine m = .ok (fine, round)) : fine.Valid := by
  obtain ⟨-, placements, hplaced, rfl, -⟩ := refine_eq_ok_iff.1 h
  have hsize : mesh.origins.eraseDups.length = placements.size := by
    have := congrArg List.length hplaced
    rwa [List.length_map, List.length_map, Array.length_toList] at this
  intro cell hcell corner hcorner
  obtain ⟨part, hpart, rfl⟩ := List.mem_map.1 hcell
  rw [Cell.corners_map] at hcorner
  obtain ⟨o, ho, rfl⟩ := List.mem_map.1 hcorner
  have hlt := rank_lt (mem_origins_of_mem_parts hpart ho)
  rwa [hsize, ← Array.size_map (f := (·.point))] at hlt

theorem of_refine_eq_error {mesh : Mesh α d s} {m : Manifold α d} {fault : Fault α}
    (h : mesh.refine m = .error fault) :
    mesh.check = .error fault ∨ ∃ o ∈ mesh.origins, o.place m mesh.vertices = .error fault := by
  simp only [refine, mapM_ofCorners_children, bind_eq_error_iff, reduceCtorEq, false_or] at h
  rcases h with hcheck | ⟨_, -, _, -, hplace | ⟨placements, -, hpure⟩⟩
  · exact .inl hcheck
  · right
    obtain ⟨label, hlabel, hfail⟩ := exists_of_mapM_array_eq_error hplace
    refine ⟨label.origin, ?_, (Origin.place_origin m mesh.vertices label).trans hfail⟩
    rw [← List.mem_eraseDups, ← map_order_numbering]
    exact List.mem_map_of_mem hlabel
  · cases hpure

theorem exists_refine_of_place {mesh : Mesh α d s} {m : Manifold α d}
    {mid : Point α d → Point α d → Point α d} (hvalid : mesh.Valid)
    (hplace : ∀ o ∈ mesh.origins, ∃ placement, o.place m mesh.vertices = .ok placement ∧
      o.point? mid mesh.vertices = some placement.point) :
    ∃ fine round, mesh.refine m = .ok (fine, round) ∧ IsRefinement mid mesh fine := by
  have hdups : ∀ o ∈ mesh.origins.eraseDups, ∃ placement, o.place m mesh.vertices = .ok placement ∧
      o.point? mid mesh.vertices = some placement.point :=
    fun o ho => hplace o (List.mem_eraseDups.1 ho)
  obtain ⟨placements, hplaced⟩ := exists_map_ok fun o ho =>
    (hdups o ho).imp fun _ h => h.1
  have hrefine := refine_eq_ok_iff.2 ⟨hvalid, placements.toArray, hplaced, rfl, rfl⟩
  refine ⟨_, _, hrefine, rfl, ?_⟩
  simp only [Array.toList_map, List.map_map]
  calc placements.map (some ∘ Placement.point)
      = (placements.map (Except.ok (ε := Fault α))).map fun r => r.toOption.map (·.point) := by
        rw [List.map_map]
        rfl
    _ = mesh.origins.eraseDups.map fun o => (o.place m mesh.vertices).toOption.map (·.point) := by
        rw [← hplaced, List.map_map]
        rfl
    _ = mesh.origins.eraseDups.map (Origin.point? mid mesh.vertices) := by
        refine List.map_congr_left fun o ho => ?_
        obtain ⟨placement, hok, hpoint⟩ := hdups o ho
        rw [hok, hpoint]
        rfl

theorem exists_place_of_mem_fallbacks {mesh fine : Mesh α d s} {m : Manifold α d}
    {round : Round α d} (h : mesh.refine m = .ok (fine, round)) {fallback : Fallback α d}
    (hmem : fallback ∈ round.fallbacks) :
    ∃ o ∈ mesh.origins, ∃ placement, o.place m mesh.vertices = .ok placement ∧
      placement.fallback? = some fallback := by
  obtain ⟨-, placements, hplaced, -, rfl⟩ := refine_eq_ok_iff.1 h
  obtain ⟨placement, hin, hfallback⟩ := List.mem_filterMap.1 hmem
  have hok : Except.ok placement ∈ mesh.origins.eraseDups.map (Origin.place m mesh.vertices) :=
    hplaced ▸ List.mem_map_of_mem hin
  obtain ⟨o, ho, hplace⟩ := List.mem_map.1 hok
  exact ⟨o, List.mem_eraseDups.1 ho, placement, hplace, hfallback⟩

theorem exists_refine {mesh : Mesh α d s} {m : Manifold α d}
    {mid : Point α d → Point α d → Point α d} (hm : m.BisectsBy mid) (hvalid : mesh.Valid) :
    ∃ fine round, mesh.refine m = .ok (fine, round) ∧ IsRefinement mid mesh fine := by
  refine exists_refine_of_place hvalid fun o ho => ?_
  cases o with
  | vertex i =>
    have hi := Array.getElem?_eq_getElem (lt_of_mem_referenced hvalid (vertex_mem_origins.1 ho))
    exact ⟨_, Origin.place_vertex hi, hi⟩
  | edge ends =>
    have hends {i : Nat} (hi : i ∈ ends) : i < mesh.vertices.size :=
      lt_of_mem_referenced hvalid (mem_referenced_of_mem_edges (edge_mem_origins.1 ho) hi)
    have hp := Array.getElem?_eq_getElem (hends (Origin.inf_mem ends))
    have hq := Array.getElem?_eq_getElem (hends (Origin.sup_mem ends))
    obtain ⟨placement, hmid, hpoint⟩ := hm _ _
    refine ⟨placement, (Origin.place_edge hp hq).trans hmid, ?_⟩
    rw [Origin.point?, hp, hq, hpoint]
    rfl

/-! ## Several rounds -/

/-- What holds after `k` rounds holds after `k + n`, if each round makes the next one hold. -/
theorem refineTimes_of_step {m : Manifold α d} {P : Nat → Mesh α d s → Prop} {Q : Round α d → Prop}
    (step : ∀ k mesh, P k mesh →
      ∃ fine round, mesh.refine m = .ok (fine, round) ∧ P (k + 1) fine ∧ Q round)
    (n : Nat) {k : Nat} {mesh : Mesh α d s} (h : P k mesh) :
    ∃ fine rounds, mesh.refineTimes m n = .ok (fine, rounds) ∧ P (k + n) fine ∧
      ∀ round ∈ rounds, Q round := by
  -- a run starts with a round on `mesh` itself, so the mesh varies with `n`
  induction n generalizing k mesh with
  | zero => exact ⟨mesh, [], rfl, h, by simp⟩
  | succ n ih =>
    obtain ⟨next, round, hrefine, hnext, hround⟩ := step k mesh h
    obtain ⟨fine, rounds, htimes, hfine, hrounds⟩ := ih hnext
    refine ⟨fine, round :: rounds, ?_, ?_, ?_⟩
    · rw [refineTimes, hrefine]
      simp only [bind, Except.bind, htimes]
      rfl
    · rwa [Nat.add_right_comm] at hfine
    · exact List.forall_mem_cons.2 ⟨hround, hrounds⟩

theorem refineTimes_succ_eq_ok_iff {m : Manifold α d} {mesh fine : Mesh α d s} {n : Nat}
    {rounds : List (Round α d)} : mesh.refineTimes m (n + 1) = .ok (fine, rounds) ↔
      ∃ next round rest, mesh.refine m = .ok (next, round) ∧
        next.refineTimes m n = .ok (fine, rest) ∧ rounds = round :: rest := by
  simp only [refineTimes, bind_eq_ok_iff]
  constructor
  · rintro ⟨⟨next, round⟩, hrefine, ⟨last, rest⟩, htimes, hpure⟩
    cases hpure
    exact ⟨next, round, rest, hrefine, htimes, rfl⟩
  · rintro ⟨next, round, rest, hrefine, htimes, rfl⟩
    exact ⟨(next, round), hrefine, (fine, rest), htimes, rfl⟩

theorem refineTimes_succ_of_refine {m : Manifold α d} {mesh coarse fine : Mesh α d s} {n : Nat}
    {rounds : List (Round α d)} {round : Round α d}
    (htimes : mesh.refineTimes m n = .ok (coarse, rounds))
    (hrefine : coarse.refine m = .ok (fine, round)) :
    mesh.refineTimes m (n + 1) = .ok (fine, rounds ++ [round]) := by
  induction n generalizing mesh rounds with
  | zero =>
    cases htimes
    rw [refineTimes, hrefine]
    rfl
  | succ n ih =>
    rw [refineTimes] at htimes
    obtain ⟨⟨next, first⟩, hfirst, htimes⟩ := bind_eq_ok_iff.1 htimes
    obtain ⟨⟨last, rest⟩, hrest, hlast⟩ := bind_eq_ok_iff.1 htimes
    cases hlast
    have tail := ih hrest
    rw [refineTimes, hfirst]
    simp only [bind, Except.bind, tail]
    rfl

/-- After `n` rounds there is one more, and `law` holds between the meshes before and after it. -/
def AtRound (m : Manifold α d) (mesh : Mesh α d s) (n : Nat)
    (law : Mesh α d s → Mesh α d s → Prop) : Prop :=
  ∃ coarse fine rounds round, mesh.refineTimes m n = .ok (coarse, rounds) ∧
    coarse.refine m = .ok (fine, round) ∧
    mesh.refineTimes m (n + 1) = .ok (fine, rounds ++ [round]) ∧ law coarse fine

theorem atRound_of_step {m : Manifold α d} {P : Mesh α d s → Prop}
    {law : Mesh α d s → Mesh α d s → Prop}
    (step : ∀ mesh, P mesh → ∃ fine round, mesh.refine m = .ok (fine, round) ∧ P fine ∧
      law mesh fine)
    {mesh : Mesh α d s} (h : P mesh) (n : Nat) : AtRound m mesh n law := by
  have run := refineTimes_of_step (P := fun _ => P) (Q := fun _ => True) (m := m)
    (fun _ mesh hmesh => by
      obtain ⟨fine, round, hrefine, hfine, -⟩ := step mesh hmesh
      exact ⟨fine, round, hrefine, hfine, trivial⟩) n (k := 0) h
  obtain ⟨coarse, rounds, htimes, hcoarse, -⟩ := run
  obtain ⟨fine, round, hrefine, -, hlaw⟩ := step coarse hcoarse
  exact ⟨coarse, fine, rounds, round, htimes, hrefine,
    refineTimes_succ_of_refine htimes hrefine, hlaw⟩

end Mesh

end CurvedMesh
