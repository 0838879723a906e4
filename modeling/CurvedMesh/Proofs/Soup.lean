import CurvedMesh.Proofs.Round
import Mathlib.Data.Rat.Floor
import Mathlib.Logic.Function.Iterate

/-!
# Refinement without indices

The soup of a mesh is the list of its cells with their corner points in place of indices. Refining
the mesh splits each cell of the soup at the midpoints of its sides, whatever vertices the cells
share and however they are numbered.
-/

namespace CurvedMesh

variable {α : Type} {d : Nat} {s : Shape}

/-! ## Soups -/

namespace Cell

/-- The cell of corner points, if all corners are vertices. -/
def points? (vertices : Array (Point α d)) : Cell Nat s → Option (Cell (Point α d) s)
  | .segment a b => return .segment (← vertices[a]?) (← vertices[b]?)
  | .triangle a b c => return .triangle (← vertices[a]?) (← vertices[b]?) (← vertices[c]?)

/-- The halves of a segment, or the four quarters of a triangle. -/
def bisect (mid : Point α d → Point α d → Point α d) :
    Cell (Point α d) s → List (Cell (Point α d) s)
  | .segment p q => [.segment p (mid p q), .segment (mid p q) q]
  | .triangle p q r =>
    [.triangle p (mid p q) (mid r p), .triangle (mid p q) q (mid q r),
      .triangle (mid r p) (mid q r) r, .triangle (mid p q) (mid q r) (mid r p)]

theorem points?_eq_some_iff {vertices : Array (Point α d)} {c : Cell Nat s}
    {c' : Cell (Point α d) s} :
    c.points? vertices = some c' ↔ c.map (vertices[·]?) = c'.map some := by
  cases c <;> cases c' <;> simp [points?, map, Option.bind_eq_some_iff]

theorem exists_points? {vertices : Array (Point α d)} {c : Cell Nat s}
    (h : ∀ i ∈ c.corners, i < vertices.size) : ∃ c', c.points? vertices = some c' := by
  cases c with
  | segment a b =>
    simp only [corners, List.forall_mem_cons] at h
    exact ⟨.segment vertices[a] vertices[b], by simp [points?, h]⟩
  | triangle a b c =>
    simp only [corners, List.forall_mem_cons] at h
    exact ⟨.triangle vertices[a] vertices[b] vertices[c], by simp [points?, h]⟩

theorem mem_corners_bisect {mid : Point α d → Point α d → Point α d} {c part : Cell (Point α d) s}
    {x : Point α d} (hpart : part ∈ c.bisect mid) (hx : x ∈ part.corners) :
    x ∈ c.corners ∨ ∃ p ∈ c.corners, ∃ q ∈ c.corners, x = mid p q := by
  cases c with
  | segment p q =>
    simp only [bisect, List.mem_cons, List.not_mem_nil, or_false] at hpart
    rcases hpart with rfl | rfl <;> simp [corners] at hx ⊢ <;> tauto
  | triangle p q r =>
    simp only [bisect, List.mem_cons, List.not_mem_nil, or_false] at hpart
    rcases hpart with rfl | rfl | rfl | rfl <;> simp [corners] at hx ⊢ <;> tauto

theorem bisect_map {mid mid' : Point α d → Point α d → Point α d} {g : Point α d → Point α d}
    {c : Cell (Point α d) s}
    (h : ∀ p ∈ c.corners, ∀ q ∈ c.corners, mid' (g p) (g q) = g (mid p q)) :
    (c.map g).bisect mid' = (c.bisect mid).map (map g) := by
  cases c <;> simp_all [map, bisect, corners]

end Cell

def subdivide (mid : Point α d → Point α d → Point α d) (soup : List (Cell (Point α d) s)) :
    List (Cell (Point α d) s) :=
  soup.flatMap (Cell.bisect mid)

namespace Mesh

/-- The cells of corner points, if all corners are vertices. -/
def soup? (mesh : Mesh α d s) : Option (List (Cell (Point α d) s)) :=
  mesh.cells.mapM (Cell.points? mesh.vertices)

theorem soup?_eq_some_iff {mesh : Mesh α d s} {soup : List (Cell (Point α d) s)} :
    mesh.soup? = some soup ↔
      mesh.cells.map (Cell.map (mesh.vertices[·]?)) = soup.map (Cell.map some) := by
  rw [soup?, mapM_eq_some_iff]
  exact map_eq_map_congr fun _ _ => Cell.points?_eq_some_iff

theorem exists_soup {mesh : Mesh α d s} (h : mesh.Valid) : ∃ soup, mesh.soup? = some soup := by
  obtain ⟨soup, hsoup⟩ := exists_map_some fun c hc => Cell.exists_points? (h c hc)
  exact ⟨soup, mapM_eq_some_iff.2 hsoup⟩

/-! ## One round -/

variable {mid : Point α d → Point α d → Point α d}

theorem point?_edge (hsymm : ∀ p q, mid p q = mid q p) (vertices : Array (Point α d)) (a b : Nat) :
    (Origin.edge s(a, b)).point? mid vertices = Option.map₂ mid vertices[a]? vertices[b]? := by
  rw [Origin.point?, Sym2.inf_mk, Sym2.sup_mk]
  rcases le_total a b with h | h
  · rw [inf_eq_left.2 h, sup_eq_right.2 h]
  · rw [inf_eq_right.2 h, sup_eq_left.2 h, Option.map₂_comm hsymm]

theorem map_point?_parts (hsymm : ∀ p q, mid p q = mid q p) (vertices : Array (Point α d))
    (c : Cell Nat s) :
    c.parts.map (Cell.map (Origin.point? mid vertices)) =
      (c.map (vertices[·]?)).split id (Option.map₂ mid) := by
  unfold Cell.parts
  rw [Cell.map_split, Cell.split_map]
  simp only [point?_edge hsymm]
  rfl

theorem split_map_some (c : Cell (Point α d) s) :
    (c.map some).split id (Option.map₂ mid) = (c.bisect mid).map (Cell.map some) := by
  cases c <;> rfl

theorem soup?_of_isRefinement {mesh fine : Mesh α d s} (hfine : IsRefinement mid mesh fine)
    (hsymm : ∀ p q, mid p q = mid q p) {soup : List (Cell (Point α d) s)}
    (h : mesh.soup? = some soup) : fine.soup? = some (subdivide mid soup) := by
  rw [soup?_eq_some_iff] at h ⊢
  have hparts : fine.cells.map (Cell.map (fine.vertices[·]?)) =
      mesh.parts.map (Cell.map (Origin.point? mid mesh.vertices)) := by
    rw [hfine.cells, List.map_map]
    refine List.map_congr_left fun c hc => ?_
    rw [Function.comp_apply, Cell.map_map]
    refine Cell.map_congr fun o ho => hfine.vertex_rank (mem_origins_of_mem_parts hc ho)
  calc fine.cells.map (Cell.map (fine.vertices[·]?))
      = mesh.cells.flatMap fun c => (c.map (mesh.vertices[·]?)).split id (Option.map₂ mid) := by
        simp only [hparts, parts, List.map_flatMap, map_point?_parts hsymm]
    _ = (soup.map (Cell.map some)).flatMap fun c => c.split id (Option.map₂ mid) := by
        rw [← h, List.flatMap_map]
    _ = (subdivide mid soup).map (Cell.map some) := by
        simp only [List.flatMap_map, split_map_some, subdivide, List.map_flatMap]

/-! ## All rounds -/

theorem iterate_subdivide (n : Nat) (soup : List (Cell (Point α d) s)) :
    (subdivide mid)^[n] soup = soup.flatMap fun c => (subdivide mid)^[n] [c] := by
  induction n generalizing soup with
  | zero => simp
  | succ n ih =>
    simp only [Function.iterate_succ_apply]
    rw [ih, subdivide, List.flatMap_assoc]
    refine List.flatMap_congr fun c _ => ?_
    rw [ih (subdivide mid [c]), subdivide, List.flatMap_singleton]

variable [Scalar α]

/-- After `n` rounds the cells are the `n`-fold splits of the old cells, one after another, as if
each had been split alone. -/
theorem soup?_refineTimes {m : Manifold α d} (hm : m.BisectsBy mid)
    (hsymm : ∀ p q, mid p q = mid q p) {mesh : Mesh α d s} (hvalid : mesh.check = .ok ())
    (n : Nat) :
    ∃ soup fine rounds, mesh.soup? = some soup ∧ mesh.refineTimes m n = .ok (fine, rounds) ∧
      fine.soup? = some ((subdivide mid)^[n] soup) ∧
      (subdivide mid)^[n] soup = soup.flatMap fun c => (subdivide mid)^[n] [c] := by
  have hstart := check_eq_ok_iff.1 hvalid
  obtain ⟨soup, hsoup⟩ := exists_soup hstart
  have step : ∀ k (coarse : Mesh α d s),
      coarse.Valid ∧ coarse.soup? = some ((subdivide mid)^[k] soup) →
      ∃ fine round, coarse.refine m = .ok (fine, round) ∧
        (fine.Valid ∧ fine.soup? = some ((subdivide mid)^[k + 1] soup)) ∧ True := by
    rintro k coarse ⟨hcoarse, hk⟩
    obtain ⟨fine, round, hrefine, hfine⟩ := exists_refine hm hcoarse
    refine ⟨fine, round, hrefine, ⟨hfine.valid, ?_⟩, trivial⟩
    rw [Function.iterate_succ_apply', soup?_of_isRefinement hfine hsymm hk]
  obtain ⟨fine, rounds, htimes, ⟨-, hfine⟩, -⟩ :=
    refineTimes_of_step step n (k := 0) ⟨hstart, hsoup⟩
  rw [Nat.zero_add] at hfine
  exact ⟨soup, fine, rounds, hsoup, htimes, hfine, iterate_subdivide n soup⟩

theorem soup?_refineTimes_unitSquare :
    (FlatSpace.euclidean : FlatSpace ℚ 2).manifold.BisectsBy Point.mean ∧
      (∀ p q : Point ℚ 2, Point.mean p q = Point.mean q p) ∧ unitSquare.check = .ok () ∧
      ∃ soup fine rounds, unitSquare.soup? = some soup ∧
        unitSquare.refineTimes FlatSpace.euclidean.manifold 3 = .ok (fine, rounds) ∧
        fine.soup? = some ((subdivide Point.mean)^[3] soup) ∧
        (subdivide Point.mean)^[3] soup =
          soup.flatMap fun c => (subdivide Point.mean)^[3] [c] :=
  ⟨FlatSpace.bisectsBy_mean, Point.mean_comm, rfl,
    soup?_refineTimes FlatSpace.bisectsBy_mean Point.mean_comm rfl 3⟩

end Mesh

end CurvedMesh
