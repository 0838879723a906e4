import CurvedMesh.Proofs.Degrees
import Mathlib.Data.Rat.Floor

/-!
# Conformity and orientation

Every round keeps a triangle mesh simplicial, cuts a side for all cells or for none and doubles the
boundary. Segments are only cut in two.
-/

namespace CurvedMesh.Mesh

variable {α : Type} {d : Nat} [Scalar α]

/-- What each round does to a simplicial triangle mesh. -/
structure ConformsTriangles (mesh fine : Mesh α d .triangle) : Prop where
  before : mesh.Simplicial
  after : fine.Simplicial
  sides : SplitsSides mesh fine
  at_most_once : (∀ side, mesh.cellsWith side ≤ 1) → ∀ side, fine.cellsWith side ≤ 1
  closed : mesh.Closed → fine.Closed
  boundary : fine.boundary.card = 2 * mesh.boundary.card
  unmatched : fine.unmatched.card = 2 * mesh.unmatched.card

structure ConformsSegments (mesh fine : Mesh α d .segment) : Prop where
  before : mesh.check = .ok ()
  after : fine.check = .ok ()
  sides : SplitsSides mesh fine
  halves : ∀ side ∈ fine.sides, mesh.IsHalf side
  degrees : KeepsDegrees mesh fine
  at_most_once : (∀ side, mesh.cellsWith side ≤ 1) → ∀ side, fine.cellsWith side ≤ 1
  closed : mesh.Closed → fine.Closed
  balanced : mesh.Balanced → fine.Balanced

theorem exists_refine_triangles {m : Manifold α d} (hm : m.HasMidpoints)
    {mesh : Mesh α d .triangle} (h : mesh.Simplicial) :
    ∃ fine round, mesh.refine m = .ok (fine, round) ∧ fine.Simplicial ∧
      ConformsTriangles mesh fine := by
  obtain ⟨mid, hmid⟩ := hm.exists_bisectsBy
  obtain ⟨fine, round, hrefine, hfine⟩ := exists_refine hmid (check_eq_ok_iff.1 h.checked)
  have hafter := hfine.simplicial h
  have hsides := hfine.splitsSides_of_simplicial h
  have hboundary : fine.boundary.card = 2 * mesh.boundary.card := by
    rw [hafter.card_boundary, h.card_boundary]
    apply hsides.card_filter_sides (P := fun k l => k + l = 1)
    omega
  exact ⟨fine, round, hrefine, hafter, h, hafter, hsides, hsides.cellsWith_le_one, hsides.closed,
    hboundary, hsides.card_unmatched⟩

theorem exists_refine_segments {m : Manifold α d} (hm : m.HasMidpoints)
    {mesh : Mesh α d .segment} (h : mesh.check = .ok ()) :
    ∃ fine round, mesh.refine m = .ok (fine, round) ∧ fine.check = .ok () ∧
      ConformsSegments mesh fine := by
  obtain ⟨mid, hmid⟩ := hm.exists_bisectsBy
  obtain ⟨fine, round, hrefine, hfine⟩ := exists_refine hmid (check_eq_ok_iff.1 h)
  have hafter := check_eq_ok_iff.2 hfine.valid
  have hhalves : ∀ side ∈ fine.sides, mesh.IsHalf side := fun side => hfine.isHalf_of_segment
  have hsides := hfine.splitsSides (fun cell _ => cell.nodup_sides_segment)
    fun side hside => .inl (hhalves side hside)
  exact ⟨fine, round, hrefine, hafter, h, hafter, hsides, hhalves, hfine.keepsDegrees,
    hsides.cellsWith_le_one, hsides.closed, hfine.balanced⟩

/-- Cells meet along whole sides and in corners, and every round keeps it so. The boundary of the
refined mesh consists of the halves of the old boundary. -/
theorem conforms_at_every_round {m : Manifold α d} (hm : m.HasMidpoints) :
    (∀ (mesh : Mesh α d .triangle) (n : Nat), mesh.Simplicial →
      AtRound m mesh n ConformsTriangles) ∧
    ∀ (mesh : Mesh α d .segment) (n : Nat), mesh.check = .ok () →
      AtRound m mesh n ConformsSegments := by
  constructor
  · intro mesh n h
    exact atRound_of_step (fun _ hmesh => exists_refine_triangles hm hmesh) h n
  · intro mesh n h
    exact atRound_of_step (fun _ hmesh => exists_refine_segments hm hmesh) h n

/-- The boundary of the unit square as a closed chain of segments. -/
def squareOutline : Mesh ℚ 2 .segment where
  vertices := unitSquare.vertices
  cells := [.segment 0 1, .segment 1 2, .segment 2 3, .segment 3 0]

theorem conforms_at_every_round_square :
    (FlatSpace.euclidean : FlatSpace ℚ 2).manifold.HasMidpoints ∧ unitSquare.Simplicial ∧
      AtRound FlatSpace.euclidean.manifold unitSquare 2 ConformsTriangles ∧
      squareOutline.check = .ok () ∧
      AtRound FlatSpace.euclidean.manifold squareOutline 2 ConformsSegments := by
  have hm : (FlatSpace.euclidean : FlatSpace ℚ 2).manifold.HasMidpoints :=
    FlatSpace.bisectsBy_mean.hasMidpoints
  have hsquare : unitSquare.Simplicial := ⟨rfl, by decide, by decide⟩
  have houtline : squareOutline.check = .ok () := rfl
  obtain ⟨htriangles, hsegments⟩ := conforms_at_every_round hm
  exact ⟨hm, hsquare, htriangles unitSquare 2 hsquare, houtline, hsegments squareOutline 2 houtline⟩

end CurvedMesh.Mesh
