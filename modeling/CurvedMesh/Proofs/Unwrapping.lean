import CurvedMesh.Proofs.CellInvariant
import CurvedMesh.Proofs.ChartAverage
import CurvedMesh.Proofs.Lineage
import CurvedMesh.Proofs.VertexInvariant

/-!
# Refinement across the seam

Periodic flat space is straight space wrapped up. A cell that is short along every periodic axis can
be unwrapped, whether the seam runs through it or not. Refining the unwrapped cell and wrapping the
result gives the descendants of the cell, since wrapping takes the mean of near points to the middle
of the wrapped points.
-/

namespace CurvedMesh

open AddCommGroup

variable {K : Type} [Field K] [LinearOrder K] [FloorRing K] {d : Nat} {s : Shape}

/-! ## Wrapped and unwrapped points -/

namespace FlatSpace

/-- Every periodic coordinate is at or above zero and below the period. -/
def Within (f : FlatSpace K d) (p : Point K d) : Prop :=
  ∀ i, 0 < f.periodicity.get i → 0 ≤ p.get i ∧ p.get i < f.periodicity.get i

/-- The points differ by whole periods on periodic axes and agree on the others. -/
def Lifts (f : FlatSpace K d) (lift p : Point K d) : Prop :=
  ∀ i, (0 < f.periodicity.get i → lift.get i ≡ p.get i [PMOD f.periodicity.get i]) ∧
    (¬ 0 < f.periodicity.get i → lift.get i = p.get i)

/-- Along each periodic axis the points lie in an interval shorter than half the period. -/
def Near (f : FlatSpace K d) (points : List (Point K d)) : Prop :=
  ∀ i, 0 < f.periodicity.get i → ∃ low high, high - low < f.periodicity.get i * Scalar.half ∧
    ∀ p ∈ points, low ≤ p.get i ∧ p.get i ≤ high

variable {f : FlatSpace K d} {p q : Point K d}

theorem Near.subset {points points' : List (Point K d)} (h : f.Near points')
    (hsub : points ⊆ points') : f.Near points := by
  intro i hi
  obtain ⟨low, high, hshort, hmem⟩ := h i hi
  exact ⟨low, high, hshort, fun p hp => hmem p (hsub hp)⟩

variable [IsStrictOrderedRing K]

theorem Lifts.wrap_eq (h : f.Lifts p q) (hq : f.Within q) : Chart.wrap f.periodicity p = q := by
  refine Point.ext_get fun i => ?_
  rw [Chart.get_wrap]
  split
  · rename_i hP
    exact ((Period.eq_wrap_iff hP).2 ⟨hq i hP, ((h i).1 hP).symm⟩).symm
  · rename_i hP
    exact (h i).2 hP

theorem map_wrap_of_forall₂ {lifts points : List (Point K d)}
    (h : List.Forall₂ f.Lifts lifts points) (hwithin : ∀ p ∈ points, f.Within p) :
    lifts.map (Chart.wrap f.periodicity) = points := by
  induction h with
  | nil => rfl
  | cons hlift _ ih =>
    rw [List.forall_mem_cons] at hwithin
    rw [List.map_cons, hlift.wrap_eq hwithin.1, ih hwithin.2]

theorem Near.abs_sub_lt (h : f.Near [p, q]) {i : Fin d} (hP : 0 < f.periodicity.get i) :
    |p.get i - q.get i| < f.periodicity.get i / 2 := by
  obtain ⟨low, high, hshort, hmem⟩ := h i hP
  have hp := hmem p (by simp)
  have hq := hmem q (by simp)
  rw [Scalar.half_eq] at hshort
  rw [abs_lt]
  constructor <;> linarith [hp.1, hp.2, hq.1, hq.2]

theorem Near.middle_wrap (h : f.Near [p, q]) :
    Chart.middle f.periodicity (Chart.wrap f.periodicity p) (Chart.wrap f.periodicity q) =
      Chart.wrap f.periodicity (Point.mean p q) := by
  refine Point.ext_get fun i => ?_
  rw [Chart.get_middle, Chart.get_wrap, Chart.get_wrap, Chart.get_wrap, Point.get_mean,
    Point.get_mean, Chart.get_wrap, Chart.get_wrap]
  split
  · rename_i hP
    exact Period.middle_wrap hP (h.abs_sub_lt hP)
  · rfl

theorem bisectsBy_middle (f : FlatSpace K d) :
    f.manifold.BisectsBy (Chart.middle f.periodicity) := by
  intro p q
  have hread : [p, q].map f.chart.ofSpace = [p, q].map .ok := rfl
  have hplace : f.chart.place (.halves p q) = .ok (Chart.middle f.periodicity p q) :=
    Chart.place_eq_ok_iff.2 ⟨WeightedPoints.check_halves p q, [p, q], hread, rfl⟩
  refine ⟨{ point := Chart.middle f.periodicity p q }, ?_, rfl⟩
  rw [Manifold.midpoint_eq_place]
  simp only [manifold, hplace]
  rfl

theorem ends_midpoint_within (f : FlatSpace K d) (p q : Point K d) :
    Ends (fun _ => False) (fun placement => f.Within placement.point)
      (f.manifold.midpoint p q) := by
  obtain ⟨placement, hok, hpoint⟩ := f.bisectsBy_middle p q
  rw [hok]
  intro i hP
  rw [hpoint, Chart.get_middle, if_pos hP]
  exact Period.middle_mem_Ico hP _ _

end FlatSpace

/-! ## Cells -/

namespace Cell

variable [IsStrictOrderedRing K] {f : FlatSpace K d} {t : Cell (Point K d) s}

theorem near_bisect (h : f.Near t.corners) :
    ∀ part ∈ t.bisect Point.mean, f.Near part.corners := by
  intro part hpart i hP
  obtain ⟨low, high, hshort, hmem⟩ := h i hP
  refine ⟨low, high, hshort, fun x hx => ?_⟩
  rcases mem_corners_bisect hpart hx with hold | ⟨p, hp, q, hq, rfl⟩
  · exact hmem x hold
  · rw [Point.get_mean]
    constructor <;> linarith [hmem p hp, hmem q hq]

theorem bisect_map_wrap (h : f.Near t.corners) :
    (t.map (Chart.wrap f.periodicity)).bisect (Chart.middle f.periodicity) =
      (t.bisect Point.mean).map (map (Chart.wrap f.periodicity)) := by
  refine bisect_map fun p hp q hq => FlatSpace.Near.middle_wrap (h.subset ?_)
  simp [hp, hq]

end Cell

namespace Mesh

variable [IsStrictOrderedRing K] {f : FlatSpace K d}

theorem iterate_subdivide_map_wrap (n : Nat) {soup : List (Cell (Point K d) s)}
    (h : ∀ t ∈ soup, f.Near t.corners) :
    (subdivide (Chart.middle f.periodicity))^[n] (soup.map (Cell.map (Chart.wrap f.periodicity))) =
      ((subdivide Point.mean)^[n] soup).map (Cell.map (Chart.wrap f.periodicity)) := by
  induction n generalizing soup with
  | zero => rfl
  | succ n ih =>
    have hnext : subdivide (Chart.middle f.periodicity)
        (soup.map (Cell.map (Chart.wrap f.periodicity))) =
          (subdivide Point.mean soup).map (Cell.map (Chart.wrap f.periodicity)) := by
      rw [subdivide, List.flatMap_map, subdivide, List.map_flatMap]
      exact List.flatMap_congr fun t ht => Cell.bisect_map_wrap (h t ht)
    rw [Function.iterate_succ_apply, hnext, Function.iterate_succ_apply]
    apply ih
    -- parts are no longer than their cell, so the next round starts from near corners again
    intro part hpart
    obtain ⟨t, ht, hpart⟩ := List.mem_flatMap.1 hpart
    exact Cell.near_bisect (h t ht) part hpart

/-! ## Refined meshes -/

/-- Where a cell has a lift with near corners, its block of descendants is the refined lift, wrapped
up again. -/
theorem refineTimes_unwrapped (f : FlatSpace K d) {mesh : Mesh K d s} (hcheck : mesh.check = .ok ())
    (hwithin : mesh.ReferencedIn f.Within) (n : Nat) :
    ∃ fine rounds soup, mesh.refineTimes f.manifold n = .ok (fine, rounds) ∧
      fine.soup? = some soup ∧ (1 ≤ n → fine.VerticesIn f.Within) ∧
      ∀ i cell points (lift : Cell (Point K d) s) (single : Mesh K d s),
        mesh.cells[i]? = some cell → cell.points? mesh.vertices = some points →
        List.Forall₂ f.Lifts lift.corners points.corners → f.Near lift.corners →
        single.soup? = some [lift] →
        (∀ k, Descends f.manifold n mesh i k ↔
          i * s.parts ^ n ≤ k ∧ k < (i + 1) * s.parts ^ n) ∧
        ∃ unwrapped rounds' pieces,
          single.refineTimes FlatSpace.euclidean.manifold n = .ok (unwrapped, rounds') ∧
          unwrapped.soup? = some pieces ∧ pieces.length = s.parts ^ n ∧
          (soup.drop (i * s.parts ^ n)).take (s.parts ^ n) =
            pieces.map (Cell.map (Chart.wrap f.periodicity)) := by
  have hvalid := check_eq_ok_iff.1 hcheck
  obtain ⟨soup, hsoup⟩ := exists_soup hvalid
  obtain ⟨fine, rounds, htimes, hfine⟩ :=
    exists_refineTimes_soup (FlatSpace.bisectsBy_middle f) (Chart.middle_comm f.periodicity) hsoup n
  refine ⟨fine, rounds, _, htimes, hfine, fun hn => ?_, ?_⟩
  · have hrun := hwithin.ends_refineTimes (fun p q _ _ => f.ends_midpoint_within p q) hvalid hn
    rw [htimes] at hrun
    exact hrun.2
  · intro i cell points lift single hcell hpoints hlifts hnear hsingle
    have hi := (List.getElem?_eq_some_iff.1 hcell).1
    have hwrap : lift.map (Chart.wrap f.periodicity) = points := by
      apply Cell.corners_injective
      rw [Cell.corners_map]
      exact FlatSpace.map_wrap_of_forall₂ hlifts fun p hp =>
        hwithin.of_mem_corners (List.mem_of_getElem? hcell) hpoints hp
    have hat : soup[i]? = some points := by
      have hentry := congrArg (·[i]?) (mapM_eq_some_iff.1 hsoup)
      simpa [hcell, hpoints] using hentry.symm
    obtain ⟨unwrapped, rounds', htimes', hunwrapped⟩ :=
      exists_refineTimes_soup FlatSpace.bisectsBy_mean Point.mean_comm hsingle n
    refine ⟨fun k => ?_, unwrapped, rounds', _, htimes', hunwrapped, ?_, ?_⟩
    · rw [descends_iff_block htimes, and_iff_right hi]
    · rw [length_iterate_subdivide, List.length_singleton, Nat.mul_one]
    · rw [take_drop_iterate_subdivide n hat, ← hwrap]
      exact iterate_subdivide_map_wrap n (List.forall_mem_singleton.2 hnear)

def cylinder (circumference : ℚ) : FlatSpace ℚ 2 where
  periodicity := #v[circumference, 0]

/-- The segment that climbs from `(x, 0)` to `(y, 1)`. -/
def climb (x y : ℚ) : Mesh ℚ 2 .segment where
  vertices := #[#v[x, 0], #v[y, 1]]
  cells := [.segment 0 1]

/-- From `9 / 10` across the seam to `1 / 10`. -/
theorem refineTimes_unwrapped_seam :
    (climb (9 / 10) (1 / 10)).check = .ok () ∧
      (climb (9 / 10) (1 / 10)).ReferencedIn (cylinder 1).Within ∧
      List.Forall₂ (cylinder 1).Lifts
        [#v[9 / 10, 0], #v[11 / 10, 1]] [#v[9 / 10, 0], #v[1 / 10, 1]] ∧
      (cylinder 1).Near [#v[9 / 10, 0], #v[11 / 10, 1]] ∧
      ∃ fine rounds soup unwrapped rounds' pieces,
        (climb (9 / 10) (1 / 10)).refineTimes (cylinder 1).manifold 2 = .ok (fine, rounds) ∧
        fine.soup? = some soup ∧ fine.VerticesIn (cylinder 1).Within ∧
        (climb (9 / 10) (11 / 10)).refineTimes FlatSpace.euclidean.manifold 2 =
          .ok (unwrapped, rounds') ∧
        unwrapped.soup? = some pieces ∧ pieces.length = 4 ∧
        (soup.drop 0).take 4 = pieces.map (Cell.map (Chart.wrap (cylinder 1).periodicity)) := by
  have hcheck : (climb (9 / 10) (1 / 10)).check = .ok () := rfl
  have hwithin : (climb (9 / 10) (1 / 10)).ReferencedIn (cylinder 1).Within := by
    intro i hi p hp j hP
    have hcorner : i = 0 ∨ i = 1 := by simpa [mem_referenced, climb, Cell.corners] using hi
    rcases hcorner with rfl | rfl <;> cases hp <;> fin_cases j
    · exact ⟨by decide +kernel, by decide +kernel⟩
    · exact absurd hP (lt_irrefl 0)
    · exact ⟨by decide +kernel, by decide +kernel⟩
    · exact absurd hP (lt_irrefl 0)
  have hlifts : List.Forall₂ (cylinder 1).Lifts
      [#v[9 / 10, 0], #v[11 / 10, 1]] [#v[9 / 10, 0], #v[1 / 10, 1]] := by
    refine .cons (fun j => ⟨fun _ => modEq_rfl, fun _ => rfl⟩) (.cons (fun j => ?_) .nil)
    fin_cases j
    · refine ⟨fun _ => modEq_iff_nsmul.2 ⟨0, 1, ?_⟩, fun hP => absurd zero_lt_one hP⟩
      decide +kernel
    · exact ⟨fun hP => absurd hP (lt_irrefl 0), fun _ => rfl⟩
  have hnear : (cylinder 1).Near [#v[9 / 10, 0], #v[11 / 10, 1]] := by
    intro j hP
    fin_cases j
    · refine ⟨9 / 10, 11 / 10, by decide +kernel, List.forall_mem_cons.2 ⟨?_, ?_⟩⟩
      · decide +kernel
      · exact List.forall_mem_singleton.2 (by decide +kernel)
    · exact absurd hP (lt_irrefl 0)
  refine ⟨hcheck, hwithin, hlifts, hnear, ?_⟩
  obtain ⟨fine, rounds, soup, htimes, hsoup, hfine, hcells⟩ :=
    refineTimes_unwrapped (cylinder 1) hcheck hwithin 2
  obtain ⟨-, unwrapped, rounds', pieces, htimes', hpieces, hlength, hblock⟩ :=
    hcells 0 _ _ (.segment #v[9 / 10, 0] #v[11 / 10, 1]) (climb (9 / 10) (11 / 10)) rfl rfl hlifts
      hnear rfl
  exact ⟨fine, rounds, soup, unwrapped, rounds', pieces, htimes, hsoup, hfine (by decide), htimes',
    hpieces, hlength, hblock⟩

end Mesh

end CurvedMesh
