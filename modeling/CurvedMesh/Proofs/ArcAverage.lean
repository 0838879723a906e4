import CurvedMesh.Proofs.Unwrapping

/-!
# Averages on a short arc

Points whose coordinates on a periodic axis lie on an arc shorter than half the period are averaged
along that arc, wherever the seam cuts it. So turning all of them by the same amount turns the
average with them.
-/

namespace CurvedMesh

open AddCommGroup

theorem WeightedPoints.WellFormed.of_weights {α : Type} {d : Nat} [Scalar α]
    {q q' : WeightedPoints α d} (h : q.WellFormed) (hweights : q'.weights = q.weights)
    (hpoints : q'.points.length = q.points.length) : q'.WellFormed := by
  unfold WellFormed
  rw [hweights, hpoints]
  exact h

namespace Chart

section

variable {α : Type} {d : Nat}

/-- The chart points of the given points of space. -/
def Reads (c : Chart α d) (points chartPoints : List (Point α d)) : Prop :=
  points.map c.ofSpace = chartPoints.map .ok

theorem Reads.length_eq {c : Chart α d} {points chartPoints : List (Point α d)}
    (h : c.Reads points chartPoints) : points.length = chartPoints.length := by
  simpa using congrArg List.length h

variable [Scalar α]

theorem place_of_reads {c : Chart α d} {q : WeightedPoints α d} {points : List (Point α d)}
    (hq : q.WellFormed) (hread : c.Reads q.points points) :
    c.place q = (c.toSpace (average c.periodicity q.weights points)).mapError Fault.chart := by
  unfold place
  rw [WeightedPoints.check_eq_ok_iff.2 hq, mapM_eq_ok_iff.2 hread]
  rfl

end

variable {K : Type} [Field K] [LinearOrder K] [FloorRing K] [IsStrictOrderedRing K] {d : Nat}

/-- The average lies at the average of the lifts, and turns with the points. -/
theorem average_on_short_arc (c : Chart K d) {i : Fin d} (hP : 0 < c.periodicity.get i)
    {q : WeightedPoints K d} (hq : q.WellFormed) (hsum : q.weights.sum = 1)
    {points : List (Point K d)} (hread : c.Reads q.points points)
    (hwithin : ∀ p ∈ points, p.get i ∈ Set.Ico 0 (c.periodicity.get i)) {lifts : List K}
    (hlifts : List.Forall₂ (· ≡ · [PMOD c.periodicity.get i]) lifts (points.map (·.get i)))
    (hnear : Period.ShortArc (c.periodicity.get i) lifts) :
    c.place q = (c.toSpace (average c.periodicity q.weights points)).mapError Fault.chart ∧
    (∀ x, x = (average c.periodicity q.weights points).get i ↔
      x ∈ Set.Ico 0 (c.periodicity.get i) ∧
        x ≡ (List.zipWith (· * ·) q.weights lifts).sum [PMOD c.periodicity.get i]) ∧
    ∀ (t : K) (q' : WeightedPoints K d) (points' : List (Point K d)), q'.weights = q.weights →
      c.Reads q'.points points' →
      points'.map (·.get i) =
        points.map (fun p => Period.wrap (c.periodicity.get i) (p.get i + t)) →
      c.place q' = (c.toSpace (average c.periodicity q'.weights points')).mapError Fault.chart ∧
      (average c.periodicity q'.weights points').get i =
        Period.wrap (c.periodicity.get i)
          ((average c.periodicity q.weights points).get i + t) := by
  have hlength : q.weights.length = (points.map (·.get i)).length := by
    rw [hq.1, hread.length_eq, List.length_map]
  have hcoordinates := List.forall_mem_map.2 hwithin
  refine ⟨place_of_reads hq hread, fun x => ?_, fun t q' points' hweights hread' hturned => ?_⟩
  · rw [get_average_of_pos hP, Period.average_of_lifts hP hsum hlength hcoordinates hlifts hnear]
    exact Period.eq_wrap_iff hP
  · have hsame : q'.points.length = q.points.length := by
      rw [hread'.length_eq, hread.length_eq]
      simpa using congrArg List.length hturned
    refine ⟨place_of_reads (hq.of_weights hweights hsame) hread', ?_⟩
    rw [get_average_of_pos hP, get_average_of_pos hP, hweights, hturned,
      ← Period.average_wrap_add hP hsum hlength hcoordinates hlifts hnear, List.map_map]
    rfl

theorem average_on_short_arc_seam :
    0 < (Mesh.cylinder 1).chart.periodicity.get 0 ∧
      (⟨[1 / 4, 3 / 4], [#v[9 / 10, 0], #v[1 / 10, 1]]⟩ : WeightedPoints ℚ 2).WellFormed ∧
      ([1 / 4, 3 / 4] : List ℚ).sum = 1 ∧
      (Mesh.cylinder 1).chart.Reads [#v[9 / 10, 0], #v[1 / 10, 1]] [#v[9 / 10, 0], #v[1 / 10, 1]] ∧
      (∀ p ∈ ([#v[9 / 10, 0], #v[1 / 10, 1]] : List (Point ℚ 2)), p.get 0 ∈ Set.Ico 0 1) ∧
      List.Forall₂ (· ≡ · [PMOD 1]) ([9 / 10, 11 / 10] : List ℚ) [9 / 10, 1 / 10] ∧
      Period.ShortArc (1 : ℚ) [9 / 10, 11 / 10] ∧
      (average (Mesh.cylinder 1).periodicity [1 / 4, 3 / 4] [#v[9 / 10, 0], #v[1 / 10, 1]]).get 0 =
        1 / 20 ∧
      (average (Mesh.cylinder 1).periodicity [1 / 4, 3 / 4] [#v[1 / 5, 0], #v[2 / 5, 1]]).get 0 =
        7 / 20 := by
  have hP : 0 < (Mesh.cylinder 1).chart.periodicity.get 0 := by decide +kernel
  have hq : (⟨[1 / 4, 3 / 4], [#v[9 / 10, 0], #v[1 / 10, 1]]⟩ :
      WeightedPoints ℚ 2).WellFormed := ⟨rfl, by simp, by decide +kernel⟩
  have hsum : ([1 / 4, 3 / 4] : List ℚ).sum = 1 := by decide +kernel
  have hread : (Mesh.cylinder 1).chart.Reads [#v[9 / 10, 0], #v[1 / 10, 1]]
      [#v[9 / 10, 0], #v[1 / 10, 1]] := rfl
  have hwithin : ∀ p ∈ ([#v[9 / 10, 0], #v[1 / 10, 1]] : List (Point ℚ 2)),
      p.get 0 ∈ Set.Ico 0 1 :=
    List.forall_mem_cons.2 ⟨by decide +kernel, List.forall_mem_singleton.2 (by decide +kernel)⟩
  have hlifts : List.Forall₂ (· ≡ · [PMOD 1]) ([9 / 10, 11 / 10] : List ℚ) [9 / 10, 1 / 10] := by
    refine .cons modEq_rfl (.cons (modEq_iff_zsmul.2 ⟨-1, ?_⟩) .nil)
    norm_num
  have hnear : Period.ShortArc (1 : ℚ) [9 / 10, 11 / 10] :=
    ⟨9 / 10, 11 / 10, by decide +kernel, by decide +kernel⟩
  obtain ⟨-, haverage, hturned⟩ :=
    average_on_short_arc (Mesh.cylinder 1).chart hP hq hsum hread hwithin hlifts hnear
  have hfirst := (haverage (1 / 20)).2 ⟨by decide +kernel, modEq_iff_zsmul.2 ⟨1, by decide +kernel⟩⟩
  refine ⟨hP, hq, hsum, hread, hwithin, hlifts, hnear, hfirst.symm, ?_⟩
  have hsecond := (hturned (3 / 10) ⟨[1 / 4, 3 / 4], [#v[1 / 5, 0], #v[2 / 5, 1]]⟩
    [#v[1 / 5, 0], #v[2 / 5, 1]] rfl rfl (by decide +kernel)).2
  rw [← hfirst] at hsecond
  rw [← show Period.wrap (1 : ℚ) (1 / 20 + 3 / 10) = 7 / 20 by decide +kernel]
  exact hsecond

end Chart

end CurvedMesh
