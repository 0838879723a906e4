import CurvedMesh.Proofs.ArcAverage

/-!
# Representatives of points in periodic space

In periodic flat space a point may be given by any of its representatives, and unwrapping takes off
one turn at most. So the new point does not depend on the representatives as long as their turns
differ by no more than one; beyond that, the turns left over are averaged into it.
-/

namespace CurvedMesh

open AddCommGroup

namespace Point

variable {α : Type} {d : Nat} [Add α]

/-- The point moved along one axis. -/
def move (p : Point α d) (i : Fin d) (a : α) : Point α d :=
  p.set i.val (p.get i + a) i.isLt

theorem get_move_self (p : Point α d) (i : Fin d) (a : α) : (p.move i a).get i = p.get i + a :=
  Vector.getElem_set_self i.isLt

theorem get_move_of_ne (p : Point α d) {i j : Fin d} (h : j ≠ i) (a : α) :
    (p.move i a).get j = p.get j :=
  Vector.getElem_set_ne i.isLt j.isLt fun heq => h (Fin.ext heq.symm)

end Point

variable {K : Type} {d : Nat}

namespace Period

/-- The same lifts with more turns. -/
def addTurns (entries : List (K × ℤ)) (turns : List ℤ) : List (K × ℤ) :=
  List.zipWith (fun entry k => (entry.1, entry.2 + k)) entries turns

variable {entries : List (K × ℤ)} {turns : List ℤ}

theorem length_addTurns (h : turns.length = entries.length) :
    (addTurns entries turns).length = entries.length := by
  rw [addTurns, List.length_zipWith, h, min_self]

theorem map_fst_addTurns (h : turns.length = entries.length) :
    (addTurns entries turns).map Prod.fst = entries.map Prod.fst := by
  refine List.ext_getElem (by simp [length_addTurns h]) fun n _ _ => ?_
  simp only [addTurns, List.getElem_map, List.getElem_zipWith]

theorem map_snd_addTurns : (addTurns entries turns).map Prod.snd =
    List.zipWith (· + ·) (entries.map Prod.snd) turns := by
  rw [addTurns, List.map_zipWith, List.zipWith_map_left]

end Period

variable [Field K]

namespace WeightedPoints

/-- Each point moved along one axis by some whole periods. -/
def turn (q : WeightedPoints K d) (i : Fin d) (P : K) (turns : List ℤ) : WeightedPoints K d :=
  ⟨q.weights, List.zipWith (fun p k => p.move i (k * P)) q.points turns⟩

variable {q : WeightedPoints K d} {i : Fin d} {turns : List ℤ}

theorem length_points_turn (h : turns.length = q.points.length) (P : K) :
    (q.turn i P turns).points.length = q.points.length := by
  rw [turn, List.length_zipWith, h, min_self]

theorem map_get_turn_of_ne {j : Fin d} (hj : j ≠ i) (h : turns.length = q.points.length) (P : K) :
    (q.turn i P turns).points.map (·.get j) = q.points.map (·.get j) := by
  unfold turn
  refine List.ext_getElem (by simp [h]) fun n _ _ => ?_
  simp only [List.getElem_map, List.getElem_zipWith, Point.get_move_of_ne _ hj]

theorem map_get_turn {P : K} {entries : List (K × ℤ)}
    (h : q.points.map (·.get i) = entries.map (Period.turned P)) (turns : List ℤ) :
    (q.turn i P turns).points.map (·.get i) =
      (Period.addTurns entries turns).map (Period.turned P) := by
  have hmoved := congrArg (fun xs => List.zipWith (fun x (k : ℤ) => x + k * P) xs turns) h
  simp only [List.zipWith_map_left] at hmoved
  unfold turn Period.addTurns
  simp only [List.map_zipWith, Point.get_move_self, hmoved, Period.turned, Int.cast_add, add_mul,
    add_assoc]

end WeightedPoints

variable [LinearOrder K] [FloorRing K] [IsStrictOrderedRing K]

theorem Chart.get_average_turn {periodicity : Point K d} {i : Fin d} (hP : 0 < periodicity.get i)
    {q : WeightedPoints K d} (hq : q.WellFormed) (hsum : q.weights.sum = 1)
    {entries : List (K × ℤ)}
    (hentries : q.points.map (·.get i) = entries.map (Period.turned (periodicity.get i)))
    (hnear : Period.ShortArc (periodicity.get i) (entries.map Prod.fst)) {turns : List ℤ}
    (hturns : turns.length = entries.length) :
    (average periodicity q.weights (q.turn i (periodicity.get i) turns).points).get i =
      Period.wrap (periodicity.get i) ((List.zipWith (· * ·) q.weights (entries.map Prod.fst)).sum +
        Period.excess q.weights (List.zipWith (· + ·) (entries.map Prod.snd) turns) *
          periodicity.get i) := by
  have hlength : q.weights.length = (Period.addTurns entries turns).length := by
    rw [Period.length_addTurns hturns, hq.1]
    simpa using congrArg List.length hentries
  rw [← Period.map_fst_addTurns hturns] at hnear ⊢
  rw [get_average_of_pos hP, WeightedPoints.map_get_turn hentries,
    Period.average_turned hP hsum hlength hnear, Period.map_snd_addTurns]

namespace FlatSpace

theorem place_eq_average {α : Type} [Scalar α] (f : FlatSpace α d) {q : WeightedPoints α d}
    (hq : q.WellFormed) :
    f.manifold.place q = .ok { point := Chart.average f.periodicity q.weights q.points } := by
  have hread : f.chart.Reads q.points q.points := rfl
  have hplace := Chart.place_of_reads hq hread
  simp only [manifold, hplace]
  rfl

/-- The new point is the same for all representatives whose turns differ by one at most. The turns
beyond that are averaged with the points, and it is the same exactly if they change the average by
whole turns. -/
theorem place_turn_eq_iff (f : FlatSpace K d) {i : Fin d} (hP : 0 < f.periodicity.get i)
    {q : WeightedPoints K d} (hq : q.WellFormed) (hsum : q.weights.sum = 1)
    {entries : List (K × ℤ)}
    (hentries : q.points.map (·.get i) = entries.map (Period.turned (f.periodicity.get i)))
    (hnear : Period.ShortArc (f.periodicity.get i) (entries.map Prod.fst)) {turns : List ℤ}
    (hlength : turns.length = q.points.length) :
    ∃ p p', f.manifold.place q = .ok { point := p } ∧
      f.manifold.place (q.turn i (f.periodicity.get i) turns) = .ok { point := p' } ∧
      (p' = p ↔ ∃ n : ℤ,
        Period.excess q.weights (List.zipWith (· + ·) (entries.map Prod.snd) turns) =
          Period.excess q.weights (entries.map Prod.snd) + n) ∧
      (Period.OneTurn (entries.map Prod.snd) →
        Period.OneTurn (List.zipWith (· + ·) (entries.map Prod.snd) turns) → p' = p) := by
  have hcount : q.points.length = entries.length := by
    simpa using congrArg List.length hentries
  set q' := q.turn i (f.periodicity.get i) turns
  have hq' : q'.WellFormed := hq.of_weights rfl (WeightedPoints.length_points_turn hlength _)
  set p := Chart.average f.periodicity q.weights q.points
  set p' := Chart.average f.periodicity q.weights q'.points
  have hother : ∀ j ≠ i, p'.get j = p.get j := fun j hj =>
    Chart.get_average_congr (WeightedPoints.map_get_turn_of_ne hj hlength _)
  have hsame : p' = p ↔ ∃ n : ℤ,
      Period.excess q.weights (List.zipWith (· + ·) (entries.map Prod.snd) turns) =
        Period.excess q.weights (entries.map Prod.snd) + n := by
    rw [Point.eq_iff_of_other_axes hother,
      Chart.get_average_turn hP hq hsum hentries hnear (hlength.trans hcount),
      Chart.get_average_of_pos hP, hentries,
      Period.average_turned hP hsum (hq.1.trans hcount) hnear, Period.wrap_add_mul_eq_iff hP]
  refine ⟨p, p', f.place_eq_average hq, f.place_eq_average hq', hsame, fun hfew hfew' => ?_⟩
  refine hsame.2 ⟨0, ?_⟩
  rw [Period.excess_eq_zero hfew, Period.excess_eq_zero hfew', Int.cast_zero, add_zero]

theorem place_turn_eq_iff_one :
    0 < (⟨#v[1]⟩ : FlatSpace ℚ 1).periodicity.get 0 ∧
      (.halves 0 0 : WeightedPoints ℚ 1).WellFormed ∧
      (.halves 0 0 : WeightedPoints ℚ 1).weights.sum = 1 ∧
      (.halves 0 0 : WeightedPoints ℚ 1).points.map (·.get 0) =
        ([(0, 0), (0, 0)] : List (ℚ × ℤ)).map (Period.turned 1) ∧
      Period.ShortArc (1 : ℚ) [0, 0] ∧
      ∃ p, (⟨#v[1]⟩ : FlatSpace ℚ 1).manifold.place (.halves 0 0) = .ok { point := p } ∧
        (⟨#v[1]⟩ : FlatSpace ℚ 1).manifold.place
          ((.halves 0 0 : WeightedPoints ℚ 1).turn 0 1 [0, 1]) = .ok { point := p } := by
  have hP : 0 < (⟨#v[1]⟩ : FlatSpace ℚ 1).periodicity.get 0 := by decide +kernel
  have hq : (.halves 0 0 : WeightedPoints ℚ 1).WellFormed :=
    WeightedPoints.check_eq_ok_iff.1 (WeightedPoints.check_halves 0 0)
  have hsum : (.halves 0 0 : WeightedPoints ℚ 1).weights.sum = 1 := by decide +kernel
  have hentries : (.halves 0 0 : WeightedPoints ℚ 1).points.map (·.get 0) =
      ([(0, 0), (0, 0)] : List (ℚ × ℤ)).map (Period.turned 1) := by decide +kernel
  have hnear : Period.ShortArc (1 : ℚ) [0, 0] := ⟨0, 0, by decide +kernel, by decide +kernel⟩
  have hlength : [(0 : ℤ), 1].length = (.halves 0 0 : WeightedPoints ℚ 1).points.length := rfl
  obtain ⟨p, p', hplace, hplace', -, hsame⟩ :=
    place_turn_eq_iff ⟨#v[1]⟩ hP hq hsum hentries hnear hlength
  rw [hsame (by unfold Period.OneTurn; decide +kernel) (by unfold Period.OneTurn; decide +kernel)]
    at hplace'
  exact ⟨hP, hq, hsum, hentries, hnear, p, hplace, hplace'⟩

/-- A point and the same point two turns on meet on the other side of the circle. -/
theorem exists_place_turn_ne :
    0 < (⟨#v[1]⟩ : FlatSpace ℚ 1).periodicity.get 0 ∧
      (.halves 0 0 : WeightedPoints ℚ 1).WellFormed ∧
      (.halves 0 0 : WeightedPoints ℚ 1).weights.sum = 1 ∧
      (.halves 0 0 : WeightedPoints ℚ 1).points.map (·.get 0) =
        ([(0, 0), (0, 0)] : List (ℚ × ℤ)).map (Period.turned 1) ∧
      Period.ShortArc (1 : ℚ) [0, 0] ∧
      (⟨#v[1]⟩ : FlatSpace ℚ 1).manifold.place (.halves 0 0) = .ok { point := #v[0] } ∧
      (⟨#v[1]⟩ : FlatSpace ℚ 1).manifold.place
        ((.halves 0 0 : WeightedPoints ℚ 1).turn 0 1 [0, 2]) = .ok { point := #v[1 / 2] } := by
  have hq : (.halves 0 0 : WeightedPoints ℚ 1).WellFormed :=
    WeightedPoints.check_eq_ok_iff.1 (WeightedPoints.check_halves 0 0)
  have hq' : ((.halves 0 0 : WeightedPoints ℚ 1).turn 0 1 [0, 2]).WellFormed :=
    hq.of_weights rfl rfl
  have hpoint : Chart.average (#v[1] : Point ℚ 1) [Scalar.half, Scalar.half] [0, 0] = #v[0] := by
    decide +kernel
  have hpoint' : Chart.average (#v[1] : Point ℚ 1) [Scalar.half, Scalar.half]
      ((.halves 0 0 : WeightedPoints ℚ 1).turn 0 1 [0, 2]).points = #v[1 / 2] := by
    decide +kernel
  refine ⟨by decide +kernel, hq, by decide +kernel, by decide +kernel, ⟨0, 0, ?_⟩, ?_, ?_⟩
  · decide +kernel
  · rw [place_eq_average _ hq, ← hpoint]
    rfl
  · rw [place_eq_average _ hq', ← hpoint']
    rfl

end FlatSpace

end CurvedMesh
