import CurvedMesh.Proofs.ChartAverage
import CurvedMesh.Proofs.Floats

/-!
# One axis after the other

The average in a chart can be formed in place: one pass over the points for each periodic axis, then
the weighted sum of the points, then one step on the sum for each periodic axis. A pass for one axis
leaves the coordinates on the others as they are, so each axis ends up as if it were the only one.
-/

namespace CurvedMesh

theorem read_foldl {ι σ β : Type} [DecidableEq ι] (read : ι → σ → β) {step : σ → ι → σ}
    (f : ι → β → β) (hself : ∀ s i, read i (step s i) = f i (read i s))
    (hother : ∀ s {i j}, j ≠ i → read j (step s i) = read j s) {parts : List ι}
    (hnodup : parts.Nodup) (s : σ) (i : ι) :
    read i (parts.foldl step s) = if i ∈ parts then f i (read i s) else read i s := by
  induction parts generalizing s with
  | nil => rfl
  | cons j parts ih =>
    obtain ⟨hj, hnodup⟩ := List.nodup_cons.1 hnodup
    rw [List.foldl_cons, ih hnodup]
    by_cases hij : i = j
    · subst hij
      rw [if_neg hj, if_pos List.mem_cons_self, hself]
    · rw [hother s hij]
      simp only [List.mem_cons, hij, false_or]

variable {α : Type} {d : Nat}

namespace Point

def setAxis (p : Point α d) (i : Fin d) (a : α) : Point α d :=
  p.set i.val a i.isLt

theorem get_setAxis_self (p : Point α d) (i : Fin d) (a : α) : (p.setAxis i a).get i = a :=
  Vector.getElem_set_self i.isLt

theorem get_setAxis_of_ne (p : Point α d) {i j : Fin d} (h : j ≠ i) (a : α) :
    (p.setAxis i a).get j = p.get j :=
  Vector.getElem_set_ne i.isLt j.isLt fun heq => h (Fin.ext heq.symm)

end Point

variable [Scalar α]

/-! ## A single axis -/

namespace Period

def unwrapIfPeriodic (period : α) (xs : List α) : List α :=
  if 0 < period then unwrapAll period xs else xs

def wrapIfPeriodic (period x : α) : α :=
  if 0 < period then wrap period x else x

/-- The weighted average of the coordinates on an axis, which may be a circle or a line. -/
def averageOnAxis (period : α) (weights xs : List α) : α :=
  wrapIfPeriodic period (Scalar.weightedSum weights (unwrapIfPeriodic period xs))

theorem averageOnAxis_of_not_pos {period : α} (h : ¬ 0 < period) (weights xs : List α) :
    averageOnAxis period weights xs = Scalar.weightedSum weights xs := by
  rw [averageOnAxis, wrapIfPeriodic, if_neg h, unwrapIfPeriodic, if_neg h]

theorem averageOnAxis_of_pos {period : α} (h : 0 < period) (weights xs : List α) :
    averageOnAxis period weights xs = average period weights xs := by
  rw [averageOnAxis, wrapIfPeriodic, if_pos h, unwrapIfPeriodic, if_pos h, average]

theorem wrap_not_out_of_range (hzero : ¬ (0 : α) < 0) {period : α} (hperiod : ¬ period ≤ 0)
    (x : α) : ¬ wrap period x < 0 ∧ ¬ period ≤ wrap period x := by
  -- Both comparisons are made before the coordinate is given out.
  by_cases h : Corrects period x
  · rw [wrap_of_corrects h]
    exact ⟨hzero, hperiod⟩
  · rw [wrap_of_not_corrects h]
    exact ⟨fun hneg => h (.inr hneg), fun hle => h (.inl hle)⟩

end Period

namespace Chart

/-! ## In place -/

/-- Changes the coordinates of the points on one axis. -/
def unwrapAxis (period : α) (i : Fin d) : List (Point α d) → List (Point α d)
  | [] => []
  | p :: points =>
    let low := (points.map (·.get i)).foldl Scalar.lesser (p.get i)
    (p :: points).map fun q => q.setAxis i (Period.unwrap period low (q.get i))

def unwrapPass (periodicity : Point α d) (points : List (Point α d)) (i : Fin d) :
    List (Point α d) :=
  if 0 < periodicity.get i then unwrapAxis (periodicity.get i) i points else points

def wrapStep (periodicity p : Point α d) (i : Fin d) : Point α d :=
  if 0 < periodicity.get i then p.setAxis i (Period.wrap (periodicity.get i) (p.get i)) else p

/-- The weighted average of the points, with the given axes taken in turn. -/
def averageInTurn (axes : List (Fin d)) (periodicity : Point α d) (weights : List α)
    (points : List (Point α d)) : Point α d :=
  axes.foldl (wrapStep periodicity)
    (Point.weightedSum weights (axes.foldl (unwrapPass periodicity) points))

theorem map_get_unwrapAxis_self (period : α) (i : Fin d) (points : List (Point α d)) :
    (unwrapAxis period i points).map (·.get i) =
      Period.unwrapAll period (points.map (·.get i)) := by
  cases points with
  | nil => rfl
  | cons p points =>
    have hmap : Period.unwrapAll period ((p :: points).map (·.get i)) =
        ((p :: points).map (·.get i)).map
          (Period.unwrap period ((points.map (·.get i)).foldl Scalar.lesser (p.get i))) := rfl
    rw [unwrapAxis, hmap, List.map_map, List.map_map]
    exact List.map_congr_left fun q _ => q.get_setAxis_self i _

theorem map_get_unwrapAxis_of_ne (period : α) {i j : Fin d} (h : j ≠ i)
    (points : List (Point α d)) :
    (unwrapAxis period i points).map (·.get j) = points.map (·.get j) := by
  cases points with
  | nil => rfl
  | cons p points =>
    rw [unwrapAxis, List.map_map]
    exact List.map_congr_left fun q _ => q.get_setAxis_of_ne h _

theorem map_get_unwrapPass_self (periodicity : Point α d) (points : List (Point α d)) (i : Fin d) :
    (unwrapPass periodicity points i).map (·.get i) =
      Period.unwrapIfPeriodic (periodicity.get i) (points.map (·.get i)) := by
  unfold unwrapPass Period.unwrapIfPeriodic
  split
  · exact map_get_unwrapAxis_self ..
  · rfl

theorem map_get_unwrapPass_of_ne (periodicity : Point α d) (points : List (Point α d)) {i j : Fin d}
    (h : j ≠ i) : (unwrapPass periodicity points i).map (·.get j) = points.map (·.get j) := by
  unfold unwrapPass
  split
  · exact map_get_unwrapAxis_of_ne _ h points
  · rfl

theorem get_wrapStep_self (periodicity p : Point α d) (i : Fin d) :
    (wrapStep periodicity p i).get i = Period.wrapIfPeriodic (periodicity.get i) (p.get i) := by
  unfold wrapStep Period.wrapIfPeriodic
  split
  · exact p.get_setAxis_self i _
  · rfl

theorem get_wrapStep_of_ne (periodicity p : Point α d) {i j : Fin d} (h : j ≠ i) :
    (wrapStep periodicity p i).get j = p.get j := by
  unfold wrapStep
  split
  · exact p.get_setAxis_of_ne h _
  · rfl

theorem map_get_foldl_unwrapPass (periodicity : Point α d) {axes : List (Fin d)}
    (hnodup : axes.Nodup) {i : Fin d} (hi : i ∈ axes) (points : List (Point α d)) :
    (axes.foldl (unwrapPass periodicity) points).map (·.get i) =
      Period.unwrapIfPeriodic (periodicity.get i) (points.map (·.get i)) := by
  have hrun := read_foldl (fun i (points : List (Point α d)) => points.map (·.get i))
    (fun i => Period.unwrapIfPeriodic (periodicity.get i))
    (map_get_unwrapPass_self periodicity) (map_get_unwrapPass_of_ne periodicity) hnodup points i
  rwa [if_pos hi] at hrun

theorem get_foldl_wrapStep (periodicity : Point α d) {axes : List (Fin d)} (hnodup : axes.Nodup)
    {i : Fin d} (hi : i ∈ axes) (p : Point α d) : (axes.foldl (wrapStep periodicity) p).get i =
      Period.wrapIfPeriodic (periodicity.get i) (p.get i) := by
  have hrun := read_foldl (fun i (p : Point α d) => p.get i)
    (fun i => Period.wrapIfPeriodic (periodicity.get i))
    (get_wrapStep_self periodicity) (get_wrapStep_of_ne periodicity) hnodup p i
  rwa [if_pos hi] at hrun

theorem get_averageInTurn {axes : List (Fin d)} (hnodup : axes.Nodup) {i : Fin d} (hi : i ∈ axes)
    (periodicity : Point α d) (weights : List α) (points : List (Point α d)) :
    (averageInTurn axes periodicity weights points).get i =
      Period.averageOnAxis (periodicity.get i) weights (points.map (·.get i)) := by
  rw [averageInTurn, get_foldl_wrapStep _ hnodup hi, Point.get_weightedSum,
    map_get_foldl_unwrapPass _ hnodup hi, Period.averageOnAxis]

theorem get_average (periodicity : Point α d) (weights : List α) (points : List (Point α d))
    (i : Fin d) : (average periodicity weights points).get i =
      Period.averageOnAxis (periodicity.get i) weights (points.map (·.get i)) := by
  by_cases h : 0 < periodicity.get i
  · rw [get_average_of_pos h, Period.averageOnAxis_of_pos h]
  · rw [get_average_of_not_pos h, Period.averageOnAxis_of_not_pos h]

theorem averageInTurn_eq_average {axes : List (Fin d)} (hnodup : axes.Nodup)
    (hall : ∀ i, i ∈ axes) (periodicity : Point α d) (weights : List α)
    (points : List (Point α d)) :
    averageInTurn axes periodicity weights points = average periodicity weights points :=
  Point.ext_get fun i => by rw [get_averageInTurn hnodup (hall i), get_average]

/-! ## Each axis on its own -/

/-- The average of coordinates in a chart that has no other axis. -/
def averageAlone (period : α) (weights xs : List α) : α :=
  (averageInTurn (List.finRange 1) #v[period] weights (xs.map fun x => #v[x])).get 0

theorem averageAlone_eq (period : α) (weights xs : List α) :
    averageAlone period weights xs = Period.averageOnAxis period weights xs := by
  have hcolumn : (xs.map fun x => #v[x]).map (·.get 0) = xs := by
    rw [List.map_map]
    exact List.map_id xs
  rw [averageAlone, get_averageInTurn (List.nodup_finRange 1) (List.mem_finRange 0), hcolumn]
  rfl

/-- Places a point as `Chart.place` does, with the average formed in place. -/
def placeInTurn (c : Chart α d) (q : WeightedPoints α d) : Except (Fault α) (Point α d) := do
  q.check
  let points ← (q.points.mapM c.ofSpace).mapError Fault.chart
  let mean := averageInTurn (List.finRange d) c.periodicity q.weights points
  (c.toSpace mean).mapError Fault.chart

/-- The chart point that is mapped back has on every axis what that axis alone would give: on a line
the weighted sum, and on a circle a coordinate within the period. Nothing is asked of the scalars
but how zero compares with itself and with a period. -/
theorem place_axis_by_axis (hzero : ¬ (0 : α) < 0) (hperiod : ∀ P : α, 0 < P → ¬ P ≤ 0)
    (c : Chart α d) (q : WeightedPoints α d) :
    c.place q = c.placeInTurn q ∧
    ∀ (points : List (Point α d)) (i : Fin d),
      let x := (averageInTurn (List.finRange d) c.periodicity q.weights points).get i
      x = averageAlone (c.periodicity.get i) q.weights (points.map (·.get i)) ∧
      (¬ 0 < c.periodicity.get i → x = Scalar.weightedSum q.weights (points.map (·.get i))) ∧
      (0 < c.periodicity.get i → ¬ x < 0 ∧ ¬ c.periodicity.get i ≤ x) := by
  have hturn := averageInTurn_eq_average (α := α) (List.nodup_finRange d) List.mem_finRange
  constructor
  · simp only [place, placeInTurn, hturn]
  · intro points i
    simp only [hturn, get_average]
    refine ⟨(averageAlone_eq ..).symm, fun hline => ?_, fun hcircle => ?_⟩
    · exact Period.averageOnAxis_of_not_pos hline ..
    · rw [Period.averageOnAxis_of_pos hcircle]
      exact Period.wrap_not_out_of_range hzero (hperiod _ hcircle) _

theorem place_axis_by_axis_float :
    ¬ (0 : Float) < 0 ∧ (∀ P : Float, 0 < P → ¬ P ≤ 0) ∧ (0 : Float) < 1 ∧
      let x := averageInTurn (List.finRange 2) #v[(1 : Float), 0] [0.5, 0.5]
        [#v[0.875, 0 / 0], #v[0.125, 3]]
      x.get 0 = averageAlone 1 [0.5, 0.5] [0.875, 0.125] ∧ ¬ x.get 0 < 0 ∧ ¬ 1 ≤ x.get 0 ∧
        x.get 1 = Scalar.weightedSum [0.5, 0.5] [0 / 0, 3] := by
  have hzero : ¬ (0 : Float) < 0 := by decide +kernel
  have hone : (0 : Float) < 1 := by decide +kernel
  have hperiod (P : Float) (hP : 0 < P) : ¬ P ≤ 0 := Binary64.not_le_of_lt hP
  obtain ⟨-, haxes⟩ := place_axis_by_axis hzero hperiod ⟨.ok, .ok, #v[(1 : Float), 0]⟩
    ⟨[0.5, 0.5], [#v[0.875, 0 / 0], #v[0.125, 3]]⟩
  have hcircle := haxes [#v[0.875, 0 / 0], #v[0.125, 3]] 0
  have hline := haxes [#v[0.875, 0 / 0], #v[0.125, 3]] 1
  exact ⟨hzero, hperiod, hone, hcircle.1, (hcircle.2.2 hone).1, (hcircle.2.2 hone).2,
    hline.2.1 hzero⟩

end Chart

end CurvedMesh
