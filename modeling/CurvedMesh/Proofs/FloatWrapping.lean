import CurvedMesh.Proofs.FloatArithmetic
import CurvedMesh.Proofs.ReadBack
import CurvedMesh.Proofs.Representatives

/-!
# Wrapping floats

No quotient, product or difference of a finite coordinate and a finite period is without a value,
and where they overflow or are rounded the last comparison catches what is out of range. So wrapping
a finite coordinate ends in range for every finite period. An infinite period is positive too, and
flat space takes it, but it is multiplied by a quotient of zero.
-/

namespace CurvedMesh

open Binary64

namespace Period

theorem wrap_in_range {period value : Float} (hfinite : isFinite period) (hpos : 0 < period)
    (hvalue : isFinite value) : 0 ≤ wrap period value ∧ wrap period value < period := by
  have hfloor := not_isNaN_floor (not_isNaN_div hvalue hpos)
  have hwrapped : ¬ (remainder period value).isNaN :=
    not_isNaN_sub hvalue (not_isNaN_mul hfinite hpos hfloor)
  have hzero : ¬ (0 : Float).isNaN := by decide
  by_cases h : Corrects period value
  · rw [wrap_of_corrects h]
    exact ⟨by decide, hpos⟩
  · rw [wrap_of_not_corrects h]
    exact ⟨le_of_not_lt hzero hwrapped fun hneg => h (.inr hneg),
      lt_of_not_le hwrapped (not_isNaN_of_lt hpos).2 fun hle => h (.inl hle)⟩

theorem isNaN_wrap {period value : Float} (hinfinite : ¬ isFinite period) (hpos : 0 < period)
    (hvalue : isFinite value) : (wrap period value).isNaN := by
  have hperiod : period.toModel.unpack = .infinity .positive := by
    refine (unpack_of_pos hpos).resolve_right ?_
    rintro ⟨m, e, hm, h⟩
    rw [isFinite_iff, h] at hinfinite
    exact hinfinite rfl
  obtain ⟨s, hquotient⟩ := unpack_div_infinity hvalue hperiod
  have hnan : (remainder period value).isNaN :=
    isNaN_sub (isNaN_mul hperiod (unpack_floor_of_zero hquotient))
  -- what is not a number passes both comparisons
  have hpasses : ¬ Corrects period value := by
    rintro (hle | hneg)
    · exact (not_isNaN_of_le hle).2 hnan
    · exact (not_isNaN_of_lt hneg).1 hnan
  rw [wrap_of_not_corrects hpasses]
  exact hnan

theorem wrap_in_range_iff {period value : Float} (hpos : 0 < period) (hvalue : isFinite value) :
    (0 ≤ wrap period value ∧ wrap period value < period) ↔ isFinite period := by
  constructor
  · intro hrange
    by_contra hinfinite
    exact (not_isNaN_of_lt hrange.2).1 (isNaN_wrap hinfinite hpos hvalue)
  · intro hfinite
    exact wrap_in_range hfinite hpos hvalue

theorem isNaN_wrap_iff {period value : Float} (hpos : 0 < period) (hvalue : isFinite value) :
    (wrap period value).isNaN ↔ ¬ isFinite period := by
  constructor
  · intro hnan hfinite
    exact (not_isNaN_of_lt (wrap_in_range hfinite hpos hvalue).2).1 hnan
  · intro hinfinite
    exact isNaN_wrap hinfinite hpos hvalue

end Period

namespace WeightedPoints

def lone (x : Float) : WeightedPoints Float 1 := ⟨[1], [#v[x]]⟩

theorem wellFormed_lone (x : Float) : (lone x).WellFormed :=
  check_eq_ok_iff.1 rfl

end WeightedPoints

namespace FlatSpace

variable {d : Nat}

/-- The weighted sum of the points, once they are moved next to each other and before the result is
wrapped. -/
def unwrappedSum (f : FlatSpace Float d) (q : WeightedPoints Float d) : Point Float d :=
  Point.weightedSum q.weights (Chart.unwrap f.periodicity q.points)

theorem isNaN_get_average_iff (f : FlatSpace Float d) (q : WeightedPoints Float d) {i : Fin d}
    (hsum : isFinite ((f.unwrappedSum q).get i)) :
    ((Chart.average f.periodicity q.weights q.points).get i).isNaN ↔
      0 < f.periodicity.get i ∧ ¬ isFinite (f.periodicity.get i) := by
  rw [Chart.average, Chart.get_wrap]
  split
  · rename_i hpos
    rw [and_iff_right hpos]
    exact Period.isNaN_wrap_iff hpos hsum
  · rename_i hline
    exact iff_of_false (not_isNaN_of_isFinite hsum) fun h => hline h.1

/-- On each axis that is treated as periodic, a finite coordinate is wrapped into the range unless
the period is infinite. -/
theorem wrapped_iff_finite {p : Point Float d} {f : FlatSpace Float d}
    (hf : ofPeriodicity p = .ok f) :
    (∀ i, 0 < p.get i → ∀ value, isFinite value →
      ((0 ≤ Period.wrap (p.get i) value ∧ Period.wrap (p.get i) value < p.get i) ↔
        isFinite (p.get i)) ∧
      ((Period.wrap (p.get i) value).isNaN ↔ ¬ isFinite (p.get i))) ∧
    ∀ q : WeightedPoints Float d, q.WellFormed →
      ∃ point, f.manifold.place q = .ok { point := point } ∧
        ∀ i, isFinite ((f.unwrappedSum q).get i) →
          ((point.get i).isNaN ↔ 0 < p.get i ∧ ¬ isFinite (p.get i)) := by
  rw [eq_of_ofPeriodicity hf]
  constructor
  · intro i hpos value hvalue
    exact ⟨Period.wrap_in_range_iff hpos hvalue, Period.isNaN_wrap_iff hpos hvalue⟩
  · intro q hq
    exact ⟨_, place_eq_average _ hq, fun i hsum => isNaN_get_average_iff ⟨p⟩ q hsum⟩

def loop (period : Float) : FlatSpace Float 1 := ⟨#v[period]⟩

theorem wrapped_iff_finite_subnormal :
    ofPeriodicity (loop (.ofBits 1)).periodicity = .ok (loop (.ofBits 1)) ∧
      0 < Float.ofBits 1 ∧ isFinite 0.1 ∧ isFinite (Float.ofBits 1) ∧
      0 ≤ Period.wrap (.ofBits 1) 0.1 ∧ Period.wrap (.ofBits 1) 0.1 < Float.ofBits 1 ∧
      isFinite (((loop (.ofBits 1)).unwrappedSum (.lone 0.1)).get 0) ∧
      ∃ point, (loop (.ofBits 1)).manifold.place (.lone 0.1) = .ok { point := point } ∧
        ¬ (point.get 0).isNaN := by
  have hmade : ofPeriodicity (loop (.ofBits 1)).periodicity = .ok (loop (.ofBits 1)) := rfl
  have hpos : 0 < Float.ofBits 1 := by decide +kernel
  have hvalue : isFinite 0.1 := by decide +kernel
  have hperiod : isFinite (Float.ofBits 1) := by decide +kernel
  have hsum : isFinite (((loop (.ofBits 1)).unwrappedSum (.lone 0.1)).get 0) := by decide +kernel
  obtain ⟨hrange, hplaced⟩ := wrapped_iff_finite hmade
  obtain ⟨hlow, hhigh⟩ := (hrange 0 hpos 0.1 hvalue).1.2 hperiod
  obtain ⟨point, hplace, hnumber⟩ := hplaced (.lone 0.1) (WeightedPoints.wellFormed_lone 0.1)
  exact ⟨hmade, hpos, hvalue, hperiod, hlow, hhigh, hsum, point, hplace,
    fun hnan => ((hnumber 0 hsum).1 hnan).2 hperiod⟩

/-- On an axis of infinite length wrapping makes a number into something that is none. -/
theorem exists_wrapped_isNaN :
    ofPeriodicity (loop (1 / 0)).periodicity = .ok (loop (1 / 0)) ∧
      (0 : Float) < 1 / 0 ∧ isFinite 0.5 ∧
      ¬ (0 ≤ Period.wrap (1 / 0 : Float) 0.5 ∧ Period.wrap (1 / 0 : Float) 0.5 < 1 / 0) ∧
      isFinite (((loop (1 / 0)).unwrappedSum (.lone 0.5)).get 0) ∧
      ∃ point, (loop (1 / 0)).manifold.place (.lone 0.5) = .ok { point := point } ∧
        (point.get 0).isNaN := by
  refine ⟨rfl, ?_, ?_, ?_, ?_, _, place_eq_average _ (WeightedPoints.wellFormed_lone 0.5), ?_⟩
  all_goals decide +kernel

end FlatSpace

end CurvedMesh
