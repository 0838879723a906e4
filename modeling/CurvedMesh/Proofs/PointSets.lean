import CurvedMesh.Document.Geometry
import CurvedMesh.Geometry
import CurvedMesh.Proofs.Results

/-!
# Point sets that can be averaged

The constructors make exactly the well-formed sets. A stored set is read as it stands, so it may be
any pair of lists, and every geometry refuses the ones that the constructors would have refused, for
the same reason.
-/

namespace CurvedMesh

variable {α : Type} {d : Nat}

/-- A point set is at fault. -/
def Fault.AboutPoints : Fault α → Prop
  | .noPoints => True
  | .lengthMismatch _ _ => True
  | .negativeWeight _ _ => True
  | _ => False

namespace WeightedPoints

variable [Scalar α]

/-- The sets that the constructors make. -/
inductive Made : WeightedPoints α d → Prop where
  | ofLists {weights points q} : ofLists weights points = .ok q → Made q
  | uniform {points q} : uniform points = .ok q → Made q
  | twoPoint {p p' w q} : twoPoint p p' w = .ok q → Made q

theorem made_iff {q : WeightedPoints α d} : Made q ↔ q.WellFormed := by
  constructor
  · rintro (h | h | h)
    · exact (ofLists_eq_ok_iff.1 h).2
    · exact (ofLists_eq_ok_iff.1 h).2
    · exact (ofLists_eq_ok_iff.1 h).2
  · intro h
    exact .ofLists (ofLists_eq_ok_iff.2 ⟨rfl, h⟩)

theorem aboutPoints_of_fault? {q : WeightedPoints α d} {fault : Fault α}
    (h : q.fault? = some fault) : fault.AboutPoints := by
  unfold fault? at h
  split at h
  · cases h
    trivial
  · split at h
    · cases h
      trivial
    · obtain ⟨entry, -, rfl⟩ := Option.map_eq_some_iff.1 h
      trivial

theorem ofLists_eq_error_iff {q : WeightedPoints α d} {fault : Fault α} :
    ofLists q.weights q.points = .error fault ↔ q.fault? = some fault := by
  unfold ofLists fault?
  by_cases hlen : q.weights.length = q.points.length
  · have hempty : q.weights.isEmpty ↔ q.points.length = 0 := by
      rw [List.isEmpty_iff_length_eq_zero, hlen]
    rw [if_pos hlen, if_neg (not_not_intro hlen)]
    by_cases hzero : q.points.length = 0
    · rw [if_pos (hempty.2 hzero), if_pos hzero, Except.error.injEq, Option.some.injEq]
    · rw [if_neg (mt hempty.1 hzero), if_neg hzero]
      cases Scalar.firstNegative? q.weights <;> simp
  · rw [if_neg hlen, if_pos hlen, Except.error.injEq, Option.some.injEq]

/-- A computation blames the points of `q` only for what is wrong with them. -/
def BlamesRightly {β : Type} (q : WeightedPoints α d) : Except (Fault α) β → Prop :=
  Ends (fun fault => fault.AboutPoints → q.fault? = some fault) fun _ => True

variable {q : WeightedPoints α d}

theorem check_eq_error_iff {fault : Fault α} :
    q.check = .error fault ↔ q.fault? = some fault := by
  unfold check
  split <;> simp_all

theorem blamesRightly_check : BlamesRightly q q.check := by
  cases h : q.check with
  | error fault => exact fun _ => check_eq_error_iff.1 h
  | ok => exact trivial

theorem BlamesRightly.bind {β γ : Type} {x : Except (Fault α) β} {f : β → Except (Fault α) γ}
    (hx : BlamesRightly q x) (hf : ∀ b, BlamesRightly q (f b)) : BlamesRightly q (x >>= f) :=
  Ends.bind hx fun b _ => hf b

theorem BlamesRightly.refused_iff {β : Type} {x : Except (Fault α) β} (hx : BlamesRightly q x)
    (hrefuse : ∀ {fault}, q.fault? = some fault → x = .error fault) {fault : Fault α} :
    fault.AboutPoints ∧ x = .error fault ↔ ofLists q.weights q.points = .error fault := by
  rw [ofLists_eq_error_iff]
  constructor
  · rintro ⟨habout, rfl⟩
    exact hx habout
  · exact fun h => ⟨aboutPoints_of_fault? h, hrefuse h⟩

theorem blamesRightly_mapError {β : Type} (x : Except (ChartFault α) β) :
    BlamesRightly q (x.mapError Fault.chart) := by
  cases x with
  | error fault => exact False.elim
  | ok b => exact trivial

end WeightedPoints

/-! ## Geometries -/

section

variable [Scalar α]

theorem Chart.blamesRightly_place (c : Chart α d) (q : WeightedPoints α d) :
    q.BlamesRightly (c.place q) :=
  .bind WeightedPoints.blamesRightly_check fun _ =>
    .bind (WeightedPoints.blamesRightly_mapError _) fun _ =>
      WeightedPoints.blamesRightly_mapError _

theorem Chart.place_eq_error (c : Chart α d) {q : WeightedPoints α d} {fault : Fault α}
    (h : q.fault? = some fault) : c.place q = .error fault := by
  rw [Chart.place, WeightedPoints.check_eq_error_iff.2 h]
  rfl

end

variable [AnalyticScalar α]

theorem Spheres.blamesRightly_place (s : Spheres α d) (q : WeightedPoints α d) :
    q.BlamesRightly (s.place q) := by
  have hchart (f : Point α d → Placement α d) :
      q.BlamesRightly (do return f (← s.chart.place q)) :=
    .bind (s.chart.blamesRightly_place q) fun _ => trivial
  unfold place
  split
  · exact hchart _
  · unfold project
    refine .bind WeightedPoints.blamesRightly_check fun _ => ?_
    dsimp only
    split
    · split
      · exact trivial
      · split
        · exact False.elim
        · exact hchart _
    · exact trivial

theorem Spheres.place_eq_error (s : Spheres α d) {q : WeightedPoints α d} {fault : Fault α}
    (h : q.fault? = some fault) : s.place q = .error fault := by
  unfold place
  split
  · rw [s.chart.place_eq_error h]
    rfl
  · rw [project, WeightedPoints.check_eq_error_iff.2 h]
    rfl

namespace Geometry

theorem blamesRightly_place (g : Geometry α d) (q : WeightedPoints α d) :
    q.BlamesRightly (g.manifold.place q) := by
  cases g with
  | flat space => exact .bind (space.chart.blamesRightly_place q) fun _ => trivial
  | spheres around => exact around.blamesRightly_place q
  | scaled space => exact .bind (space.chart.blamesRightly_place q) fun _ => trivial

theorem place_eq_error (g : Geometry α d) {q : WeightedPoints α d} {fault : Fault α}
    (h : q.fault? = some fault) : g.manifold.place q = .error fault := by
  cases g with
  | flat space =>
    simp only [manifold, FlatSpace.manifold, space.chart.place_eq_error h]
    rfl
  | spheres around => exact around.place_eq_error h
  | scaled space =>
    simp only [manifold, ScaledSpace.manifold, space.chart.place_eq_error h]
    rfl

end Geometry

namespace WeightedPoints

/-- The constructors make the well-formed sets. A geometry blames the points of a set, made or read,
exactly if the constructor would refuse its lists, and it says the same. -/
theorem made_iff_and_blamed_iff (q : WeightedPoints α d) :
    (Made q ↔ q.WellFormed) ∧ ∀ (g : Geometry α d) (fault : Fault α),
      fault.AboutPoints ∧ g.manifold.place q = .error fault ↔
        ofLists q.weights q.points = .error fault :=
  ⟨made_iff, fun g _ => (g.blamesRightly_place q).refused_iff g.place_eq_error⟩

end WeightedPoints

/-! ## Stored sets -/

namespace WeightedPoints

theorem exists_ofDocument_not_wellFormed :
    ∃ q : WeightedPoints Float 1,
      ofDocument (.object [("weights", .list []), ("points", .list [])]) = .ok q ∧
        ¬ q.WellFormed ∧ ∀ g : Geometry Float 1, g.manifold.place q = .error .noPoints :=
  ⟨⟨[], []⟩, rfl, fun h => h.2.1 rfl, fun g => g.place_eq_error rfl⟩

end WeightedPoints

end CurvedMesh
