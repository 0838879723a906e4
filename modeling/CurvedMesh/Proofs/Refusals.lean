import CurvedMesh.Fault.Message
import CurvedMesh.Proofs.PointSets

/-!
# Refused point sets

The constructor and the geometries each look for what is wrong with a pair of lists, and they find
the same. Different lengths come first, then missing points, then the first weight below zero. The
geometries assert that the lengths are equal, and the text of a failed assertion shows more than the
text of the fault. All other failures have texts that begin differently, so a text tells as well
whether points were refused.
-/

namespace CurvedMesh

variable {α : Type} {d : Nat}

/-! ## What is wrong with two lists -/

namespace WeightedPoints

variable [Scalar α] {weights : List α} {points : List (Point α d)}

/-- The flaw of the lists that is reported. They may have others as well. -/
inductive Flaw (weights : List α) (points : List (Point α d)) : Fault α → Prop where
  | lengths : weights.length ≠ points.length →
      Flaw weights points (.lengthMismatch weights.length points.length)
  | empty : weights = [] → points = [] → Flaw weights points .noPoints
  | negative {i : Nat} {w : α} : weights.length = points.length → weights[i]? = some w → w < 0 →
      (∀ j < i, ∀ v, weights[j]? = some v → ¬ v < 0) → Flaw weights points (.negativeWeight i w)

theorem fault?_eq_some_iff {fault : Fault α} :
    fault? ⟨weights, points⟩ = some fault ↔ Flaw weights points fault := by
  unfold fault?
  by_cases hlen : weights.length = points.length
  · rw [if_neg (not_not_intro hlen)]
    by_cases hzero : points.length = 0
    · have hpoints := List.eq_nil_of_length_eq_zero hzero
      have hweights := List.eq_nil_of_length_eq_zero (hlen.trans hzero)
      rw [if_pos hzero, Option.some.injEq]
      constructor
      · rintro rfl
        exact .empty hweights hpoints
      · rintro (hne | ⟨-, -⟩ | ⟨-, hw, -, -⟩)
        · exact absurd hlen hne
        · rfl
        · rw [hweights] at hw
          cases hw
    · rw [if_neg hzero, Option.map_eq_some_iff]
      constructor
      · rintro ⟨⟨w, i⟩, hfirst, rfl⟩
        obtain ⟨hw, hneg, hbefore⟩ := Scalar.firstNegative?_eq_some_iff.1 hfirst
        exact .negative hlen hw hneg hbefore
      · rintro (hne | ⟨-, hpoints⟩ | ⟨-, hw, hneg, hbefore⟩)
        · exact absurd hlen hne
        · exact absurd (congrArg List.length hpoints) hzero
        · exact ⟨(_, _), Scalar.firstNegative?_eq_some_iff.2 ⟨hw, hneg, hbefore⟩, rfl⟩
  · rw [if_pos hlen, Option.some.injEq]
    constructor
    · rintro rfl
      exact .lengths hlen
    · rintro (- | ⟨hweights, hpoints⟩ | ⟨hlen', -, -, -⟩)
      · rfl
      · exact absurd (by rw [hweights, hpoints, List.length_nil, List.length_nil]) hlen
      · exact absurd hlen' hlen

end WeightedPoints

/-! ## Texts -/

def ChartFault.map {β : Type} (f : α → β) : ChartFault α → ChartFault β
  | .negativeRadius radius => .negativeRadius (f radius)
  | .unsupportedDimension dim => .unsupportedDimension dim

namespace Fault

def map {β : Type} (f : α → β) : Fault α → Fault β
  | .impossibleInDimension dim => .impossibleInDimension dim
  | .negativePeriod axis period => .negativePeriod axis (f period)
  | .noPoints => .noPoints
  | .lengthMismatch weights points => .lengthMismatch weights points
  | .negativeWeight index weight => .negativeWeight index (f weight)
  | .chart fault => .chart (fault.map f)
  | .parameterOutOfRange parameter => .parameterOutOfRange (f parameter)
  | .tooFewSegments => .tooFewSegments
  | .radiusNotPositive => .radiusNotPositive
  | .indexOutOfBounds length index => .indexOutOfBounds length index
  | .danglingCorner cell corner vertices => .danglingCorner cell corner vertices
  | .wrongCornerCount => .wrongCornerCount

/-- The text of a fault about any scalars. Texts show floats. -/
def text (toFloat : α → Float) (fault : Fault α) : String :=
  (fault.map toFloat).message

/-- The text with which placing points stops. -/
def placingText (toFloat : α → Float) (fault : Fault α) : String :=
  (fault.map toFloat).placingMessage

theorem aboutPoints_map {β : Type} {f : α → β} {fault : Fault α} :
    (fault.map f).AboutPoints ↔ fault.AboutPoints := by
  cases fault <;> rfl

end Fault

theorem ChartFault.take_message (fault : ChartFault Float) :
    fault.message.toList.take 2 = ['N', 'e'] ∨ fault.message.toList.take 2 = ['I', 'n'] := by
  unfold message
  cases fault <;> simp [String.toList_append, toString]

theorem take_inequalityText (message : String) (left right : Nat) :
    (inequalityText message left right).toList.take 2 = ['a', 's'] := by
  unfold inequalityText
  simp [String.toList_append, toString]

theorem inequalityText_ne (message : String) (left right : Nat) :
    inequalityText message left right ≠ message := by
  intro h
  have hlength := congrArg (·.toList.length) h
  unfold inequalityText at hlength
  simp only [toString, String.toList_append, List.length_append] at hlength
  have hpos : 0 < "assertion `left == right` failed: ".toList.length := by decide
  omega

theorem Fault.aboutPoints_iff_take_placingMessage (fault : Fault Float) :
    fault.AboutPoints ↔ fault.placingMessage.toList.take 2 = ['W', 'e'] ∨
      fault.placingMessage.toList.take 2 = ['a', 's'] := by
  unfold placingMessage AboutPoints
  cases fault with
  | chart fault =>
    unfold message
    rcases fault.take_message with h | h <;> simp [h]
  | lengthMismatch weights points => simp only [take_inequalityText, or_true]
  | _ =>
    unfold message
    simp [String.toList_append, toString]

/-- The text says that a point set is at fault. -/
def RefusesPoints (text : String) : Prop :=
  ∃ fault : Fault Float, fault.AboutPoints ∧ fault.placingMessage = text

theorem refusesPoints_placingText_iff {toFloat : α → Float} {fault : Fault α} :
    RefusesPoints (fault.placingText toFloat) ↔ fault.AboutPoints := by
  rw [← Fault.aboutPoints_map (f := toFloat)]
  constructor
  · rintro ⟨fault', habout, htext⟩
    rw [Fault.aboutPoints_iff_take_placingMessage] at habout ⊢
    rwa [htext] at habout
  · exact fun habout => ⟨_, habout, rfl⟩

/-! ## Refusing the same lists -/

namespace WeightedPoints

section

variable [Scalar α]

/-- A computation refuses the lists that the constructor refuses, with the same fault, and no other
failure of it has the text of a refusal. From all other lists it computes what it computes from the
set that the constructor makes. -/
structure SharesRefusals (toFloat : α → Float) {β : Type}
    (place : WeightedPoints α d → Except (Fault α) β) : Prop where
  fault (weights : List α) (points : List (Point α d)) (fault : Fault α) :
    fault.AboutPoints ∧ place ⟨weights, points⟩ = .error fault ↔
      ofLists weights points = .error fault
  text (weights : List α) (points : List (Point α d)) (text : String) :
    RefusesPoints text ∧
        (place ⟨weights, points⟩).mapError (Fault.placingText toFloat) = .error text ↔
      (ofLists weights points).mapError (Fault.placingText toFloat) = .error text
  outcome (weights : List α) (points : List (Point α d)) (q : WeightedPoints α d) :
    ofLists weights points = .ok q → place ⟨weights, points⟩ = place q

theorem SharesRefusals.of_blamesRightly {toFloat : α → Float} {β : Type}
    {place : WeightedPoints α d → Except (Fault α) β}
    (hrefuse : ∀ {q : WeightedPoints α d} {fault : Fault α},
      q.fault? = some fault → place q = .error fault)
    (hblame : ∀ q : WeightedPoints α d, q.BlamesRightly (place q)) :
    SharesRefusals toFloat place := by
  have hfault (weights : List α) (points : List (Point α d)) (fault : Fault α) :
      fault.AboutPoints ∧ place ⟨weights, points⟩ = .error fault ↔
        ofLists weights points = .error fault :=
    (hblame ⟨weights, points⟩).refused_iff hrefuse
  refine ⟨hfault, fun weights points text => ?_, fun weights points q h => ?_⟩
  · simp only [mapError_eq_error_iff, ← hfault]
    constructor
    · rintro ⟨habout, fault, hplace, rfl⟩
      exact ⟨fault, ⟨refusesPoints_placingText_iff.1 habout, hplace⟩, rfl⟩
    · rintro ⟨fault, ⟨habout, hplace⟩, rfl⟩
      exact ⟨refusesPoints_placingText_iff.2 habout, fault, hplace, rfl⟩
  · rw [(ofLists_eq_ok_iff.1 h).1]

theorem placingText_of_ofLists {toFloat : α → Float} {weights : List α} {points : List (Point α d)}
    {fault : Fault α} (h : ofLists weights points = .error fault) :
    fault.placingText toFloat =
      if weights.length = points.length then fault.text toFloat
      else inequalityText (fault.text toFloat) weights.length points.length := by
  have hflaw : Flaw weights points fault :=
    fault?_eq_some_iff.1 (ofLists_eq_error_iff.1 h)
  cases hflaw with
  | lengths hne => rw [if_neg hne]; rfl
  | empty hweights hpoints => rw [hweights, hpoints]; rfl
  | negative hlen => rw [if_pos hlen]; rfl

end

variable [AnalyticScalar α]

/-- The constructor reports the first flaw of the lists, and so does everything that places points:
charts, flat space and spheres. The texts are the same for lists of one length. For lists of
different lengths the text of the constructor stands within that of an assertion. -/
theorem refusals_agree (toFloat : α → Float) :
    (∀ (weights : List α) (points : List (Point α d)) (fault : Fault α),
      ofLists weights points = .error fault ↔ Flaw weights points fault) ∧
    (∀ c : Chart α d, SharesRefusals toFloat c.place) ∧
    (∀ f : FlatSpace α d, SharesRefusals toFloat f.manifold.place) ∧
    (∀ s : Spheres α d, SharesRefusals toFloat s.manifold.place) ∧
    ∀ (weights : List α) (points : List (Point α d)) (fault : Fault α),
      ofLists weights points = .error fault →
      (weights.length = points.length → fault.placingText toFloat = fault.text toFloat) ∧
      (weights.length ≠ points.length → fault.placingText toFloat ≠ fault.text toFloat ∧
        fault.placingText toFloat =
          inequalityText (fault.text toFloat) weights.length points.length) := by
  refine ⟨fun weights points fault => ?_, fun c => ?_, fun f => ?_, fun s => ?_,
    fun weights points fault h => ⟨fun hlen => ?_, fun hne => ?_⟩⟩
  · exact (ofLists_eq_error_iff (q := ⟨weights, points⟩)).trans fault?_eq_some_iff
  · exact .of_blamesRightly c.place_eq_error c.blamesRightly_place
  · exact .of_blamesRightly (Geometry.flat f).place_eq_error (Geometry.flat f).blamesRightly_place
  · exact .of_blamesRightly s.place_eq_error s.blamesRightly_place
  · rw [placingText_of_ofLists h, if_pos hlen]
  · rw [placingText_of_ofLists h, if_neg hne]
    exact ⟨inequalityText_ne _ _ _, rfl⟩

theorem refusals_agree_negative_weight :
    ofLists [1, -1] [(#v[0] : Point Float 1), #v[0]] = .error (.negativeWeight 1 (-1)) ∧
    (Fault.negativeWeight 1 (-1 : Float)).placingText id =
      (Fault.negativeWeight 1 (-1 : Float)).text id := by
  have hflaw : Flaw [1, -1] [(#v[0] : Point Float 1), #v[0]] (.negativeWeight 1 (-1)) := by
    refine .negative rfl rfl (by decide +kernel) fun j hj v hv => ?_
    obtain rfl := Nat.lt_one_iff.1 hj
    cases hv
    decide +kernel
  obtain ⟨hrefused, -, -, -, htext⟩ := refusals_agree (d := 1) (id : Float → Float)
  exact ⟨(hrefused _ _ _).2 hflaw, (htext _ _ _ ((hrefused _ _ _).2 hflaw)).1 rfl⟩

/-- The lengths of the lists are compared by an assertion, so placing points does not stop with the
text of the fault alone. -/
theorem exists_placingMessage_ne :
    ∃ fault : Fault Float,
      ofLists [1] [(#v[0] : Point Float 1), #v[0]] = .error fault ∧
      fault.message = "Number of weights (1) does not match number of points (2)." ∧
      ((FlatSpace.euclidean : FlatSpace Float 1).manifold.place ⟨[1], [#v[0], #v[0]]⟩).mapError
          Fault.placingMessage =
        .error ("assertion `left == right` failed: " ++
          "Number of weights (1) does not match number of points (2).\n  left: 1\n right: 2") ∧
      fault.placingMessage ≠ fault.message := by
  refine ⟨.lengthMismatch 1 2, rfl, by rfl, by rfl, ?_⟩
  exact inequalityText_ne _ _ _

end WeightedPoints

end CurvedMesh
