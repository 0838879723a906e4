import Mathlib.Data.List.Forall2
import CurvedMesh.Document.Geometry
import CurvedMesh.Proofs.Results

/-!
# Geometries read from documents

A document stores a point under a name if it is an object with one such entry, whatever else it
holds, or a list of nothing but that entry. Flat space is read from the documents that store its
periods, spheres from those that store their center, and both are then what the constructor makes of
the point. Every other document is malformed.
-/

namespace CurvedMesh

variable {d : Nat}

namespace Document

/-! ## What a document stores -/

/-- The document is a number. A whole number is rounded to the nearest float. -/
inductive IsNumber : Document → Float → Prop where
  | int (n : WholeNumber) : IsNumber (.int n) (Float.ofInt n.value)
  | float (x : FiniteFloat) : IsNumber (.float x) x.value

/-- The document is a list of the coordinates. -/
def IsPoint (doc : Document) (p : Point Float d) : Prop :=
  ∃ items, doc = .list items ∧ List.Forall₂ IsNumber items p.toList

/-- The document is a record whose only field is the item. No other entry has the name. -/
inductive HasField (name : String) : Document → Document → Prop where
  | key {before after : List (String × Document)} {item : Document} :
      (∀ entry ∈ before ++ after, name ≠ entry.1) →
      HasField name (.object (before ++ (name, item) :: after)) item
  | position {item : Document} : HasField name (.list [item]) item

def Stores (name : String) (doc : Document) (p : Point Float d) : Prop :=
  ∃ item, HasField name doc item ∧ item.IsPoint p

/-! ## Reading -/

theorem float?_eq_some_iff {doc : Document} {x : Float} :
    doc.float? = some x ↔ doc.IsNumber x := by
  constructor
  · intro h
    cases doc with
    | int n =>
      cases h
      exact .int n
    | float x =>
      cases h
      exact .float x
    | _ => cases h
  · rintro (n | x)
    · rfl
    · rfl

theorem mapM_float?_eq_some_iff {items : List Document} {xs : List Float} :
    items.mapM float? = some xs ↔ List.Forall₂ IsNumber items xs := by
  rw [mapM_eq_some_iff, ← List.forall₂_eq_eq_eq, List.forall₂_map_left_iff,
    List.forall₂_map_right_iff]
  simp only [float?_eq_some_iff]

/-- The point with these coordinates, if they are as many as there are axes. -/
def vector? (l : List Float) : Option (Point Float d) :=
  if h : l.toArray.size = d then some ⟨l.toArray, h⟩ else none

theorem vector?_eq_some_iff {l : List Float} {p : Point Float d} :
    vector? l = some p ↔ l = p.toList := by
  unfold vector?
  constructor
  · intro h
    split at h
    · cases h
      rfl
    · cases h
  · rintro rfl
    exact dif_pos (by simp)

theorem point?_eq_bind_vector? (doc : Document) :
    doc.point? d = (doc.list? >>= (·.mapM float?)) >>= vector? := by
  cases doc <;> rfl

theorem point?_eq_some_iff {doc : Document} {p : Point Float d} :
    doc.point? d = some p ↔ doc.IsPoint p := by
  rw [point?_eq_bind_vector?]
  cases doc with
  | list items =>
    have hpoint : (list items).IsPoint p ↔ List.Forall₂ IsNumber items p.toList :=
      ⟨fun ⟨_, hitems, h⟩ => Document.list.inj hitems ▸ h, fun h => ⟨items, rfl, h⟩⟩
    rw [hpoint, ← mapM_float?_eq_some_iff]
    simp only [list?, Option.bind_eq_bind, Option.bind_some, Option.bind_eq_some_iff,
      vector?_eq_some_iff, exists_eq_right]
  | _ =>
    refine iff_of_false nofun ?_
    rintro ⟨items, hitems, -⟩
    cases hitems

theorem uniqueValue?_eq_some_iff {entries : List (String × Document)} {name : String}
    {item : Document} :
    uniqueValue? entries name = some item ↔ ∃ before after,
      entries = before ++ (name, item) :: after ∧ ∀ entry ∈ before ++ after, name ≠ entry.1 := by
  unfold uniqueValue?
  constructor
  · intro h
    split at h
    · rename_i entry hfilter
      cases h
      obtain ⟨before, after, rfl, hbefore, hname, hafter⟩ := List.filter_eq_cons_iff.1 hfilter
      obtain rfl := beq_iff_eq.1 hname
      refine ⟨before, after, rfl, fun other hother heq => ?_⟩
      rcases List.mem_append.1 hother with hother | hother
      · exact hbefore other hother (beq_iff_eq.2 heq.symm)
      · exact List.filter_eq_nil_iff.1 hafter other hother (beq_iff_eq.2 heq.symm)
    · cases h
  · rintro ⟨before, after, rfl, hothers⟩
    rw [List.forall_mem_append] at hothers
    have hnone (others : List (String × Document)) (h : ∀ entry ∈ others, name ≠ entry.1) :
        others.filter (·.1 == name) = [] :=
      List.filter_eq_nil_iff.2 fun entry hentry heq => h entry hentry (beq_iff_eq.1 heq).symm
    have hself : ((name, item).1 == name) = true := beq_self_eq_true name
    rw [List.filter_append, hnone _ hothers.1, List.nil_append]
    simp only [List.filter_cons, hself, hnone _ hothers.2]
    rfl

theorem fields?_eq_some_iff {name : String} {doc item : Document} :
    doc.fields? [name] = some [item] ↔ HasField name doc item := by
  cases doc with
  | object entries =>
    have hentry : (object entries).fields? [name] = some [item] ↔
        uniqueValue? entries name = some item := by
      simp only [fields?, List.mapM_cons, List.mapM_nil]
      cases uniqueValue? entries name <;> simp
    rw [hentry, uniqueValue?_eq_some_iff]
    constructor
    · rintro ⟨before, after, rfl, hothers⟩
      exact .key hothers
    · intro h
      cases h with
      | key hothers => exact ⟨_, _, rfl, hothers⟩
  | list items =>
    constructor
    · intro h
      simp only [fields?] at h
      split at h
      · cases h
        exact .position
      · cases h
    · intro h
      cases h
      rfl
  | _ =>
    constructor <;> intro h <;> cases h

/-- The point that is read under the name. -/
def stored? (name : String) (d : Nat) (doc : Document) : Option (Point Float d) :=
  match doc.fields? [name] with
  | some [item] => item.point? d
  | _ => none

theorem stored?_eq_some_iff {name : String} {doc : Document} {p : Point Float d} :
    doc.stored? name d = some p ↔ doc.Stores name p := by
  unfold stored? Stores
  simp only [← fields?_eq_some_iff, ← point?_eq_some_iff]
  split
  · rename_i item hfield
    simp [hfield]
  · rename_i hfields
    refine iff_of_false nofun ?_
    rintro ⟨item, hfield, -⟩
    exact hfields item hfield

/-- Makes a value of the point that is stored under the name. -/
def make {β : Type} (name : String) (constructor : Point Float d → Except (Fault Float) β)
    (doc : Document) : Except ReadFault β :=
  match doc.stored? name d with
  | some p => (constructor p).mapError .refused
  | none => .error .malformed

variable {β : Type} {name : String} {constructor : Point Float d → Except (Fault Float) β}
  {doc : Document}

theorem make_of_stores {p : Point Float d} (h : doc.Stores name p) :
    doc.make name constructor = (constructor p).mapError .refused := by
  rw [make, stored?_eq_some_iff.2 h]

theorem make_of_not_stores (h : ¬ ∃ p : Point Float d, doc.Stores name p) :
    doc.make name constructor = .error .malformed := by
  have hnone : doc.stored? name d = none :=
    Option.eq_none_iff_forall_ne_some.2 fun p hp => h ⟨p, stored?_eq_some_iff.1 hp⟩
  rw [make, hnone]

theorem make_eq_ok_iff {b : β} :
    doc.make name constructor = .ok b ↔ ∃ p, doc.Stores name p ∧ constructor p = .ok b := by
  unfold make
  simp only [← stored?_eq_some_iff]
  cases doc.stored? name d with
  | some p => simp [mapError_eq_ok_iff]
  | none => simp

theorem make_eq_refused_iff {fault : Fault Float} :
    doc.make name constructor = .error (.refused fault) ↔
      ∃ p, doc.Stores name p ∧ constructor p = .error fault := by
  unfold make
  simp only [← stored?_eq_some_iff]
  cases doc.stored? name d with
  | some p => simp [mapError_eq_error_iff]
  | none => simp

end Document

open Document

namespace FlatSpace

theorem eq_of_ofPeriodicity {α : Type} [Scalar α] {p : Point α d} {f : FlatSpace α d}
    (h : ofPeriodicity p = .ok f) : f = ⟨p⟩ := by
  unfold ofPeriodicity at h
  split at h
  · cases h
  · cases h
    rfl

theorem ofPeriodicity_eq_error_iff {α : Type} [Scalar α] {p : Point α d} {fault : Fault α} :
    ofPeriodicity p = .error fault ↔ ∃ i : Fin d, fault = .negativePeriod i (p.get i) ∧
      p.get i < 0 ∧ ∀ j : Fin d, j < i → ¬ p.get j < 0 := by
  have hentry (i : Fin d) : p.toList[i.val]? = some (p.get i) := by
    rw [Vector.getElem?_toList, Vector.getElem?_eq_getElem i.isLt]
    rfl
  unfold ofPeriodicity
  constructor
  · intro h
    split at h
    · rename_i period axis hfirst
      cases h
      obtain ⟨hperiod, hneg, hbefore⟩ := Scalar.firstNegative?_eq_some_iff.1 hfirst
      obtain ⟨haxis, rfl⟩ := List.getElem?_eq_some_iff.1 hperiod
      rw [Vector.length_toList] at haxis
      exact ⟨⟨axis, haxis⟩, rfl, hneg, fun j hj => hbefore j hj _ (hentry j)⟩
    · cases h
  · rintro ⟨i, rfl, hneg, hbefore⟩
    have hfirst : Scalar.firstNegative? p.toList = some (p.get i, i.val) := by
      refine Scalar.firstNegative?_eq_some_iff.2 ⟨hentry i, hneg, fun j hj b hb => ?_⟩
      rw [hentry ⟨j, Nat.lt_trans hj i.isLt⟩] at hb
      cases hb
      exact hbefore ⟨j, _⟩ hj
    rw [hfirst]

theorem not_neg_of_ofPeriodicity {α : Type} [Scalar α] {p : Point α d} {f : FlatSpace α d}
    (h : ofPeriodicity p = .ok f) (i : Fin d) : ¬ f.periodicity.get i < 0 := by
  rw [eq_of_ofPeriodicity h]
  unfold ofPeriodicity at h
  split at h
  · cases h
  · rename_i hnone
    exact Scalar.firstNegative?_eq_none_iff.1 hnone _
      (Vector.mem_toList_iff.2 (Vector.getElem_mem i.isLt))

theorem ofDocument_eq_make (doc : Document) :
    (ofDocument doc : Except ReadFault (FlatSpace Float d)) =
      doc.make "periodicity" ofPeriodicity := by
  unfold ofDocument make stored?
  rcases doc.fields? ["periodicity"] with _ | (_ | ⟨item, _ | _⟩) <;> rfl

end FlatSpace

namespace Spheres

theorem ofDocument_eq_make (doc : Document) :
    (ofDocument doc : Except ReadFault (Spheres Float d)) = doc.make "center" ofCenter := by
  unfold ofDocument make stored?
  rcases doc.fields? ["center"] with _ | (_ | ⟨item, _ | _⟩) <;> rfl

end Spheres

/-- A stored geometry is what its constructor makes of the one point that is stored for it. A
negative period is refused, the first one by name, and so is a sphere in one dimension. The periods
of spheres follow from the dimension, whatever the document holds. -/
theorem Document.read_through_constructors (doc : Document) :
    ((∀ p : Point Float d, doc.Stores "periodicity" p →
        FlatSpace.ofDocument doc = (FlatSpace.ofPeriodicity p).mapError .refused) ∧
      ((¬ ∃ p : Point Float d, doc.Stores "periodicity" p) →
        (FlatSpace.ofDocument doc : Except ReadFault (FlatSpace Float d)) = .error .malformed) ∧
      (∀ f : FlatSpace Float d, FlatSpace.ofDocument doc = .ok f →
        doc.Stores "periodicity" f.periodicity ∧ ∀ i, ¬ f.periodicity.get i < 0) ∧
      ∀ fault, (FlatSpace.ofDocument doc : Except ReadFault (FlatSpace Float d)) =
          .error (.refused fault) ↔
        ∃ p : Point Float d, doc.Stores "periodicity" p ∧
          ∃ i : Fin d, fault = .negativePeriod i (p.get i) ∧ p.get i < 0 ∧
            ∀ j : Fin d, j < i → ¬ p.get j < 0) ∧
    (∀ p : Point Float d, doc.Stores "center" p →
        Spheres.ofDocument doc = (Spheres.ofCenter p).mapError .refused) ∧
      ((¬ ∃ p : Point Float d, doc.Stores "center" p) →
        (Spheres.ofDocument doc : Except ReadFault (Spheres Float d)) = .error .malformed) ∧
      (∀ p : Point Float d, doc.Stores "center" p → d < 2 →
        (Spheres.ofDocument doc : Except ReadFault (Spheres Float d)) =
          .error (.refused (.impossibleInDimension d))) ∧
      ∀ p : Point Float d, doc.Stores "center" p → 2 ≤ d →
        ∃ s : Spheres Float d, Spheres.ofDocument doc = .ok s ∧ s.center = p ∧
          ∀ i, s.chart.periodicity.get i =
            if i.val + 1 = d then AnalyticScalar.twoPi else 0 := by
  simp only [FlatSpace.ofDocument_eq_make, Spheres.ofDocument_eq_make]
  refine ⟨⟨fun _ => make_of_stores, make_of_not_stores, fun f hf => ?_, fun fault => ?_⟩,
    fun _ => make_of_stores, make_of_not_stores, fun p hp hd => ?_, fun p hp hd => ?_⟩
  · obtain ⟨p, hp, hmade⟩ := make_eq_ok_iff.1 hf
    have hvalid := FlatSpace.not_neg_of_ofPeriodicity hmade
    rw [FlatSpace.eq_of_ofPeriodicity hmade] at hvalid ⊢
    exact ⟨hp, hvalid⟩
  · simp only [make_eq_refused_iff, FlatSpace.ofPeriodicity_eq_error_iff]
  · have hrefused : Spheres.ofCenter p = .error (.impossibleInDimension d) :=
      dif_neg (Nat.not_le.2 hd)
    exact make_eq_refused_iff.2 ⟨p, hp, hrefused⟩
  · have hmade : Spheres.ofCenter p = .ok ⟨p, hd⟩ := dif_pos hd
    exact ⟨⟨p, hd⟩, make_eq_ok_iff.2 ⟨p, hp, hmade⟩, rfl, fun i => Vector.getElem_ofFn i.isLt⟩

/-- Other keys are ignored, also a period beside a center. -/
theorem Document.read_through_constructors_other_keys :
    (FlatSpace.ofDocument (.object [("axes", .int ⟨2, by decide⟩),
        ("periodicity", .list [.float ⟨0.5, by decide⟩, .int ⟨-2, by decide⟩])]) :
      Except ReadFault (FlatSpace Float 2)) =
        .error (.refused (.negativePeriod 1 (Float.ofInt (-2)))) ∧
    (Spheres.ofDocument (.list [.list [.float ⟨0.5, by decide⟩]]) :
      Except ReadFault (Spheres Float 1)) = .error (.refused (.impossibleInDimension 1)) ∧
    ∃ s : Spheres Float 2,
      Spheres.ofDocument (.object [
        ("periodicity", .list [.int ⟨7, by decide⟩, .int ⟨7, by decide⟩]),
        ("center", .list [.int ⟨1, by decide⟩, .float ⟨0.5, by decide⟩])]) = .ok s ∧
      s.center = #v[Float.ofInt 1, 0.5] ∧
      ∀ i, s.chart.periodicity.get i = if i.val + 1 = 2 then AnalyticScalar.twoPi else 0 := by
  have hperiods : (object [("axes", .int ⟨2, by decide⟩),
      ("periodicity", .list [.float ⟨0.5, by decide⟩, .int ⟨-2, by decide⟩])]).Stores
      "periodicity" #v[0.5, Float.ofInt (-2)] :=
    ⟨_, @HasField.key _ [("axes", .int ⟨2, by decide⟩)] [] _ (by simp), _, rfl,
      .cons (.float _) (.cons (.int _) .nil)⟩
  have hpoint : (list [.list [.float ⟨0.5, by decide⟩]]).Stores "center" #v[0.5] :=
    ⟨_, .position, _, rfl, .cons (.float _) .nil⟩
  have hcenter : (object [
      ("periodicity", .list [.int ⟨7, by decide⟩, .int ⟨7, by decide⟩]),
      ("center", .list [.int ⟨1, by decide⟩, .float ⟨0.5, by decide⟩])]).Stores "center"
      #v[Float.ofInt 1, 0.5] :=
    ⟨_, @HasField.key _
        [("periodicity", .list [.int ⟨7, by decide⟩, .int ⟨7, by decide⟩])] [] _ (by simp), _, rfl,
      .cons (.int _) (.cons (.float _) .nil)⟩
  obtain ⟨⟨hflat, -⟩, -⟩ := read_through_constructors (object [("axes", .int ⟨2, by decide⟩),
    ("periodicity", .list [.float ⟨0.5, by decide⟩, .int ⟨-2, by decide⟩])]) (d := 2)
  obtain ⟨-, -, -, hline, -⟩ :=
    read_through_constructors (list [.list [.float ⟨0.5, by decide⟩]]) (d := 1)
  obtain ⟨-, -, -, -, hcircle⟩ := read_through_constructors (object [
    ("periodicity", .list [.int ⟨7, by decide⟩, .int ⟨7, by decide⟩]),
    ("center", .list [.int ⟨1, by decide⟩, .float ⟨0.5, by decide⟩])]) (d := 2)
  refine ⟨?_, hline _ hpoint (by decide), hcircle _ hcenter (by decide)⟩
  rw [hflat _ hperiods]
  rfl

end CurvedMesh
