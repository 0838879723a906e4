import CurvedMesh.Proofs.Midpoints
import CurvedMesh.Proofs.Origin
import Mathlib.Data.Rat.Floor

/-!
# Equal labels are interchangeable

The numbering of a refined mesh keeps the first label of each vertex that it meets and looks all
others up by hash. That is sound because labels that compare equal hash alike and stand for the same
point, whatever the manifold makes of the order of its arguments.
-/

namespace CurvedMesh

namespace Label

/-! ## Comparison -/

theorem vertex_beq_iff {i j : Nat} : (vertex i == vertex j) = true ↔ i = j := by
  rw [beq_iff_origin_eq, origin, origin, Origin.vertex.injEq]

theorem midpoint_beq_iff {a b c d : Nat} :
    (midpoint a b == midpoint c d) = true ↔ ({a, b} : Multiset Nat) = {c, d} := by
  rw [beq_iff_origin_eq, origin, origin, Origin.edge.injEq,
    ← (Sym2.equivMultiset Nat).injective.eq_iff, Subtype.ext_iff]
  rfl

theorem vertex_beq_midpoint (i a b : Nat) : (vertex i == midpoint a b) = false :=
  rfl

theorem midpoint_beq_vertex (a b i : Nat) : (midpoint a b == vertex i) = false :=
  rfl

/-! ## Placing -/

variable {α : Type} {d : Nat} {vertices : Array (Point α d)}

theorem vertexAt_of_size_le {i : Nat} (h : vertices.size ≤ i) :
    vertexAt vertices i = .error (.indexOutOfBounds vertices.size i) := by
  rw [vertexAt, Array.getElem?_eq_none h]

theorem vertexAt_of_getElem? {i : Nat} {p : Point α d} (h : vertices[i]? = some p) :
    vertexAt vertices i = .ok p := by
  rw [vertexAt, h]

variable [Scalar α] {m : Manifold α d} {a b : Nat}

theorem place_congr {l l' : Label} (h : (l == l') = true) :
    l.place m vertices = l'.place m vertices := by
  -- A label is placed by its origin, in which the order of the ends is gone.
  rw [← Origin.place_origin, ← Origin.place_origin, (beq_iff_origin_eq l l').1 h]

theorem place_midpoint_of_size_le_min (h : vertices.size ≤ min a b) :
    (midpoint a b).place m vertices = .error (.indexOutOfBounds vertices.size (min a b)) := by
  rw [place, vertexAt_of_size_le h]
  rfl

theorem place_midpoint_of_size_le_max (hlow : min a b < vertices.size)
    (hhigh : vertices.size ≤ max a b) :
    (midpoint a b).place m vertices = .error (.indexOutOfBounds vertices.size (max a b)) := by
  rw [place, vertexAt_of_getElem? (Array.getElem?_eq_getElem hlow), vertexAt_of_size_le hhigh]
  rfl

theorem place_midpoint_of_getElem? {p q : Point α d} (hp : vertices[min a b]? = some p)
    (hq : vertices[max a b]? = some q) : (midpoint a b).place m vertices = m.midpoint p q := by
  rw [← Origin.place_origin]
  exact Origin.place_edge hp hq

/-- Labels are compared, hashed and placed by what they stand for. A missing end is noticed in the
order of the indices, whichever end the label names first. -/
theorem beq_congruence :
    Equivalence (fun l l' : Label => (l == l') = true) ∧
      (∀ i j, (vertex i == vertex j) = true ↔ i = j) ∧
      (∀ a b c d, (midpoint a b == midpoint c d) = true ↔ ({a, b} : Multiset Nat) = {c, d}) ∧
      (∀ i a b, (vertex i == midpoint a b) = false ∧ (midpoint a b == vertex i) = false) ∧
      (∀ l l' : Label, (l == l') = true ↔ l.words = l'.words) ∧
      (∀ l : Label, hash l = hash l.words) ∧
      ∀ {α : Type} {d : Nat} [Scalar α] (m : Manifold α d) (vertices : Array (Point α d)),
        (∀ l l' : Label, (l == l') = true → l.place m vertices = l'.place m vertices) ∧
        ∀ a b,
          (vertices.size ≤ min a b →
            (midpoint a b).place m vertices =
              .error (.indexOutOfBounds vertices.size (min a b))) ∧
          (min a b < vertices.size → vertices.size ≤ max a b →
            (midpoint a b).place m vertices =
              .error (.indexOutOfBounds vertices.size (max a b))) ∧
          ∀ p q, vertices[min a b]? = some p → vertices[max a b]? = some q →
            (midpoint a b).place m vertices = m.midpoint p q := by
  refine ⟨⟨fun _ => BEq.rfl, BEq.symm, BEq.trans⟩, fun _ _ => vertex_beq_iff,
    fun _ _ _ _ => midpoint_beq_iff, ?_, fun _ _ => beq_iff_words_eq, fun _ => rfl, ?_⟩
  · intro i a b
    exact ⟨vertex_beq_midpoint i a b, midpoint_beq_vertex a b i⟩
  · intro α d _ m vertices
    refine ⟨fun l l' h => place_congr h, fun a b => ⟨place_midpoint_of_size_le_min,
      place_midpoint_of_size_le_max, fun p q => place_midpoint_of_getElem?⟩⟩

/-- Takes the first point, so it gives another midpoint for each order of the ends. -/
def nearEnd : Manifold ℚ 2 where
  place q :=
    match q.points with
    | [] => .error .noPoints
    | p :: _ => .ok { point := p }

/-- The names of an edge of the square agree although the manifold prefers one of its ends. An end
that is missing is blamed, and the one with the smaller index if both are. -/
theorem beq_congruence_near_end :
    (midpoint 2 0 == midpoint 0 2) = true ∧
      (midpoint 2 0).words = (midpoint 0 2).words ∧
      (midpoint 2 0).place nearEnd Mesh.unitSquare.vertices = .ok { point := #v[0, 0] } ∧
      (midpoint 0 2).place nearEnd Mesh.unitSquare.vertices = .ok { point := #v[0, 0] } ∧
      (midpoint 7 1).place nearEnd Mesh.unitSquare.vertices = .error (.indexOutOfBounds 5 7) ∧
      (midpoint 9 7).place nearEnd Mesh.unitSquare.vertices = .error (.indexOutOfBounds 5 7) := by
  obtain ⟨-, -, hedge, -, hwords, -, hplace⟩ := beq_congruence
  obtain ⟨hcongr, hends⟩ := hplace nearEnd Mesh.unitSquare.vertices
  have hsame : (midpoint 2 0 == midpoint 0 2) = true :=
    (hedge 2 0 0 2).2 (Multiset.pair_comm 2 0)
  have hpoint : (midpoint 2 0).place nearEnd Mesh.unitSquare.vertices =
      .ok { point := #v[0, 0] } := by
    rw [(hends 2 0).2.2 #v[0, 0] #v[1, 1] rfl rfl, Manifold.midpoint_eq_place]
    rfl
  refine ⟨hsame, (hwords _ _).1 hsame, hpoint, (hcongr _ _ hsame).symm.trans hpoint, ?_, ?_⟩
  · exact (hends 7 1).2.1 (by decide) (by decide)
  · exact (hends 9 7).1 (by decide)

end Label

end CurvedMesh
