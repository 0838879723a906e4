import CurvedMesh.Cell
import CurvedMesh.Placement

/-!
# Labels of refined vertices

A vertex of a refined mesh is an old vertex or the midpoint of an edge. Its label says which, and
does so before the new vertices are numbered. An edge has no direction: the two cells that share it
name its midpoint from either end and mean the same vertex. So labels are compared by their
`Label.site`, and what a hasher is given of them does not depend on the order of the ends either.
-/

namespace CurvedMesh

inductive Label where
  /-- The old vertex with this index. -/
  | vertex (index : Nat)
  /-- The midpoint of the edge between the old vertices `a` and `b`. -/
  | midpoint (a b : Nat)
deriving Repr

/-- A place in a mesh that can hold a vertex: an old vertex, or the middle of an edge. -/
inductive Site where
  | vertex (index : Nat)
  /-- The index of one end is `low`, of the other `high`, and `low ≤ high`. -/
  | edge (low high : Nat)
deriving DecidableEq, Repr

namespace Label

def site : Label → Site
  | .vertex i => .vertex i
  | .midpoint a b => .edge (min a b) (max a b)

/-- Labels of the same site are equal. -/
instance : BEq Label where
  beq l m := l.site == m.site

/-- What a label gives to a hasher: its kind, and then its index, or the number of its ends and the
ends themselves, the smaller one first. -/
def words : Label → List Nat
  | .vertex i => [0, i]
  | .midpoint a b => [1, 2, min a b, max a b]

instance : Hashable Label where
  hash l := hash l.words

theorem beq_iff_site_eq {l m : Label} : (l == m) = true ↔ l.site = m.site :=
  beq_iff_eq (a := l.site)

instance : EquivBEq Label where
  rfl := beq_iff_site_eq.2 rfl
  symm h := beq_iff_site_eq.2 (beq_iff_site_eq.1 h).symm
  trans h h' := beq_iff_site_eq.2 ((beq_iff_site_eq.1 h).trans (beq_iff_site_eq.1 h'))

/-- Labels give a hasher the same words exactly where they compare equal. -/
theorem beq_iff_words_eq {l m : Label} : (l == m) = true ↔ l.words = m.words := by
  rw [beq_iff_site_eq]
  cases l <;> cases m <;> simp [site, words]

instance : LawfulHashable Label where
  hash_eq _ _ h := congrArg (fun words : List Nat => hash words) (beq_iff_words_eq.1 h)

variable {α : Type} {d : Nat}

/-- The vertex with the given index. -/
def vertexAt (vertices : Array (Point α d)) (index : Nat) : Except (Fault α) (Point α d) :=
  match vertices[index]? with
  | some p => .ok p
  | none => .error (.indexOutOfBounds vertices.size index)

/-- The point that the label stands for. The end of an edge with the smaller index comes first, so
that the point does not depend on the order in which the label names them. -/
def place [Scalar α] (m : Manifold α d) (vertices : Array (Point α d)) :
    Label → Except (Fault α) (Placement α d)
  | .vertex i => return { point := ← vertexAt vertices i }
  | .midpoint a b => do
    let p ← vertexAt vertices (min a b)
    let q ← vertexAt vertices (max a b)
    m.midpoint p q

end Label

end CurvedMesh
