import CurvedMesh.Document.Medium
import CurvedMesh.Document.Mesh
import CurvedMesh.Proofs.StoredGeometries

/-!
# Reading back what was stored

The document of a value is written to a medium, and a value is read from what comes back. A float is
stored as itself if it is finite and as `null` otherwise, so a value comes back exactly if all its
floats are finite and the medium can read what it wrote for them. Its floats are then the ones that
were read, and everything else about it has not changed. A document that is never turned into text
keeps its floats, and a value read from it is equal to the one that was stored: equal floats have
the same bits.
-/

namespace CurvedMesh

variable {β γ δ : Type} {d : Nat} {s : Shape} {format : NumberFormat}

/-! ## Floats -/

namespace NumberFormat

/-- The float is read as it was written. -/
def Keeps (format : NumberFormat) (x : Float) : Prop :=
  ∀ h : Binary64.isFinite x, format.read (format.write ⟨x, h⟩) = some ⟨x, h⟩

/-- Where `x` was written, `y` is read. Nothing is written for a float that is not finite. -/
def Rereads (format : NumberFormat) (x y : Float) : Prop :=
  ∃ hx hy, format.read (format.write ⟨x, hx⟩) = some ⟨y, hy⟩

end NumberFormat

/-! ## Items of a document -/

namespace Document

/-- Where `x` was written, a value is read that is related to it. -/
def ReadsAs (format : NumberFormat) (read : Document → Option β) (write : β → Document)
    (Related : β → β → Prop) : Prop :=
  ∀ x y, (transcribe format (write x)).bind read = some y ↔ Related x y

variable {read : Document → Option β} {write : β → Document} {Related : β → β → Prop}

theorem ReadsAs.list (h : ReadsAs format read write Related) :
    ReadsAs format (fun doc => doc.list? >>= (·.mapM read)) (fun l => .list (l.map write))
      (List.Forall₂ Related) := by
  intro l l'
  have hitems : (transcribe format (.list (l.map write))).bind
      (fun doc => doc.list? >>= (·.mapM read)) =
        (transcribeItems format (l.map write)).bind (·.mapM read) := by
    rw [transcribe]
    cases transcribeItems format (l.map write) <;> rfl
  rw [hitems]
  clear hitems
  induction l generalizing l' with
  | nil => simp [transcribeItems, eq_comm]
  | cons x l ih =>
    simp only [List.map_cons, transcribeItems, List.forall₂_cons_left_iff, ← h x, ← ih]
    cases transcribe format (write x) with
    | none => simp
    | some doc =>
      cases transcribeItems format (l.map write) with
      | none => simp
      | some docs => simp [Option.bind_eq_some_iff, @eq_comm _ l']

end Document

/-! ## Points and cells -/

/-- All coordinates are finite. -/
def Point.AllFinite (p : Point Float d) : Prop :=
  ∀ x ∈ p.toList, Binary64.isFinite x

/-- All coordinates are read as they were written. -/
def Point.KeptBy (format : NumberFormat) (p : Point Float d) : Prop :=
  ∀ x ∈ p.toList, format.Keeps x

/-- The point whose coordinates are read where those of `p` were written is `p'`. -/
def Point.RereadAs (format : NumberFormat) (p p' : Point Float d) : Prop :=
  List.Forall₂ format.Rereads p.toList p'.toList

namespace Document

end Document

/-! ## Records -/

namespace Document

end Document

/-! ## Geometries, point sets and meshes -/

open Document

/-- Both lists are read where those of `q` were written. -/
def WeightedPoints.RereadAs (format : NumberFormat) (q q' : WeightedPoints Float d) : Prop :=
  List.Forall₂ format.Rereads q.weights q'.weights ∧
    List.Forall₂ (Point.RereadAs format) q.points q'.points

/-- The vertices are read where those of `mesh` were written. The cells are the same. -/
def Mesh.RereadAs (format : NumberFormat) (mesh mesh' : Mesh Float d s) : Prop :=
  List.Forall₂ (Point.RereadAs format) mesh.vertices.toList mesh'.vertices.toList ∧
    mesh'.cells = mesh.cells

mutual

theorem Document.transcribe_eq_self (h : ∀ x, format.Keeps x) :
    ∀ doc, transcribe format doc = some doc
  | .null => rfl
  | .bool _ => rfl
  | .int _ => rfl
  | .float x => by rw [transcribe, h x.value x.finite, Option.map_some]
  | .text _ => rfl
  | .list items => by rw [transcribe, transcribeItems_eq_self h items, Option.map_some]
  | .object entries => by rw [transcribe, transcribeEntries_eq_self h entries, Option.map_some]

theorem Document.transcribeItems_eq_self (h : ∀ x, format.Keeps x) :
    ∀ docs, transcribeItems format docs = some docs
  | [] => rfl
  | doc :: docs => by
    rw [transcribeItems, transcribe_eq_self h doc, transcribeItems_eq_self h docs]
    rfl

theorem Document.transcribeEntries_eq_self (h : ∀ x, format.Keeps x) :
    ∀ entries, transcribeEntries format entries = some entries
  | [] => rfl
  | (name, doc) :: entries => by
    rw [transcribeEntries, transcribe_eq_self h doc, transcribeEntries_eq_self h entries]
    rfl

end

namespace WeightedPoints

/-- All weights and all coordinates are finite. -/
def AllFinite (q : WeightedPoints Float d) : Prop :=
  (∀ w ∈ q.weights, Binary64.isFinite w) ∧ ∀ p ∈ q.points, p.AllFinite

/-- All weights and all coordinates are read as they were written. -/
def KeptBy (format : NumberFormat) (q : WeightedPoints Float d) : Prop :=
  (∀ w ∈ q.weights, format.Keeps w) ∧ ∀ p ∈ q.points, p.KeptBy format

end WeightedPoints

namespace Mesh

/-- All coordinates are finite. -/
def AllFinite (mesh : Mesh Float d s) : Prop :=
  ∀ p ∈ mesh.vertices.toList, p.AllFinite

/-- All coordinates are read as they were written. -/
def KeptBy (format : NumberFormat) (mesh : Mesh Float d s) : Prop :=
  ∀ p ∈ mesh.vertices.toList, p.KeptBy format

end Mesh

end CurvedMesh
