import CurvedMesh.Fault

/-!
# Cells

Segments and triangles, given by their corners. A corner may be anything: the index of a vertex, a
label for a vertex that has no index yet, or a point. Splitting a cell at the midpoints of its edges
is one function for all of them.
-/

namespace CurvedMesh

inductive Shape where
  | segment
  | triangle
deriving DecidableEq, Repr

namespace Shape

def corners : Shape → Nat
  | segment => 2
  | triangle => 3

end Shape

/-- A cell of the given shape. The order of the corners orients it. -/
inductive Cell (ι : Type) : Shape → Type where
  | segment (a b : ι) : Cell ι .segment
  | triangle (a b c : ι) : Cell ι .triangle
deriving DecidableEq, Repr

namespace Cell

variable {α ι κ : Type} {s : Shape}

def corners : Cell ι s → List ι
  | .segment a b => [a, b]
  | .triangle a b c => [a, b, c]

def map (f : ι → κ) : Cell ι s → Cell κ s
  | .segment a b => .segment (f a) (f b)
  | .triangle a b c => .triangle (f a) (f b) (f c)

def ofCorners? : {s : Shape} → List ι → Option (Cell ι s)
  | .segment, [a, b] => some (.segment a b)
  | .triangle, [a, b, c] => some (.triangle a b c)
  | _, _ => none

def ofCorners (corners : List ι) : Except (Fault α) (Cell ι s) :=
  match ofCorners? corners with
  | some c => .ok c
  | none => .error .wrongCornerCount

/-- The corner at a position, and the cell with another corner in its place. -/
def replace : {s : Shape} → Cell ι s → Nat → ι → Except (Fault α) (ι × Cell ι s)
  | _, .segment a b, 0, x => .ok (a, .segment x b)
  | _, .segment a b, 1, x => .ok (b, .segment a x)
  | _, .triangle a b c, 0, x => .ok (a, .triangle x b c)
  | _, .triangle a b c, 1, x => .ok (b, .triangle a x c)
  | _, .triangle a b c, 2, x => .ok (c, .triangle a b x)
  | s, _, position, _ => .error (.indexOutOfBounds s.corners position)

/-- The halves of a segment, or the three corner triangles of a triangle and then its middle one.
All of them keep the orientation. -/
def split (corner : ι → κ) (midpoint : ι → ι → κ) : Cell ι s → List (Cell κ s)
  | .segment a b =>
    let m := midpoint a b
    [.segment (corner a) m, .segment m (corner b)]
  | .triangle a b c =>
    let d := midpoint a b
    let e := midpoint b c
    let f := midpoint c a
    [.triangle (corner a) d f, .triangle d (corner b) e, .triangle f e (corner c),
      .triangle d e f]

/-! ## Corners of the results -/

@[simp] theorem corners_map (f : ι → κ) (c : Cell ι s) : (c.map f).corners = c.corners.map f := by
  cases c <;> rfl

theorem corners_injective {c c' : Cell ι s} (h : c.corners = c'.corners) : c = c' := by
  cases c <;> cases c' <;> simp_all [corners]

@[simp] theorem ofCorners?_corners (c : Cell ι s) : ofCorners? c.corners = some c := by
  cases c <;> rfl

theorem ofCorners_map (f : ι → κ) (c : Cell ι s) :
    ofCorners (c.corners.map f) = Except.ok (ε := Fault α) (c.map f) := by
  rw [ofCorners, ← corners_map, ofCorners?_corners]

theorem split_map {ν : Type} (f : ι → κ) (corner : κ → ν) (midpoint : κ → κ → ν) (c : Cell ι s) :
    (c.map f).split corner midpoint =
      c.split (fun i => corner (f i)) fun i j => midpoint (f i) (f j) := by
  cases c <;> rfl

theorem map_split {ν : Type} (f : κ → ν) (corner : ι → κ) (midpoint : ι → ι → κ) (c : Cell ι s) :
    (c.split corner midpoint).map (map f) =
      c.split (fun i => f (corner i)) fun i j => f (midpoint i j) := by
  cases c <;> rfl

end Cell

end CurvedMesh
