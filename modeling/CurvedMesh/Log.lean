import CurvedMesh.Decimal.Layout
import CurvedMesh.Mesh.Subdivision

/-!
# Log records

Fallbacks are reported as warnings, rounds of refinement with their sizes.
-/

namespace CurvedMesh

inductive Level where
  | warn
  | debug
deriving DecidableEq, Repr

structure Record where
  level : Level
  text : String
deriving DecidableEq, Repr

/-- The coordinates between brackets. -/
def Point.text {d : Nat} (p : Point Float d) : String :=
  "[" ++ ", ".intercalate (p.toList.map Decimal.Layout.marked.render) ++ "]"

def Fallback.record {d : Nat} (fallback : Fallback Float d) : Record where
  level := .warn
  text := s!"Weighted centroid coincides with sphere center {fallback.center.text} (average radius "
    ++ Decimal.Layout.marked.render fallback.averageRadius
    ++ "). Falling back to averaging in spherical coordinates."

def Placement.records {d : Nat} (placement : Placement Float d) : List Record :=
  placement.fallback?.toList.map Fallback.record

/-- The warnings of a round, sorted by their texts, and then its sizes. -/
def Round.records {d : Nat} (round : Round Float d) : List Record :=
  (round.fallbacks.map Fallback.record).mergeSort (fun a b => decide (a.text ≤ b.text)) ++
    [{ level := .debug
       text := s!"Refined mesh from {round.oldVertices} to {round.newVertices} vertices "
        ++ s!"and from {round.oldCells} to {round.newCells} cells" }]

end CurvedMesh
