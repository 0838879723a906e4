import CurvedMesh.Scalar

/-!
# Points and vectors

Points of the ambient space, chart points, displacements and periods are all vectors with one
coordinate per axis. Sums and differences are the componentwise ones of `Vector`.
-/

namespace CurvedMesh

abbrev Point (α : Type) (d : Nat) := Vector α d

namespace Point

variable {α : Type} {d : Nat}

def scale [Mul α] (p : Point α d) (a : α) : Point α d :=
  p.map (· * a)

/-- The sum of the squared coordinates, from left to right. Dimension four pairs the even axes and
the odd axes first, which can differ in the last place. -/
def normSq [Scalar α] : {d : Nat} → Point α d → α
  | 4, p => (p[0] * p[0] + p[2] * p[2]) + (p[1] * p[1] + p[3] * p[3])
  | _, p => p.toList.foldl (fun s x => s + x * x) 0

def norm [AnalyticScalar α] (p : Point α d) : α :=
  AnalyticScalar.sqrt p.normSq

/-- The sum of the points, each times its weight, from left to right. Entries of the longer list
that have no partner are left out. -/
def weightedSum [Scalar α] (weights : List α) (points : List (Point α d)) : Point α d :=
  (weights.zip points).foldl (fun sum entry => sum + entry.2.scale entry.1) 0

end Point

end CurvedMesh
