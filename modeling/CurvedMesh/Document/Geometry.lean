import CurvedMesh.Document.Basic
import CurvedMesh.Geometry.FlatSpace
import CurvedMesh.Geometry.Spheres

/-!
# Stored geometries and point sets

A geometry is read through its constructor, so no document makes one that the constructor refuses.
The periods of spheres are not stored. A weighted point set is read as it stands.
-/

namespace CurvedMesh

variable {d : Nat}

def FlatSpace.toDocument (f : FlatSpace Float d) : Document :=
  .object [("periodicity", .ofPoint f.periodicity)]

def FlatSpace.ofDocument (doc : Document) : Except ReadFault (FlatSpace Float d) :=
  match doc.fields? ["periodicity"] with
  | some [periodicity] =>
    match periodicity.point? d with
    | some p => (FlatSpace.ofPeriodicity p).mapError .refused
    | none => .error .malformed
  | _ => .error .malformed

def Spheres.toDocument (s : Spheres Float d) : Document :=
  .object [("center", .ofPoint s.center)]

def Spheres.ofDocument (doc : Document) : Except ReadFault (Spheres Float d) :=
  match doc.fields? ["center"] with
  | some [center] =>
    match center.point? d with
    | some p => (Spheres.ofCenter p).mapError .refused
    | none => .error .malformed
  | _ => .error .malformed

def WeightedPoints.toDocument (q : WeightedPoints Float d) : Document :=
  .object [("weights", .list (q.weights.map .ofFloat)), ("points", .list (q.points.map .ofPoint))]

/-- Nothing relates the two lists to each other. -/
def WeightedPoints.ofDocument (doc : Document) : Except ReadFault (WeightedPoints Float d) :=
  match doc.fields? ["weights", "points"] with
  | some [weights, points] =>
    match weights.list? >>= (·.mapM Document.float?),
        points.list? >>= (·.mapM (Document.point? d)) with
    | some weights, some points => .ok ⟨weights, points⟩
    | _, _ => .error .malformed
  | _ => .error .malformed

end CurvedMesh
