import CurvedMesh.Proofs.Midpoints

/-!
# Scalars from an ordered field

An ordered field is a type of scalars as soon as it has two functions in the place of the floor and
of the remainder. Straight space calls neither of them, so there any two will do.
-/

namespace CurvedMesh

/-- What stands in the place of the floor and of the remainder. No law binds them. -/
class Rounding (K : Type) where
  floor : K → K
  rem : K → K → K

variable {K : Type} [Field K] [LinearOrder K] {d : Nat}

instance fieldScalar [Rounding K] : Scalar K where
  decLt := inferInstance
  decLe := inferInstance
  floor := Rounding.floor
  rem := Rounding.rem

/-- The floor of a field that has floors, and the remainder of truncated division. -/
@[reducible] def Rounding.exact [FloorRing K] : Rounding K where
  floor := exactScalar.floor
  rem := exactScalar.rem

variable [IsStrictOrderedRing K] [Rounding K]

namespace Point

theorem get_halfway (p q : Point K d) (i : Fin d) :
    (halfway p q).get i = (p.get i + q.get i) / 2 := by
  simp only [halfway, weightedSum, Scalar.half, List.zip_cons_cons, List.zip_nil_left,
    List.foldl_cons, List.foldl_nil, get_add, get_scale, Nat.cast_ofNat]
  have hzero : (0 : Point K d).get i = 0 := Vector.getElem_zero i i.isLt
  rw [hzero]
  ring

theorem halfway_comm (p q : Point K d) : halfway p q = halfway q p := by
  refine ext_get fun i => ?_
  rw [get_halfway, get_halfway, add_comm]

end Point

theorem FlatSpace.bisectsBy_halfway_of_field :
    (euclidean : FlatSpace K d).manifold.BisectsBy Point.halfway := by
  have hhalf : (Scalar.half : K) = 1 / 2 := by simp [Scalar.half]
  refine bisectsBy_halfway (lt_irrefl 0) ?_ ?_ ?_ <;> rw [hhalf] <;> norm_num

end CurvedMesh
