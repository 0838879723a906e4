import CurvedMesh.Proofs.Dot

/-!
# Triangles in space

The determinant of the three corners, seen from a point, says from which side the triangle is
counter-clockwise. Where the new corners lie on the rays through the midpoints, it keeps its sign.
-/

namespace CurvedMesh.Point

variable {K : Type} [Field K]

def cross (u v : Point K 3) : Point K 3 :=
  #v[u.get 1 * v.get 2 - u.get 2 * v.get 1, u.get 2 * v.get 0 - u.get 0 * v.get 2,
    u.get 0 * v.get 1 - u.get 1 * v.get 0]

def det (u v w : Point K 3) : K :=
  u.dot (v.cross w)

theorem det_eq (u v w : Point K 3) :
    det u v w = u.get 0 * (v.get 1 * w.get 2 - v.get 2 * w.get 1) +
      u.get 1 * (v.get 2 * w.get 0 - v.get 0 * w.get 2) +
        u.get 2 * (v.get 0 * w.get 1 - v.get 1 * w.get 0) := by
  unfold det dot
  rw [Fin.sum_univ_three]
  rfl

theorem det_rotate (u v w : Point K 3) : det v w u = det u v w := by
  simp only [det_eq]
  ring

theorem det_corner (u v w : Point K 3) (a b : K) :
    det u ((u + v).scale a) ((w + u).scale b) = a * b * det u v w := by
  simp only [det_eq, get_scale, get_add]
  ring

theorem det_middle (u v w : Point K 3) (a b c : K) :
    det ((u + v).scale a) ((v + w).scale b) ((w + u).scale c) = 2 * (a * b * c) * det u v w := by
  simp only [det_eq, get_scale, get_add]
  ring

theorem cross_sub_dot (p q r c : Point K 3) :
    ((q - p).cross (r - p)).dot (p - c) = det (p - c) (q - c) (r - c) := by
  rw [dot_comm, ← det]
  simp only [det_eq, get_sub]
  ring

end CurvedMesh.Point
