import CurvedMesh.Proofs.OrderedField
import CurvedMesh.Proofs.Conformity
import CurvedMesh.Proofs.Lineage
import CurvedMesh.Proofs.Polygon
import Mathlib.Analysis.Convex.Hull
import Mathlib.Data.Sign.Basic
import Mathlib.LinearAlgebra.SesquilinearForm.Basic

/-!
# What refinement makes of a straight cell

In straight space the rounds cut a segment into equal parts, from one end to the other, and a
triangle into parts of equal area that turn the same way as the triangle. An area is what an
alternating form makes of two sides, so this says it in every dimension.
-/

namespace CurvedMesh

variable {K : Type} [Field K] {d : Nat} {s : Shape}

/-! ## Equal parts and equal areas -/

/-- The point at `t` on the line that is at `p` for zero and at `q` for one. -/
def Point.along (p q : Point K d) (t : K) : Point K d :=
  p + (q - p).scale t

namespace Cell

/-- The segment cut into `count` equal parts, in order. -/
def equalParts (count : Nat) (p q : Point K d) : List (Cell (Point K d) .segment) :=
  (List.range count).map fun j =>
    .segment (.along p q ((j : Nat) / count)) (.along p q ((j + 1 : Nat) / count))

/-- What a form makes of the two sides of a triangle that leave its first corner. In the plane and
for the determinant this is twice the signed area. -/
def spread {W : Type*} [AddCommGroup W] [Module K W]
    (B : (Fin d → K) →ₗ[K] (Fin d → K) →ₗ[K] W) : Cell (Point K d) .triangle → W
  | .triangle p q r => B (q.get - p.get) (r.get - p.get)

variable [LinearOrder K]

/-- The triangles share the area of `t` equally, turn the same way and lie in `t`. -/
structure EqualAreas.{u} (count : Nat) (t : Cell (Point K d) .triangle)
    (parts : List (Cell (Point K d) .triangle)) : Prop where
  length : parts.length = count
  spread : ∀ {W : Type u} [AddCommGroup W] [Module K W]
    (B : (Fin d → K) →ₗ[K] (Fin d → K) →ₗ[K] W), B.IsAlt →
      ∀ part ∈ parts, part.spread B = (count : K)⁻¹ • t.spread B
  sum : ∀ {W : Type u} [AddCommGroup W] [Module K W]
    (B : (Fin d → K) →ₗ[K] (Fin d → K) →ₗ[K] W), B.IsAlt →
      (parts.map (Cell.spread B)).sum = t.spread B
  sign : ∀ B : (Fin d → K) →ₗ[K] (Fin d → K) →ₗ[K] K, B.IsAlt →
    ∀ part ∈ parts, SignType.sign (part.spread B) = SignType.sign (t.spread B)
  hull : ∀ part ∈ parts, ∀ x ∈ part.corners,
    x.get ∈ convexHull K (Vector.get '' {p | p ∈ t.corners})

/-- The parts of a straight cell that was cut into `count` of them. -/
def CutInto.{u} (count : Nat) :
    Cell (Point K d) s → List (Cell (Point K d) s) → Prop
  | .segment p q, parts => parts = equalParts count p q
  | .triangle p q r, parts => EqualAreas.{u} count (.triangle p q r) parts

end Cell

namespace Point

theorem get_along (p q : Point K d) (t : K) (i : Fin d) :
    (along p q t).get i = p.get i + (q.get i - p.get i) * t := by
  rw [along, get_add, get_scale, get_sub]

theorem along_zero (p q : Point K d) : along p q 0 = p := by
  refine ext_get fun i => ?_
  rw [get_along]
  ring

theorem along_one (p q : Point K d) : along p q 1 = q := by
  refine ext_get fun i => ?_
  rw [get_along]
  ring

end Point

variable [LinearOrder K] [IsStrictOrderedRing K] [Rounding K]

namespace Point

theorem halfway_along (p q : Point K d) (a b : K) :
    halfway (along p q a) (along p q b) = along p q ((a + b) / 2) := by
  refine ext_get fun i => ?_
  rw [get_halfway, get_along, get_along, get_along]
  ring

theorem coe_halfway (p q : Point K d) :
    (halfway p q).get = (1 / 2 : K) • (p.get + q.get) := by
  funext i
  rw [get_halfway, Pi.smul_apply, Pi.add_apply, smul_eq_mul]
  ring

end Point

/-! ## Segments -/

namespace Mesh

theorem iterate_subdivide_segment (n : Nat) (p q : Point K d) :
    (subdivide Point.halfway)^[n] [.segment p q] = Cell.equalParts (2 ^ n) p q := by
  induction n with
  | zero => simp [Cell.equalParts, Point.along_zero, Point.along_one]
  | succ n ih =>
    rw [Function.iterate_succ_apply', ih, Cell.equalParts, Cell.equalParts, subdivide,
      List.flatMap_map, Nat.pow_succ', ← flatMap_range_pairs]
    refine List.flatMap_congr fun j _ => ?_
    have hstart : ((2 * j : Nat) : K) / (2 * 2 ^ n : Nat) = j / (2 ^ n : Nat) := by
      push_cast
      rw [mul_div_mul_left _ _ two_ne_zero]
    have hmiddle : ((2 * j + 1 : Nat) : K) / (2 * 2 ^ n : Nat) =
        (j / (2 ^ n : Nat) + (j + 1 : Nat) / (2 ^ n : Nat)) / 2 := by
      push_cast
      field_simp
      ring
    have hend : ((2 * j + 1 + 1 : Nat) : K) / (2 * 2 ^ n : Nat) =
        (j + 1 : Nat) / (2 ^ n : Nat) := by
      push_cast
      field_simp
      ring
    rw [Cell.bisect, Point.halfway_along, hstart, hmiddle, hend]

end Mesh

/-! ## Triangles -/

namespace Cell

theorem spread_bisect {W : Type*} [AddCommGroup W] [Module K W]
    {B : (Fin d → K) →ₗ[K] (Fin d → K) →ₗ[K] W} (hB : B.IsAlt) (t : Cell (Point K d) .triangle) :
    ∀ part ∈ t.bisect Point.halfway, part.spread B = (4 : K)⁻¹ • t.spread B := by
  -- The parts at the corners are half as long, and the part in the middle is that one turned.
  cases t with
  | triangle p q r =>
    have hhalves (x y : Fin d → K) :
        B ((1 / 2 : K) • x) ((1 / 2 : K) • y) = (4 : K)⁻¹ • B x y := by
      rw [map_smul, LinearMap.map_smul₂, smul_smul]
      norm_num
    have hturn : B (r.get - p.get) (r.get - q.get) = B (q.get - p.get) (r.get - p.get) := by
      rw [← sub_sub_sub_cancel_right r.get q.get p.get, map_sub, hB.self_eq_zero, zero_sub, hB.neg]
    simp only [bisect, List.forall_mem_cons, List.not_mem_nil, false_implies, implies_true,
      and_true, spread, Point.coe_halfway]
    refine ⟨?_, ?_, ?_, ?_⟩
    · rw [← hhalves]
      congr 2 <;> module
    · rw [← hhalves]
      congr 2 <;> module
    · rw [← hhalves]
      congr 2 <;> module
    · rw [← hturn, ← hhalves]
      congr 2 <;> module

theorem corners_bisect_subset {C : Set (Fin d → K)} (hC : Convex K C) {t : Cell (Point K d) s}
    (ht : ∀ x ∈ t.corners, x.get ∈ C) :
    ∀ part ∈ t.bisect Point.halfway, ∀ x ∈ part.corners, x.get ∈ C := by
  intro part hpart x hx
  rcases mem_corners_bisect hpart hx with hold | ⟨p, hp, q, hq, rfl⟩
  · exact ht x hold
  · have hhalf : (0 : K) ≤ 1 / 2 := by norm_num
    rw [Point.coe_halfway, smul_add]
    exact hC (ht p hp) (ht q hq) hhalf hhalf (by norm_num)

end Cell

namespace Mesh

theorem forall_mem_iterate_subdivide {α : Type} {mid : Point α d → Point α d → Point α d}
    {P : Nat → Cell (Point α d) s → Prop} {t : Cell (Point α d) s} (hstart : P 0 t)
    (hstep : ∀ n t, P n t → ∀ part ∈ t.bisect mid, P (n + 1) part) (n : Nat) :
    ∀ part ∈ (subdivide mid)^[n] [t], P n part := by
  induction n with
  | zero => exact List.forall_mem_singleton.2 hstart
  | succ n ih =>
    rw [Function.iterate_succ_apply']
    intro part hpart
    obtain ⟨t', ht', hpart⟩ := List.mem_flatMap.1 hpart
    exact hstep n t' (ih t' ht') part hpart

theorem spread_iterate_subdivide {W : Type*} [AddCommGroup W] [Module K W]
    {B : (Fin d → K) →ₗ[K] (Fin d → K) →ₗ[K] W} (hB : B.IsAlt) (t : Cell (Point K d) .triangle)
    (n : Nat) : ∀ part ∈ (subdivide Point.halfway)^[n] [t],
      part.spread B = ((4 ^ n : Nat) : K)⁻¹ • t.spread B := by
  refine forall_mem_iterate_subdivide
    (P := fun n part => part.spread B = ((4 ^ n : Nat) : K)⁻¹ • t.spread B) ?_ ?_ n
  · rw [Nat.pow_zero, Nat.cast_one, inv_one, one_smul]
  · intro n t' ht' part hpart
    rw [Cell.spread_bisect hB t' part hpart, ht', smul_smul, Nat.pow_succ', Nat.cast_mul, mul_inv,
      Nat.cast_ofNat]

theorem equalAreas_iterate_subdivide.{u} (t : Cell (Point K d) .triangle) (n : Nat) :
    Cell.EqualAreas.{u} (4 ^ n) t ((subdivide Point.halfway)^[n] [t]) := by
  have hlength : ((subdivide Point.halfway)^[n] [t]).length = 4 ^ n := by
    rw [length_iterate_subdivide, List.length_singleton, Nat.mul_one, Shape.parts]
  have hcount : (0 : K) < (4 ^ n : Nat) := Nat.cast_pos.2 (Nat.pow_pos four_pos)
  refine ⟨hlength, fun B hB => spread_iterate_subdivide hB t n, fun B hB => ?_, fun B hB => ?_, ?_⟩
  · have hshare : ∀ x ∈ ((subdivide Point.halfway)^[n] [t]).map (Cell.spread B),
        x = ((4 ^ n : Nat) : K)⁻¹ • t.spread B :=
      List.forall_mem_map.2 (spread_iterate_subdivide hB t n)
    rw [List.sum_eq_card_nsmul _ _ hshare, List.length_map, hlength, ← Nat.cast_smul_eq_nsmul K,
      smul_smul, mul_inv_cancel₀ hcount.ne', one_smul]
  · intro part hpart
    rw [spread_iterate_subdivide hB t n part hpart, smul_eq_mul, sign_mul,
      sign_pos (inv_pos.2 hcount), one_mul]
  · have hC := convex_convexHull K (Vector.get '' {p | p ∈ t.corners})
    refine forall_mem_iterate_subdivide (P := fun _ part => ∀ x ∈ part.corners, x.get ∈ _) ?_
      (fun _ _ ht' => Cell.corners_bisect_subset hC ht') n
    exact fun x hx => subset_convexHull K _ ⟨x, hx, rfl⟩

/-! ## Refined meshes -/

/-- In straight space the block of descendants of a cell is the cell cut into equal parts. -/
theorem cutInto_refineTimes.{u} {mesh : Mesh K d s} (hcheck : mesh.check = .ok ()) (n : Nat) :
    ∃ soup fine rounds pieces, mesh.soup? = some soup ∧
      mesh.refineTimes FlatSpace.euclidean.manifold n = .ok (fine, rounds) ∧
      fine.soup? = some pieces ∧ ∀ i t, soup[i]? = some t →
        (∀ k, Descends FlatSpace.euclidean.manifold n mesh i k ↔
          i * s.parts ^ n ≤ k ∧ k < (i + 1) * s.parts ^ n) ∧
        Cell.CutInto.{u} (s.parts ^ n) t
          ((pieces.drop (i * s.parts ^ n)).take (s.parts ^ n)) := by
  obtain ⟨soup, hsoup⟩ := exists_soup (check_eq_ok_iff.1 hcheck)
  obtain ⟨fine, rounds, htimes, hfine⟩ :=
    exists_refineTimes_soup FlatSpace.bisectsBy_halfway_of_field Point.halfway_comm hsoup n
  refine ⟨soup, fine, rounds, _, hsoup, htimes, hfine, fun i t ht => ⟨fun k => ?_, ?_⟩⟩
  · have hlength : soup.length = mesh.cells.length := by
      simpa using (congrArg List.length (soup?_eq_some_iff.1 hsoup)).symm
    have hi : i < mesh.cells.length := hlength ▸ (List.getElem?_eq_some_iff.1 ht).1
    rw [descends_iff_block htimes, and_iff_right hi]
  · rw [take_drop_iterate_subdivide n ht]
    cases t with
    | segment p q => exact iterate_subdivide_segment n p q
    | triangle p q r => exact equalAreas_iterate_subdivide _ n

theorem cutInto_refineTimes_square :
    letI : Rounding ℚ := .exact
    unitSquare.check = .ok () ∧ squareOutline.check = .ok () ∧
      (∃ soup fine rounds pieces, unitSquare.soup? = some soup ∧
        unitSquare.refineTimes FlatSpace.euclidean.manifold 2 = .ok (fine, rounds) ∧
        fine.soup? = some pieces ∧ ∀ i t, soup[i]? = some t →
          Cell.EqualAreas.{0} 16 t ((pieces.drop (i * 16)).take 16)) ∧
      ∃ soup fine rounds pieces, squareOutline.soup? = some soup ∧
        squareOutline.refineTimes FlatSpace.euclidean.manifold 3 = .ok (fine, rounds) ∧
        fine.soup? = some pieces ∧ ∀ i p q, soup[i]? = some (.segment p q) →
          (pieces.drop (i * 8)).take 8 = Cell.equalParts 8 p q := by
  let _ : Rounding ℚ := .exact
  have hsquare : unitSquare.check = .ok () := rfl
  have houtline : squareOutline.check = .ok () := rfl
  refine ⟨hsquare, houtline, ?_, ?_⟩
  · obtain ⟨soup, fine, rounds, pieces, hsoup, htimes, hpieces, hblock⟩ :=
      cutInto_refineTimes.{0} hsquare 2
    refine ⟨soup, fine, rounds, pieces, hsoup, htimes, hpieces, fun i t ht => ?_⟩
    cases t with
    | triangle p q r => exact (hblock i _ ht).2
  · obtain ⟨soup, fine, rounds, pieces, hsoup, htimes, hpieces, hblock⟩ :=
      cutInto_refineTimes.{0} houtline 3
    exact ⟨soup, fine, rounds, pieces, hsoup, htimes, hpieces, fun i p q ht => (hblock i _ ht).2⟩

end Mesh

end CurvedMesh
