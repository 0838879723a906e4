import CurvedMesh.Proofs.SphereRadius
import CurvedMesh.Proofs.VertexInvariant

/-!
# Refinement in a shell

A shell is what lies between two spheres around the center. Refining a mesh in it stays in it, and a
mesh on a single sphere stays on the sphere. Up to three dimensions nothing can fail, not even where
the ends of an edge are antipodal.
-/

namespace CurvedMesh

variable {d : Nat}

namespace Spheres

/-- Between the spheres with the radii `low` and `high`. -/
def Shell (s : Spheres ℝ d) (low high : ℝ) (p : Point ℝ d) : Prop :=
  low ≤ (p - s.center).norm ∧ (p - s.center).norm ≤ high

variable {s : Spheres ℝ d} {low high : ℝ} {p q : Point ℝ d}

theorem ends_midpoint_shell (hlow : radiusTolerance < low) (hp : s.Shell low high p)
    (hq : s.Shell low high q) :
    Ends (fun fault => 3 < d ∧ fault = .chart (.unsupportedDimension d))
      (fun placement => s.Shell low high placement.point) (s.manifold.midpoint p q) := by
  have hradius := s.averageRadius_halves p q
  have hplace := s.ends_place (WeightedPoints.check_halves p q) (by linarith [hp.1, hq.1])
  rw [Manifold.midpoint_eq_place]
  change Ends _ _ (s.place _)
  refine hplace.imp (fun _ hfault => hfault) fun placement hnorm => ?_
  constructor
  · linarith [hp.1, hq.1]
  · linarith [hp.2, hq.2]

theorem midpoint_antipodal (hd : d = 3) (hlow : radiusTolerance < low) (hp : s.Shell low high p)
    (hq : s.Shell low high q) (hantipodal : (p - s.center) + (q - s.center) = 0) :
    ∃ placement, s.manifold.midpoint p q = .ok placement ∧
      placement.fallback? = some ⟨s.center, s.averageRadius (.halves p q)⟩ ∧
      s.Shell low high placement.point := by
  have hcheck := WeightedPoints.check_halves p q
  have hradius := s.averageRadius_halves p q
  have htolerance : radiusTolerance < s.averageRadius (.halves p q) := by linarith [hp.1, hq.1]
  have hnear : (s.centroid (.halves p q)).norm ≤
      radiusTolerance * max (s.averageRadius (.halves p q)) 1 := by
    have hpos : (0 : ℝ) < radiusTolerance := radiusTolerance_pos
    rw [centroid_halves, hantipodal, Point.zero_scale, Point.norm_zero]
    positivity
  obtain ⟨r, hr⟩ := exists_chart_place hd.le hcheck htolerance
  have hplace : s.place (.halves p q) =
      .ok { point := r, fallback? := some ⟨s.center, s.averageRadius (.halves p q)⟩ } := by
    unfold place
    rw [if_neg (by omega), project_of_no_direction hcheck htolerance hnear, if_neg (by omega), hr]
    rfl
  have hshell := ends_midpoint_shell hlow hp hq
  rw [Manifold.midpoint_eq_place] at hshell ⊢
  change Ends _ _ (s.place _) at hshell
  rw [hplace] at hshell
  exact ⟨_, hplace, rfl, hshell⟩

end Spheres

namespace Mesh

variable {shape : Shape}

/-- New vertices are no nearer to the center of the spheres than the old ones, and no farther from
it. A round can fail only above three dimensions, and only for want of chart coordinates. -/
theorem staysInShell_refineTimes (s : Spheres ℝ d) {low high : ℝ}
    (hlow : Spheres.radiusTolerance < low) {mesh : Mesh ℝ d shape} (hcheck : mesh.check = .ok ())
    (hmesh : mesh.ReferencedIn (s.Shell low high)) {n : Nat} (hn : 1 ≤ n) :
    (d ≤ 3 → ∃ fine rounds, mesh.refineTimes s.manifold n = .ok (fine, rounds) ∧
      fine.VerticesIn (s.Shell low high)) ∧
    (3 < d → Ends (fun fault => fault = .chart (.unsupportedDimension d))
      (fun result => result.1.VerticesIn (s.Shell low high)) (mesh.refineTimes s.manifold n)) ∧
    (d = 3 → ∀ p q, s.Shell low high p → s.Shell low high q →
      (p - s.center) + (q - s.center) = 0 →
      ∃ placement, s.manifold.midpoint p q = .ok placement ∧ placement.fallback?.isSome ∧
        s.Shell low high placement.point) := by
  have hrun := hmesh.ends_refineTimes (fun _ _ => Spheres.ends_midpoint_shell hlow)
    (check_eq_ok_iff.1 hcheck) hn
  refine ⟨fun hd => ?_, fun _ => ?_, fun hd p q hp hq hantipodal => ?_⟩
  · have htotal : Ends (fun _ => False) (fun result => result.1.VerticesIn (s.Shell low high))
        (mesh.refineTimes s.manifold n) :=
      hrun.imp (fun _ h => absurd h.1 (not_lt.2 hd)) fun _ h => h.2
    obtain ⟨⟨fine, rounds⟩, hfine, hshell⟩ := htotal.exists_ok
    exact ⟨fine, rounds, hfine, hshell⟩
  · exact hrun.imp (fun _ h => h.2) fun _ h => h.2
  · obtain ⟨placement, hplaced, hfallback, hshell⟩ :=
      Spheres.midpoint_antipodal hd hlow hp hq hantipodal
    exact ⟨placement, hplaced, by rw [hfallback]; rfl, hshell⟩

/-- The segment between the poles of the unit sphere. -/
noncomputable def axis : Mesh ℝ 3 .segment where
  vertices := #[#v[0, 0, 1], #v[0, 0, -1]]
  cells := [.segment 0 1]

theorem staysInShell_refineTimes_axis :
    Spheres.radiusTolerance < (1 : ℝ) ∧ axis.check = .ok () ∧
      axis.ReferencedIn (Spheres.Shell ⟨#v[0, 0, 0], by decide⟩ 1 1) ∧
      ∃ fine rounds, axis.refineTimes (Spheres.manifold ⟨#v[0, 0, 0], by decide⟩) 2 =
        .ok (fine, rounds) ∧ ∀ p ∈ fine.vertices, (p - #v[0, 0, 0]).norm = 1 := by
  have hlow : Spheres.radiusTolerance < (1 : ℝ) := by
    rw [Spheres.radiusTolerance_eq]
    norm_num
  have hcheck : axis.check = .ok () := rfl
  have hpole (z : ℝ) (hz : z * z = 1) : (#v[0, 0, z] - #v[0, 0, 0] : Point ℝ 3).norm = 1 := by
    have hdot : (#v[0, 0, z] - #v[0, 0, 0] : Point ℝ 3).dot (#v[0, 0, z] - #v[0, 0, 0]) =
        z * z := by
      simp [Point.dot, Fin.sum_univ_three, Vector.get]
    rw [Point.norm_eq_sqrt, hdot, hz, Real.sqrt_one]
  have hmesh : axis.ReferencedIn (Spheres.Shell ⟨#v[0, 0, 0], by decide⟩ 1 1) := by
    intro i hi p hp
    have hcorner : i = 0 ∨ i = 1 := by simpa [mem_referenced, axis, Cell.corners] using hi
    rcases hcorner with rfl | rfl
    · cases hp
      exact ⟨(hpole 1 (by norm_num)).ge, (hpole 1 (by norm_num)).le⟩
    · cases hp
      exact ⟨(hpole (-1) (by norm_num)).ge, (hpole (-1) (by norm_num)).le⟩
  refine ⟨hlow, hcheck, hmesh, ?_⟩
  obtain ⟨fine, rounds, hfine, hshell⟩ :=
    (staysInShell_refineTimes ⟨#v[0, 0, 0], by decide⟩ hlow hcheck hmesh (n := 2) (by decide)).1
      (by decide)
  exact ⟨fine, rounds, hfine, fun p hp => le_antisymm (hshell p hp).2 (hshell p hp).1⟩

end Mesh

end CurvedMesh
