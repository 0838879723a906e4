import CurvedMesh.Proofs.Round
import CurvedMesh.Mesh.Coarse

/-!
# Refining a closed polygon

Around a closed polygon, corners and edge midpoints take turns. A round of refinement numbers them
in this order, so it makes the closed polygon with twice as many corners, whatever the manifold.
-/

namespace CurvedMesh

/-- The segments of a closed polygon with `n` corners. -/
def polygon (n : Nat) : List (Cell Nat .segment) :=
  (List.range n).map fun i => .segment i ((i + 1) % n)

theorem getLast?_polygon {n : Nat} (hn : 0 < n) :
    (polygon n).getLast? = some (.segment (n - 1) 0) := by
  obtain ⟨k, rfl⟩ := Nat.exists_eq_add_of_lt hn
  rw [Nat.zero_add, polygon, List.range_succ, List.map_append, List.map_singleton,
    List.getLast?_append, List.getLast?_singleton, Nat.mod_self]
  rfl

/-- Where the stop `j` on the way around comes from: a corner if `j` is even, else the midpoint of
an edge. -/
def Origin.stop (n j : Nat) : Origin :=
  if j % 2 = 0 then .vertex (j / 2 % n) else .edge s(j / 2 % n, (j / 2 + 1) % n)

namespace Origin

theorem stop_even (n i : Nat) : stop n (2 * i) = .vertex (i % n) := by
  unfold stop
  rw [if_pos (by omega), Nat.mul_div_cancel_left i Nat.two_pos]

theorem stop_odd (n i : Nat) : stop n (2 * i + 1) = .edge s(i % n, (i + 1) % n) := by
  unfold stop
  rw [if_neg (by omega)]
  have hhalf : (2 * i + 1) / 2 = i := by omega
  rw [hhalf]

theorem stop_mod (n j : Nat) : stop n (j % (2 * n)) = stop n j := by
  unfold stop
  rw [Nat.mod_mul_right_mod, Nat.mod_mul_right_div_self, Nat.mod_mod, Nat.mod_add_mod]

theorem succ_mod {n i : Nat} (h : i < n) : (i + 1) % n = if i + 1 = n then 0 else i + 1 := by
  split
  · rename_i hlast
    rw [hlast, Nat.mod_self]
  · exact Nat.mod_eq_of_lt (by omega)

theorem stop_inj {n j k : Nat} (hn : 3 ≤ n) (hj : j < 2 * n) (hk : k < 2 * n)
    (h : stop n j = stop n k) : j = k := by
  -- With two corners there would be only one edge.
  obtain ⟨i, rfl | rfl⟩ := Nat.even_or_odd' j <;> obtain ⟨i', rfl | rfl⟩ := Nat.even_or_odd' k
  · rw [stop_even, stop_even, Nat.mod_eq_of_lt (by omega), Nat.mod_eq_of_lt (by omega)] at h
    rw [Origin.vertex.inj h]
  · rw [stop_even, stop_odd] at h
    cases h
  · rw [stop_odd, stop_even] at h
    cases h
  · have hi : i < n := by omega
    have hi' : i' < n := by omega
    rw [stop_odd, stop_odd, Nat.mod_eq_of_lt hi, Nat.mod_eq_of_lt hi', succ_mod hi,
      succ_mod hi'] at h
    rcases Sym2.eq_iff.1 (Origin.edge.inj h) with ⟨rfl, -⟩ | ⟨hlow, hhigh⟩
    · rfl
    · split at hlow <;> split at hhigh <;> omega

end Origin

namespace Mesh

variable {α : Type} {d n : Nat} {mesh : Mesh α d .segment}

/-! ## The stops in order -/

theorem flatMap_range_pairs {β : Type} (g : Nat → β) (n : Nat) :
    ((List.range n).flatMap fun i => [g (2 * i), g (2 * i + 1)]) = (List.range (2 * n)).map g := by
  induction n with
  | zero => rfl
  | succ n ih =>
    rw [List.range_succ, List.flatMap_append, ih, List.flatMap_singleton, Nat.mul_succ,
      List.range_succ, List.range_succ]
    simp

theorem parts_of_polygon (h : mesh.cells = polygon n) : mesh.parts =
    (List.range (2 * n)).map fun j => .segment (.stop n j) (.stop n (j + 1)) := by
  rw [parts, h, polygon, List.flatMap_map, ← flatMap_range_pairs]
  refine List.flatMap_congr fun i hi => ?_
  have hnext : Origin.stop n (2 * i + 1 + 1) = .vertex ((i + 1) % n) := Origin.stop_even n (i + 1)
  rw [hnext, Origin.stop_even, Origin.stop_odd, Nat.mod_eq_of_lt (List.mem_range.1 hi)]
  rfl

theorem nodup_stops (hn : 3 ≤ n) : ((List.range (2 * n)).map (Origin.stop n)).Nodup := by
  refine List.Nodup.map_on (fun j hj k hk => ?_) List.nodup_range
  exact Origin.stop_inj hn (List.mem_range.1 hj) (List.mem_range.1 hk)

theorem eraseDups_origins_of_polygon (hn : 3 ≤ n) (h : mesh.cells = polygon n) :
    mesh.origins.eraseDups = (List.range (2 * n)).map (Origin.stop n) := by
  have hwalk : mesh.origins =
      (List.range (2 * n)).flatMap fun j => [Origin.stop n j, Origin.stop n (j + 1)] := by
    rw [origins_eq, parts_of_polygon h, List.flatMap_map]
    rfl
  -- the walk ends where it began, so its last stop is not new
  have hback : Origin.stop n (2 * n) ∈ (List.range (2 * n)).map (Origin.stop n) := by
    rw [← Origin.stop_mod, Nat.mod_self]
    exact List.mem_map_of_mem (List.mem_range.2 (by omega))
  obtain ⟨k, hk⟩ := Nat.exists_eq_add_of_lt (show 0 < 2 * n by omega)
  calc mesh.origins.eraseDups
      = ((List.range (2 * n + 1)).map (Origin.stop n)).eraseDups := by
        rw [hwalk, hk, Nat.zero_add, eraseDups_walk]
    _ = ((List.range (2 * n)).map (Origin.stop n)).eraseDups := by
        rw [List.range_succ, List.map_append, List.map_singleton, eraseDups_concat, if_pos hback]
    _ = (List.range (2 * n)).map (Origin.stop n) := eraseDups_of_nodup (nodup_stops hn)

theorem rank_stop (hn : 3 ≤ n) (h : mesh.cells = polygon n) (j : Nat) :
    mesh.rank (.stop n j) = j % (2 * n) := by
  have hlt : j % (2 * n) < ((List.range (2 * n)).map (Origin.stop n)).length := by
    rw [List.length_map, List.length_range]
    exact Nat.mod_lt j (by omega)
  have hentry : ((List.range (2 * n)).map (Origin.stop n))[j % (2 * n)] = .stop n j := by
    rw [List.getElem_map, List.getElem_range, Origin.stop_mod]
  rw [rank, eraseDups_origins_of_polygon hn h, ← hentry, (nodup_stops hn).idxOf_getElem]

theorem map_rank_parts_of_polygon (hn : 3 ≤ n) (h : mesh.cells = polygon n) :
    mesh.parts.map (Cell.map mesh.rank) = polygon (2 * n) := by
  rw [parts_of_polygon h, polygon, List.map_map]
  refine List.map_congr_left fun j hj => ?_
  have hj : j % (2 * n) = j := Nat.mod_eq_of_lt (List.mem_range.1 hj)
  rw [Function.comp_apply, Cell.map, rank_stop hn h, rank_stop hn h, hj]

/-! ## Rounds -/

theorem valid_of_polygon (h : mesh.cells = polygon n) (hsize : n ≤ mesh.vertices.size) :
    mesh.Valid := by
  intro cell hcell corner hcorner
  rw [h] at hcell
  obtain ⟨i, hi, rfl⟩ := List.mem_map.1 hcell
  have hi := List.mem_range.1 hi
  have hnext : (i + 1) % n < n := Nat.mod_lt _ (by omega)
  simp only [Cell.corners, List.mem_cons, List.not_mem_nil, or_false] at hcorner
  omega

variable [Scalar α] {m : Manifold α d}

/-- The refined polygon, if the place of every stop is known. -/
theorem refine_polygon (hn : 3 ≤ n) (h : mesh.cells = polygon n) (hvalid : mesh.Valid)
    {point : Nat → Point α d}
    (hplace : ∀ j < 2 * n, (Origin.stop n j).place m mesh.vertices = .ok { point := point j }) :
    ∃ round, mesh.refine m =
      .ok ({ vertices := (Array.range (2 * n)).map point, cells := polygon (2 * n) }, round) := by
  refine ⟨_, refine_eq_ok_iff.2 ⟨hvalid,
    (Array.range (2 * n)).map fun j => { point := point j }, ?_, ?_, rfl⟩⟩
  · rw [eraseDups_origins_of_polygon hn h, List.map_map, Array.toList_map, Array.toList_range,
      List.map_map]
    exact List.map_congr_left fun j hj => hplace j (List.mem_range.1 hj)
  · rw [map_rank_parts_of_polygon hn h, Array.map_map]
    rfl

theorem cells_refine_polygon (hn : 3 ≤ n) (h : mesh.cells = polygon n) {fine : Mesh α d .segment}
    {round : Round α d} (hrefine : mesh.refine m = .ok (fine, round)) :
    fine.cells = polygon (2 * n) := by
  obtain ⟨-, placements, -, rfl, -⟩ := refine_eq_ok_iff.1 hrefine
  exact map_rank_parts_of_polygon hn h

theorem cells_refineTimes_polygon (hn : 3 ≤ n) (h : mesh.cells = polygon n) (k : Nat)
    {fine : Mesh α d .segment} {rounds : List (Round α d)}
    (htimes : mesh.refineTimes m k = .ok (fine, rounds)) : fine.cells = polygon (n * 2 ^ k) := by
  induction k generalizing mesh n rounds with
  | zero =>
    cases htimes
    rw [h, Nat.pow_zero, Nat.mul_one]
  | succ k ih =>
    obtain ⟨next, round, rest, hrefine, hrest, rfl⟩ := refineTimes_succ_eq_ok_iff.1 htimes
    have hnext := cells_refine_polygon hn h hrefine
    rw [ih (by omega) hnext hrest, Nat.pow_succ', Nat.mul_comm 2 n, Nat.mul_assoc]

end Mesh

end CurvedMesh
