import CurvedMesh.Proofs.Lineage
import Mathlib.Data.Rat.Floor

/-!
# When refinement fails

A cell that refers to a vertex that is not there makes the first round fail, and the fault names the
first such cell. Nothing else makes a round fail, given midpoints: each round leaves a mesh that the
next one accepts.
-/

namespace CurvedMesh.Mesh

variable {α : Type} {d : Nat} {s : Shape}

/-! ## Dangling corners -/

/-- The corner in this slot of the cell at `i` is no vertex. -/
def Dangling (mesh : Mesh α d s) (i slot corner : Nat) : Prop :=
  ∃ cell, mesh.cells[i]? = some cell ∧ cell.corners[slot]? = some corner ∧
    mesh.vertices.size ≤ corner

/-- No earlier slot dangles, neither of this cell nor of an earlier one. -/
def FirstDangling (mesh : Mesh α d s) (i slot corner : Nat) : Prop :=
  mesh.Dangling i slot corner ∧ ∀ i' slot' corner', mesh.Dangling i' slot' corner' →
    i < i' ∨ i = i' ∧ slot ≤ slot'

variable {mesh : Mesh α d s}

theorem valid_iff_forall_not_dangling :
    mesh.Valid ↔ ∀ i slot corner, ¬ mesh.Dangling i slot corner := by
  constructor
  · rintro h i slot corner ⟨cell, hcell, hcorner, hsize⟩
    have hlt := h cell (List.mem_of_getElem? hcell) corner (List.mem_of_getElem? hcorner)
    exact absurd hlt (not_lt.2 hsize)
  · intro h cell hcell corner hcorner
    obtain ⟨i, hi⟩ := List.getElem?_of_mem hcell
    obtain ⟨slot, hslot⟩ := List.getElem?_of_mem hcorner
    by_contra hsize
    exact h i slot corner ⟨cell, hi, hslot, not_lt.1 hsize⟩

theorem exists_of_findSome?_zipIdx {β γ : Type} {l : List β} {f : β × Nat → Option γ} {c : γ}
    (h : l.zipIdx.findSome? f = some c) : ∃ i b, l[i]? = some b ∧ f (b, i) = some c ∧
      ∀ k < i, ∀ b', l[k]? = some b' → f (b', k) = none := by
  obtain ⟨before, ⟨b, i⟩, after, hsplit, hfound, hbefore⟩ := List.findSome?_eq_some_iff.1 h
  have hat (k : Nat) : (before ++ (b, i) :: after)[k]? = l[k]?.map (·, k) := by
    rw [← hsplit, List.getElem?_zipIdx, Nat.zero_add]
  have hposition := hat before.length
  rw [List.getElem?_append_right le_rfl, Nat.sub_self, List.getElem?_cons_zero] at hposition
  obtain ⟨b', hb, hpair⟩ := Option.map_eq_some_iff.1 hposition.symm
  cases hpair
  refine ⟨before.length, b, hb, hfound, fun k hk b' hb' => hbefore _ ?_⟩
  have hearlier := hat k
  rw [List.getElem?_append_left hk, hb', Option.map_some] at hearlier
  exact List.mem_of_getElem? hearlier

theorem firstDangling_of_eq_some {i corner : Nat} (h : mesh.firstDangling? = some (i, corner)) :
    ∃ slot, mesh.FirstDangling i slot corner := by
  obtain ⟨j, cell, hcell, hfound, hbefore⟩ := exists_of_findSome?_zipIdx h
  obtain ⟨found, hfind, hpair⟩ := Option.map_eq_some_iff.1 hfound
  cases hpair
  obtain ⟨hsize, slot, hslot, hcorner, hearlier⟩ := List.find?_eq_some_iff_getElem.1 hfind
  refine ⟨slot, ⟨cell, hcell, ?_, of_decide_eq_true hsize⟩, ?_⟩
  · rw [List.getElem?_eq_getElem hslot]
    exact congrArg some hcorner
  · rintro i' slot' corner' ⟨cell', hcell', hslot', hsize'⟩
    rcases lt_trichotomy j i' with hlt | rfl | hgt
    · exact .inl hlt
    · right
      refine ⟨rfl, ?_⟩
      by_contra hlt
      cases hcell.symm.trans hcell'
      obtain ⟨hbound, rfl⟩ := List.getElem?_eq_some_iff.1 hslot'
      simpa [hsize'] using hearlier slot' (not_le.1 hlt)
    · have hnone := Option.map_eq_none_iff.1 (hbefore i' hgt cell' hcell')
      have hnot := List.find?_eq_none.1 hnone corner' (List.mem_of_getElem? hslot')
      exact absurd (decide_eq_true hsize') hnot

theorem check_eq_error {fault : Fault α} (h : mesh.check = .error fault) :
    ∃ i slot corner, mesh.FirstDangling i slot corner ∧
      fault = .danglingCorner i corner mesh.vertices.size := by
  unfold check at h
  split at h
  · rename_i i corner hfirst
    cases h
    obtain ⟨slot, hslot⟩ := firstDangling_of_eq_some hfirst
    exact ⟨i, slot, corner, hslot, rfl⟩
  · cases h

/-! ## One round -/

variable [Scalar α] {m : Manifold α d}

/-- What a round does to a mesh without dangling corners: every new vertex is placed, and the
numbers of the corners of every part make a cell. -/
structure RunsThrough (m : Manifold α d) (mesh fine : Mesh α d s) : Prop where
  before : mesh.check = .ok ()
  after : fine.check = .ok ()
  placed : ∀ label ∈ mesh.numbering.order,
    ∃ placement, label.place m mesh.vertices = .ok placement
  numbered : (mesh.children.mapM fun part =>
    Cell.ofCorners (part.corners.map mesh.numbering.number)) = Except.ok (ε := Fault α) fine.cells
  inherited : fine.cells = mesh.lineage.map fun entry => entry.1.map mesh.numbering.number

theorem runsThrough_of_refine {fine : Mesh α d s} {round : Round α d}
    (h : mesh.refine m = .ok (fine, round)) : RunsThrough m mesh fine := by
  have hafter := check_eq_ok_iff.2 (valid_of_refine h)
  obtain ⟨hvalid, placements, hplaced, rfl, -⟩ := refine_eq_ok_iff.1 h
  refine ⟨check_eq_ok_iff.2 hvalid, hafter, ?_, ?_, ?_⟩
  · intro label hlabel
    have horigin : label.origin ∈ mesh.origins.eraseDups := by
      rw [← map_order_numbering]
      exact List.mem_map_of_mem (Array.mem_toList_iff.2 hlabel)
    have hmem : label.origin.place m mesh.vertices ∈ placements.toList.map .ok :=
      hplaced ▸ List.mem_map_of_mem horigin
    obtain ⟨placement, -, hok⟩ := List.mem_map.1 hmem
    exact ⟨placement, (Origin.place_origin m mesh.vertices label).symm.trans hok.symm⟩
  · exact mapM_ofCorners_children mesh
  · rw [← map_number_children, ← map_fst_lineage, List.map_map]
    rfl

theorem refine_of_check_eq_error {fault : Fault α} (h : mesh.check = .error fault) :
    mesh.refine m = .error fault := by
  rw [refine, h]
  rfl

/-! ## All rounds -/

theorem refineTimes_of_check_eq_error {fault : Fault α} (h : mesh.check = .error fault) (n : Nat) :
    mesh.refineTimes m (n + 1) = .error fault := by
  rw [refineTimes, refine_of_check_eq_error h]
  rfl

theorem exists_runsThrough (hm : m.HasMidpoints) (h : mesh.check = .ok ()) :
    ∃ fine round, mesh.refine m = .ok (fine, round) ∧ fine.check = .ok () ∧
      RunsThrough m mesh fine := by
  obtain ⟨mid, hmid⟩ := hm.exists_bisectsBy
  obtain ⟨fine, round, hrefine, -⟩ := exists_refine hmid (check_eq_ok_iff.1 h)
  have hround := runsThrough_of_refine hrefine
  exact ⟨fine, round, hrefine, hround.after, hround⟩

theorem exists_refineTimes (hm : m.HasMidpoints) (h : mesh.check = .ok ()) (n : Nat) :
    ∃ fine rounds, mesh.refineTimes m n = .ok (fine, rounds) ∧ fine.check = .ok () := by
  have step : ∀ (k : Nat) (mesh : Mesh α d s), mesh.check = .ok () →
      ∃ fine round, mesh.refine m = .ok (fine, round) ∧ fine.check = .ok () ∧ True := by
    intro k mesh hmesh
    obtain ⟨fine, round, hrefine, hfine, -⟩ := exists_runsThrough hm hmesh
    exact ⟨fine, round, hrefine, hfine, trivial⟩
  obtain ⟨fine, rounds, htimes, hfine, -⟩ := refineTimes_of_step step n (k := 0) h
  exact ⟨fine, rounds, htimes, hfine⟩

theorem check_of_refineTimes_eq_error (hm : m.HasMidpoints) {n : Nat} {fault : Fault α}
    (h : mesh.refineTimes m n = .error fault) : 1 ≤ n ∧ mesh.check = .error fault := by
  cases hcheck : mesh.check with
  | ok =>
    obtain ⟨fine, rounds, htimes, -⟩ := exists_refineTimes hm hcheck n
    rw [htimes] at h
    cases h
  | error fault' =>
    cases n with
    | zero => cases h
    | succ n =>
      rw [refineTimes_of_check_eq_error hcheck] at h
      exact ⟨n.succ_pos, congrArg Except.error (Except.error.inj h)⟩

/-- Refinement fails exactly if the mesh has a dangling corner, of which it names the first. Else no
step of any round fails, and each cell is the ancestor of one block of new cells. -/
theorem refineTimes_fails_iff_dangling (hm : m.HasMidpoints) (mesh : Mesh α d s) (n : Nat) :
    ((∃ fault, mesh.refineTimes m n = .error fault) ↔
      1 ≤ n ∧ ∃ i slot corner, mesh.Dangling i slot corner) ∧
    (∀ fault, mesh.refineTimes m n = .error fault → mesh.check = .error fault ∧
      ∃ i slot corner, mesh.FirstDangling i slot corner ∧
        fault = .danglingCorner i corner mesh.vertices.size) ∧
    (mesh.check = .ok () → ∃ fine rounds, mesh.refineTimes m n = .ok (fine, rounds) ∧
      fine.check = .ok () ∧ fine.cells.length = s.parts ^ n * mesh.cells.length ∧
      (∀ i k, Descends m n mesh i k ↔
        i < mesh.cells.length ∧ i * s.parts ^ n ≤ k ∧ k < (i + 1) * s.parts ^ n) ∧
      ∀ k, AtRound m mesh k (RunsThrough m)) := by
  refine ⟨⟨?_, ?_⟩, ?_, ?_⟩
  · rintro ⟨fault, hfault⟩
    obtain ⟨hn, hcheck⟩ := check_of_refineTimes_eq_error hm hfault
    obtain ⟨i, slot, corner, hfirst, -⟩ := check_eq_error hcheck
    exact ⟨hn, i, slot, corner, hfirst.1⟩
  · rintro ⟨hn, i, slot, corner, hdangling⟩
    obtain ⟨k, rfl⟩ := Nat.exists_eq_add_of_le' hn
    cases hcheck : mesh.check with
    | ok =>
      have hvalid := valid_iff_forall_not_dangling.1 (check_eq_ok_iff.1 hcheck)
      exact absurd hdangling (hvalid i slot corner)
    | error fault => exact ⟨fault, refineTimes_of_check_eq_error hcheck k⟩
  · intro fault hfault
    obtain ⟨-, hcheck⟩ := check_of_refineTimes_eq_error hm hfault
    exact ⟨hcheck, check_eq_error hcheck⟩
  · intro hcheck
    obtain ⟨fine, rounds, htimes, hfine⟩ := exists_refineTimes hm hcheck n
    refine ⟨fine, rounds, htimes, hfine, length_refineTimes htimes, descends_iff_block htimes, ?_⟩
    exact fun k => atRound_of_step (fun _ => exists_runsThrough hm) hcheck k

/-- The unit square with a corner of its second triangle that is no vertex. -/
def tornSquare : Mesh ℚ 2 .triangle where
  vertices := unitSquare.vertices
  cells := [.triangle 0 1 2, .triangle 0 2 5]

theorem refineTimes_fails_iff_dangling_square :
    (FlatSpace.euclidean : FlatSpace ℚ 2).manifold.HasMidpoints ∧ tornSquare.Dangling 1 2 5 ∧
      (∃ fault, tornSquare.refineTimes FlatSpace.euclidean.manifold 2 = .error fault) ∧
      unitSquare.check = .ok () ∧
      ∃ fine rounds, unitSquare.refineTimes FlatSpace.euclidean.manifold 2 = .ok (fine, rounds) ∧
        fine.cells.length = 32 ∧
        ∀ k, Descends FlatSpace.euclidean.manifold 2 unitSquare 1 k ↔ 16 ≤ k ∧ k < 32 := by
  have hm : (FlatSpace.euclidean : FlatSpace ℚ 2).manifold.HasMidpoints :=
    FlatSpace.bisectsBy_mean.hasMidpoints
  have htorn : tornSquare.Dangling 1 2 5 := ⟨.triangle 0 2 5, rfl, rfl, by decide⟩
  obtain ⟨hfails, -, -⟩ := refineTimes_fails_iff_dangling hm tornSquare 2
  obtain ⟨-, -, hruns⟩ := refineTimes_fails_iff_dangling hm unitSquare 2
  obtain ⟨fine, rounds, htimes, -, hlength, hdescends, -⟩ := hruns rfl
  refine ⟨hm, htorn, hfails.2 ⟨by decide, 1, 2, 5, htorn⟩, rfl, fine, rounds, htimes, hlength, ?_⟩
  intro k
  rw [hdescends]
  simp [unitSquare, Shape.parts]

end CurvedMesh.Mesh
