import CurvedMesh.Numbering
import Mathlib.Data.List.Induction
import Mathlib.Data.List.Nodup

/-!
# Numbers are ranks

The keys of a numbering are the distinct entries of the inserted list in order of first occurrence,
and the number of a key is its rank among them. Keys are compared through a function `f` that tells
them apart exactly as `==` does.
-/

namespace CurvedMesh

/-! ## Distinct entries -/

section

variable {τ : Type} [BEq τ] [LawfulBEq τ]

theorem eraseDups_concat (l : List τ) (a : τ) :
    (l ++ [a]).eraseDups = if a ∈ l then l.eraseDups else l.eraseDups ++ [a] := by
  rw [List.eraseDups_append]
  split
  · rename_i h
    simp [List.removeAll, h]
  · rename_i h
    simp [List.removeAll, h, List.eraseDups_cons]

theorem nodup_eraseDups (l : List τ) : l.eraseDups.Nodup := by
  induction l using List.reverseRecOn with
  | nil => simp
  | append_singleton l a ih =>
    rw [eraseDups_concat]
    split
    · exact ih
    · rename_i h
      have fresh : a ∉ l.eraseDups := by rwa [List.mem_eraseDups]
      exact ih.append (List.nodup_singleton a) (by simpa using fresh)

theorem eraseDups_of_nodup {l : List τ} (h : l.Nodup) : l.eraseDups = l := by
  induction l using List.reverseRecOn with
  | nil => simp
  | append_singleton l a ih =>
    obtain ⟨hl, -, hfresh⟩ := List.nodup_append.1 h
    have ha : a ∉ l := fun hmem => hfresh a hmem a (List.mem_singleton_self a) rfl
    rw [eraseDups_concat, if_neg ha, ih hl]

theorem eraseDups_concat_congr {l l' : List τ} (h : l.eraseDups = l'.eraseDups) (a : τ) :
    (l ++ [a]).eraseDups = (l' ++ [a]).eraseDups := by
  have hmem : a ∈ l ↔ a ∈ l' := by rw [← List.mem_eraseDups, h, List.mem_eraseDups]
  simp only [eraseDups_concat, hmem, h]

theorem eraseDups_walk (x : Nat → τ) (n : Nat) :
    ((List.range (n + 1)).flatMap fun j => [x j, x (j + 1)]).eraseDups =
      ((List.range (n + 2)).map x).eraseDups := by
  induction n with
  | zero => rfl
  | succ n ih =>
    have hseen : x (n + 1) ∈ (List.range (n + 1)).flatMap fun j => [x j, x (j + 1)] :=
      List.mem_flatMap.2 ⟨n, List.mem_range.2 n.lt_succ_self, by simp⟩
    calc ((List.range (n + 2)).flatMap fun j => [x j, x (j + 1)]).eraseDups
        = (((List.range (n + 1)).flatMap fun j => [x j, x (j + 1)]) ++ [x (n + 1)] ++
            [x (n + 2)]).eraseDups := by
          rw [List.range_succ, List.flatMap_append, List.flatMap_singleton, List.append_assoc]
          rfl
      _ = ((List.range (n + 2)).map x ++ [x (n + 2)]).eraseDups := by
          refine eraseDups_concat_congr ?_ _
          rw [eraseDups_concat, if_pos hseen, ih]
      _ = ((List.range (n + 3)).map x).eraseDups := by
          rw [List.range_succ (n := n + 2), List.map_append, List.map_singleton]

end

/-! ## Numberings -/

namespace Numbering

variable {κ τ : Type} [BEq κ] [Hashable κ] {f : κ → τ}

theorem any_order_iff (hf : ∀ k k' : κ, (k == k') = true ↔ f k = f k') (n : Numbering κ) (key : κ) :
    n.order.any (· == key) = true ↔ f key ∈ n.order.toList.map f := by
  simp only [Array.any_eq_true', List.mem_map, Array.mem_toList_iff, hf]

variable [EquivBEq κ] [LawfulHashable κ]

theorem ofList_concat (keys : List κ) (key : κ) :
    ofList (keys ++ [key]) = (ofList keys).insert key := by
  simp only [ofList, List.foldl_append, List.foldl_cons, List.foldl_nil]

variable [BEq τ] [LawfulBEq τ]

theorem map_order_ofList (hf : ∀ k k' : κ, (k == k') = true ↔ f k = f k') (keys : List κ) :
    (ofList keys).order.toList.map f = (keys.map f).eraseDups := by
  induction keys using List.reverseRecOn with
  | nil => rfl
  | append_singleton keys key ih =>
    have seen : (ofList keys).order.any (· == key) = true ↔ f key ∈ keys.map f := by
      rw [any_order_iff hf, ih, List.mem_eraseDups]
    rw [ofList_concat, order_insert, List.map_append, List.map_singleton, eraseDups_concat, ← ih]
    by_cases h : f key ∈ keys.map f
    · rw [if_pos (seen.2 h), if_pos h]
    · rw [if_neg (mt seen.1 h), if_neg h, Array.toList_push, List.map_append, List.map_singleton]

theorem number_eq_idxOf (hf : ∀ k k' : κ, (k == k') = true ↔ f k = f k') (n : Numbering κ)
    (key : κ) : n.number key = (n.order.toList.map f).idxOf (f key) := by
  have agree : (fun k => k == key) = (fun t => t == f key) ∘ f := by
    funext k
    rw [Bool.eq_iff_iff, hf, Function.comp_apply, beq_iff_eq]
  rw [number_eq_findIdx?, ← Array.findIdx_eq_getD_findIdx?, List.idxOf, List.findIdx_map, ← agree,
    ← List.findIdx_toArray]

theorem number_ofList (hf : ∀ k k' : κ, (k == k') = true ↔ f k = f k') (keys : List κ) (key : κ) :
    (ofList keys).number key = (keys.map f).eraseDups.idxOf (f key) := by
  rw [number_eq_idxOf hf, map_order_ofList hf]

end Numbering

end CurvedMesh
