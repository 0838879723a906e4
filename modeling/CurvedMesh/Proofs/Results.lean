/-!
# Lists of results

When a list or an array of computations succeeds, and with what. `Ends` says at once what the errors
and the values of a computation may be.
-/

namespace CurvedMesh

theorem mapM_eq_ok_iff {ε β γ : Type} {f : β → Except ε γ} {l : List β} {l' : List γ} :
    l.mapM f = .ok l' ↔ l.map f = l'.map .ok := by
  induction l generalizing l' with
  | nil => cases l' <;> simp [pure, Except.pure]
  | cons a l ih =>
    rw [List.mapM_cons]
    cases ha : f a with
    | error e => cases l' <;> simp [bind, Except.bind, ha]
    | ok b =>
      cases hl : l.mapM f with
      | error e =>
        cases l' with
        | nil => simp [bind, Except.bind]
        | cons c l' =>
          have tail := @ih l'
          rw [hl] at tail
          simp_all [bind, Except.bind]
      | ok bs =>
        cases l' with
        | nil => simp [bind, Except.bind, pure, Except.pure]
        | cons c l' =>
          have tail := @ih l'
          rw [hl, Except.ok.injEq] at tail
          simp [bind, Except.bind, pure, Except.pure, ha, tail]

theorem bind_eq_ok_iff {ε β γ : Type} {x : Except ε β} {f : β → Except ε γ} {c : γ} :
    (x >>= f) = .ok c ↔ ∃ b, x = .ok b ∧ f b = .ok c := by
  cases x with
  | error e => simp [bind, Except.bind]
  | ok b => simp [bind, Except.bind]

theorem bind_eq_error_iff {ε β γ : Type} {x : Except ε β} {f : β → Except ε γ} {e : ε} :
    (x >>= f) = .error e ↔ x = .error e ∨ ∃ b, x = .ok b ∧ f b = .error e := by
  cases x with
  | error e => simp [bind, Except.bind]
  | ok b => simp [bind, Except.bind]

theorem mapError_eq_ok_iff {ε ε' β : Type} {x : Except ε β} {f : ε → ε'} {b : β} :
    x.mapError f = .ok b ↔ x = .ok b := by
  cases x with
  | error e => exact iff_of_false nofun nofun
  | ok c =>
    constructor
    · rintro ⟨⟩
      rfl
    · rintro ⟨⟩
      rfl

theorem mapError_eq_error_iff {ε ε' β : Type} {x : Except ε β} {f : ε → ε'} {e' : ε'} :
    x.mapError f = .error e' ↔ ∃ e, x = .error e ∧ f e = e' := by
  cases x with
  | error e =>
    constructor
    · rintro ⟨⟩
      exact ⟨e, rfl, rfl⟩
    · rintro ⟨-, ⟨⟩, rfl⟩
      rfl
  | ok b =>
    refine iff_of_false nofun ?_
    rintro ⟨e, ⟨⟩, -⟩

theorem exists_of_mapM_eq_error {ε β γ : Type} {f : β → Except ε γ} {l : List β} {e : ε}
    (h : l.mapM f = .error e) : ∃ b ∈ l, f b = .error e := by
  induction l with
  | nil => cases h
  | cons b l ih =>
    rw [List.mapM_cons, bind_eq_error_iff] at h
    rcases h with hb | ⟨c, -, hrest⟩
    · exact ⟨b, List.mem_cons_self, hb⟩
    · rw [bind_eq_error_iff] at hrest
      rcases hrest with htail | ⟨cs, -, hpure⟩
      · obtain ⟨b', hb', hfail⟩ := ih htail
        exact ⟨b', List.mem_cons_of_mem b hb', hfail⟩
      · cases hpure

theorem mapM_array_eq_ok_iff {ε β γ : Type} {f : β → Except ε γ} {xs : Array β} {ys : Array γ} :
    xs.mapM f = .ok ys ↔ xs.toList.map f = ys.toList.map .ok := by
  rw [← mapM_eq_ok_iff, Array.mapM_eq_mapM_toList]
  cases xs.toList.mapM f with
  | error e => simp [Functor.map, Except.map]
  | ok l =>
    simp only [Functor.map, Except.map, Except.ok.injEq]
    constructor
    · rintro rfl
      rfl
    · rintro rfl
      rfl

theorem exists_map_ok {ε β γ : Type} {f : β → Except ε γ} {l : List β}
    (h : ∀ b ∈ l, ∃ c, f b = .ok c) : ∃ l' : List γ, l.map f = l'.map .ok := by
  induction l with
  | nil => exact ⟨[], rfl⟩
  | cons b l ih =>
    obtain ⟨c, hc⟩ := h b List.mem_cons_self
    obtain ⟨l', hl'⟩ := ih fun b' hb' => h b' (List.mem_cons_of_mem b hb')
    exact ⟨c :: l', by rw [List.map_cons, List.map_cons, hc, hl']⟩

theorem exists_of_mapM_array_eq_error {ε β γ : Type} {f : β → Except ε γ} {xs : Array β} {e : ε}
    (h : xs.mapM f = .error e) : ∃ b ∈ xs.toList, f b = .error e := by
  rw [Array.mapM_eq_mapM_toList] at h
  cases hl : xs.toList.mapM f with
  | error e' =>
    rw [hl] at h
    cases h
    exact exists_of_mapM_eq_error hl
  | ok l =>
    rw [hl] at h
    cases h

theorem map_eq_map_of_ok {ε β γ δ : Type} {f : β → Except ε γ} {g : γ → δ} {k : β → δ}
    {l : List β} {l' : List γ} (hf : ∀ b ∈ l, ∀ c, f b = .ok c → g c = k b)
    (h : l.map f = l'.map .ok) : l'.map g = l.map k := by
  induction l generalizing l' with
  | nil =>
    rw [List.map_nil, eq_comm, List.map_eq_nil_iff] at h
    rw [h, List.map_nil, List.map_nil]
  | cons b l ih =>
    cases l' with
    | nil => cases h
    | cons c l' =>
      obtain ⟨hhead, htail⟩ := List.cons.inj h
      rw [List.forall_mem_cons] at hf
      rw [List.map_cons, List.map_cons, hf.1 c hhead, ih hf.2 htail]

theorem toOption_eq_toOption_iff {ε β : Type} {x y : Except ε β} :
    x.toOption = y.toOption ↔ ∀ b, x = .ok b ↔ y = .ok b := by
  constructor
  · intro h b
    cases x with
    | error e =>
      cases y with
      | error e' => exact iff_of_false nofun nofun
      | ok c => cases h
    | ok c =>
      cases y with
      | error e => cases h
      | ok c' => rw [Option.some.inj h]
  · intro h
    cases x with
    | error e =>
      cases y with
      | error e' => rfl
      | ok b => cases (h b).2 rfl
    | ok b => rw [(h b).1 rfl]

theorem toOption_bind_congr {ε β γ : Type} {x y : Except ε β} (h : x.toOption = y.toOption)
    (f : β → Except ε γ) : (x >>= f).toOption = (y >>= f).toOption := by
  rw [toOption_eq_toOption_iff] at h ⊢
  intro c
  simp only [bind_eq_ok_iff, h]

/-! ## Lists of options -/

theorem mapM_eq_some_iff {β γ : Type} {f : β → Option γ} {l : List β} {l' : List γ} :
    l.mapM f = some l' ↔ l.map f = l'.map some := by
  induction l generalizing l' with
  | nil => cases l' <;> simp
  | cons b l ih =>
    cases l' with
    | nil => simp [Option.bind_eq_some_iff]
    | cons c l' => simp [Option.bind_eq_some_iff, ih]

theorem map_eq_map_congr {β γ δ δ' : Type} {f : β → δ} {g : γ → δ} {f' : β → δ'} {g' : γ → δ'}
    (h : ∀ b c, f b = g c ↔ f' b = g' c) {l : List β} {l' : List γ} :
    l.map f = l'.map g ↔ l.map f' = l'.map g' := by
  induction l generalizing l' with
  | nil => cases l' <;> simp
  | cons b l ih => cases l' <;> simp [h, ih]

theorem exists_map_some {β γ : Type} {f : β → Option γ} {l : List β}
    (h : ∀ b ∈ l, ∃ c, f b = some c) : ∃ l' : List γ, l.map f = l'.map some := by
  induction l with
  | nil => exact ⟨[], rfl⟩
  | cons b l ih =>
    obtain ⟨c, hc⟩ := h b List.mem_cons_self
    obtain ⟨l', hl'⟩ := ih fun b' hb' => h b' (List.mem_cons_of_mem b hb')
    exact ⟨c :: l', by rw [List.map_cons, List.map_cons, hc, hl']⟩

/-! ## Outcomes -/

/-- The computation fails with an error in `E` or gives a value in `A`. -/
def Ends {ε β : Type} (E : ε → Prop) (A : β → Prop) : Except ε β → Prop
  | .error e => E e
  | .ok b => A b

theorem Ends.imp {ε β : Type} {E E' : ε → Prop} {A A' : β → Prop} {x : Except ε β}
    (h : Ends E A x) (hE : ∀ e, E e → E' e) (hA : ∀ b, A b → A' b) : Ends E' A' x := by
  cases x with
  | error e => exact hE e h
  | ok b => exact hA b h

theorem Ends.bind {ε β γ : Type} {E : ε → Prop} {A : β → Prop} {B : γ → Prop} {x : Except ε β}
    {f : β → Except ε γ} (hx : Ends E A x) (hf : ∀ b, A b → Ends E B (f b)) :
    Ends E B (x >>= f) := by
  cases x with
  | error e => exact hx
  | ok b => exact hf b hx

theorem Ends.exists_ok {ε β : Type} {A : β → Prop} {x : Except ε β}
    (h : Ends (fun _ => False) A x) : ∃ b, x = .ok b ∧ A b := by
  cases x with
  | error e => exact h.elim
  | ok b => exact ⟨b, rfl, h⟩

end CurvedMesh
