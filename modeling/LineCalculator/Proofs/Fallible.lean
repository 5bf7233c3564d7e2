/- Where the success or the error of steps in a row comes from. -/
namespace Except
variable {ε α β : Type}

theorem bind_eq_ok_iff {x : Except ε α} {f : α → Except ε β} {b : β} :
    (x >>= f) = .ok b ↔ ∃ a, x = .ok a ∧ f a = .ok b := by
  cases x <;> simp [Bind.bind, Except.bind]

theorem bind_eq_error_iff {x : Except ε α} {f : α → Except ε β} {e : ε} :
    (x >>= f) = .error e ↔ x = .error e ∨ ∃ a, x = .ok a ∧ f a = .error e := by
  cases x <;> simp [Bind.bind, Except.bind]

theorem map_eq_ok_iff {x : Except ε α} {f : α → β} {b : β} :
    x.map f = .ok b ↔ ∃ a, x = .ok a ∧ f a = b := by
  cases x <;> simp [Except.map]

theorem map_eq_error_iff {x : Except ε α} {f : α → β} {e : ε} :
    x.map f = .error e ↔ x = .error e := by
  cases x <;> simp [Except.map]

theorem mapError_bind {δ : Type} (x : Except ε α) (f : α → Except ε β) (g : ε → δ) :
    (x >>= f).mapError g = x.mapError g >>= fun a => (f a).mapError g := by
  cases x <;> rfl

theorem mapError_map {δ : Type} (x : Except ε α) (f : α → β) (g : ε → δ) :
    (x.map f).mapError g = (x.mapError g).map f := by
  cases x <;> rfl

theorem mapM_id_eq_ok_iff {items : List (Except ε α)} {values : List α} :
    items.mapM id = .ok values ↔ items = values.map .ok := by
  induction items generalizing values with
  | nil => cases values <;> simp [pure, Except.pure]
  | cons item rest ih =>
    rw [List.mapM_cons, bind_eq_ok_iff]
    constructor
    · rintro ⟨a, rfl, others⟩
      obtain ⟨tail, later, same⟩ := bind_eq_ok_iff.mp others
      cases same
      rw [ih.mp later, List.map_cons]
    · intro same
      cases values with
      | nil => simp at same
      | cons a tail =>
        obtain ⟨rfl, later⟩ := List.cons.inj same
        exact ⟨a, rfl, bind_eq_ok_iff.mpr ⟨tail, ih.mpr later, rfl⟩⟩

end Except
