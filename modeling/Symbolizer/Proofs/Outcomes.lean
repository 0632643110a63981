/-! # Steps that may fail

A chain of steps succeeds exactly where each of them does, on the values of those
before it.
-/

namespace Except

variable {ε ε' α β : Type}

theorem ok_bind (a : α) (next : α → Except ε β) : (ok a >>= next) = next a := rfl

theorem bind_eq_ok_iff {first : Except ε α} {next : α → Except ε β} {b : β} :
    (first >>= next) = ok b ↔ ∃ a, first = ok a ∧ next a = ok b := by
  cases first with
  | error e =>
      constructor
      · intro h
        cases h
      · rintro ⟨a, h, _⟩
        cases h
  | ok a =>
      constructor
      · intro h
        exact ⟨a, rfl, h⟩
      · rintro ⟨a', h, hnext⟩
        cases h
        exact hnext

/-- A chain fails where its first step does, or where the rest does on the first one's value. -/
theorem bind_eq_error_iff {first : Except ε α} {next : α → Except ε β} {e : ε} :
    (first >>= next) = error e ↔ first = error e ∨ ∃ a, first = ok a ∧ next a = error e := by
  cases first with
  | error e' => simp [Bind.bind, Except.bind]
  | ok a => simp [ok_bind]

theorem mapError_ok (f : ε → ε') (a : α) : (ok a : Except ε α).mapError f = ok a := rfl

theorem mapError_eq_ok_iff {f : ε → ε'} {answer : Except ε α} {a : α} :
    answer.mapError f = ok a ↔ answer = ok a := by
  cases answer with
  | error e =>
      constructor
      · intro h
        cases h
      · intro h
        cases h
  | ok b => rw [mapError_ok, ok.injEq, ok.injEq]

theorem mapError_eq_error_iff {f : ε → ε'} {answer : Except ε α} {e' : ε'} :
    answer.mapError f = error e' ↔ ∃ e, answer = error e ∧ f e = e' := by
  cases answer with
  | ok a => exact iff_of_false nofun nofun
  | error e =>
      constructor
      · intro h
        exact ⟨e, rfl, error.inj h⟩
      · rintro ⟨_, ⟨⟩, rfl⟩
        rfl

theorem map_eq_ok_iff {f : α → β} {answer : Except ε α} {b : β} :
    answer.map f = ok b ↔ ∃ a, answer = ok a ∧ f a = b := by
  cases answer <;> simp [Except.map]

theorem map_eq_error_iff {f : α → β} {answer : Except ε α} {e : ε} :
    answer.map f = error e ↔ answer = error e := by
  cases answer <;> simp [Except.map]

theorem toOption_eq_some_iff {answer : Except ε α} {a : α} :
    answer.toOption = some a ↔ answer = ok a := by
  cases answer <;> simp [Except.toOption]

theorem forM_eq_ok_iff {items : List α} {check : α → Except ε Unit} {done : Unit} :
    items.forM check = ok done ↔ ∀ a ∈ items, check a = ok () := by
  induction items with
  | nil => exact iff_of_true rfl fun a ha => absurd ha List.not_mem_nil
  | cons a items ih =>
      rw [List.forall_mem_cons, ← ih]
      change (check a >>= fun _ => items.forM check) = ok done ↔ _
      rw [bind_eq_ok_iff]
      constructor
      · rintro ⟨⟨⟩, ha, hrest⟩
        exact ⟨ha, hrest⟩
      · rintro ⟨ha, hrest⟩
        exact ⟨(), ha, hrest⟩

theorem exists_of_forM_eq_error {items : List α} {check : α → Except ε Unit} {e : ε}
    (h : items.forM check = error e) : ∃ a ∈ items, check a = error e := by
  induction items with
  | nil => cases h
  | cons a items ih =>
      change (check a >>= fun _ => items.forM check) = error e at h
      rcases bind_eq_error_iff.mp h with ha | ⟨_, _, hrest⟩
      · exact ⟨a, List.mem_cons_self, ha⟩
      · obtain ⟨b, hb, hcheck⟩ := ih hrest
        exact ⟨b, List.mem_cons_of_mem a hb, hcheck⟩

end Except
