/-!
# Outcomes of reading

Reading yields a result or a failure. These rules say when a computation put together from
others yields a result or fails, so that later proofs take it apart without opening its definition.
Two readings that go alike are related step by step: as long as both succeed with related
results they go on, and if one fails so does the other.
-/

namespace Except

variable {ε δ α β α' β' : Type}

/-- A mapped outcome is a result exactly when the outcome is one. -/
theorem map_eq_ok_iff {f : α → β} {x : Except ε α} {b : β} :
    x.map f = .ok b ↔ ∃ a, x = .ok a ∧ f a = b := by
  cases x <;> simp [Except.map]

/-- A mapped outcome fails exactly as the outcome does. -/
theorem map_eq_error_iff {f : α → β} {x : Except ε α} {e : ε} :
    x.map f = .error e ↔ x = .error e := by
  cases x <;> simp [Except.map]

/-- Changing the failure changes no result. -/
theorem mapError_eq_ok_iff {f : ε → δ} {x : Except ε α} {a : α} :
    x.mapError f = .ok a ↔ x = .ok a := by
  cases x with
  | error e => exact iff_of_false nofun nofun
  | ok b => exact ⟨fun h => congrArg _ (Except.ok.inj h), fun h => congrArg _ (Except.ok.inj h)⟩

/-- An outcome is good exactly when it is a result. -/
theorem isOk_eq_true_iff {x : Except ε α} : x.isOk = true ↔ ∃ a, x = .ok a := by
  cases x with
  | error e => exact iff_of_false nofun nofun
  | ok a => exact iff_of_true rfl ⟨a, rfl⟩

/-- Two steps yield a result exactly when both do. -/
theorem bind_eq_ok_iff {x : Except ε α} {f : α → Except ε β} {b : β} :
    (x >>= f) = .ok b ↔ ∃ a, x = .ok a ∧ f a = .ok b := by
  cases x <;> simp [bind, Except.bind]

/-- Two outcomes that are both failures, related by `R`, or both results, related by `S`. -/
inductive Related (R : ε → δ → Prop) (S : α → β → Prop) : Except ε α → Except δ β → Prop
  | error {e : ε} {d : δ} (h : R e d) : Related R S (.error e) (.error d)
  | ok {a : α} {b : β} (h : S a b) : Related R S (.ok a) (.ok b)

namespace Related

variable {R R' : ε → δ → Prop} {S : α → β → Prop} {S' : α' → β' → Prop}
  {x : Except ε α} {y : Except δ β}

/-- Related outcomes fail or succeed together. -/
theorem error_or_ok (h : Related R S x y) :
    (∃ e d, x = .error e ∧ y = .error d ∧ R e d) ∨ ∃ a b, x = .ok a ∧ y = .ok b ∧ S a b := by
  cases h with
  | error h => exact .inl ⟨_, _, rfl, rfl, h⟩
  | ok h => exact .inr ⟨_, _, rfl, rfl, h⟩

/-- A relation between failures may be weakened. -/
theorem mono (h : Related R S x y) (hR : ∀ e d, R e d → R' e d) : Related R' S x y := by
  cases h with
  | error h => exact .error (hR _ _ h)
  | ok h => exact .ok h

/-- Steps that keep results related keep outcomes related. -/
theorem bind {f : α → Except ε α'} {g : β → Except δ β'} (h : Related R S x y)
    (hfg : ∀ a b, x = .ok a → S a b → Related R S' (f a) (g b)) :
    Related R S' (x >>= f) (y >>= g) := by
  cases h with
  | error h => exact .error h
  | ok h => exact hfg _ _ rfl h

/-- Maps that keep results related keep outcomes related. -/
theorem map {f : α → α'} {g : β → β'} (h : Related R S x y)
    (hfg : ∀ a b, S a b → S' (f a) (g b)) : Related R S' (x.map f) (y.map g) := by
  cases h with
  | error h => exact .error h
  | ok h => exact .ok (hfg _ _ h)

end Related

end Except
