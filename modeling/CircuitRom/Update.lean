/-!
# Updates

An update reads and changes a state, and it may fail.  There is a state afterwards in either case:
whether an update that fails has changed it is for the update to say.
-/

namespace CircuitRom

/-- A change of a state that ends with a result or a fault. -/
abbrev Update (σ ε α : Type) : Type := ExceptT ε (StateM σ) α

namespace Update

variable {σ ε α β : Type}

/-- What an update ends with, and the state after it. -/
def outcome (update : Update σ ε α) (s : σ) : Except ε α × σ := update.run.run s

/-- What an update ends with, together with the state after it unless it fails. -/
def attempt (update : Update σ ε α) (s : σ) : Except ε (α × σ) :=
  match update.outcome s with
  | (.error e, _) => .error e
  | (.ok a, s) => .ok (a, s)

/-! ## Updates step by step -/

@[simp] theorem outcome_pure (a : α) (s : σ) :
    outcome (pure a : Update σ ε α) s = (.ok a, s) := rfl

@[simp] theorem outcome_throw (e : ε) (s : σ) :
    outcome (throw e : Update σ ε α) s = (.error e, s) := rfl

@[simp] theorem outcome_get (s : σ) : outcome (get : Update σ ε σ) s = (.ok s, s) := rfl

@[simp] theorem outcome_modify (f : σ → σ) (s : σ) :
    outcome (modify f : Update σ ε PUnit) s = (.ok ⟨⟩, f s) := rfl

/-- Two updates in a row: the second starts from the state that the first one leaves, and it is not
made at all if the first one fails. -/
theorem outcome_bind (update : Update σ ε α) (f : α → Update σ ε β) (s : σ) :
    outcome (update >>= f) s =
      match update.outcome s with
      | (.error e, s) => (.error e, s)
      | (.ok a, s) => (f a).outcome s := by
  simp only [outcome, ExceptT.run_bind, StateT.run_bind]
  cases h : update.run.run s with
  | mk result s' => cases result <;> rfl

/-- A change for each of some things, in their order. -/
theorem outcome_forM_modify (f : σ → α → σ) (as : List α) (s : σ) :
    outcome (as.forM fun a => modify (f · a) : Update σ ε PUnit) s = (.ok ⟨⟩, as.foldl f s) := by
  induction as generalizing s with
  | nil => rfl
  | cons a as ih =>
    rw [List.forM_eq_forM, List.forM_cons, outcome_bind, outcome_modify, List.foldl_cons]
    exact ih (f s a)

/-- An update succeeds with a result and a state exactly if these are its outcome. -/
theorem attempt_eq_ok_iff {update : Update σ ε α} {s s' : σ} {a : α} :
    update.attempt s = .ok (a, s') ↔ update.outcome s = (.ok a, s') := by
  rw [attempt]
  rcases update.outcome s with ⟨_ | _, _⟩ <;> simp

end Update
end CircuitRom
