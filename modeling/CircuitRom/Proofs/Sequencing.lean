import Mathlib.Data.List.Forall2

/-!
# Steps that may fail

When a chain of steps succeeds, every step of it has succeeded; when it fails, one of its steps
has.  These are the ways to take such a chain apart, and the lists that steps go through.
-/

namespace CircuitRom

variable {ε α β : Type}

theorem bind_eq_ok {x : Except ε α} {f : α → Except ε β} {b : β} :
    x >>= f = .ok b ↔ ∃ a, x = .ok a ∧ f a = .ok b := by
  cases x <;> simp [bind, Except.bind]

theorem bind_eq_error {x : Except ε α} {f : α → Except ε β} {e : ε} :
    x >>= f = .error e ↔ x = .error e ∨ ∃ a, x = .ok a ∧ f a = .error e := by
  cases x <;> simp [bind, Except.bind]

theorem map_eq_ok {x : Except ε α} {f : α → β} {b : β} :
    x.map f = .ok b ↔ ∃ a, x = .ok a ∧ f a = b := by
  cases x <;> simp [Except.map]

theorem map_eq_error {x : Except ε α} {f : α → β} {e : ε} :
    x.map f = .error e ↔ x = .error e := by
  cases x <;> simp [Except.map]

theorem exists_eq_ok {x : Except ε α} (h : x.isOk = true) : ∃ a, x = .ok a := by
  cases x with
  | error e => cases h
  | ok a => exact ⟨a, rfl⟩

theorem toOption_eq_some {x : Except ε α} {a : α} : x.toOption = some a ↔ x = .ok a := by
  cases x <;> simp [Except.toOption]

/-- A traversal succeeds with the results of its steps, one for one. -/
theorem mapM_eq_ok {f : α → Except ε β} {as : List α} {bs : List β} :
    as.mapM f = .ok bs ↔ List.Forall₂ (fun a b => f a = .ok b) as bs := by
  induction as generalizing bs with
  | nil => cases bs <;> simp [pure, Except.pure]
  | cons a as ih =>
    rw [List.mapM_cons, bind_eq_ok, List.forall₂_cons_left_iff]
    constructor
    · rintro ⟨b, hb, h⟩
      obtain ⟨bs', hbs, h⟩ := bind_eq_ok.1 h
      cases h
      exact ⟨b, bs', hb, ih.1 hbs, rfl⟩
    · rintro ⟨b, bs', hb, hbs, rfl⟩
      exact ⟨b, hb, bind_eq_ok.2 ⟨bs', ih.2 hbs, rfl⟩⟩

theorem exists_of_mem_left {R : α → β → Prop} {as : List α} {bs : List β}
    (h : List.Forall₂ R as bs) {a : α} (ha : a ∈ as) : ∃ b ∈ bs, R a b := by
  induction h with
  | nil => cases ha
  | cons hab _ ih =>
    rcases List.mem_cons.1 ha with rfl | ha
    · exact ⟨_, List.mem_cons_self, hab⟩
    · obtain ⟨b, hb, hR⟩ := ih ha
      exact ⟨b, List.mem_cons_of_mem _ hb, hR⟩

theorem exists_of_mem_right {R : α → β → Prop} {as : List α} {bs : List β}
    (h : List.Forall₂ R as bs) {b : β} (hb : b ∈ bs) : ∃ a ∈ as, R a b :=
  exists_of_mem_left h.flip hb

theorem exists_forall₂_iff {R : α → β → Prop} {as : List α} :
    (∃ bs, List.Forall₂ R as bs) ↔ ∀ a ∈ as, ∃ b, R a b := by
  constructor
  · rintro ⟨bs, h⟩ a ha
    obtain ⟨b, -, hab⟩ := exists_of_mem_left h ha
    exact ⟨b, hab⟩
  · intro h
    induction as with
    | nil => exact ⟨[], .nil⟩
    | cons a as ih =>
      obtain ⟨⟨b, hab⟩, hrest⟩ := List.forall_mem_cons.1 h
      obtain ⟨bs, hbs⟩ := ih hrest
      exact ⟨b :: bs, .cons hab hbs⟩

theorem map_eq_map {γ : Type} {R : α → β → Prop} {as : List α} {bs : List β} {f : α → γ}
    {g : β → γ} (h : List.Forall₂ R as bs) (hfg : ∀ a b, R a b → f a = g b) :
    as.map f = bs.map g := by
  induction h with
  | nil => rfl
  | cons hab _ ih => rw [List.map_cons, List.map_cons, hfg _ _ hab, ih]

/-- A traversal that fails has met a step that fails, and all steps before it have succeeded. -/
theorem exists_first_of_mapM_eq_error {f : α → Except ε β} {as : List α} {e : ε}
    (h : as.mapM f = .error e) :
    ∃ before a after bs, as = before ++ a :: after ∧ before.mapM f = .ok bs ∧ f a = .error e := by
  induction as with
  | nil => simp [pure, Except.pure] at h
  | cons a as ih =>
    rw [List.mapM_cons, bind_eq_error] at h
    rcases h with ha | ⟨b, hb, h⟩
    · exact ⟨[], a, as, [], rfl, rfl, ha⟩
    · rcases bind_eq_error.1 h with hs | ⟨bs, -, h⟩
      · obtain ⟨before, a', after, bs, rfl, hbefore, ha'⟩ := ih hs
        refine ⟨a :: before, a', after, b :: bs, rfl, ?_, ha'⟩
        rw [List.mapM_cons, hb, hbefore]
        rfl
      · cases h

/-- A pass over a list fails only where one of its steps does. -/
theorem mapM_eq_error {f : α → Except ε β} {as : List α} {e : ε} (h : as.mapM f = .error e) :
    ∃ a ∈ as, f a = .error e := by
  obtain ⟨before, a, after, -, rfl, -, ha⟩ := exists_first_of_mapM_eq_error h
  exact ⟨a, by simp, ha⟩

/-! ## Splits of a list -/

/-- The last element of a list comes last in every split of it. -/
theorem concat_eq_append_cons_iff {as before after : List α} {a b : α} :
    as ++ [a] = before ++ b :: after ↔
      (after = [] ∧ as = before ∧ a = b) ∨
        ∃ between, after = between ++ [a] ∧ as = before ++ b :: between := by
  rcases List.eq_nil_or_concat' after with rfl | ⟨between, c, rfl⟩
  · simp
  · rw [← List.cons_append, ← List.append_assoc, List.append_singleton_inj]
    simp
    tauto

/-- Two splits of a list are the same, or one of them comes first. -/
theorem append_cons_eq_append_cons {before before' after after' : List α} {a a' : α}
    (h : before ++ a :: after = before' ++ a' :: after') :
    (before = before' ∧ a = a' ∧ after = after') ∨
      (∃ between, before' = before ++ a :: between ∧ after = between ++ a' :: after') ∨
      ∃ between, before = before' ++ a' :: between ∧ after' = between ++ a :: after := by
  rcases List.append_eq_append_iff.1 h with ⟨between, rfl, hrest⟩ | ⟨between, rfl, hrest⟩
  · cases between with
    | nil => simp_all
    | cons u between => simp_all
  · cases between with
    | nil => simp_all
    | cons u between => simp_all

/-! ## What a run can come to -/

/-- The run ends with a result that has one property, or with a fault that has another. -/
inductive Outcome (E : ε → Prop) (Q : α → Prop) : Except ε α → Prop
  | ok {a : α} : Q a → Outcome E Q (.ok a)
  | error {e : ε} : E e → Outcome E Q (.error e)

namespace Outcome

variable {E E' : ε → Prop} {Q : α → Prop} {R : β → Prop}

theorem imp {Q' : α → Prop} {x : Except ε α} (h : Outcome E Q x) (hE : ∀ e, E e → E' e)
    (hQ : ∀ a, Q a → Q' a) : Outcome E' Q' x := by
  cases h with
  | ok ha => exact .ok (hQ _ ha)
  | error he => exact .error (hE _ he)

theorem map {x : Except ε α} {f : α → β} (h : Outcome E Q x) (hf : ∀ a, Q a → R (f a)) :
    Outcome E R (x.map f) := by
  cases h with
  | ok ha => exact .ok (hf _ ha)
  | error he => exact .error he

/-- If faults have a property at each step, they have it in the whole run. -/
theorem bind {x : Except ε α} {f : α → Except ε β} (h : Outcome E Q x)
    (hf : ∀ a, Q a → Outcome E R (f a)) : Outcome E R (x >>= f) := by
  cases h with
  | ok ha => exact hf _ ha
  | error he => exact .error he

/-- A traversal comes to a list of results of its steps, or to a fault of one of them. -/
theorem mapM {as : List α} {f : α → Except ε β} (h : ∀ a ∈ as, Outcome E R (f a)) :
    Outcome E (fun bs => ∀ b ∈ bs, R b) (as.mapM f) := by
  induction as with
  | nil => exact .ok (List.forall_mem_nil _)
  | cons a as ih =>
    obtain ⟨ha, has⟩ := List.forall_mem_cons.1 h
    rw [List.mapM_cons]
    refine ha.bind fun b hb => (ih has).bind fun bs hbs => ?_
    exact .ok (List.forall_mem_cons.2 ⟨hb, hbs⟩)

theorem of_ok {a : α} (h : Outcome E Q (.ok a)) : Q a := by
  cases h with
  | ok ha => exact ha

theorem of_error {e : ε} (h : Outcome E Q (.error e)) : E e := by
  cases h with
  | error he => exact he

end Outcome
end CircuitRom
