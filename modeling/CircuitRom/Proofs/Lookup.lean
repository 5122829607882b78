import CircuitRom.Dictionary
import CircuitRom.Proofs.Sequencing
import Mathlib.Data.List.Forall2

/-!
# Looking up in related lists and dictionaries

Two lists are related when their members are, one for one; two dictionaries when they have the same
names in the same order and related values.  What is found in one of them is then related to what
is found in the other.
-/

namespace CircuitRom

variable {α β γ δ : Type} {R : α → β → Prop} {S : γ → δ → Prop}

/-! ## Optional results -/

theorem rel_map {x : Option α} {y : Option β} {f : α → γ} {g : β → δ} (h : Option.Rel R x y)
    (hfg : ∀ a b, R a b → S (f a) (g b)) : Option.Rel S (x.map f) (y.map g) := by
  cases h with
  | none => exact .none
  | some hab => exact .some (hfg _ _ hab)

theorem isSome_eq_of_rel {x : Option α} {y : Option β} (h : Option.Rel R x y) :
    x.isSome = y.isSome := by
  cases h <;> rfl

/-! ## Lists -/

/-- Searches with the same answers find related elements. -/
theorem rel_find? {as : List α} {bs : List β} {p : α → Bool} {q : β → Bool}
    (h : List.Forall₂ R as bs) (hpq : ∀ a b, R a b → p a = q b) :
    Option.Rel R (as.find? p) (bs.find? q) := by
  induction h with
  | nil => exact .none
  | @cons a b as bs hab _ ih =>
    rw [List.find?_cons, List.find?_cons, hpq a b hab]
    cases q b with
    | true => exact .some hab
    | false => exact ih

theorem rel_findSome? {as : List α} {bs : List β} {f : α → Option γ} {g : β → Option δ}
    (h : List.Forall₂ R as bs) (hfg : ∀ a b, R a b → Option.Rel S (f a) (g b)) :
    Option.Rel S (as.findSome? f) (bs.findSome? g) := by
  induction h with
  | nil => exact .none
  | @cons a b as bs hab _ ih =>
    have hfirst := hfg a b hab
    rw [List.findSome?_cons, List.findSome?_cons]
    generalize f a = x at hfirst ⊢
    generalize g b = y at hfirst ⊢
    cases hfirst with
    | none => exact ih
    | some hcd => exact .some hcd

theorem rel_getElem? {as : List α} {bs : List β} (h : List.Forall₂ R as bs) (n : Nat) :
    Option.Rel R as[n]? bs[n]? := by
  induction h generalizing n with
  | nil => exact .none
  | cons hab _ ih =>
    cases n with
    | zero => exact .some hab
    | succ n => exact ih n

theorem rel_head? {as : List α} {bs : List β} (h : List.Forall₂ R as bs) :
    Option.Rel R as.head? bs.head? := by
  cases h with
  | nil => exact .none
  | cons hab _ => exact .some hab

theorem isEmpty_eq_of_rel {as : List α} {bs : List β} (h : List.Forall₂ R as bs) :
    as.isEmpty = bs.isEmpty := by
  cases h <;> rfl

/-- Related lists stay related when both are changed at one position. -/
theorem rel_modify {as : List α} {bs : List β} {f : α → α} {g : β → β} (h : List.Forall₂ R as bs)
    (hfg : ∀ a b, R a b → R (f a) (g b)) (n : Nat) :
    List.Forall₂ R (as.modify n f) (bs.modify n g) := by
  induction h generalizing n with
  | nil => cases n <;> exact .nil
  | cons hab hrest ih =>
    cases n with
    | zero => exact .cons (hfg _ _ hab) hrest
    | succ n => exact .cons hab (ih n)

/-! ## Dictionaries -/

namespace Dictionary

/-- The dictionaries have the same names in the same order, and related values. -/
def Rel (R : α → β → Prop) (d : Dictionary α) (e : Dictionary β) : Prop :=
  List.Forall₂ (fun x y => x.1 = y.1 ∧ R x.2 y.2) d.entries e.entries

variable {d : Dictionary α} {e : Dictionary β}

/-- Related dictionaries have the same keys in the same order. -/
theorem Rel.keys_eq (h : d.Rel R e) : d.keys = e.keys := map_eq_map h fun _ _ hxy => hxy.1

theorem Rel.values (h : d.Rel R e) : List.Forall₂ R d.values e.values :=
  List.rel_map (fun _ _ hxy => hxy.2) h

/-- Looking up a key gives related values, or none on both sides. -/
theorem Rel.find? (h : d.Rel R e) (key : String) : Option.Rel R (d.find? key) (e.find? key) := by
  rw [find?_eq_map_find?, find?_eq_map_find?]
  refine rel_map (rel_find? h fun x y hxy => ?_) fun _ _ hxy => hxy.2
  rw [hxy.1]

theorem Rel.contains_eq (h : d.Rel R e) (key : String) : d.contains key = e.contains key :=
  isSome_eq_of_rel (h.find? key)

theorem Rel.indexOf?_eq (h : d.Rel R e) (key : String) : d.indexOf? key = e.indexOf? key := by
  rw [indexOf?, indexOf?, h.keys_eq]

theorem rel_put {xs : List (String × α)} {ys : List (String × β)} (key : String) {a : α} {b : β}
    (h : List.Forall₂ (fun x y => x.1 = y.1 ∧ R x.2 y.2) xs ys) (hab : R a b) :
    List.Forall₂ (fun x y => x.1 = y.1 ∧ R x.2 y.2) (put key a xs) (put key b ys) := by
  induction h with
  | nil => exact .cons ⟨rfl, hab⟩ .nil
  | @cons x y xs ys hxy hrest ih =>
    rw [put, put, ← hxy.1]
    by_cases hkey : x.1 = key
    · rw [if_pos hkey, if_pos hkey]
      exact .cons ⟨rfl, hab⟩ hrest
    · rw [if_neg hkey, if_neg hkey]
      exact .cons hxy ih

theorem Rel.insert (h : d.Rel R e) {key key' : String} (hkey : key = key') {a : α} {b : β}
    (hab : R a b) : (d.insert key a).Rel R (e.insert key' b) := by
  rw [← hkey]
  exact rel_put key h hab

theorem Rel.modify (h : d.Rel R e) (key : String) {f : α → α} {g : β → β}
    (hfg : ∀ a b, R a b → R (f a) (g b)) : (d.modify key f).Rel R (e.modify key g) := by
  refine List.rel_map (fun x y hxy => ⟨hxy.1, ?_⟩) h
  rw [← hxy.1]
  by_cases hkey : x.1 = key
  · rw [if_pos hkey, if_pos hkey]
    exact hfg _ _ hxy.2
  · rw [if_neg hkey, if_neg hkey]
    exact hxy.2

end Dictionary
end CircuitRom
