import Mathlib.Data.List.Basic

/-!
# Lists by position

Reading a list at a position, cutting it there or replacing a stretch of it has a meaning only if
the position lies within the list.  `Access` is the computations made of such steps: they have no
outcome at all as soon as one position is out of range, and otherwise end with a result or a fault.
A computation equal to some `ofExcept r` has met no position out of range.
-/

namespace CircuitRom

/-- A computation that reads lists by position and may end with a fault. -/
abbrev Access (ε α : Type) : Type := ExceptT ε Option α

namespace Access

variable {ε ε' α β : Type}

/-- A computation that meets no position out of range. -/
def ofExcept (r : Except ε α) : Access ε α := ExceptT.mk (some r)

/-- A result that there is only under a condition on positions. -/
def within (condition : Prop) [Decidable condition] (a : α) : Access ε α :=
  if condition then pure a else ExceptT.mk none

/-- Read the element at a position. -/
def get (as : List α) (i : Nat) : Access ε α := ExceptT.lift as[i]?

/-- Write the element at a position. -/
def set (as : List α) (i : Nat) (a : α) : Access ε (List α) := within (i < as.length) (as.set i a)

/-- Cut a list in two at a position. -/
def splitOff (as : List α) (i : Nat) : Access ε (List α × List α) :=
  within (i ≤ as.length) (as.take i, as.drop i)

/-- Copy the elements from one position up to another. -/
def slice (as : List α) (start stop : Nat) : Access ε (List α) :=
  within (start ≤ stop ∧ stop ≤ as.length) ((as.take stop).drop start)

/-- Replace the elements from one position up to another. -/
def splice (as : List α) (start stop : Nat) (new : List α) : Access ε (List α) :=
  within (start ≤ stop ∧ stop ≤ as.length) (as.take start ++ new ++ as.drop stop)

/-- What a computation ends with, as a result. -/
def attempt (x : Access ε α) : Access ε' (Except ε α) := ExceptT.lift x.run

/-! ## Steps within range -/

@[simp] theorem ofExcept_ok (a : α) : ofExcept (.ok a) = (pure a : Access ε α) := rfl

theorem within_of_true {condition : Prop} [Decidable condition] (h : condition) (a : α) :
    (within condition a : Access ε α) = pure a :=
  if_pos h

theorem get_of_getElem? {as : List α} {i : Nat} {a : α} (h : as[i]? = some a) :
    (get as i : Access ε α) = pure a := by
  rw [get, h]
  rfl

@[simp] theorem get_zero_cons (a : α) (as : List α) : (get (a :: as) 0 : Access ε α) = pure a := rfl

theorem set_of_lt {as : List α} {i : Nat} (h : i < as.length) (a : α) :
    (set as i a : Access ε (List α)) = pure (as.set i a) :=
  within_of_true h _

theorem splitOff_of_le {as : List α} {i : Nat} (h : i ≤ as.length) :
    (splitOff as i : Access ε (List α × List α)) = pure (as.take i, as.drop i) :=
  within_of_true h _

@[simp] theorem splitOff_one_cons (a : α) (as : List α) :
    (splitOff (a :: as) 1 : Access ε (List α × List α)) = pure ([a], as) := by
  rw [splitOff_of_le (by simp)]
  simp

@[simp] theorem slice_append (before as after : List α) :
    (slice (before ++ as ++ after) before.length (before.length + as.length) :
      Access ε (List α)) = pure as := by
  rw [slice, within_of_true (by simp)]
  have hlength : before.length + as.length = (before ++ as).length := List.length_append.symm
  rw [hlength, List.take_left, List.drop_left]

/-- Replacing a stretch is safe if the stretch lies in the list and does not run backward. -/
theorem splice_of_le {as : List α} {start stop : Nat} (h : start ≤ stop) (h' : stop ≤ as.length)
    (new : List α) : (splice as start stop new : Access ε (List α)) =
      pure (as.take start ++ new ++ as.drop stop) :=
  within_of_true ⟨h, h'⟩ _

/-! ## Chains of steps within range -/

/-- A chain of steps meets no position out of range if its steps do not, each at the results that
the steps before it can have. -/
theorem bind_eq_ofExcept {x : Access ε α} {r : Except ε α} {f : α → Access ε β}
    {g : α → Except ε β} (hx : x = ofExcept r) (hf : ∀ a, r = .ok a → f a = ofExcept (g a)) :
    x >>= f = ofExcept (r >>= g) := by
  subst hx
  cases r with
  | error e => rfl
  | ok a => exact hf a rfl

/-- If no step over a list goes out of range, neither does the whole pass. -/
theorem mapM_eq_ofExcept {f : α → Access ε β} {g : α → Except ε β} {as : List α}
    (h : ∀ a ∈ as, f a = ofExcept (g a)) : as.mapM f = ofExcept (as.mapM g) := by
  induction as with
  | nil => rfl
  | cons a as ih =>
    obtain ⟨ha, has⟩ := List.forall_mem_cons.1 h
    rw [List.mapM_cons, List.mapM_cons]
    refine bind_eq_ofExcept ha fun b _ => ?_
    exact bind_eq_ofExcept (ih has) fun bs _ => rfl

@[simp] theorem attempt_ofExcept (r : Except ε α) :
    (attempt (ofExcept r) : Access ε' (Except ε α)) = pure r := rfl

theorem adapt_ofExcept (f : ε → ε') (r : Except ε α) :
    ExceptT.adapt f (ofExcept r) = ofExcept (r.mapError f) := by
  cases r <;> rfl

end Access
end CircuitRom
