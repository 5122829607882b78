import CircuitRom.Text.Digits
import Mathlib.Data.List.Forall2
import Mathlib.Data.Nat.Digits.Defs
import Mathlib.Tactic.Ring
import Mathlib.Tactic.SplitIfs

/-!
# What digits write

A numeral is read from the left, each digit after `radix` times what was read before.  What it
writes is said without reading: its digits, the last one first, are the coefficients of the powers
of the radix.  The two agree for every radix up to sixteen and for numerals of any length, leading
zeros included.  Counts are decimal numerals with a bound, and a plus sign may stand in front of
them.
-/

namespace CircuitRom
namespace Text

/-! ## Digits -/

/-- The character is the digit of the radix with the given value.  Letters of either case stand for
ten and more. -/
def IsDigitOf (radix : Nat) (c : Char) (d : Nat) : Prop :=
  d < radix ∧ (c = Nat.digitChar d ∨ c = (Nat.digitChar d).toUpper)

/-- A digit of a small radix is a digit of a greater one that is small enough. -/
theorem digit?_eq_filter {radix : Nat} (hradix : radix ≤ 16) (c : Char) :
    digit? radix c = (digit? 16 c).filter (· < radix) := by
  rw [digit?, digit?, Option.filter_filter]
  congr 1
  funext d
  rw [Bool.eq_iff_iff, Bool.and_eq_true, decide_eq_true_eq, decide_eq_true_eq]
  omega

/-- What holds of each of the 128 codes holds of every ASCII character. -/
theorem forall_ascii {p : Char → Prop} (h : ∀ n < 128, p (Char.ofNat n)) {c : Char}
    (hc : c.toNat < 128) : p c := by
  have hcode := h c.toNat hc
  rwa [Char.ofNat_toNat] at hcode

theorem toNat_lt_of_digit? {radix d : Nat} {c : Char} (h : digit? radix c = some d) :
    c.toNat < 128 := by
  obtain ⟨hvalue, -⟩ := Option.filter_eq_some_iff.1 h
  simp only [Char.le_def, UInt32.le_iff_toNat_le, show '9'.val.toNat = 57 from rfl,
    show 'f'.val.toNat = 102 from rfl, show 'F'.val.toNat = 70 from rfl] at hvalue
  rw [Char.toNat]
  split_ifs at hvalue <;> omega

theorem isDigitOf_of_digit?_sixteen {c : Char} {d : Nat} (h : digit? 16 c = some d) :
    IsDigitOf 16 c d := by
  have hdigit := forall_ascii (p := fun c => (digit? 16 c).all (fun d => decide (d < 16 ∧
      (c = Nat.digitChar d ∨ c = (Nat.digitChar d).toUpper))) = true) (by decide)
    (toNat_lt_of_digit? h)
  rwa [h, Option.all_some, decide_eq_true_eq] at hdigit

/-- The reader of digits accepts exactly the digits of the base. -/
theorem digit?_eq_some_iff {radix d : Nat} (hradix : radix ≤ 16) {c : Char} :
    digit? radix c = some d ↔ IsDigitOf radix c d := by
  have hdigits : ∀ d < 16, digit? 16 (Nat.digitChar d) = some d ∧
      digit? 16 (Nat.digitChar d).toUpper = some d := by decide
  rw [digit?_eq_filter hradix, Option.filter_eq_some_iff, decide_eq_true_eq]
  constructor
  · rintro ⟨hdigit, hlt⟩
    exact ⟨hlt, (isDigitOf_of_digit?_sixteen hdigit).2⟩
  · rintro ⟨hlt, rfl | rfl⟩
    · exact ⟨(hdigits d (by omega)).1, hlt⟩
    · exact ⟨(hdigits d (by omega)).2, hlt⟩

theorem digit?_plus (radix : Nat) : digit? radix '+' = none := rfl

/-! ## Numerals -/

/-- The characters are one or more digits of the radix, and they write the number. -/
def Writes (radix : Nat) (cs : List Char) (n : Nat) : Prop :=
  cs ≠ [] ∧ ∃ ds, List.Forall₂ (IsDigitOf radix) cs ds ∧ n = Nat.ofDigits radix ds.reverse

/-- Reading starts with what was read before, which counts once for each of the digits to come. -/
theorem digitsFrom?_eq_some_iff {radix : Nat} (hradix : radix ≤ 16) {cs : List Char} :
    ∀ {start n : Nat}, digitsFrom? radix start cs = some n ↔
      ∃ ds, List.Forall₂ (IsDigitOf radix) cs ds ∧
        n = start * radix ^ ds.length + Nat.ofDigits radix ds.reverse := by
  induction cs with
  | nil =>
    intro start n
    simp [digitsFrom?, eq_comm]
  | cons c cs ih =>
    intro start n
    rw [digitsFrom?]
    constructor
    · intro h
      cases hdigit : digit? radix c with
      | none => rw [hdigit] at h; cases h
      | some d =>
        rw [hdigit] at h
        obtain ⟨ds, hds, rfl⟩ := ih.1 h
        refine ⟨d :: ds, .cons ((digit?_eq_some_iff hradix).1 hdigit) hds, ?_⟩
        rw [Nat.ofDigits_reverse_cons, List.length_cons]
        ring
    · rintro ⟨_, hds, rfl⟩
      obtain ⟨d, ds, hd, hrest, rfl⟩ := List.forall₂_cons_left_iff.1 hds
      rw [(digit?_eq_some_iff hradix).2 hd]
      refine ih.2 ⟨ds, hrest, ?_⟩
      rw [Nat.ofDigits_reverse_cons, List.length_cons]
      ring

/-- Reading digits finds the number that they write. -/
theorem number?_eq_some_iff {radix n : Nat} (hradix : radix ≤ 16) {cs : List Char} :
    number? radix cs = some n ↔ Writes radix cs n := by
  rw [number?, Writes]
  cases cs with
  | nil => simp
  | cons c cs =>
    rw [List.isEmpty_cons, if_neg Bool.false_ne_true, digitsFrom?_eq_some_iff hradix]
    simp

/-! ## Counts -/

/-- The text is a count: an optional plus sign and decimal digits, which write a number below
`2 ^ 64`. -/
def WritesCount (text : String) (n : Nat) : Prop :=
  ∃ digits, (text.toList = digits ∨ text.toList = '+' :: digits) ∧ Writes 10 digits n ∧ n < 2 ^ 64

theorem not_writes_plus {radix n : Nat} (hradix : radix ≤ 16) {cs : List Char} :
    ¬Writes radix ('+' :: cs) n := by
  rw [← number?_eq_some_iff hradix]
  simp [number?, digitsFrom?, digit?_plus]

/-- The reader of counts accepts exactly the texts that write one. -/
theorem count?_eq_some_iff {text : String} {n : Nat} :
    count? text = some n ↔ WritesCount text n := by
  have hlimit : countLimit = 2 ^ 64 := rfl
  unfold count?
  simp only [Option.filter_eq_some_iff, decide_eq_true_eq, hlimit,
    number?_eq_some_iff (show 10 ≤ 16 by decide)]
  constructor
  · rintro ⟨hwrites, hlt⟩
    split at hwrites
    · next rest htext => exact ⟨rest, .inr htext, hwrites, hlt⟩
    · exact ⟨_, .inl rfl, hwrites, hlt⟩
  · rintro ⟨digits, htext | htext, hwrites, hlt⟩
    · refine ⟨?_, hlt⟩
      split
      · next rest hplus =>
        rw [← htext, hplus] at hwrites
        exact absurd hwrites (not_writes_plus (by decide))
      · rwa [htext]
    · rw [htext]
      exact ⟨hwrites, hlt⟩

end Text
end CircuitRom
