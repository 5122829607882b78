import CircuitRom.Proofs.Words

/-!
# Numbers printed and read

An address goes into an instruction as its decimal digits, and encoding reads them as it reads any
operand: as a register's name first and as a literal then.  Digits are never a register's name.  As
a literal they have no sign and no mark of a radix, so they are read to the number they were
printed for, if it fits in a word.
-/

namespace CircuitRom
namespace Text

/-! ## Digits -/

/-- Digits are read from left to right, so a number can be read in two parts. -/
theorem digitsFrom?_append (radix : Nat) (cs ds : List Char) :
    ∀ n, digitsFrom? radix n (cs ++ ds) =
      (digitsFrom? radix n cs).bind fun m => digitsFrom? radix m ds := by
  induction cs with
  | nil => exact fun n => rfl
  | cons c cs ih =>
    intro n
    rw [List.cons_append, digitsFrom?, digitsFrom?]
    cases digit? radix c with
    | none => rfl
    | some d => exact ih _

theorem digit?_digitChar : ∀ d < 10, digit? 10 (Nat.digitChar d) = some d := by decide

/-- The induction is on the number: its digits are those of a tenth of it and one more. -/
theorem digitsFrom?_toDigits (n : Nat) : digitsFrom? 10 0 (Nat.toDigits 10 n) = some n := by
  induction n using Nat.strongRecOn with
  | ind n ih =>
    by_cases hn : n < 10
    · rw [Nat.toDigits_of_lt_base hn, digitsFrom?, digit?_digitChar n hn]
      simp [digitsFrom?]
    · have hlast : n % 10 < 10 := Nat.mod_lt n (by decide)
      have hvalue : n / 10 * 10 + n % 10 = n := by omega
      rw [Nat.toDigits_of_base_le (by decide) (by omega), digitsFrom?_append,
        ih (n / 10) (by omega), Option.bind_some, digitsFrom?, digit?_digitChar _ hlast]
      simp only [digitsFrom?, hvalue]

/-- The decimal digits of a number are read back as the number. -/
theorem number?_toDigits (n : Nat) : number? 10 (Nat.toDigits 10 n) = some n := by
  have hne : (Nat.toDigits 10 n).isEmpty = false := by
    rw [List.isEmpty_eq_false_iff]
    exact Nat.toDigits_ne_nil
  rw [number?, hne, if_neg Bool.false_ne_true, digitsFrom?_toDigits]

theorem isDigit_of_mem_toString {n : Nat} {c : Char} (h : c ∈ (toString n).toList) :
    c.isDigit = true := by
  rw [Nat.toString_eq_ofList_toDigits, String.toList_ofList] at h
  exact Nat.isDigit_of_mem_toDigits (by decide) (by decide) h

theorem toLower_of_isDigit {c : Char} (h : c.isDigit = true) : c.toLower = c := by
  have hsmall : digits.all (fun c => c.toLower == c) = true := by decide
  exact beq_iff_eq.1 (List.all_eq_true.1 hsmall c (mem_digits h))

theorem foldCase_toString (n : Nat) : foldCase (toString n) = Nat.toDigits 10 n := by
  have hsmall : ∀ c ∈ (toString n).toList, c.toLower = c :=
    fun c hc => toLower_of_isDigit (isDigit_of_mem_toString hc)
  rw [foldCase, List.map_congr_left hsmall, List.map_id', Nat.toString_eq_ofList_toDigits,
    String.toList_ofList]

end Text

/-! ## Registers -/

/-- Every name of a register has a letter, so digits are no such name. -/
theorem Register.ofName?_toString (n : Nat) : Register.ofName? (toString n) = none := by
  have hnames : ∀ r ∈ Register.all, ∀ name ∈ r.names,
      (Text.foldCase name).all Char.isDigit = false := by decide
  rw [ofName?, List.find?_eq_none]
  intro r hr hmatch
  obtain ⟨name, hname, hletters⟩ := List.any_eq_true.1 hmatch
  have hdigits : (Text.foldCase name).all Char.isDigit = true := by
    rw [Text.sameLetters_iff.1 hletters, Text.foldCase_toString]
    exact List.all_eq_true.2 fun c hc => Nat.isDigit_of_mem_toDigits (by decide) (by decide) hc
  rw [hnames r hr name hname] at hdigits
  cases hdigits

/-! ## Literals -/

namespace Literal

theorem splitSign_of_isDigit {cs : List Char} (h : ∀ c ∈ cs, c.isDigit = true) :
    splitSign cs = (false, cs) := by
  rw [splitSign]
  intro rest hminus
  have hdigit := h '-' (by rw [hminus]; exact List.mem_cons_self)
  cases hdigit

theorem splitRadix_of_isDigit {cs : List Char} (h : ∀ c ∈ cs, c.isDigit = true) :
    splitRadix cs = (10, cs) := by
  rw [splitRadix]
  · intro rest hmark
    have hdigit := h 'x' (by rw [hmark]; simp)
    cases hdigit
  · intro rest hmark
    have hdigit := h 'b' (by rw [hmark]; simp)
    cases hdigit

/-- A number without sign or prefix is taken as decimal. -/
theorem value?_toString (n : Nat) : value? (toString n) = some (n : Int) := by
  have hdigits : ∀ c ∈ Nat.toDigits 10 n, c.isDigit = true :=
    fun c hc => Nat.isDigit_of_mem_toDigits (by decide) (by decide) hc
  have hbody : (toString n).toList.map Char.toLower = Nat.toDigits 10 n := Text.foldCase_toString n
  rw [value?, splitSign_of_isDigit fun c hc => Text.isDigit_of_mem_toString hc]
  simp only [hbody, splitRadix_of_isDigit hdigits, Text.number?_toDigits]
  rfl

/-- A number in decimal is read as that number, if it is a word. -/
theorem parse_toString (n : Nat) :
    parse (toString n) = if n ≤ 2147483647 then .ok (Int32.ofNat n) else .error .outOfRange := by
  have hrange : inRange (n : Int) = decide (n ≤ 2147483647) := by
    rw [Bool.eq_iff_iff]
    simp only [inRange, Bool.and_eq_true, decide_eq_true_eq]
    omega
  simp only [parse, value?_toString, hrange, decide_eq_true_eq]
  rfl

end Literal
end CircuitRom
