import CircuitRom.Proofs.Decimal
import CircuitRom.Proofs.Numerals
import CircuitRom.Proofs.Readings

/-!
# Which texts are literals

A literal is spelled as a sign, a mark of the radix and digits.  Reading accepts exactly these texts
and finds their value, whatever the number of digits, if the value is a signed 32-bit word.

On a machine the digits are collected in a signed 64-bit word, which may overflow, and the sign is
applied then.  `parseByWords` does so, and it agrees with reading in numbers of any size: digits
that are too large for the longer word are too large for the shorter one, and what they write is
never the one word that has no negative.
-/

namespace CircuitRom

/-! ## Letters of either case -/

namespace Text

/-- Only ASCII characters have a small form of their own. -/
theorem toLower_eq_self_or_lt (c : Char) : c.toLower = c ∨ c.toNat < 128 := by
  unfold Char.toLower
  split
  · next hcapital =>
    have hlast := UInt32.le_iff_toNat_le.1 hcapital.2
    rw [show 'Z'.val.toNat = 90 from rfl] at hlast
    rw [Char.toNat]
    omega
  · exact .inl rfl

theorem eq_or_eq_toUpper_of_toLower {c d : Char} (h : c.toLower = d) : c = d ∨ c = d.toUpper := by
  subst h
  rcases toLower_eq_self_or_lt c with hself | hlt
  · exact .inl hself.symm
  · refine forall_ascii (p := fun c => c = c.toLower ∨ c = c.toLower.toUpper) ?_ hlt
    decide

theorem digit?_toLower {radix : Nat} (hradix : radix ≤ 16) (c : Char) :
    digit? radix c.toLower = digit? radix c := by
  rw [digit?_eq_filter hradix, digit?_eq_filter hradix]
  congr 1
  rcases toLower_eq_self_or_lt c with hself | hlt
  · rw [hself]
  · refine forall_ascii (p := fun c => digit? 16 c.toLower = digit? 16 c) ?_ hlt
    decide

/-- Digits are read without regard to case. -/
theorem number?_map_toLower {radix : Nat} (hradix : radix ≤ 16) (cs : List Char) :
    number? radix (cs.map Char.toLower) = number? radix cs := by
  have hfrom : ∀ start, digitsFrom? radix start (cs.map Char.toLower) =
      digitsFrom? radix start cs := by
    induction cs with
    | nil => exact fun _ => rfl
    | cons c cs ih =>
      intro start
      simp only [List.map_cons, digitsFrom?, digit?_toLower hradix, ih]
  rw [number?, number?, List.isEmpty_map, hfrom]

theorem isDigit_of_writes {cs : List Char} {n : Nat} (h : Writes 10 cs n) :
    ∀ c ∈ cs, c.isDigit = true := by
  have htable : ∀ d < 10, (Nat.digitChar d).isDigit = true ∧
      (Nat.digitChar d).toUpper.isDigit = true := by decide
  obtain ⟨-, ds, hds, -⟩ := h
  intro c hc
  obtain ⟨d, -, hlt, rfl | rfl⟩ := exists_of_mem_left hds hc
  · exact (htable d hlt).1
  · exact (htable d hlt).2

end Text

namespace Literal

open Text

/-! ## Spelling -/

/-- The signs, with the factor that each stands for. -/
def signs : List (List Char × Int) := [([], 1), (['-'], -1)]

/-- The marks in front of digits, with the radix that each asks for. -/
def marks : List (List Char × Nat) :=
  [([], 10), (['0', 'x'], 16), (['0', 'X'], 16), (['0', 'b'], 2), (['0', 'B'], 2)]

/-- The text is a sign, a mark and digits of its radix, and this is its value. -/
def Spells (text : String) (value : Int) : Prop :=
  ∃ sign factor mark radix digits n, (sign, factor) ∈ signs ∧ (mark, radix) ∈ marks ∧
    text.toList = sign ++ mark ++ digits ∧ Writes radix digits n ∧ value = factor * n

theorem radix_le_of_mem_marks {mark : List Char} {radix : Nat} (h : (mark, radix) ∈ marks) :
    radix ≤ 16 := by
  have hall : ∀ entry ∈ marks, entry.2 ≤ 16 := by decide
  exact hall _ h

/-- The radix is told by the mark, in letters of either case, and the digits stand behind it. -/
theorem splitRadix_map_toLower (body : List Char) :
    ∃ mark digits, (mark, (splitRadix (body.map Char.toLower)).1) ∈ marks ∧
      body = mark ++ digits ∧ (splitRadix (body.map Char.toLower)).2 = digits.map Char.toLower := by
  -- in front of the digits stand a zero and the letter in one of its two cases
  have hmarked : ∀ {small : Char} {rest : List Char},
      body.map Char.toLower = '0' :: small :: rest →
      ∃ c digits, (c = small ∨ c = small.toUpper) ∧ body = '0' :: c :: digits ∧
        rest = digits.map Char.toLower := by
    intro small rest h
    obtain ⟨zero, body', rfl, hzero, h⟩ := List.map_eq_cons_iff.1 h
    obtain ⟨c, digits, rfl, hc, rfl⟩ := List.map_eq_cons_iff.1 h
    obtain rfl : zero = '0' := (eq_or_eq_toUpper_of_toLower hzero).elim id id
    exact ⟨c, digits, eq_or_eq_toUpper_of_toLower hc, rfl, rfl⟩
  unfold splitRadix
  split
  · next rest h =>
    obtain ⟨c, digits, rfl | rfl, rfl, rfl⟩ := hmarked h
    · exact ⟨['0', 'x'], digits, by simp [marks], rfl, rfl⟩
    · exact ⟨['0', 'X'], digits, by simp [marks], rfl, rfl⟩
  · next rest h =>
    obtain ⟨c, digits, rfl | rfl, rfl, rfl⟩ := hmarked h
    · exact ⟨['0', 'b'], digits, by simp [marks], rfl, rfl⟩
    · exact ⟨['0', 'B'], digits, by simp [marks], rfl, rfl⟩
  · exact ⟨[], body, by simp [marks], rfl, rfl⟩

/-- A prefix that is followed by digits of its base is taken for a prefix. -/
theorem splitRadix_of_mem_marks {mark : List Char} {radix n : Nat} {digits : List Char}
    (hmark : (mark, radix) ∈ marks) (hwrites : Writes radix digits n) :
    splitRadix ((mark ++ digits).map Char.toLower) = (radix, digits.map Char.toLower) := by
  simp only [marks, List.mem_cons, Prod.mk.injEq, List.not_mem_nil, or_false] at hmark
  rcases hmark with ⟨rfl, rfl⟩ | ⟨rfl, rfl⟩ | ⟨rfl, rfl⟩ | ⟨rfl, rfl⟩ | ⟨rfl, rfl⟩
  · -- decimal digits hold no mark
    refine splitRadix_of_isDigit fun c hc => ?_
    obtain ⟨d, hd, rfl⟩ := List.mem_map.1 hc
    have hdigit := isDigit_of_writes hwrites d hd
    rwa [toLower_of_isDigit hdigit]
  all_goals rfl

/-- A text starts with a minus sign, or it has no sign. -/
theorem splitSign_cases (cs : List Char) :
    (cs = '-' :: (splitSign cs).2 ∧ (splitSign cs).1 = true) ∨ splitSign cs = (false, cs) := by
  unfold splitSign
  split
  · exact .inl ⟨rfl, rfl⟩
  · exact .inr rfl

theorem splitSign_of_mem_marks {mark : List Char} {radix n : Nat} {digits : List Char}
    (hmark : (mark, radix) ∈ marks) (hwrites : Writes radix digits n) :
    splitSign (mark ++ digits) = (false, mark ++ digits) := by
  simp only [marks, List.mem_cons, Prod.mk.injEq, List.not_mem_nil, or_false] at hmark
  rcases hmark with ⟨rfl, rfl⟩ | ⟨rfl, rfl⟩ | ⟨rfl, rfl⟩ | ⟨rfl, rfl⟩ | ⟨rfl, rfl⟩
  · exact splitSign_of_isDigit (isDigit_of_writes hwrites)
  all_goals rfl

/-- The value of a text: its sign, its base and its digits, in this order. -/
theorem value?_eq (text : String) :
    value? text = (number? (splitRadix ((splitSign text.toList).2.map Char.toLower)).1
      (splitRadix ((splitSign text.toList).2.map Char.toLower)).2).map
        fun n : Nat => if (splitSign text.toList).1 then -(n : Int) else n := by
  simp only [value?]
  cases number? (splitRadix ((splitSign text.toList).2.map Char.toLower)).1
    (splitRadix ((splitSign text.toList).2.map Char.toLower)).2 <;> rfl

/-- Reading finds the value of every text that is spelled as a literal, and of no other. -/
theorem value?_eq_some_iff {text : String} {value : Int} :
    value? text = some value ↔ Spells text value := by
  rw [value?_eq, Option.map_eq_some_iff]
  constructor
  · rintro ⟨n, hn, rfl⟩
    obtain ⟨mark, digits, hmark, hbody, hdigits⟩ :=
      splitRadix_map_toLower (splitSign text.toList).2
    have hradix := radix_le_of_mem_marks hmark
    rw [hdigits, number?_map_toLower hradix, number?_eq_some_iff hradix] at hn
    rcases splitSign_cases text.toList with ⟨htext, hsign⟩ | hsign
    · refine ⟨['-'], -1, mark, _, digits, n, by decide, hmark, ?_, hn, ?_⟩
      · rw [htext, hbody]
        rfl
      · rw [hsign, if_pos rfl]
        omega
    · refine ⟨[], 1, mark, _, digits, n, by decide, hmark, ?_, hn, ?_⟩
      · rw [List.nil_append, ← hbody, hsign]
      · rw [hsign, if_neg Bool.false_ne_true]
        omega
  · rintro ⟨sign, factor, mark, radix, digits, n, hsign, hmark, htext, hwrites, rfl⟩
    have hradix := radix_le_of_mem_marks hmark
    have hnumber := (number?_eq_some_iff hradix).2 hwrites
    rw [← number?_map_toLower hradix] at hnumber
    refine ⟨n, ?_⟩
    simp only [signs, List.mem_cons, Prod.mk.injEq, List.not_mem_nil, or_false] at hsign
    rcases hsign with ⟨rfl, rfl⟩ | ⟨rfl, rfl⟩
    · have hplain : splitSign text.toList = (false, mark ++ digits) := by
        rw [htext]
        exact splitSign_of_mem_marks hmark hwrites
      rw [hplain, splitRadix_of_mem_marks hmark hwrites]
      exact ⟨hnumber, by simp⟩
    · have hminus : splitSign text.toList = (true, mark ++ digits) := by
        rw [htext]
        rfl
      rw [hminus, splitRadix_of_mem_marks hmark hwrites]
      exact ⟨hnumber, by simp⟩

/-! ## Reading in machine words -/

/-- The number that digits write after `m` was read, if every step of the reading stays within a
signed 64-bit word. -/
def accumulate? (radix : Nat) (m : Int64) : List Char → Option Int64
  | [] => some m
  | c :: rest =>
    match digit? radix c with
    | none => none
    | some d =>
      if m.toInt * radix + d < 2 ^ 63 then
        accumulate? radix (Int64.ofInt (m.toInt * radix + d)) rest
      else none

/-- The negative of a word.  The least word has none. -/
def negate? (m : Int64) : Option Int64 := if m = Int64.minValue then none else some (-m)

/-- The short word of the same value. -/
def narrow (m : Int64) : Except LiteralFault Int32 :=
  if inRange m.toInt then .ok (Int32.ofInt m.toInt) else .error .outOfRange

/-- The word that a literal denotes, read in 64-bit words.  There is no outcome if the negation
overflows. -/
def parseByWords (text : String) : Option (Except LiteralFault Int32) :=
  let (negative, body) := splitSign text.toList
  let (radix, digits) := splitRadix (body.map Char.toLower)
  if digits.isEmpty || !digits.all (fun c => (digit? radix c).isSome) then
    some (.error .malformed)
  else
    match accumulate? radix 0 digits with
    | none => some (.error .outOfRange)
    | some m => (if negative then negate? m else some m).map narrow

/-- Reading on never makes a number smaller, so an overflow cannot be undone. -/
theorem le_of_digitsFrom? {radix : Nat} (hradix : 0 < radix) {cs : List Char} :
    ∀ {start n : Nat}, digitsFrom? radix start cs = some n → start ≤ n := by
  induction cs with
  | nil =>
    rintro start n ⟨⟩
    exact Nat.le_refl _
  | cons c cs ih =>
    intro start n h
    rw [digitsFrom?] at h
    split at h
    · cases h
    · next d hd =>
      calc start ≤ start * radix := Nat.le_mul_of_pos_right _ hradix
        _ ≤ start * radix + d := Nat.le_add_right _ _
        _ ≤ n := ih h

/-- A number that has once left the words does not come back to them, so the steps overflow exactly
when the whole number does. -/
theorem accumulate?_eq {radix : Nat} (hradix : 0 < radix) (cs : List Char) {start : Nat}
    (hstart : start < 2 ^ 63) : accumulate? radix (Int64.ofNat start) cs =
      ((digitsFrom? radix start cs).filter (· < 2 ^ 63)).map Int64.ofNat := by
  induction cs generalizing start with
  | nil =>
    rw [accumulate?, digitsFrom?, Option.filter_some, if_pos (decide_eq_true hstart),
      Option.map_some]
  | cons c cs ih =>
    rw [accumulate?, digitsFrom?]
    cases digit? radix c with
    | none => rfl
    | some d =>
      have hnext : (Int64.ofNat start).toInt * radix + d = ((start * radix + d : Nat) : Int) := by
        rw [Int64.toInt_ofNat_of_lt hstart]
        push_cast
        rfl
      simp only [hnext]
      split
      · next hlt => rw [Int64.ofInt_eq_ofNat, ih (by omega)]
      · next hge =>
        have hover : (digitsFrom? radix (start * radix + d) cs).filter (· < 2 ^ 63) = none := by
          rw [Option.filter_eq_none_iff]
          intro n hn hlt
          have hle := le_of_digitsFrom? hradix hn
          have := of_decide_eq_true hlt
          omega
        rw [hover, Option.map_none]

/-- A text is no number exactly if it is empty or has a character that is no digit. -/
theorem number?_eq_none_iff {radix : Nat} {cs : List Char} :
    number? radix cs = none ↔
      (cs.isEmpty || !cs.all (fun c => (digit? radix c).isSome)) = true := by
  have hfrom : ∀ start, digitsFrom? radix start cs = none ↔
      cs.all (fun c => (digit? radix c).isSome) = false := by
    induction cs with
    | nil => simp [digitsFrom?]
    | cons c cs ih =>
      intro start
      rw [digitsFrom?, List.all_cons]
      cases digit? radix c with
      | none => simp
      | some d => simpa using ih _
  rw [number?]
  cases cs with
  | nil => simp
  | cons c cs =>
    rw [List.isEmpty_cons, if_neg Bool.false_ne_true, hfrom, Bool.false_or, Bool.not_eq_true']

theorem digitsFrom?_of_number? {radix n : Nat} {cs : List Char} (h : number? radix cs = some n) :
    digitsFrom? radix 0 cs = some n := by
  rw [number?] at h
  split at h
  · cases h
  · exact h

/-- What digits write is not negative, so it has a negative among the words. -/
theorem exists_signed (negative : Bool) {n : Nat} (hn : n < 2 ^ 63) :
    ∃ m, (if negative then negate? (Int64.ofNat n) else some (Int64.ofNat n)) = some m ∧
      m.toInt = if negative then -(n : Int) else n := by
  have hint : (Int64.ofNat n).toInt = n := Int64.toInt_ofNat_of_lt hn
  cases negative with
  | false => exact ⟨_, rfl, hint⟩
  | true =>
    have hne : Int64.ofNat n ≠ Int64.minValue := by
      intro heq
      rw [heq, Int64.toInt_minValue] at hint
      omega
    refine ⟨-Int64.ofNat n, by rw [if_pos rfl, negate?, if_neg hne], ?_⟩
    rw [Int64.toInt_neg, hint, Int.bmod_eq_of_le (by omega) (by omega), if_pos rfl]

/-- What does not fit into 63 bits does not fit into a word, with either sign. -/
theorem inRange_eq_false (negative : Bool) {n : Nat} (hn : ¬n < 2 ^ 63) :
    inRange (if negative then -(n : Int) else n) = false := by
  rw [inRange, Bool.and_eq_false_iff, decide_eq_false_iff_not, decide_eq_false_iff_not]
  cases negative with
  | false => rw [if_neg Bool.false_ne_true]; omega
  | true => rw [if_pos rfl]; omega

theorem splitRadix_pos (cs : List Char) : 0 < (splitRadix cs).1 := by
  unfold splitRadix
  split <;> simp

/-- Reading in machine words has an outcome for every text, and it is that of reading in numbers of
any size. -/
theorem parseByWords_eq (text : String) : parseByWords text = some (parse text) := by
  simp only [parseByWords]
  rw [parse, value?_eq]
  cases hnumber : number? (splitRadix ((splitSign text.toList).2.map Char.toLower)).1
      (splitRadix ((splitSign text.toList).2.map Char.toLower)).2 with
  | none =>
    rw [if_pos (number?_eq_none_iff.1 hnumber)]
    rfl
  | some n =>
    have hform := mt number?_eq_none_iff.2 (by rw [hnumber]; exact Option.some_ne_none n)
    have haccumulate := accumulate?_eq (splitRadix_pos ((splitSign text.toList).2.map Char.toLower))
      (splitRadix ((splitSign text.toList).2.map Char.toLower)).2 (show 0 < 2 ^ 63 by decide)
    rw [digitsFrom?_of_number? hnumber, show Int64.ofNat 0 = 0 from rfl] at haccumulate
    rw [if_neg hform, haccumulate, Option.map_some, Option.filter_some]
    by_cases hn : n < 2 ^ 63
    · obtain ⟨m, hm, hint⟩ := exists_signed (splitSign text.toList).1 hn
      rw [if_pos (decide_eq_true hn), Option.map_some]
      simp only [hm, Option.map_some, narrow, hint]
    · rw [if_neg (by simpa using hn), Option.map_none]
      simp only [inRange_eq_false (splitSign text.toList).1 hn, Bool.false_eq_true, if_false]

/-! ## What reading comes to -/

theorem inRange_iff {n : Int} : inRange n = true ↔ -2 ^ 31 ≤ n ∧ n ≤ 2 ^ 31 - 1 := by
  rw [inRange, Bool.and_eq_true, decide_eq_true_eq, decide_eq_true_eq]
  norm_num

/-- Reading accepts exactly the texts that are spelled as a literal with a value in the range of a
signed 32-bit word, and gives that value.  Of the others, those that are spelled as a literal are
out of range, however long they are, and the rest are malformed.  Reading in 64-bit words comes to
the same and never overflows in a negation. -/
theorem parse_accepts_exactly_spelled (text : String) :
    (∀ word : Int32, parse text = .ok word ↔
      ∃ value, Spells text value ∧ -2 ^ 31 ≤ value ∧ value ≤ 2 ^ 31 - 1 ∧ word.toInt = value) ∧
    (parse text = .error .outOfRange ↔
      ∃ value, Spells text value ∧ ¬(-2 ^ 31 ≤ value ∧ value ≤ 2 ^ 31 - 1)) ∧
    (parse text = .error .malformed ↔ ∀ value, ¬Spells text value) ∧
    parseByWords text = some (parse text) := by
  refine ⟨fun word => ?_, ?_, ?_, parseByWords_eq text⟩
  · rw [parse_eq_ok_iff, value?_eq_some_iff]
    constructor
    · intro hspells
      obtain ⟨hlow, hhigh⟩ := inRange_iff.1 (inRange_toInt word)
      exact ⟨word.toInt, hspells, hlow, hhigh, rfl⟩
    · rintro ⟨value, hspells, -, -, rfl⟩
      exact hspells
  · simp only [← value?_eq_some_iff, ← inRange_iff]
    rw [parse]
    cases value? text with
    | none => simp
    | some value => simp
  · simp only [← value?_eq_some_iff]
    rw [parse]
    cases value? text with
    | none => simp
    | some value => by_cases hrange : inRange value = true <;> simp [hrange]

end Literal
end CircuitRom
