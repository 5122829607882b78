import CircuitRom.Codec.Base64
import CircuitRom.Proofs.Numerals

/-!
# Base 64 read back

Every group of three bytes is written with four digits, and a shorter one at the end with digits
and filling.  Reading takes the groups one by one.  A digit is never the filling, so a group is
read by the rule it was written by, and all bytes come back.

`Canonical` states the format without the writer: a group of bytes and its digits are one number, in
base 256 and in base 64, and the bits that belong to no byte are zero.  Writing produces the
canonical text of bytes, and reading accepts canonical texts only.
-/

namespace CircuitRom
namespace Base64

/-! ## Digits -/

theorem digit_ne_fill {n : Nat} (h : n < 64) : digit n ≠ '=' := by
  intro hfill
  have hvalue := value?_digit n h
  rw [hfill, value?_fill] at hvalue
  cases hvalue

/-- The character is a digit or the filling. -/
def IsSymbol (c : Char) : Prop := c = '=' ∨ ∃ n < 64, c = digit n

theorem isSymbol_digit {n : Nat} (h : n < 64) : IsSymbol (digit n) := .inr ⟨n, h, rfl⟩

/-! ## Groups -/

/-- The four numbers of three bytes are numbers of digits. -/
theorem digits_lt (a b c : UInt8) :
    a.toNat / 4 < 64 ∧ a.toNat % 4 * 16 + b.toNat / 16 < 64 ∧
      b.toNat % 16 * 4 + c.toNat / 64 < 64 ∧ c.toNat % 64 < 64 := by
  have ha := a.toNat_lt
  have hb := b.toNat_lt
  have hc := c.toNat_lt
  omega

/-- Four digits give back the three bytes that were written with them. -/
theorem read3?_group3 (a b c : UInt8) :
    read3? (digit (a.toNat / 4)) (digit (a.toNat % 4 * 16 + b.toNat / 16))
      (digit (b.toNat % 16 * 4 + c.toNat / 64)) (digit (c.toNat % 64)) = some [a, b, c] := by
  obtain ⟨hp, hq, hr, hs⟩ := digits_lt a b c
  have hb := b.toNat_lt
  have hc := c.toNat_lt
  have hfirst : a.toNat / 4 * 4 + (a.toNat % 4 * 16 + b.toNat / 16) / 16 = a.toNat := by omega
  have hsecond : (a.toNat % 4 * 16 + b.toNat / 16) % 16 * 16 +
      (b.toNat % 16 * 4 + c.toNat / 64) / 4 = b.toNat := by omega
  have hthird : (b.toNat % 16 * 4 + c.toNat / 64) % 4 * 64 + c.toNat % 64 = c.toNat := by omega
  simp only [read3?, value?_digit, hp, hq, hr, hs, bytes3, hfirst, hsecond, hthird,
    UInt8.ofNat_toNat]

theorem read2?_group2 (a b : UInt8) :
    read2? (digit (a.toNat / 4)) (digit (a.toNat % 4 * 16 + b.toNat / 16))
      (digit (b.toNat % 16 * 4)) = some [a, b] := by
  obtain ⟨hp, hq, hr, -⟩ := digits_lt a b 0
  have hb := b.toNat_lt
  have hr' : b.toNat % 16 * 4 < 64 := by omega
  have hfirst : a.toNat / 4 * 4 + (a.toNat % 4 * 16 + b.toNat / 16) / 16 = a.toNat := by omega
  have hsecond : (a.toNat % 4 * 16 + b.toNat / 16) % 16 * 16 + b.toNat % 16 * 4 / 4 = b.toNat := by
    omega
  have hclean : b.toNat % 16 * 4 % 4 = 0 := by omega
  simp only [read2?, value?_digit, hp, hq, hr', hclean, if_true, hfirst, hsecond, UInt8.ofNat_toNat]

theorem read1?_group1 (a : UInt8) :
    read1? (digit (a.toNat / 4)) (digit (a.toNat % 4 * 16)) = some [a] := by
  have ha := a.toNat_lt
  have hp : a.toNat / 4 < 64 := by omega
  have hq : a.toNat % 4 * 16 < 64 := by omega
  have hfirst : a.toNat / 4 * 4 + a.toNat % 4 * 16 / 16 = a.toNat := by omega
  have hclean : a.toNat % 4 * 16 % 16 = 0 := by omega
  simp only [read1?, value?_digit, hp, hq, hclean, if_true, hfirst, UInt8.ofNat_toNat]

/-! ## Writing -/

/-- What has been written before is left in place, so encoding can be read from the front. -/
theorem encodeOnto_eq_append :
    ∀ (bytes : List UInt8) (written : List Char),
      encodeOnto written bytes = encodeOnto [] bytes ++ written
  | a :: b :: c :: rest, written => by
    rw [encodeOnto, encodeOnto, encodeOnto_eq_append rest (_ ++ written),
      encodeOnto_eq_append rest (_ ++ [])]
    simp only [List.append_nil, List.append_assoc]
  | [a, b], written => by simp [encodeOnto]
  | [a], written => by simp [encodeOnto]
  | [], written => rfl

@[simp] theorem encode_nil : encode [] = [] := rfl

@[simp] theorem encode_one (a : UInt8) : encode [a] = group1 a.toNat := by
  simp [encode, encodeOnto]

@[simp] theorem encode_two (a b : UInt8) : encode [a, b] = group2 a.toNat b.toNat := by
  simp [encode, encodeOnto]

@[simp] theorem encode_three (a b c : UInt8) (rest : List UInt8) :
    encode (a :: b :: c :: rest) = group3 a.toNat b.toNat c.toNat ++ encode rest := by
  rw [encode, encodeOnto, encodeOnto_eq_append, encode]
  simp

/-- Only digits and fill characters are ever written. -/
theorem isSymbol_of_mem_encode : ∀ bytes : List UInt8, ∀ c ∈ encode bytes, IsSymbol c
  | [] => by simp
  | [a] => by
    have ha := a.toNat_lt
    have hp : a.toNat / 4 < 64 := by omega
    have hq : a.toNat % 4 * 16 < 64 := by omega
    simp only [encode_one, group1, List.forall_mem_cons]
    exact ⟨isSymbol_digit hp, isSymbol_digit hq, .inl rfl, .inl rfl, List.forall_mem_nil _⟩
  | [a, b] => by
    obtain ⟨hp, hq, -, -⟩ := digits_lt a b 0
    have hr : b.toNat % 16 * 4 < 64 := by omega
    simp only [encode_two, group2, List.forall_mem_cons]
    exact ⟨isSymbol_digit hp, isSymbol_digit hq, isSymbol_digit hr, .inl rfl, List.forall_mem_nil _⟩
  | a :: b :: c :: rest => by
    obtain ⟨hp, hq, hr, hs⟩ := digits_lt a b c
    have hgroup : ∀ d ∈ group3 a.toNat b.toNat c.toNat, IsSymbol d := by
      simp only [group3, List.forall_mem_cons]
      exact ⟨isSymbol_digit hp, isSymbol_digit hq, isSymbol_digit hr, isSymbol_digit hs,
        List.forall_mem_nil _⟩
    rw [encode_three]
    exact List.forall_mem_append.2 ⟨hgroup, isSymbol_of_mem_encode rest⟩

/-! ## Reading -/

/-- A group without filling is read as three bytes, wherever it stands. -/
theorem decodeOnto?_group3 (done : List UInt8) (a b c : UInt8) (rest : List Char) :
    decodeOnto? done (group3 a.toNat b.toNat c.toNat ++ rest) =
      decodeOnto? (c :: b :: a :: done) rest := by
  have hlast : digit (c.toNat % 64) ≠ '=' := digit_ne_fill (digits_lt a b c).2.2.2
  show decodeOnto? done (digit _ :: digit _ :: digit _ :: digit _ :: rest) = _
  rw [decodeOnto?, read3?_group3]
  · rfl
  · exact fun _ hfill _ => hlast hfill
  · exact fun hfill _ => hlast hfill

theorem decodeOnto?_group2 (done : List UInt8) (a b : UInt8) :
    decodeOnto? done (group2 a.toNat b.toNat) = some (done.reverse ++ [a, b]) := by
  have hthird : digit (b.toNat % 16 * 4) ≠ '=' := digit_ne_fill (by omega)
  rw [group2, decodeOnto?, read2?_group2]
  · rfl
  · exact fun hfill => hthird hfill

theorem decodeOnto?_group1 (done : List UInt8) (a : UInt8) :
    decodeOnto? done (group1 a.toNat) = some (done.reverse ++ [a]) := by
  rw [group1, decodeOnto?, read1?_group1]
  rfl

/-- Decoding undoes encoding, whatever has been decoded before. -/
theorem decodeOnto?_encode :
    ∀ (bytes done : List UInt8), decodeOnto? done (encode bytes) = some (done.reverse ++ bytes)
  | [], done => by simp [decodeOnto?]
  | [a], done => by rw [encode_one, decodeOnto?_group1]
  | [a, b], done => by rw [encode_two, decodeOnto?_group2]
  | a :: b :: c :: rest, done => by
    rw [encode_three, decodeOnto?_group3, decodeOnto?_encode rest]
    simp

/-- Bytes come back from their characters. -/
theorem decode?_encode (bytes : List UInt8) : decode? (encode bytes) = some bytes :=
  decodeOnto?_encode bytes []

/-! ## Canonical texts -/

/-- The digits in the order of their values. -/
def alphabet : List Char := "ABCDEFGHIJKLMNOPQRSTUVWXYZabcdefghijklmnopqrstuvwxyz0123456789+/".toList

/-- The text is the canonical one of the bytes. -/
inductive Canonical : List UInt8 → List Char → Prop
  | nil : Canonical [] []
  /-- Eight bits, and four that are zero. -/
  | one {a : UInt8} {p q : Nat} {w x : Char} : alphabet[p]? = some w → alphabet[q]? = some x →
      a.toNat * 2 ^ 4 = p * 64 + q → Canonical [a] [w, x, '=', '=']
  /-- Sixteen bits, and two that are zero. -/
  | two {a b : UInt8} {p q r : Nat} {w x y : Char} : alphabet[p]? = some w →
      alphabet[q]? = some x → alphabet[r]? = some y →
      (a.toNat * 256 + b.toNat) * 2 ^ 2 = (p * 64 + q) * 64 + r → Canonical [a, b] [w, x, y, '=']
  /-- Twenty-four bits, and what follows. -/
  | three {a b c : UInt8} {p q r s : Nat} {w x y z : Char} {bytes : List UInt8} {text : List Char} :
      alphabet[p]? = some w → alphabet[q]? = some x → alphabet[r]? = some y →
      alphabet[s]? = some z →
      (a.toNat * 256 + b.toNat) * 256 + c.toNat = ((p * 64 + q) * 64 + r) * 64 + s →
      Canonical bytes text → Canonical (a :: b :: c :: bytes) (w :: x :: y :: z :: text)

theorem alphabet_eq_some_iff {n : Nat} {c : Char} :
    alphabet[n]? = some c ↔ n < 64 ∧ c = digit n := by
  have htable : ∀ n < 64, alphabet[n]? = some (digit n) := by decide
  constructor
  · intro h
    have hlt : n < 64 := (List.getElem?_eq_some_iff.1 h).1
    rw [htable n hlt, Option.some.injEq] at h
    exact ⟨hlt, h.symm⟩
  · rintro ⟨hlt, rfl⟩
    exact htable n hlt

/-- The encoder writes the canonical form. -/
theorem canonical_encode : ∀ bytes : List UInt8, Canonical bytes (encode bytes)
  | [] => .nil
  | [a] => by
    have ha := a.toNat_lt
    rw [encode_one]
    exact .one (alphabet_eq_some_iff.2 ⟨by omega, rfl⟩) (alphabet_eq_some_iff.2 ⟨by omega, rfl⟩)
      (by omega)
  | [a, b] => by
    obtain ⟨hp, hq, -, -⟩ := digits_lt a b 0
    rw [encode_two]
    exact .two (alphabet_eq_some_iff.2 ⟨hp, rfl⟩) (alphabet_eq_some_iff.2 ⟨hq, rfl⟩)
      (alphabet_eq_some_iff.2 ⟨by omega, rfl⟩) (by omega)
  | a :: b :: c :: rest => by
    obtain ⟨hp, hq, hr, hs⟩ := digits_lt a b c
    rw [encode_three]
    exact .three (alphabet_eq_some_iff.2 ⟨hp, rfl⟩) (alphabet_eq_some_iff.2 ⟨hq, rfl⟩)
      (alphabet_eq_some_iff.2 ⟨hr, rfl⟩) (alphabet_eq_some_iff.2 ⟨hs, rfl⟩) (by omega)
      (canonical_encode rest)

/-- Bytes have one canonical text, the one that is written for them. -/
theorem canonical_iff {bytes : List UInt8} {text : List Char} :
    Canonical bytes text ↔ text = encode bytes := by
  constructor
  · intro h
    induction h with
    | nil => rfl
    | @one a p q w x hw hx hbits =>
      obtain ⟨hp, rfl⟩ := alphabet_eq_some_iff.1 hw
      obtain ⟨hq, rfl⟩ := alphabet_eq_some_iff.1 hx
      have hdigits : p = a.toNat / 4 ∧ q = a.toNat % 4 * 16 := by omega
      rw [encode_one, group1, hdigits.1, hdigits.2]
    | @two a b p q r w x y hw hx hy hbits =>
      obtain ⟨hp, rfl⟩ := alphabet_eq_some_iff.1 hw
      obtain ⟨hq, rfl⟩ := alphabet_eq_some_iff.1 hx
      obtain ⟨hr, rfl⟩ := alphabet_eq_some_iff.1 hy
      have hb := b.toNat_lt
      have hdigits : p = a.toNat / 4 ∧ q = a.toNat % 4 * 16 + b.toNat / 16 ∧
          r = b.toNat % 16 * 4 := by omega
      rw [encode_two, group2, hdigits.1, hdigits.2.1, hdigits.2.2]
    | @three a b c p q r s w x y z bytes text hw hx hy hz hbits _ ih =>
      obtain ⟨hp, rfl⟩ := alphabet_eq_some_iff.1 hw
      obtain ⟨hq, rfl⟩ := alphabet_eq_some_iff.1 hx
      obtain ⟨hr, rfl⟩ := alphabet_eq_some_iff.1 hy
      obtain ⟨hs, rfl⟩ := alphabet_eq_some_iff.1 hz
      have hb := b.toNat_lt
      have hc := c.toNat_lt
      have hdigits : p = a.toNat / 4 ∧ q = a.toNat % 4 * 16 + b.toNat / 16 ∧
          r = b.toNat % 16 * 4 + c.toNat / 64 ∧ s = c.toNat % 64 := by omega
      rw [encode_three, group3, ih, hdigits.1, hdigits.2.1, hdigits.2.2.1, hdigits.2.2.2]
      rfl
  · rintro rfl
    exact canonical_encode bytes

/-! ## Only canonical texts are read -/

theorem toNat_lt_of_value? {c : Char} {n : Nat} (h : value? c = some n) : c.toNat < 128 := by
  simp only [value?, Char.le_def, UInt32.le_iff_toNat_le, show 'Z'.val.toNat = 90 from rfl,
    show 'z'.val.toNat = 122 from rfl, show '9'.val.toNat = 57 from rfl] at h
  split_ifs at h with hcapital hsmall hnumber hplus hslash
  · rw [Char.toNat]
    omega
  · rw [Char.toNat]
    omega
  · rw [Char.toNat]
    omega
  · rw [hplus]
    decide
  · rw [hslash]
    decide

/-- A character has a value exactly if it is the digit of that value. -/
theorem value?_eq_some_iff {c : Char} {n : Nat} : value? c = some n ↔ n < 64 ∧ c = digit n := by
  constructor
  · intro h
    have hdigit := Text.forall_ascii
      (p := fun c => (value? c).all (fun n => decide (n < 64 ∧ c = digit n)) = true) (by decide)
      (toNat_lt_of_value? h)
    rwa [h, Option.all_some, decide_eq_true_eq] at hdigit
  · rintro ⟨hlt, rfl⟩
    exact value?_digit n hlt

theorem alphabet_of_value? {c : Char} {n : Nat} (h : value? c = some n) :
    alphabet[n]? = some c ∧ n < 64 := by
  rw [value?_eq_some_iff] at h
  exact ⟨alphabet_eq_some_iff.2 h, h.1⟩

/-- A last group with two fill characters is read only if its unused bits are zero. -/
theorem canonical_of_read1? {a b : Char} {bytes : List UInt8} (h : read1? a b = some bytes) :
    Canonical bytes [a, b, '=', '='] := by
  rw [read1?] at h
  split at h
  · next p q ha hb =>
    obtain ⟨hw, hp⟩ := alphabet_of_value? ha
    obtain ⟨hx, hq⟩ := alphabet_of_value? hb
    split at h
    · next hclean =>
      cases h
      refine .one hw hx ?_
      simp only [UInt8.toNat_ofNat']
      omega
    · cases h
  · cases h

theorem canonical_of_read2? {a b c : Char} {bytes : List UInt8} (h : read2? a b c = some bytes) :
    Canonical bytes [a, b, c, '='] := by
  rw [read2?] at h
  split at h
  · next p q r ha hb hc =>
    obtain ⟨hw, hp⟩ := alphabet_of_value? ha
    obtain ⟨hx, hq⟩ := alphabet_of_value? hb
    obtain ⟨hy, hr⟩ := alphabet_of_value? hc
    split at h
    · next hclean =>
      cases h
      refine .two hw hx hy ?_
      simp only [UInt8.toNat_ofNat']
      omega
    · cases h
  · cases h

theorem canonical_of_read3? {a b c d : Char} {bytes rest : List UInt8} {text : List Char}
    (h : read3? a b c d = some bytes) (hrest : Canonical rest text) :
    Canonical (bytes ++ rest) (a :: b :: c :: d :: text) := by
  rw [read3?] at h
  split at h
  · next p q r s ha hb hc hd =>
    obtain ⟨hw, hp⟩ := alphabet_of_value? ha
    obtain ⟨hx, hq⟩ := alphabet_of_value? hb
    obtain ⟨hy, hr⟩ := alphabet_of_value? hc
    obtain ⟨hz, hs⟩ := alphabet_of_value? hd
    cases h
    refine .three hw hx hy hz ?_ hrest
    simp only [UInt8.toNat_ofNat']
    omega
  · cases h

/-- Whatever the decoder accepts is the canonical form of its result. -/
theorem canonical_of_decodeOnto? {text : List Char} {done bytes : List UInt8}
    (h : decodeOnto? done text = some bytes) :
    ∃ rest, bytes = done.reverse ++ rest ∧ Canonical rest text := by
  fun_induction decodeOnto? done text with
  | case1 done =>
    cases h
    exact ⟨[], by simp, .nil⟩
  | case2 done a b =>
    obtain ⟨rest, hread, rfl⟩ := Option.map_eq_some_iff.1 h
    exact ⟨rest, rfl, canonical_of_read1? hread⟩
  | case3 done a b c =>
    obtain ⟨rest, hread, rfl⟩ := Option.map_eq_some_iff.1 h
    exact ⟨rest, rfl, canonical_of_read2? hread⟩
  | case4 => cases h
  | case5 done a b c d text _ _ group hread ih =>
    obtain ⟨rest, rfl, hrest⟩ := ih h
    exact ⟨group ++ rest, by simp, canonical_of_read3? hread hrest⟩
  | case6 => cases h

/-- A text is read exactly if it is the canonical one of its bytes. -/
theorem decode?_eq_some_iff {text : List Char} {bytes : List UInt8} :
    decode? text = some bytes ↔ Canonical bytes text := by
  constructor
  · intro h
    obtain ⟨rest, rfl, hrest⟩ := canonical_of_decodeOnto? h
    exact hrest
  · intro h
    rw [canonical_iff.1 h]
    exact decode?_encode bytes

end Base64
end CircuitRom
