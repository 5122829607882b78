import CircuitRom.Blueprint.Text
import CircuitRom.Proofs.Base64
import CircuitRom.Proofs.StoredBlocks
import Mathlib.Data.List.DropRight

/-!
# Blueprint strings read back

A document goes through three layers into a string: its bytes are packed, written in base 64, and
put behind the version.  Each layer is undone by its reader.  None of the characters that are
written is blank, so trimming removes what was put around the string and nothing of it.

Of the last two layers more can be said.  A string that is read as bytes is a version and the
canonical text of these bytes, with blanks around it, so there is one string to a version and bytes.
-/

namespace CircuitRom

/-! ## Blanks around a text -/

namespace Text

/-- The text is `trimmed` with blanks around it, and `trimmed` has none at its ends. -/
def Trims (text trimmed : List Char) : Prop :=
  ∃ before after, text = before ++ trimmed ++ after ∧ before.all isBlank = true ∧
    after.all isBlank = true ∧ (∀ c ∈ trimmed.head?, isBlank c = false) ∧
    ∀ c ∈ trimmed.getLast?, isBlank c = false

theorem dropWhile_isBlank_append {text : List Char} (hne : text ≠ [])
    (hhead : ∀ c ∈ text.head?, isBlank c = false) (after : List Char) :
    (text ++ after).dropWhile isBlank = text ++ after := by
  obtain ⟨c, rest, rfl⟩ := List.exists_cons_of_ne_nil hne
  have hc : isBlank c = false := hhead c rfl
  simp [hc]

/-- There is only one way to trim a text, and the program finds it. -/
theorem Trims.trim_eq {text trimmed : List Char} (h : Trims text trimmed) :
    trim text = trimmed := by
  obtain ⟨before, after, rfl, hbefore, hafter, hhead, hlast⟩ := h
  by_cases hne : trimmed = []
  · -- a text of blanks is gone after the first end
    subst hne
    have hblank : ∀ c ∈ before ++ [] ++ after, isBlank c = true := by
      rw [List.append_nil, List.forall_mem_append]
      exact ⟨List.all_eq_true.1 hbefore, List.all_eq_true.1 hafter⟩
    rw [trim, List.dropWhile_eq_nil_iff.2 hblank]
    rfl
  have hfront : (before ++ trimmed ++ after).dropWhile isBlank = trimmed ++ after := by
    rw [List.append_assoc, List.dropWhile_append_of_pos (List.all_eq_true.1 hbefore)]
    exact dropWhile_isBlank_append hne hhead after
  have hback : (trimmed ++ after).reverse.dropWhile isBlank = trimmed.reverse := by
    have hblank : ∀ c ∈ after.reverse, isBlank c = true := by
      intro c hc
      exact List.all_eq_true.1 hafter c (List.mem_reverse.1 hc)
    rw [List.reverse_append, List.dropWhile_append_of_pos hblank]
    have hstop := dropWhile_isBlank_append (mt List.reverse_eq_nil_iff.1 hne)
      (by rwa [List.head?_reverse]) []
    rwa [List.append_nil] at hstop
  rw [trim, hfront, hback, List.reverse_reverse]

theorem Trims.unique {text trimmed trimmed' : List Char} (h : Trims text trimmed)
    (h' : Trims text trimmed') : trimmed = trimmed' :=
  h.trim_eq.symm.trans h'.trim_eq

/-- What is left by trimming neither starts nor ends with a blank. -/
theorem trims_trim (text : List Char) : Trims text (trim text) := by
  have htrim : trim text = (text.dropWhile isBlank).rdropWhile isBlank := rfl
  refine ⟨text.takeWhile isBlank, (text.dropWhile isBlank).rtakeWhile isBlank, ?_, ?_, ?_, ?_, ?_⟩
  · rw [htrim, List.append_assoc, List.rdropWhile_append_rtakeWhile,
      List.takeWhile_append_dropWhile]
  · exact List.all_eq_true.2 fun c hc => List.mem_takeWhile_imp hc
  · exact List.all_eq_true.2 fun c hc => List.mem_rtakeWhile_imp hc
  · intro c hc
    obtain ⟨after, hafter⟩ := List.rdropWhile_prefix isBlank (l := text.dropWhile isBlank)
    have hfront := List.head?_dropWhile_not isBlank text
    rw [← hafter, List.head?_append, ← htrim, hc] at hfront
    exact hfront
  · intro c hc
    have hne : trim text ≠ [] := fun hnil => by simp [hnil] at hc
    have hlast := List.rdropWhile_last_not isBlank (text.dropWhile isBlank) hne
    rw [List.getLast?_eq_some_getLast hne] at hc
    cases hc
    exact Bool.eq_false_iff.2 hlast

end Text

/-! ## The three layers -/

namespace Base64

theorem isBlank_digit : ∀ n < 64, Text.isBlank (digit n) = false := by decide

/-- No character of an encoded text is blank, so trimming takes nothing from it. -/
theorem IsSymbol.isBlank_eq_false {c : Char} (h : IsSymbol c) : Text.isBlank c = false := by
  rcases h with rfl | ⟨n, hn, rfl⟩
  · decide
  · exact isBlank_digit n hn

end Base64

namespace BlueprintText

/-- Decompression gives back the text that was compressed. -/
theorem decompress_compress (json : String) : decompress (compress json) = .ok json := by
  have hbytes : (⟨json.toUTF8.data.toList.toArray⟩ : ByteArray) = json.toUTF8 := rfl
  have hvalid : json.toUTF8.IsValidUTF8 := json.isValidUTF8
  have htext : String.fromUTF8? json.toUTF8 = some json := dif_pos hvalid
  simp only [decompress, compress, Zlib.decompress?_compress, hbytes, htext]

/-- Bytes are read back from their text, whatever blanks stand around it. -/
theorem toBytes_ofBytes (bytes : List UInt8) {before after : String}
    (hbefore : before.toList.all Text.isBlank = true)
    (hafter : after.toList.all Text.isBlank = true) :
    toBytes (before ++ ofBytes bytes ++ after) = .ok (version, bytes) := by
  have htrim : Text.trim (before ++ ofBytes bytes ++ after).toList =
      version :: Base64.encode bytes := by
    have hblank : ∀ c ∈ version :: Base64.encode bytes, Text.isBlank c = false := by
      refine List.forall_mem_cons.2 ⟨by decide, fun c hc => ?_⟩
      exact (Base64.isSymbol_of_mem_encode bytes c hc).isBlank_eq_false
    refine Text.Trims.trim_eq ⟨before.toList, after.toList, ?_, hbefore, hafter,
      fun c hc => hblank c (List.mem_of_mem_head? hc), fun c hc => hblank c (List.mem_of_mem_getLast? hc)⟩
    rw [String.toList_append, String.toList_append, ofBytes, String.toList_ofList]
  rw [toBytes, htrim]
  simp only [Base64.decode?_encode]

/-- A document comes back from its string with the version it was written in, and blanks around the
string make no difference. -/
theorem decode_encode_between_blanks (json : String) :
    decode (encode json) = .ok ('0', json) ∧
    ∀ before after : String, before.toList.all Text.isBlank = true →
      after.toList.all Text.isBlank = true →
      decode (before ++ encode json ++ after) = .ok ('0', json) := by
  have hblanks : ∀ before after : String, before.toList.all Text.isBlank = true →
      after.toList.all Text.isBlank = true →
      decode (before ++ encode json ++ after) = .ok ('0', json) := by
    intro before after hbefore hafter
    rw [decode, encode, toBytes_ofBytes _ hbefore hafter]
    simp only [decompress_compress]
    rfl
  refine ⟨?_, hblanks⟩
  have hbare := hblanks "" "" rfl rfl
  rwa [String.empty_append, String.append_empty] at hbare

/-- A document with letters outside ASCII, between blanks outside ASCII and a line break. -/
theorem decode_encode_between_newlines :
    "\u3000\t".toList.all Text.isBlank = true ∧ "\r\n".toList.all Text.isBlank = true ∧
      decode ("\u3000\t" ++ encode "\x7b\"größe\": [1, 2]\x7d" ++ "\r\n") =
        .ok ('0', "\x7b\"größe\": [1, 2]\x7d") :=
  ⟨by decide, by decide, (decode_encode_between_blanks _).2 _ _ (by decide) (by decide)⟩

/-! ## Which strings are read -/

/-- What a string can be: nothing, a version and the canonical text of bytes, or a version and
something else. -/
theorem toBytes_cases (text : String) :
    (Text.Trims text.toList [] ∧ toBytes text = .error .emptyText) ∨
    (∃ v digits bytes, Text.Trims text.toList (v :: digits) ∧ Base64.Canonical bytes digits ∧
      toBytes text = .ok (v, bytes)) ∨
    ∃ v rest fault, Text.Trims text.toList (v :: rest) ∧ (∀ bytes, ¬Base64.Canonical bytes rest) ∧
      toBytes text = .error (.badBase64 fault) := by
  have htrims := Text.trims_trim text.toList
  cases htrim : Text.trim text.toList with
  | nil =>
    rw [htrim] at htrims
    exact .inl ⟨htrims, by simp only [toBytes, htrim]⟩
  | cons v rest =>
    rw [htrim] at htrims
    cases hdecode : Base64.decode? rest with
    | some bytes =>
      refine .inr (.inl ⟨v, rest, bytes, htrims, Base64.decode?_eq_some_iff.1 hdecode, ?_⟩)
      simp only [toBytes, htrim, hdecode]
    | none =>
      refine .inr (.inr ⟨v, rest, Base64.faultOf (bytesOf rest), htrims, fun bytes hbytes => ?_, ?_⟩)
      · rw [Base64.decode?_eq_some_iff.2 hbytes] at hdecode
        cases hdecode
      · simp only [toBytes, htrim, hdecode]

/-- A text is read exactly if it is, up to blanks, a version and canonical digits. -/
theorem toBytes_eq_ok_iff {text : String} {v : Char} {bytes : List UInt8} :
    toBytes text = .ok (v, bytes) ↔
      ∃ digits, Base64.Canonical bytes digits ∧ Text.Trims text.toList (v :: digits) := by
  constructor
  · intro h
    rcases toBytes_cases text with ⟨-, herror⟩ | ⟨v', digits, bytes', htrims, hcanonical, hok⟩ |
      ⟨v', rest, fault, -, -, herror⟩
    · simp [h] at herror
    · rw [h] at hok
      cases hok
      exact ⟨digits, hcanonical, htrims⟩
    · simp [h] at herror
  · rintro ⟨digits, hcanonical, htrims⟩
    simp only [toBytes, htrims.trim_eq, Base64.decode?_eq_some_iff.2 hcanonical]

/-- The text counts as empty exactly if it is blank throughout. -/
theorem toBytes_eq_emptyText_iff {text : String} :
    toBytes text = .error .emptyText ↔ Text.Trims text.toList [] := by
  constructor
  · intro h
    rcases toBytes_cases text with ⟨htrims, -⟩ | ⟨v, digits, bytes, -, -, hok⟩ |
      ⟨v, rest, fault, -, -, herror⟩
    · exact htrims
    · simp [h] at hok
    · simp [h] at herror
  · intro h
    simp only [toBytes, h.trim_eq]

/-- In all other cases the digits are at fault. -/
theorem exists_toBytes_eq_badBase64_iff {text : String} :
    (∃ fault, toBytes text = .error (.badBase64 fault)) ↔ ¬Text.Trims text.toList [] ∧
      ∀ v bytes digits, Base64.Canonical bytes digits → ¬Text.Trims text.toList (v :: digits) := by
  rcases toBytes_cases text with ⟨htrims, herror⟩ | ⟨v, digits, bytes, htrims, hcanonical, hok⟩ |
    ⟨v, rest, fault, htrims, hnone, herror⟩
  · exact iff_of_false (by simp [herror]) fun h => h.1 htrims
  · exact iff_of_false (by simp [hok]) fun h => h.2 v bytes digits hcanonical htrims
  · refine iff_of_true ⟨fault, herror⟩ ⟨fun hempty => ?_, ?_⟩
    · exact List.cons_ne_nil v rest (htrims.unique hempty)
    intro v' bytes digits hcanonical htrims'
    cases htrims.unique htrims'
    exact hnone bytes hcanonical

/-- **Only what is written is read.**  A text without its blanks is read as a version and bytes
exactly if it is the version and the canonical text of the bytes.  If it is empty, it fails as an
empty one, and otherwise for its digits.  Two texts that are read as the same version and bytes are
the same without their blanks. -/
theorem toBytes_accepts_exactly_canonical (text : String) :
    (∃! trimmed, Text.Trims text.toList trimmed) ∧
    (∀ v bytes, toBytes text = .ok (v, bytes) ↔
      ∃ digits, Base64.Canonical bytes digits ∧ Text.Trims text.toList (v :: digits)) ∧
    (∀ bytes, toBytes text = .ok (version, bytes) ↔
      Text.Trims text.toList (ofBytes bytes).toList) ∧
    (toBytes text = .error .emptyText ↔ Text.Trims text.toList []) ∧
    ((∃ fault, toBytes text = .error (.badBase64 fault)) ↔ ¬Text.Trims text.toList [] ∧
      ∀ v bytes digits, Base64.Canonical bytes digits → ¬Text.Trims text.toList (v :: digits)) ∧
    ∀ text' trimmed trimmed' result, Text.Trims text.toList trimmed →
      Text.Trims text'.toList trimmed' → toBytes text = .ok result → toBytes text' = .ok result →
      trimmed = trimmed' := by
  refine ⟨⟨_, Text.trims_trim _, fun other hother => hother.trim_eq.symm⟩,
    fun v bytes => toBytes_eq_ok_iff, fun bytes => ?_, toBytes_eq_emptyText_iff,
    exists_toBytes_eq_badBase64_iff, ?_⟩
  · rw [toBytes_eq_ok_iff, ofBytes, String.toList_ofList]
    simp only [Base64.canonical_iff, exists_eq_left]
  · rintro text' trimmed trimmed' ⟨v, bytes⟩ htrims htrims' h h'
    obtain ⟨digits, hcanonical, hdigits⟩ := toBytes_eq_ok_iff.1 h
    obtain ⟨digits', hcanonical', hdigits'⟩ := toBytes_eq_ok_iff.1 h'
    rw [htrims.unique hdigits, htrims'.unique hdigits', Base64.canonical_iff.1 hcanonical,
      Base64.canonical_iff.1 hcanonical']

end BlueprintText
end CircuitRom
