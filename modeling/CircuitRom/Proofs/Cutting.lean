import CircuitRom.Proofs.Scanning
import CircuitRom.Proofs.Sequencing
import Mathlib.Data.List.Infix
import Mathlib.Data.List.TakeWhile

/-!
# Nothing is lost in reading a line

The lexer goes over a line once and keeps the word that it is in.  What comes out is said here
without that state, by columns alone (`IsCut`): every lexeme shows the characters that stand at its
column, lexemes follow each other without overlap, every character that is not blank lies in exactly
one of them, a mark is a lexeme of its own, and every other lexeme is a run of word characters that
cannot be made longer on either side.

`CutFrom` follows the scan from a column on, and each property is an induction over it.  The tokens
of a line are its lexemes with their kinds, so a source text is cut in the same way
(`tokenize_cuts_lines`), and a line is dropped exactly when there is nothing to cut.
-/

namespace CircuitRom
namespace Lexeme

open Text

/-- The column after the last character of a lexeme. -/
def stop (l : Lexeme) : Nat := l.col + l.chars.length

/-- The character in a column belongs to the lexeme. -/
def Covers (l : Lexeme) (i : Nat) : Prop := l.col ≤ i ∧ i < l.stop

/-- The lexeme is a run of word characters with none before and none behind it. -/
structure IsRun (code : List Char) (l : Lexeme) : Prop where
  chars : ∀ c ∈ l.chars, isWordChar c = true
  before : ∀ i c, i + 1 = l.col → code[i]? = some c → isWordChar c = false
  behind : ∀ c, code[l.stop]? = some c → isWordChar c = false

/-- The lexemes are what a text consists of, each in its column. -/
structure IsCut (code : List Char) (lexemes : List Lexeme) : Prop where
  shown : ∀ l ∈ lexemes, l.chars ≠ [] ∧ l.chars <+: code.drop l.col
  apart : lexemes.Pairwise fun l m => l.stop ≤ m.col
  covered : ∀ i c, code[i]? = some c → isBlank c = false → ∃! l, l ∈ lexemes ∧ l.Covers i
  marks : ∀ i c, code[i]? = some c → isMark c = true → ⟨i, [c]⟩ ∈ lexemes
  runs : ∀ l ∈ lexemes, (∃ c, isMark c = true ∧ l.chars = [c]) ∨ l.IsRun code

/-! ## The scan, column by column -/

/-- The lexemes of a text from a column on, in the order in which they are met. -/
inductive CutFrom (code : List Char) : Nat → List Lexeme → Prop
  | done {col : Nat} : code.length ≤ col → CutFrom code col []
  | blank {col : Nat} {c : Char} {lexemes : List Lexeme} : code[col]? = some c →
      isBlank c = true → CutFrom code (col + 1) lexemes → CutFrom code col lexemes
  | mark {col : Nat} {c : Char} {lexemes : List Lexeme} : code[col]? = some c →
      isMark c = true → CutFrom code (col + 1) lexemes → CutFrom code col (⟨col, [c]⟩ :: lexemes)
  | word {l : Lexeme} {lexemes : List Lexeme} : l.chars ≠ [] → l.chars <+: code.drop l.col →
      (∀ c ∈ l.chars, isWordChar c = true) →
      (∀ c, code[l.stop]? = some c → isWordChar c = false) →
      CutFrom code l.stop lexemes → CutFrom code l.col (l :: lexemes)

theorem isWordChar_of_isBlank {c : Char} (h : isBlank c = true) : isWordChar c = false := by
  simp [isWordChar, h]

theorem isWordChar_of_isMark {c : Char} (h : isMark c = true) : isWordChar c = false := by
  simp [isWordChar, h]

theorem isBlank_of_isMark {c : Char} (h : isMark c = true) : isBlank c = false := by
  rcases isMark_iff.1 h with rfl | rfl | rfl | rfl <;> rfl

theorem stops_dropWhile (cs : List Char) : Stops (cs.dropWhile isWordChar) := by
  intro c hc
  have hword := List.head?_dropWhile_not isWordChar cs
  rw [Option.mem_def.1 hc] at hword
  by_contra hnot
  rw [not_or, Bool.not_eq_true, Bool.not_eq_true] at hnot
  simp [isWordChar_iff.2 hnot] at hword

/-- The scan of what follows `before` finds the lexemes from its end on. -/
theorem cutFrom_scan (before rest : List Char) :
    CutFrom (before ++ rest) before.length (scan before.length rest) := by
  induction hn : rest.length using Nat.strongRecOn generalizing before rest with
  | ind n ih =>
    cases rest with
    | nil => exact .done (by simp)
    | cons c rest =>
      have hhere : (before ++ c :: rest)[before.length]? = some c := by simp
      -- the scan goes on behind the character
      have hnext := ih rest.length (by simp [← hn]) (before ++ [c]) rest rfl
      rw [List.append_assoc, List.singleton_append, List.length_append, List.length_singleton]
        at hnext
      by_cases hblank : isBlank c = true
      · rw [scan, if_pos hblank]
        exact .blank hhere hblank hnext
      · by_cases hmark : isMark c = true
        · rw [scan_of_isMark rest hmark]
          exact .mark hhere hmark hnext
        · have hc : isWordChar c = true := by simp [isWordChar, hblank, hmark]
          -- the word reaches to the first character that is not part of one
          obtain ⟨w, hw⟩ : ∃ w, (c :: rest).takeWhile isWordChar = w := ⟨_, rfl⟩
          obtain ⟨after, hafter⟩ : ∃ after, (c :: rest).dropWhile isWordChar = after := ⟨_, rfl⟩
          have hsplit : c :: rest = w ++ after := by
            rw [← hw, ← hafter, List.takeWhile_append_dropWhile]
          have hne : w ≠ [] := by
            rw [← hw, List.takeWhile_cons_of_pos hc]
            simp
          have hchars : ∀ d ∈ w, isWordChar d = true := by
            intro d hd
            rw [← hw] at hd
            exact List.mem_takeWhile_imp hd
          have hstops : Stops after := hafter ▸ stops_dropWhile _
          have hshort : after.length < n := by
            have hlength := congrArg List.length hsplit
            rw [List.length_append] at hlength
            have hpos := List.length_pos_iff.2 hne
            omega
          have hrest := ih after.length hshort (before ++ w) after rfl
          rw [List.append_assoc, List.length_append] at hrest
          rw [hsplit, scan_run hchars hne hstops]
          refine .word (l := ⟨before.length, w⟩) hne ?_ hchars ?_ hrest
          · simp
          · intro d hd
            have hd : after.head? = some d := by
              rw [stop, ← List.append_assoc, ← List.length_append,
                List.getElem?_append_right (Nat.le_refl _), Nat.sub_self] at hd
              rwa [List.head?_eq_getElem?]
            rcases hstops d hd with h | h
            · exact isWordChar_of_isBlank h
            · exact isWordChar_of_isMark h

variable {code : List Char} {col : Nat} {lexemes : List Lexeme} {l : Lexeme}

/-- A lexeme shows the characters in its columns. -/
theorem getElem?_of_covers (hshown : l.chars <+: code.drop l.col) {i : Nat} (hi : l.Covers i) :
    code[i]? = l.chars[i - l.col]? := by
  obtain ⟨hcol, hstop⟩ := hi
  obtain ⟨rest, hrest⟩ := hshown
  have hlt : i - l.col < l.chars.length := by
    unfold stop at hstop
    omega
  have hindex : code[i]? = (code.drop l.col)[i - l.col]? := by
    rw [List.getElem?_drop]
    congr 1
    omega
  rw [hindex, ← hrest, List.getElem?_append_left hlt]

theorem mem_chars_of_covers (hshown : l.chars <+: code.drop l.col) {i : Nat} {c : Char}
    (hi : l.Covers i) (hc : code[i]? = some c) : c ∈ l.chars := by
  rw [getElem?_of_covers hshown hi] at hc
  exact List.mem_of_getElem? hc

namespace CutFrom

/-- A cut never goes back, and every piece shows what stands at its column. -/
theorem shown (h : CutFrom code col lexemes) :
    ∀ l ∈ lexemes, col ≤ l.col ∧ l.chars ≠ [] ∧ l.chars <+: code.drop l.col := by
  induction h with
  | done => simp
  | blank _ _ _ ih =>
    intro l hl
    obtain ⟨hcol, hshown⟩ := ih l hl
    exact ⟨by omega, hshown⟩
  | @mark col c lexemes hc _ _ ih =>
    intro l hl
    rcases List.mem_cons.1 hl with rfl | hl
    · refine ⟨Nat.le_refl _, by simp, ?_⟩
      obtain ⟨hlt, hget⟩ := List.getElem?_eq_some_iff.1 hc
      rw [List.drop_eq_getElem_cons hlt, hget]
      simp
    · obtain ⟨hcol, hshown⟩ := ih l hl
      exact ⟨by omega, hshown⟩
  | @word first lexemes hne hshown _ _ _ ih =>
    intro l hl
    rcases List.mem_cons.1 hl with rfl | hl
    · exact ⟨Nat.le_refl _, hne, hshown⟩
    · obtain ⟨hcol, hrest⟩ := ih l hl
      refine ⟨?_, hrest⟩
      unfold stop at hcol
      omega

/-- The pieces of a cut follow each other without overlap. -/
theorem apart (h : CutFrom code col lexemes) : lexemes.Pairwise fun l m => l.stop ≤ m.col := by
  induction h with
  | done => exact .nil
  | blank _ _ _ ih => exact ih
  | mark _ _ hrest ih => exact .cons (fun m hm => (hrest.shown m hm).1) ih
  | word _ _ _ _ hrest ih => exact .cons (fun m hm => (hrest.shown m hm).1) ih

/-- Every character that is not blank belongs to a lexeme. -/
theorem exists_covers (h : CutFrom code col lexemes) {i : Nat} {c : Char} (hcol : col ≤ i)
    (hi : code[i]? = some c) (hc : isBlank c = false) : ∃ l ∈ lexemes, l.Covers i := by
  induction h with
  | done hlength =>
    rw [List.getElem?_eq_none (by omega)] at hi
    cases hi
  | @blank col d lexemes hd hblank _ ih =>
    by_cases heq : i = col
    · subst heq
      cases hi.symm.trans hd
      rw [hblank] at hc
      cases hc
    · exact ih (by omega)
  | @mark col d lexemes _ _ _ ih =>
    by_cases heq : i = col
    · exact ⟨⟨col, [d]⟩, List.mem_cons_self, by simp [Covers, stop, heq]⟩
    · obtain ⟨l, hl, hcovers⟩ := ih (by omega)
      exact ⟨l, List.mem_cons_of_mem _ hl, hcovers⟩
  | @word first lexemes _ _ _ _ _ ih =>
    by_cases hlt : i < first.stop
    · exact ⟨first, List.mem_cons_self, hcol, hlt⟩
    · obtain ⟨l, hl, hcovers⟩ := ih (by omega)
      exact ⟨l, List.mem_cons_of_mem _ hl, hcovers⟩

/-- A lexeme is a mark, or a run of word characters.  What stands before the column where the scan
started is left open. -/
theorem runs (h : CutFrom code col lexemes) :
    ∀ l ∈ lexemes, (∃ c, isMark c = true ∧ l.chars = [c]) ∨
      (∀ c ∈ l.chars, isWordChar c = true) ∧
      (∀ i c, col ≤ i → i + 1 = l.col → code[i]? = some c → isWordChar c = false) ∧
      ∀ c, code[l.stop]? = some c → isWordChar c = false := by
  induction h with
  | done => simp
  | @blank col d lexemes hd hblank _ ih =>
    intro l hl
    refine (ih l hl).imp_right fun ⟨hchars, hbefore, hbehind⟩ => ⟨hchars, ?_, hbehind⟩
    intro i c hcol hi hc
    by_cases heq : i = col
    · subst heq
      cases hc.symm.trans hd
      exact isWordChar_of_isBlank hblank
    · exact hbefore i c (by omega) hi hc
  | @mark col d lexemes hd hmark _ ih =>
    intro l hl
    rcases List.mem_cons.1 hl with rfl | hl
    · exact .inl ⟨d, hmark, rfl⟩
    · refine (ih l hl).imp_right fun ⟨hchars, hbefore, hbehind⟩ => ⟨hchars, ?_, hbehind⟩
      intro i c hcol hi hc
      by_cases heq : i = col
      · subst heq
        cases hc.symm.trans hd
        exact isWordChar_of_isMark hmark
      · exact hbefore i c (by omega) hi hc
  | @word first lexemes hne hshown hword hbehind hrest ih =>
    intro l hl
    rcases List.mem_cons.1 hl with rfl | hl
    · refine .inr ⟨hword, ?_, hbehind⟩
      intro i c hcol hi _
      omega
    · refine (ih l hl).imp_right fun ⟨hchars, hbefore, hend⟩ => ⟨hchars, ?_, hend⟩
      intro i c hcol hi hc
      by_cases hle : first.stop ≤ i
      · exact hbefore i c hle hi hc
      · -- two words do not touch: behind the first one stands no word character
        obtain ⟨hcol', hne', hshown'⟩ := hrest.shown l hl
        have htouch : first.stop = l.col := by omega
        obtain ⟨d, ds, hds⟩ := List.exists_cons_of_ne_nil hne'
        have hd : code[l.col]? = some d := by
          rw [getElem?_of_covers hshown' (by simp [Covers, stop, hds]), hds, Nat.sub_self]
          rfl
        have hend := hbehind d (htouch ▸ hd)
        rw [hchars d (by simp [hds])] at hend
        cases hend

end CutFrom

/-! ## The lexemes of a line -/

/-- Lexemes that do not overlap are told apart by their columns. -/
theorem eq_of_covers (h : lexemes.Pairwise fun l m => l.stop ≤ m.col) {l m : Lexeme}
    (hl : l ∈ lexemes) (hm : m ∈ lexemes) {i : Nat} (hli : l.Covers i) (hmi : m.Covers i) :
    l = m := by
  obtain ⟨a, ha, rfl⟩ := List.getElem_of_mem hl
  obtain ⟨b, hb, rfl⟩ := List.getElem_of_mem hm
  obtain ⟨hla, hlb⟩ := hli
  obtain ⟨hma, hmb⟩ := hmi
  have hpairs := List.pairwise_iff_getElem.1 h
  rcases Nat.lt_trichotomy a b with hlt | rfl | hlt
  · have hstop := hpairs a b ha hb hlt
    omega
  · rfl
  · have hstop := hpairs b a hb ha hlt
    omega

/-- A lexeme that covers a mark is that mark. -/
theorem eq_of_covers_mark (hshown : l.chars <+: code.drop l.col)
    (hrun : (∃ c, isMark c = true ∧ l.chars = [c]) ∨ l.IsRun code) {i : Nat} {c : Char}
    (hi : l.Covers i) (hc : code[i]? = some c) (hmark : isMark c = true) : l = ⟨i, [c]⟩ := by
  have hmem := mem_chars_of_covers hshown hi hc
  rcases hrun with ⟨d, -, hd⟩ | hrun
  · obtain ⟨hcol, hstop⟩ := hi
    rw [hd, List.mem_singleton] at hmem
    rw [stop, hd, List.length_singleton] at hstop
    have hi : l.col = i := by omega
    rw [← hi, hmem, ← hd]
  · have hword := hrun.chars c hmem
    rw [isWordChar_of_isMark hmark] at hword
    cases hword

/-- The scanner cuts its text. -/
theorem isCut_scan (code : List Char) : IsCut code (scan 0 code) := by
  have hcut : CutFrom code 0 (scan 0 code) := cutFrom_scan [] code
  have hruns : ∀ l ∈ scan 0 code, (∃ c, isMark c = true ∧ l.chars = [c]) ∨ l.IsRun code := by
    intro l hl
    refine (hcut.runs l hl).imp_right fun ⟨hchars, hbefore, hbehind⟩ => ⟨hchars, ?_, hbehind⟩
    exact fun i c hi hc => hbefore i c (Nat.zero_le i) hi hc
  refine ⟨fun l hl => (hcut.shown l hl).2, hcut.apart, ?_, ?_, hruns⟩
  · intro i c hi hc
    obtain ⟨l, hl, hcovers⟩ := hcut.exists_covers (Nat.zero_le i) hi hc
    refine ⟨l, ⟨hl, hcovers⟩, ?_⟩
    rintro m ⟨hm, hmcovers⟩
    exact eq_of_covers hcut.apart hm hl hmcovers hcovers
  · intro i c hi hc
    obtain ⟨l, hl, hcovers⟩ := hcut.exists_covers (Nat.zero_le i) hi (isBlank_of_isMark hc)
    rwa [← eq_of_covers_mark (hcut.shown l hl).2.2 (hruns l hl) hcovers hi hc]

/-- There is nothing to cut exactly when all characters are blank. -/
theorem IsCut.eq_nil_iff (h : IsCut code lexemes) :
    lexemes = [] ↔ ∀ c ∈ code, isBlank c = true := by
  constructor
  · rintro rfl c hc
    by_contra hblank
    obtain ⟨i, hi⟩ := List.mem_iff_getElem?.1 hc
    obtain ⟨l, ⟨hl, -⟩, -⟩ := h.covered i c hi (Bool.eq_false_iff.2 hblank)
    cases hl
  · intro hblank
    rw [List.eq_nil_iff_forall_not_mem]
    intro l hl
    obtain ⟨hne, hshown⟩ := h.shown l hl
    obtain ⟨c, hc⟩ := List.exists_mem_of_ne_nil _ hne
    have hblank := hblank c (List.mem_of_mem_drop (hshown.subset hc))
    -- neither a mark nor a word character is blank
    rcases h.runs l hl with ⟨d, hd, hchars⟩ | hrun
    · rw [hchars, List.mem_singleton] at hc
      rw [hc, isBlank_of_isMark hd] at hblank
      cases hblank
    · rw [(isWordChar_iff.1 (hrun.chars c hc)).1] at hblank
      cases hblank

end Lexeme

/-! ## The tokens of a text -/

/-- The characters of a token in the column where it was written. -/
def Token.lexeme (t : Token) : Lexeme := ⟨t.site.col, t.text.toList⟩

namespace Lexeme

/-- The tokens of a line are its lexemes with their kinds. -/
theorem forall₂_classify {number : Nat} {raw : String} {lexemes : List Lexeme} :
    ∀ {named : Bool} {previous : Option Token} {line : Line},
      classify number raw named previous lexemes = .ok line →
      List.Forall₂ (fun l t => t = l.token number raw t.kind) lexemes line := by
  induction lexemes with
  | nil =>
    intro named previous line h
    cases h
    exact .nil
  | cons l rest ih =>
    intro named previous line h
    rw [classify] at h
    split at h
    · split at h
      · obtain ⟨tail, htail, rfl⟩ := map_eq_ok.1 h
        exact .cons rfl (ih htail)
      · cases h
    · obtain ⟨tail, htail, rfl⟩ := map_eq_ok.1 h
      exact .cons rfl (ih htail)

theorem lexeme_token (l : Lexeme) (number : Nat) (raw : String) (kind : Kind) :
    (l.token number raw kind).lexeme = l := by
  simp [Token.lexeme, token]

end Lexeme

/-- The tokens are those of a source line: they have its number and its characters, and they cut it
up to its comment. -/
structure Line.IsCutOf (number : Nat) (raw : List Char) (line : Line) : Prop where
  site : ∀ t ∈ line, t.site.line = number ∧ t.site.raw = String.ofList raw
  text : ∀ t ∈ line, t.text.toList <+: raw.drop t.site.col
  cut : Lexeme.IsCut (codePart raw) (line.map Token.lexeme)

theorem isPrefix_codePart (raw : List Char) : codePart raw <+: raw := List.takeWhile_prefix _

/-- The tokens of a line cut the line up to its comment. -/
theorem isCutOf_of_lexLine {number : Nat} {raw : List Char} {line : Line}
    (h : lexLine number raw = .ok line) : line.IsCutOf number raw := by
  have htokens := Lexeme.forall₂_classify h
  have hlexemes : line.map Token.lexeme = Lexeme.scan 0 (codePart raw) := by
    rw [← List.map_id (Lexeme.scan 0 (codePart raw))]
    refine (map_eq_map htokens fun l t ht => ?_).symm
    rw [ht, Lexeme.lexeme_token]
    rfl
  have hcut := Lexeme.isCut_scan (codePart raw)
  rw [← hlexemes] at hcut
  refine ⟨fun t ht => ?_, fun t ht => ?_, hcut⟩
  · obtain ⟨l, -, hl⟩ := exists_of_mem_right htokens ht
    rw [hl]
    exact ⟨rfl, rfl⟩
  · have hshown := (hcut.shown t.lexeme (List.mem_map_of_mem ht)).2
    exact hshown.trans ((isPrefix_codePart raw).drop t.site.col)

/-- What is read from the source has not been copied from anywhere. -/
theorem origin_of_lexLine {number : Nat} {raw : List Char} {line : Line}
    (h : lexLine number raw = .ok line) : ∀ t ∈ line, t.origin = none := by
  intro t ht
  obtain ⟨l, -, hl⟩ := exists_of_mem_right (Lexeme.forall₂_classify h) ht
  rw [hl]
  rfl

/-- Does the line have a character before its comment that is not blank? -/
def hasCode (raw : List Char) : Bool := (codePart raw).any (!Text.isBlank ·)

/-- A line has no tokens exactly if nothing but blanks stands before its comment. -/
theorem Line.IsCutOf.isEmpty_eq {number : Nat} {raw : List Char} {line : Line}
    (h : line.IsCutOf number raw) : line.isEmpty = !hasCode raw := by
  have hnil := h.cut.eq_nil_iff
  rw [List.map_eq_nil_iff] at hnil
  rw [Bool.eq_iff_iff, List.isEmpty_iff, hnil]
  simp [hasCode]

/-- **Reading is lossless.**  The lines with anything before their comment are kept, in their order,
and each of them is cut into its tokens.  A token has the number and the characters of its line and
shows what stands in its column.  The tokens of a line follow each other without overlap before the
comment, every character there that is not blank lies in exactly one of them, a mark is a token of
its own, and every other token is a longest run of word characters. -/
theorem tokenize_cuts_lines {code : String} {lines : List Line} (h : tokenize code = .ok lines) :
    List.Forall₂ (fun source line => Line.IsCutOf source.2 source.1 line)
      (((Text.lines code.toList).zipIdx 1).filter (hasCode ·.1)) lines := by
  obtain ⟨all, hall, h⟩ := bind_eq_ok.1 h
  cases h
  have hcuts : List.Forall₂ (fun source line => Line.IsCutOf source.2 source.1 line)
      ((Text.lines code.toList).zipIdx 1) all :=
    (mapM_eq_ok.1 hall).imp fun _ _ hlex => isCutOf_of_lexLine hlex
  refine List.rel_filter ?_ hcuts
  intro source line hcut
  simp [hcut.isEmpty_eq]

/-- A label, an unknown word next to marks, a comment, and a blank that is not ASCII. -/
def crampedText : String := "top:é[,x; one: two\n ; nothing\n\tb\u00a0top"

theorem crampedText_cuts_lines :
    ∃ lines, tokenize crampedText = .ok lines ∧
      lines.map (·.map fun t => (t.site.line, t.site.col, t.text)) =
        [[(1, 0, "top"), (1, 3, ":"), (1, 4, "é"), (1, 5, "["), (1, 6, ","), (1, 7, "x")],
          [(3, 1, "b"), (3, 3, "top")]] ∧
      List.Forall₂ (fun source line => Line.IsCutOf source.2 source.1 line)
        [("top:é[,x; one: two".toList, 1), ("\tb\u00a0top".toList, 3)] lines := by
  have hspots : (tokenize crampedText).toOption.map
      (·.map (·.map fun t => (t.site.line, t.site.col, t.text))) =
        some [[(1, 0, "top"), (1, 3, ":"), (1, 4, "é"), (1, 5, "["), (1, 6, ","), (1, 7, "x")],
          [(3, 1, "b"), (3, 3, "top")]] := by decide +kernel
  obtain ⟨lines, hlines, hspots⟩ := Option.map_eq_some_iff.1 hspots
  rw [toOption_eq_some] at hlines
  exact ⟨lines, hlines, hspots, tokenize_cuts_lines hlines⟩

end CircuitRom
