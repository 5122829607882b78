import CircuitRom.Definition
import CircuitRom.Proofs.Sequencing
import CircuitRom.Token.Lexer

/-!
# Definitions as forward rewriting

A program with definitions is rewritten line by line, from the first to the last.  A text is
replaced by the value that the last definition of it above the line gives, as that definition reads
after its own rewriting, and the value is left as it is.  `Rewrites` says so without a table of
definitions.  Every program has exactly one rewriting.  Applying definitions keeps the lines of it
that are no definitions, and fails exactly if one of them is meant as a definition and is not well
formed.
-/

namespace CircuitRom
namespace Definition

/-! ## What a rewriting is -/

/-- The line has a key and a value after its head, and neither of them is a delimiter. -/
def WellFormed (line : Line) : Prop :=
  ∃ head key value, line = [head, key, value] ∧ key.isDelimiter = false ∧ value.isDelimiter = false

/-- The line is a definition of the key with the given value. -/
def Binds (line : Line) (key value : String) : Prop :=
  ∃ head k v, line = [head, k, v] ∧ head.isDirective "#def" = true ∧ k.isDelimiter = false ∧
    v.isDelimiter = false ∧ k.text = key ∧ v.text = value

/-- What a text is replaced by after some lines. -/
inductive Meaning (above : List Line) (text : String) : String → Prop
  /-- The last line that defines the text gives the value. -/
  | bound {before : List Line} {line : Line} {after : List Line} {value : String} :
      above = before ++ line :: after → Binds line text value →
      (∀ later ∈ after, ∀ other, ¬Binds later text other) → Meaning above text value
  /-- No line defines the text. -/
  | free : (∀ line ∈ above, ∀ value, ¬Binds line text value) → Meaning above text text

/-- The token has got a new text by the lines above it, and nothing else of it has changed. -/
structure Becomes (above : List Line) (t t' : Token) : Prop where
  text : Meaning above t.text t'.text
  kind : t'.kind = t.kind
  site : t'.site = t.site
  origin : t'.origin = t.origin

/-- The lines are rewritten one after the other, each by the rewritten lines above it. -/
inductive Rewrites : List Line → List Line → List Line → Prop
  | nil {above : List Line} : Rewrites above [] []
  | cons {above : List Line} {line line' : Line} {rest rest' : List Line} :
      List.Forall₂ (Becomes above) line line' → Rewrites (above ++ [line']) rest rest' →
      Rewrites above (line :: rest) (line' :: rest')

/-! ## Meanings -/

theorem Binds.unique {line : Line} {key key' value value' : String} (h : Binds line key value)
    (h' : Binds line key' value') : key = key' ∧ value = value' := by
  obtain ⟨head, k, v, rfl, -, -, -, rfl, rfl⟩ := h
  obtain ⟨head', k', v', hline, -, -, -, rfl, rfl⟩ := h'
  simp_all

theorem meaning_nil {text value : String} : Meaning [] text value ↔ text = value := by
  constructor
  · intro h
    cases h with
    | bound hsplit _ _ => simp at hsplit
    | free _ => rfl
  · rintro rfl
    exact .free (by simp)

/-- The last line that binds a word decides what it means. -/
theorem meaning_concat {above : List Line} {line : Line} {text value : String} :
    Meaning (above ++ [line]) text value ↔
      Binds line text value ∨ ((∀ other, ¬Binds line text other) ∧ Meaning above text value) := by
  constructor
  · intro h
    cases h with
    | bound hsplit hbinds hlast =>
      rcases concat_eq_append_cons_iff.1 hsplit with ⟨-, -, rfl⟩ | ⟨after, rfl, rfl⟩
      · exact .inl hbinds
      · rw [List.forall_mem_append] at hlast
        exact .inr ⟨hlast.2 line (by simp), .bound rfl hbinds hlast.1⟩
    | free hfree =>
      rw [List.forall_mem_append] at hfree
      exact .inr ⟨hfree.2 line (by simp), .free hfree.1⟩
  · rintro (hbinds | ⟨hother, hmeaning⟩)
    · exact .bound rfl hbinds (List.forall_mem_nil _)
    · have hlast : ∀ later ∈ [line], ∀ other, ¬Binds later text other :=
        List.forall_mem_singleton.2 hother
      cases hmeaning with
      | bound hsplit hbinds hafter =>
        refine .bound (by rw [hsplit, List.append_assoc, List.cons_append]) hbinds ?_
        exact List.forall_mem_append.2 ⟨hafter, hlast⟩
      | free hfree => exact .free (List.forall_mem_append.2 ⟨hfree, hlast⟩)

/-! ## Definitions in a table -/

/-- The table after one more line that has been rewritten. -/
def note (defs : Dictionary String) (line : Line) : Dictionary String :=
  match line with
  | [head, key, value] =>
    if head.isDirective "#def" && !key.isDelimiter && !value.isDelimiter then
      defs.insert key.text value.text
    else defs
  | _ => defs

/-- The table gives every text its meaning after the lines. -/
def Records (defs : Dictionary String) (above : List Line) : Prop :=
  ∀ text value, Meaning above text value ↔ (defs.find? text).getD text = value

theorem records_empty : Records Dictionary.empty [] := fun _ _ => meaning_nil

theorem note_of_binds {defs : Dictionary String} {line : Line} {key value : String}
    (h : Binds line key value) : note defs line = defs.insert key value := by
  obtain ⟨head, k, v, rfl, hhead, hk, hv, rfl, rfl⟩ := h
  simp [note, hhead, hk, hv]

theorem note_of_not_binds {defs : Dictionary String} {line : Line}
    (h : ∀ key value, ¬Binds line key value) : note defs line = defs := by
  unfold note
  split
  · next head key value =>
    refine if_neg fun hdefinition => h key.text value.text ?_
    simp only [Bool.and_eq_true, Bool.not_eq_true'] at hdefinition
    exact ⟨head, key, value, rfl, hdefinition.1.1, hdefinition.1.2, hdefinition.2, rfl, rfl⟩
  · rfl

/-- One more line keeps the record: its binding, if it has one, goes on top. -/
theorem Records.note {defs : Dictionary String} {above : List Line} (h : Records defs above)
    (line : Line) : Records (note defs line) (above ++ [line]) := by
  intro text value
  rw [meaning_concat]
  by_cases hbinds : ∃ k v, Binds line k v
  · obtain ⟨k, v, hkv⟩ := hbinds
    rw [note_of_binds hkv, Dictionary.find?_insert]
    by_cases hkey : text = k
    · subst hkey
      have hvalue : Binds line text value ↔ v = value :=
        ⟨fun hother => (hkv.unique hother).2, fun hv => hv ▸ hkv⟩
      have hdefined : ¬∀ other, ¬Binds line text other := fun hother => hother v hkv
      simp [hvalue, hdefined]
    · have hother : ∀ other, ¬Binds line text other :=
        fun other hbinds => hkey (hbinds.unique hkv).1
      simp [hother, hkey, h text value]
  · simp only [not_exists] at hbinds
    simp [note_of_not_binds hbinds, hbinds, h text value]

/-! ## The rewriting of a program -/

/-- The lines of a program, rewritten with the definitions in a table and those they make. -/
def rewriteFrom (defs : Dictionary String) : List Line → List Line
  | [] => []
  | line :: rest =>
    line.map (rename defs) :: rewriteFrom (note defs (line.map (rename defs))) rest

theorem rewriteFrom_append (before after : List Line) :
    ∀ defs, ∃ defs', rewriteFrom defs (before ++ after) =
      rewriteFrom defs before ++ rewriteFrom defs' after := by
  induction before with
  | nil => exact fun defs => ⟨defs, rfl⟩
  | cons line rest ih =>
    intro defs
    obtain ⟨defs', hrest⟩ := ih (note defs (line.map (rename defs)))
    exact ⟨defs', by simp [rewriteFrom, hrest]⟩

/-- Under a record of the lines above, renaming is what becomes of a token. -/
theorem Records.becomes_iff {defs : Dictionary String} {above : List Line} (h : Records defs above)
    {t t' : Token} : Becomes above t t' ↔ rename defs t = t' := by
  constructor
  · rintro ⟨htext, hkind, hsite, horigin⟩
    rw [h] at htext
    obtain ⟨text, kind, site, origin⟩ := t'
    simp_all [rename]
  · rintro rfl
    exact ⟨(h _ _).2 rfl, rfl, rfl, rfl⟩

theorem Records.forall₂_becomes_iff {defs : Dictionary String} {above : List Line}
    (h : Records defs above) {line line' : Line} :
    List.Forall₂ (Becomes above) line line' ↔ line.map (rename defs) = line' := by
  have hbecomes : Becomes above = fun t t' => rename defs t = t' :=
    funext₂ fun t t' => propext h.becomes_iff
  rw [hbecomes, ← List.forall₂_map_left_iff, List.forall₂_eq_eq_eq]

/-- A program has one rewriting, and a table of its definitions finds it. -/
theorem Records.rewrites_iff {lines : List Line} :
    ∀ {defs : Dictionary String} {above rewritten : List Line}, Records defs above →
      (Rewrites above lines rewritten ↔ rewriteFrom defs lines = rewritten) := by
  induction lines with
  | nil =>
    intro defs above rewritten _
    constructor
    · rintro ⟨⟩
      rfl
    · rintro rfl
      exact .nil
  | cons line rest ih =>
    intro defs above rewritten h
    constructor
    · rintro ⟨⟩
      next line' rest' hline htail =>
      rw [h.forall₂_becomes_iff] at hline
      subst hline
      rw [rewriteFrom, (ih (h.note _)).1 htail]
    · rintro rfl
      exact .cons (h.forall₂_becomes_iff.2 rfl) ((ih (h.note _)).2 rfl)

/-! ## Applying definitions -/

/-- The line is meant as a definition and is not well formed. -/
def Malformed (line : Line) : Prop := line.isHeadedBy "#def" = true ∧ ¬WellFormed line

theorem substituteFrom_of_not_headed {defs : Dictionary String} {line : Line} (rest : List Line)
    (h : Line.isHeadedBy (line.map (rename defs)) "#def" = false) :
    substituteFrom defs (line :: rest) =
      (substituteFrom defs rest).map (line.map (rename defs) :: ·) := by
  rw [substituteFrom]
  split
  · next hmap => rw [hmap]
  · next head operands hmap =>
    rw [hmap] at h
    rw [if_neg (by simpa [Line.isHeadedBy] using h), hmap]

/-- A definition is noted and dropped. -/
theorem substituteFrom_of_binds {defs : Dictionary String} {line : Line} {key value : String}
    (rest : List Line) (h : Binds (line.map (rename defs)) key value) :
    substituteFrom defs (line :: rest) = substituteFrom (defs.insert key value) rest := by
  obtain ⟨head, k, v, hmap, hhead, hk, hv, rfl, rfl⟩ := h
  simp [substituteFrom, hmap, hhead, hk, hv]

theorem substituteFrom_of_malformed {defs : Dictionary String} {line : Line} (rest : List Line)
    (h : Malformed (line.map (rename defs))) :
    ∃ d, substituteFrom defs (line :: rest) = .error d := by
  obtain ⟨hheaded, hshape⟩ := h
  rw [substituteFrom]
  split
  · next hmap =>
    rw [hmap] at hheaded
    cases hheaded
  · next head operands hmap =>
    rw [hmap] at hheaded hshape
    rw [if_pos (by simpa [Line.isHeadedBy] using hheaded)]
    split
    · next key value =>
      have hdelimiter : (key.isDelimiter || value.isDelimiter) = true := by
        by_contra hwords
        simp only [Bool.not_eq_true, Bool.or_eq_false_iff] at hwords
        exact hshape ⟨head, key, value, rfl, hwords⟩
      exact ⟨_, if_pos hdelimiter⟩
    · exact ⟨_, rfl⟩

/-- A line that has been rewritten is kept, or it is a definition, or it is a malformed one. -/
theorem line_cases (line : Line) :
    line.isHeadedBy "#def" = false ∨ (∃ key value, Binds line key value) ∨ Malformed line := by
  by_cases hheaded : line.isHeadedBy "#def" = true
  · by_cases hshape : WellFormed line
    · obtain ⟨head, key, value, rfl, hk, hv⟩ := hshape
      have hhead : head.isDirective "#def" = true := by simpa [Line.isHeadedBy] using hheaded
      exact .inr (.inl ⟨_, _, head, key, value, rfl, hhead, hk, hv, rfl, rfl⟩)
    · exact .inr (.inr ⟨hheaded, hshape⟩)
  · exact .inl (by simpa using hheaded)

theorem Binds.isHeadedBy {line : Line} {key value : String} (h : Binds line key value) :
    line.isHeadedBy "#def" = true := by
  obtain ⟨head, k, v, rfl, hhead, -⟩ := h
  simpa [Line.isHeadedBy] using hhead

theorem Binds.not_malformed {line : Line} {key value : String} (h : Binds line key value) :
    ¬Malformed line := by
  obtain ⟨head, k, v, rfl, -, hk, hv, -, -⟩ := h
  exact fun hmalformed => hmalformed.2 ⟨head, k, v, rfl, hk, hv⟩

/-- Applying definitions comes to the lines of the rewriting that are kept, unless one of its lines
is malformed. -/
theorem outcome_substituteFrom (lines : List Line) :
    ∀ defs, Outcome (fun _ => ∃ line ∈ rewriteFrom defs lines, Malformed line)
      (fun out => (∀ line ∈ rewriteFrom defs lines, ¬Malformed line) ∧
        out = (rewriteFrom defs lines).filter (!·.isHeadedBy "#def"))
      (substituteFrom defs lines) := by
  induction lines with
  | nil => exact fun defs => .ok ⟨List.forall_mem_nil _, rfl⟩
  | cons line rest ih =>
    intro defs
    rw [rewriteFrom]
    -- what is wrong with the rest is wrong with the whole
    have hlater : ∀ {line' : Line} {rewritten : List Line},
        (∃ l ∈ rewritten, Malformed l) → ∃ l ∈ line' :: rewritten, Malformed l := by
      rintro line' rewritten ⟨l, hl, hmalformed⟩
      exact ⟨l, List.mem_cons_of_mem _ hl, hmalformed⟩
    rcases line_cases (line.map (rename defs)) with hkept | ⟨key, value, hbinds⟩ | hmalformed
    · have hnote : note defs (line.map (rename defs)) = defs :=
        note_of_not_binds fun _ _ hbinds => by simp [hbinds.isHeadedBy] at hkept
      have hfine : ¬Malformed (line.map (rename defs)) := fun h => by simp [h.1] at hkept
      rw [substituteFrom_of_not_headed rest hkept, hnote]
      refine ((ih defs).imp (fun _ => hlater) fun _ => id).map fun out hout => ?_
      exact ⟨List.forall_mem_cons.2 ⟨hfine, hout.1⟩, by simp [hout.2, hkept]⟩
    · rw [substituteFrom_of_binds rest hbinds, note_of_binds hbinds]
      refine (ih (defs.insert key value)).imp (fun _ => hlater) fun out hout => ?_
      exact ⟨List.forall_mem_cons.2 ⟨hbinds.not_malformed, hout.1⟩,
        by simp [hout.2, hbinds.isHeadedBy]⟩
    · obtain ⟨d, hd⟩ := substituteFrom_of_malformed rest hmalformed
      rw [hd]
      exact .error ⟨_, List.mem_cons_self, hmalformed⟩

/-- Substitution succeeds exactly if no renamed line is a malformed definition, and it leaves the
renamed lines without the definitions. -/
theorem substituteFrom_eq_ok_iff {defs : Dictionary String} {lines out : List Line} :
    substituteFrom defs lines = .ok out ↔ (∀ line ∈ rewriteFrom defs lines, ¬Malformed line) ∧
      out = (rewriteFrom defs lines).filter (!·.isHeadedBy "#def") := by
  have houtcome := outcome_substituteFrom lines defs
  constructor
  · intro h
    rw [h] at houtcome
    exact houtcome.of_ok
  · rintro ⟨hfine, rfl⟩
    cases hresult : substituteFrom defs lines with
    | error d =>
      rw [hresult] at houtcome
      obtain ⟨line, hline, hmalformed⟩ := houtcome.of_error
      exact absurd hmalformed (hfine line hline)
    | ok out =>
      rw [hresult] at houtcome
      rw [houtcome.of_ok.2]

theorem exists_substituteFrom_eq_error_iff {defs : Dictionary String} {lines : List Line} :
    (∃ d, substituteFrom defs lines = .error d) ↔ ∃ line ∈ rewriteFrom defs lines, Malformed line := by
  have houtcome := outcome_substituteFrom lines defs
  cases hresult : substituteFrom defs lines with
  | error d =>
    rw [hresult] at houtcome
    exact iff_of_true ⟨d, rfl⟩ houtcome.of_error
  | ok out =>
    rw [hresult] at houtcome
    refine iff_of_false (by simp) ?_
    rintro ⟨line, hline, hmalformed⟩
    exact houtcome.of_ok.1 line hline hmalformed

/-- What comes later does not change what is made of the lines before it. -/
theorem exists_of_substituteFrom_append {defs : Dictionary String} {before after out : List Line}
    (h : substituteFrom defs (before ++ after) = .ok out) :
    ∃ out', substituteFrom defs before = .ok out' ∧ out' <+: out := by
  obtain ⟨hfine, rfl⟩ := substituteFrom_eq_ok_iff.1 h
  obtain ⟨defs', happend⟩ := rewriteFrom_append before after defs
  rw [happend] at hfine ⊢
  refine ⟨_, substituteFrom_eq_ok_iff.2 ⟨(List.forall_mem_append.1 hfine).1, rfl⟩, ?_⟩
  rw [List.filter_append]
  exact List.prefix_append _ _

/-- **Definitions rewrite forward and once.**  Every program has exactly one rewriting.  If applying
definitions succeeds, it comes to the lines of the rewriting that are not headed by `#def`, in
order.  It fails exactly if a line that is headed by `#def` after rewriting is not well formed.  What
it makes of the first lines of a program is the first part of what it makes of the whole. -/
theorem substitute_rewrites_forward (lines : List Line) :
    ∃ rewritten, (∀ other, Rewrites [] lines other ↔ rewritten = other) ∧
      (∀ out, substitute lines = .ok out → out = rewritten.filter (!·.isHeadedBy "#def")) ∧
      ((∃ d, substitute lines = .error d) ↔
        ∃ line ∈ rewritten, line.isHeadedBy "#def" = true ∧ ¬WellFormed line) ∧
      ∀ before after out, lines = before ++ after → substitute lines = .ok out →
        ∃ out', substitute before = .ok out' ∧ out' <+: out := by
  refine ⟨rewriteFrom Dictionary.empty lines, fun other => records_empty.rewrites_iff,
    fun out h => (substituteFrom_eq_ok_iff.1 h).2, exists_substituteFrom_eq_error_iff, ?_⟩
  rintro before after out rfl h
  exact exists_of_substituteFrom_append h

/-- After the first line the second reads `#def 1 2`, so `n` keeps its value and `1` gets one. -/
example : ((tokenize "#def n 1\n#def n 2\nB n\nB 1" >>= substitute).toOption.map
    (·.map (·.map (·.text)))) = some [["B", "1"], ["B", "2"]] := by
  decide +kernel

end Definition
end CircuitRom
