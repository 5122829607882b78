import CircuitRom.Proofs.Delimiters
import CircuitRom.Proofs.Operands

/-!
# Flat groups

The operands of an instruction are written as words, commas and flat groups: a bracket, words and
commas, and the bracket that closes it.  `Piece` is one of these, and a list of pieces says both
which tokens it is written with and which arguments it stands for.  Grouping accepts exactly the
token lists that are written by pieces.

What is wrong with any other list is said by the tokens before each token alone, without the
grouping: a bracket is opened while one is open, closed while none is, or closed with nothing in it.
Grouping stops at the first such token.  If there is none, a bracket was left open.
-/

namespace CircuitRom

/-- The token is the given delimiter. -/
def Token.IsMark (t : Token) (mark : String) : Prop := t.isDelimiter = true ∧ t.text = mark

instance (t : Token) (mark : String) : Decidable (t.IsMark mark) :=
  inferInstanceAs (Decidable (_ ∧ _))

/-- The token is a word or a comma, and so no bracket. -/
def Token.IsFlat (t : Token) : Prop := t.isDelimiter = false ∨ t.IsMark ","

/-- If the token is a delimiter, it is a bracket or a comma. -/
def Token.Marked (t : Token) : Prop := t.isDelimiter = true → t.text ∈ delimiterTexts

instance (t : Token) : Decidable t.Marked := inferInstanceAs (Decidable (_ → _))

namespace Token

variable {t : Token} {mark mark' : String}

theorem IsMark.eq (h : t.IsMark mark) (h' : t.IsMark mark') : mark = mark' := h.2.symm.trans h'.2

theorem IsFlat.not_isMark (h : t.IsFlat) (hmark : mark ≠ ",") : ¬t.IsMark mark := by
  rintro hother
  rcases h with hword | hcomma
  · simp [hother.1] at hword
  · exact hmark (hother.eq hcomma)

theorem Marked.cases (h : t.Marked) :
    t.isDelimiter = false ∨ t.IsMark "," ∨ t.IsMark "[" ∨ t.IsMark "]" := by
  cases hdelimiter : t.isDelimiter with
  | false => exact .inl rfl
  | true =>
    have htext := h hdelimiter
    simp only [delimiterTexts, List.mem_cons, List.not_mem_nil, or_false] at htext
    simp only [IsMark, hdelimiter, true_and]
    tauto

end Token

namespace Argument

/-! ## Pieces -/

/-- A bracket with words and commas in it, and at least one word. -/
structure FlatGroup where
  /-- The bracket that opens the group. -/
  bracket : Token
  /-- The tokens between the brackets. -/
  inside : List Token
  /-- The bracket that closes the group. -/
  closing : Token
  opens : bracket.IsMark "["
  flat : ∀ t ∈ inside, t.IsFlat
  nonempty : ∃ t ∈ inside, t.isDelimiter = false
  closes : closing.IsMark "]"

/-- A part of a list of operands. -/
inductive Piece
  /-- A token by itself. -/
  | word (t : Token) (isWord : t.isDelimiter = false)
  /-- A comma between operands. -/
  | comma (t : Token) (isComma : t.IsMark ",")
  /-- A group of tokens. -/
  | group (g : FlatGroup)

namespace Piece

/-- The tokens that a piece is written with. -/
def tokens : Piece → List Token
  | word t _ => [t]
  | comma t _ => [t]
  | group g => g.bracket :: g.inside ++ [g.closing]

/-- The argument that a piece stands for.  A comma stands for none. -/
def argument? : Piece → Option Argument
  | word t _ => some (.single t)
  | comma _ _ => none
  | group g => some (.group g.bracket (g.inside.filter (!·.isDelimiter)))

end Piece

/-- The tokens are written by pieces that stand for the arguments. -/
def WrittenAs (operands : List Token) (arguments : List Argument) : Prop :=
  ∃ pieces : List Piece,
    operands = pieces.flatMap Piece.tokens ∧ arguments = pieces.filterMap Piece.argument?

/-! ## Violations -/

/-- The tokens end inside a group: a bracket was opened, and none was closed since. -/
def EndsInside (tokens : List Token) : Prop :=
  ∃ earlier bracket inside, tokens = earlier ++ bracket :: inside ∧ bracket.IsMark "[" ∧
    ∀ t ∈ inside, ¬t.IsMark "]"

/-- What is wrong with a token after the tokens before it. -/
inductive Violates (before : List Token) (t : Token) : Cause → Prop
  /-- A bracket is opened inside a group. -/
  | nested : EndsInside before → t.IsMark "[" → Violates before t .bracketNested
  /-- A bracket is closed outside any group. -/
  | unopened : ¬EndsInside before → t.IsMark "]" → Violates before t .bracketUnopened
  /-- A bracket is closed that holds no word. -/
  | empty {earlier : List Token} {bracket : Token} {inside : List Token} :
      before = earlier ++ bracket :: inside → bracket.IsMark "[" → (∀ u ∈ inside, u.IsMark ",") →
      t.IsMark "]" → Violates before t .bracketEmpty

/-- No token violates what stands before it. -/
def Unviolated (tokens : List Token) : Prop :=
  ∀ before t after cause, tokens = before ++ t :: after → ¬Violates before t cause

/-- The fault of a list of operands: at the first violation, or, if there is none, at the bracket
that is left open. -/
inductive Faulty (operands : List Token) : Diagnostic → Prop
  /-- A token is the first that violates what stands before it. -/
  | violated {before : List Token} {t : Token} {after : List Token} {cause : Cause} :
      operands = before ++ t :: after → Unviolated before → Violates before t cause →
      Faulty operands (.atToken cause t)
  /-- A bracket is opened and never closed. -/
  | unclosed {before : List Token} {bracket : Token} {inside : List Token} :
      Unviolated operands → operands = before ++ bracket :: inside → bracket.IsMark "[" →
      (∀ t ∈ inside, ¬t.IsMark "]") → Faulty operands (.atToken .bracketUnclosed bracket)

/-! ## The fault of a list -/

/-- One more token opens a bracket, closes it, or leaves things as they are. -/
theorem endsInside_concat {tokens : List Token} {t : Token} :
    EndsInside (tokens ++ [t]) ↔ t.IsMark "[" ∨ (EndsInside tokens ∧ ¬t.IsMark "]") := by
  constructor
  · rintro ⟨earlier, bracket, inside, hsplit, hbracket, hinside⟩
    rcases concat_eq_append_cons_iff.1 hsplit with ⟨-, -, rfl⟩ | ⟨inside', rfl, rfl⟩
    · exact .inl hbracket
    · rw [List.forall_mem_append] at hinside
      exact .inr ⟨⟨earlier, bracket, inside', rfl, hbracket, hinside.1⟩, hinside.2 t (by simp)⟩
  · rintro (hopens | ⟨⟨earlier, bracket, inside, rfl, hbracket, hinside⟩, hcloses⟩)
    · exact ⟨tokens, t, [], rfl, hopens, List.forall_mem_nil _⟩
    · refine ⟨earlier, bracket, inside ++ [t], by simp, hbracket, ?_⟩
      exact List.forall_mem_append.2 ⟨hinside, List.forall_mem_singleton.2 hcloses⟩

theorem endsInside_of_isFlat {earlier inside : List Token} {bracket : Token}
    (hbracket : bracket.IsMark "[") (hinside : ∀ t ∈ inside, t.IsFlat) :
    EndsInside (earlier ++ bracket :: inside) :=
  ⟨earlier, bracket, inside, rfl, hbracket, fun t ht => (hinside t ht).not_isMark (by decide)⟩

theorem not_endsInside_nil : ¬EndsInside [] := by
  rintro ⟨earlier, bracket, inside, hsplit, -⟩
  simp at hsplit

theorem unviolated_nil : Unviolated [] := by
  intro before t after cause hsplit
  simp at hsplit

/-- Rules are broken one token at a time. -/
theorem unviolated_concat {tokens : List Token} {t : Token} :
    Unviolated (tokens ++ [t]) ↔ Unviolated tokens ∧ ∀ cause, ¬Violates tokens t cause := by
  constructor
  · intro h
    refine ⟨fun before u after cause hsplit => ?_, fun cause => h tokens t [] cause rfl⟩
    subst hsplit
    exact h before u (after ++ [t]) cause (by simp)
  · rintro ⟨htokens, ht⟩ before u after cause hsplit
    rcases concat_eq_append_cons_iff.1 hsplit with ⟨-, rfl, rfl⟩ | ⟨after', -, rfl⟩
    · exact ht cause
    · exact htokens before u after' cause rfl

/-- A token breaks at most one rule. -/
theorem Violates.cause_unique {before : List Token} {t : Token} {cause cause' : Cause}
    (h : Violates before t cause) (h' : Violates before t cause') : cause = cause' := by
  have hinside : ∀ {earlier inside : List Token} {bracket : Token},
      before = earlier ++ bracket :: inside → bracket.IsMark "[" →
      (∀ u ∈ inside, u.IsMark ",") → EndsInside before := by
    rintro earlier inside bracket rfl hbracket hcommas
    exact endsInside_of_isFlat hbracket fun u hu => .inr (hcommas u hu)
  have happart : t.IsMark "[" → t.IsMark "]" → False :=
    fun hopens hcloses => absurd (hopens.eq hcloses) (by decide)
  cases h with
  | nested _ hopens =>
    cases h' with
    | nested => rfl
    | unopened _ hcloses => exact (happart hopens hcloses).elim
    | empty _ _ _ hcloses => exact (happart hopens hcloses).elim
  | unopened houtside hcloses =>
    cases h' with
    | nested _ hopens => exact (happart hopens hcloses).elim
    | unopened => rfl
    | empty hsplit hbracket hcommas _ => exact absurd (hinside hsplit hbracket hcommas) houtside
  | empty hsplit hbracket hcommas hcloses =>
    cases h' with
    | nested _ hopens => exact (happart hopens hcloses).elim
    | unopened houtside _ => exact absurd (hinside hsplit hbracket hcommas) houtside
    | empty => rfl

/-- There is one fault to a list of operands. -/
theorem Faulty.unique {operands : List Token} {d d' : Diagnostic} (h : Faulty operands d)
    (h' : Faulty operands d') : d = d' := by
  cases h with
  | @violated before t after cause hsplit hbefore hviolates =>
    cases h' with
    | @violated before' t' after' cause' hsplit' hbefore' hviolates' =>
      rcases append_cons_eq_append_cons (hsplit.symm.trans hsplit') with
        ⟨rfl, rfl, -⟩ | ⟨between, hlater, -⟩ | ⟨between, hlater, -⟩
      · rw [hviolates.cause_unique hviolates']
      · exact absurd hviolates (hbefore' _ _ _ _ hlater)
      · exact absurd hviolates' (hbefore _ _ _ _ hlater)
    | unclosed hnone _ _ _ => exact absurd hviolates (hnone _ _ _ _ hsplit)
  | @unclosed before bracket inside hnone hsplit hopens hinside =>
    cases h' with
    | violated hsplit' _ hviolates' => exact absurd hviolates' (hnone _ _ _ _ hsplit')
    | @unclosed before' bracket' inside' _ hsplit' hopens' hinside' =>
      -- of two brackets that stay open, the second is opened inside the first
      have hnested : ∀ {before inside between after : List Token} {bracket bracket' : Token},
          operands = before ++ bracket :: inside → inside = between ++ bracket' :: after →
          bracket.IsMark "[" → bracket'.IsMark "[" → (∀ t ∈ inside, ¬t.IsMark "]") → False := by
        rintro before inside between after bracket bracket' rfl rfl hopens hopens' hinside
        refine hnone (before ++ bracket :: between) bracket' after .bracketNested (by simp) ?_
        refine .nested ⟨before, bracket, between, rfl, hopens, fun t ht => ?_⟩ hopens'
        exact hinside t (List.mem_append_left _ ht)
      rcases append_cons_eq_append_cons (hsplit.symm.trans hsplit') with
        ⟨-, rfl, -⟩ | ⟨between, -, hrest⟩ | ⟨between, -, hrest⟩
      · rfl
      · exact (hnested hsplit hrest hopens hopens' hinside).elim
      · exact (hnested hsplit' hrest hopens' hopens hinside').elim

/-- Words and commas break no rule. -/
theorem not_violates_of_isFlat {before : List Token} {t : Token} {cause : Cause} (h : t.IsFlat) :
    ¬Violates before t cause := by
  intro hviolates
  cases hviolates with
  | nested _ hopens => exact h.not_isMark (by decide) hopens
  | unopened _ hcloses => exact h.not_isMark (by decide) hcloses
  | empty _ _ _ hcloses => exact h.not_isMark (by decide) hcloses

theorem unviolated_concat_of_isFlat {tokens : List Token} {t : Token} (h : Unviolated tokens)
    (ht : t.IsFlat) : Unviolated (tokens ++ [t]) :=
  unviolated_concat.2 ⟨h, fun _ => not_violates_of_isFlat ht⟩

theorem endsInside_concat_of_isFlat {tokens : List Token} {t : Token} (ht : t.IsFlat) :
    EndsInside (tokens ++ [t]) ↔ EndsInside tokens := by
  have hopens : ¬t.IsMark "[" := ht.not_isMark (by decide)
  have hcloses : ¬t.IsMark "]" := ht.not_isMark (by decide)
  simp [endsInside_concat, hopens, hcloses]

/-- One more piece adds one more argument, or none if it is a comma. -/
theorem WrittenAs.concat {operands : List Token} {arguments : List Argument}
    (h : WrittenAs operands arguments) (p : Piece) :
    WrittenAs (operands ++ p.tokens) (arguments ++ p.argument?.toList) := by
  obtain ⟨pieces, rfl, rfl⟩ := h
  refine ⟨pieces ++ [p], by simp, ?_⟩
  cases h : p.argument? <;> simp [h]

/-! ## Grouping step by step -/

/-- What has become of the tokens read so far: pieces that stand for arguments, and after them an
open group, if the state has one, with the words in it. -/
inductive Follows (before : List Token) (done : List Argument) :
    Option (Token × List Token) → Prop
  /-- No group is open. -/
  | outside : WrittenAs before done → Unviolated before → ¬EndsInside before →
      Follows before done none
  /-- A group is open. -/
  | inside {earlier : List Token} {bracket : Token} {inside items : List Token} :
      before = earlier ++ bracket :: inside → WrittenAs earlier done → Unviolated before →
      bracket.IsMark "[" → (∀ t ∈ inside, t.IsFlat) → inside.filter (!·.isDelimiter) = items →
      Follows before done (some (bracket, items))

namespace Follows

variable {before : List Token} {done : List Argument} {bracket t : Token} {items : List Token}

theorem word (h : Follows before done none) (ht : t.isDelimiter = false) :
    Follows (before ++ [t]) (done ++ [single t]) none := by
  obtain ⟨hwritten, hnone, houtside⟩ := h
  have hflat : t.IsFlat := .inl ht
  refine .outside (hwritten.concat (.word t ht)) (unviolated_concat_of_isFlat hnone hflat) ?_
  rwa [endsInside_concat_of_isFlat hflat]

theorem comma (h : Follows before done none) (ht : t.IsMark ",") :
    Follows (before ++ [t]) done none := by
  obtain ⟨hwritten, hnone, houtside⟩ := h
  have hflat : t.IsFlat := .inr ht
  have hconcat := hwritten.concat (.comma t ht)
  rw [Piece.argument?, Option.toList_none, List.append_nil] at hconcat
  refine .outside hconcat (unviolated_concat_of_isFlat hnone hflat) ?_
  rwa [endsInside_concat_of_isFlat hflat]

theorem opening (h : Follows before done none) (ht : t.IsMark "[") :
    Follows (before ++ [t]) done (some (t, [])) := by
  obtain ⟨hwritten, hnone, houtside⟩ := h
  refine .inside rfl hwritten (unviolated_concat.2 ⟨hnone, fun cause hviolates => ?_⟩) ht
    (List.forall_mem_nil _) rfl
  cases hviolates with
  | nested hinside _ => exact houtside hinside
  | unopened _ hcloses => exact absurd (ht.eq hcloses) (by decide)
  | empty _ _ _ hcloses => exact absurd (ht.eq hcloses) (by decide)

/-- Inside a group words are collected and commas are passed over. -/
theorem item (h : Follows before done (some (bracket, items))) (ht : t.IsFlat) :
    Follows (before ++ [t]) done (some (bracket, items ++ [t].filter (!·.isDelimiter))) := by
  cases h with
  | @inside earlier _ inside _ hsplit hwritten hnone hopens hinside hitems =>
    refine .inside (by rw [hsplit, List.append_assoc, List.cons_append]) hwritten
      (unviolated_concat_of_isFlat hnone ht) hopens ?_ (by rw [List.filter_append, hitems])
    exact List.forall_mem_append.2 ⟨hinside, List.forall_mem_singleton.2 ht⟩

/-- A closing bracket ends a group that has items. -/
theorem closing (h : Follows before done (some (bracket, items))) (hitems : items ≠ [])
    (ht : t.IsMark "]") : Follows (before ++ [t]) (done ++ [.group bracket items]) none := by
  cases h with
  | @inside earlier _ inside _ hsplit hwritten hnone hopens hinside hwords =>
    have hnonempty : ∃ u ∈ inside, u.isDelimiter = false := by
      obtain ⟨u, hu⟩ := List.exists_mem_of_ne_nil _ hitems
      rw [← hwords] at hu
      exact ⟨u, by simpa using hu⟩
    have hconcat := hwritten.concat (.group ⟨bracket, inside, t, hopens, hinside, hnonempty, ht⟩)
    refine .outside ?_ (unviolated_concat.2 ⟨hnone, fun cause hviolates => ?_⟩) ?_
    · simpa [hsplit, hwords, Piece.tokens, Piece.argument?] using hconcat
    · cases hviolates with
      | nested _ hopens' => exact absurd (ht.eq hopens') (by decide)
      | unopened houtside _ =>
        rw [hsplit] at houtside
        exact houtside (endsInside_of_isFlat hopens hinside)
      | @empty earlier' bracket' inside' hsplit' hopens' hcommas _ =>
        rcases append_cons_eq_append_cons (hsplit.symm.trans hsplit') with
          ⟨-, -, rfl⟩ | ⟨between, -, rfl⟩ | ⟨between, -, rfl⟩
        · obtain ⟨u, hu, hword⟩ := hnonempty
          simp [(hcommas u hu).1] at hword
        · exact (hinside bracket' (by simp)).not_isMark (by decide) hopens'
        · exact absurd ((hcommas bracket (by simp)).eq hopens) (by decide)
    · rw [endsInside_concat]
      rintro (hopens' | ⟨-, hcloses⟩)
      · exact absurd (ht.eq hopens') (by decide)
      · exact hcloses ht

theorem unopened (h : Follows before done none) (ht : t.IsMark "]") :
    Violates before t .bracketUnopened := by
  cases h with
  | outside _ _ houtside => exact .unopened houtside ht

/-- Inside of brackets no other bracket may open. -/
theorem nested (h : Follows before done (some (bracket, items))) (ht : t.IsMark "[") :
    Violates before t .bracketNested := by
  cases h with
  | inside hsplit _ _ hopens hinside _ =>
    rw [hsplit]
    exact .nested (endsInside_of_isFlat hopens hinside) ht

/-- A group without items may not be closed. -/
theorem empty (h : Follows before done (some (bracket, []))) (ht : t.IsMark "]") :
    Violates before t .bracketEmpty := by
  cases h with
  | @inside earlier _ inside _ hsplit _ _ hopens hinside hwords =>
    rw [List.filter_eq_nil_iff] at hwords
    refine .empty hsplit hopens (fun u hu => ?_) ht
    rcases hinside u hu with hword | hcomma
    · exact absurd (by simp [hword]) (hwords u hu)
    · exact hcomma

theorem unviolated {state : Option (Token × List Token)} (h : Follows before done state) :
    Unviolated before := by
  cases h with
  | outside _ hnone _ => exact hnone
  | inside _ _ hnone _ _ _ => exact hnone

end Follows

/-- Grouping reads on until the tokens are used up or one of them violates what stands before it. -/
theorem outcome_extractFrom_of_follows {rest : List Token} :
    ∀ {before : List Token} {done : List Argument} {state : Option (Token × List Token)},
      (∀ t ∈ rest, t.Marked) → Follows before done state →
      Outcome (Faulty (before ++ rest))
        (fun arguments => Follows (before ++ rest) (done ++ arguments) none)
        (extractFrom state rest) := by
  induction rest with
  | nil =>
    intro before done state _ h
    rw [List.append_nil]
    cases state with
    | none => exact .ok (by rwa [List.append_nil])
    | some group =>
      obtain ⟨bracket, items⟩ := group
      have hnone := h.unviolated
      cases h with
      | inside hsplit _ _ hopens hinside _ =>
        exact .error (.unclosed hnone hsplit hopens
          fun t ht => (hinside t ht).not_isMark (by decide))
  | cons t rest ih =>
    intro before done state hmarked h
    obtain ⟨ht, hrest⟩ := List.forall_mem_cons.1 hmarked
    have hviolated : ∀ {cause : Cause}, Violates before t cause →
        Faulty (before ++ t :: rest) (.atToken cause t) :=
      fun hviolates => .violated rfl h.unviolated hviolates
    -- the token goes over to those before, and reading goes on after it
    have hnext : ∀ {done' : List Argument} {state' : Option (Token × List Token)},
        Follows (before ++ [t]) done' state' →
        Outcome (Faulty (before ++ t :: rest))
          (fun arguments => Follows (before ++ t :: rest) (done' ++ arguments) none)
          (extractFrom state' rest) := by
      intro done' state' h'
      simpa using ih hrest h'
    cases state with
    | none =>
      rcases ht.cases with hword | hcomma | hopens | hcloses
      · simp only [extractFrom, hword]
        exact (hnext (h.word hword)).map fun arguments hfollows => by simpa using hfollows
      · simp only [extractFrom, hcomma.1, hcomma.2]
        exact hnext (h.comma hcomma)
      · simp only [extractFrom, hopens.1, hopens.2]
        exact hnext (h.opening hopens)
      · simp only [extractFrom, hcloses.1, hcloses.2]
        exact .error (hviolated (h.unopened hcloses))
    | some group =>
      obtain ⟨bracket, items⟩ := group
      rcases ht.cases with hword | hcomma | hopens | hcloses
      · have hitem := h.item (t := t) (.inl hword)
        rw [List.filter_cons_of_pos (by simp [hword]), List.filter_nil] at hitem
        simp only [extractFrom, hword]
        exact hnext hitem
      · have hitem := h.item (t := t) (.inr hcomma)
        rw [List.filter_cons_of_neg (by simp [hcomma.1]), List.filter_nil, List.append_nil] at hitem
        simp only [extractFrom, hcomma.1, hcomma.2]
        exact hnext hitem
      · simp only [extractFrom, hopens.1, hopens.2]
        exact .error (hviolated (h.nested hopens))
      · simp only [extractFrom, hcloses.1, hcloses.2]
        cases items with
        | nil => exact .error (hviolated (h.empty hcloses))
        | cons item items =>
          have hclosing := h.closing (List.cons_ne_nil item items) hcloses
          exact (hnext hclosing).map fun arguments hfollows => by simpa using hfollows

/-- Grouping succeeds only on operands that break no rule and leave no bracket open, and on all
others it fails with their one fault. -/
theorem outcome_extract_of_marked {operands : List Token} (h : ∀ t ∈ operands, t.Marked) :
    Outcome (Faulty operands)
      (fun arguments => WrittenAs operands arguments ∧ Unviolated operands ∧ ¬EndsInside operands)
      (extract operands) := by
  have hstart : Follows [] [] none := .outside ⟨[], rfl, rfl⟩ unviolated_nil not_endsInside_nil
  refine (outcome_extractFrom_of_follows h hstart).imp (fun _ => id) fun arguments hfollows => ?_
  cases hfollows with
  | outside hwritten hnone houtside => exact ⟨hwritten, hnone, houtside⟩

/-! ## Pieces are read back -/

/-- Inside of brackets words are collected and commas are passed over. -/
theorem extractFrom_inside {inside : List Token} (hinside : ∀ t ∈ inside, t.IsFlat)
    (bracket : Token) (rest : List Token) :
    ∀ items, extractFrom (some (bracket, items)) (inside ++ rest) =
      extractFrom (some (bracket, items ++ inside.filter (!·.isDelimiter))) rest := by
  induction inside with
  | nil => simp
  | cons t inside ih =>
    intro items
    obtain ⟨ht, hinside⟩ := List.forall_mem_cons.1 hinside
    rcases ht with hword | hcomma
    · simp [extractFrom, hword, ih hinside]
    · simp [extractFrom, hcomma.1, hcomma.2, ih hinside]

/-- Each piece is read on its own, and its argument stands before those of the rest. -/
theorem extractFrom_tokens (p : Piece) (rest : List Token) :
    extractFrom none (p.tokens ++ rest) =
      (extractFrom none rest).map (p.argument?.toList ++ ·) := by
  cases p with
  | word t hword => simp [Piece.tokens, Piece.argument?, extractFrom, hword]
  | comma t hcomma =>
    have hskip : extractFrom none (t :: rest) = extractFrom none rest := by
      simp [extractFrom, hcomma.1, hcomma.2]
    show extractFrom none (t :: rest) = _
    rw [hskip]
    cases extractFrom none rest <;> rfl
  | group g =>
    have hwords : g.inside.filter (!·.isDelimiter) ≠ [] := by
      obtain ⟨t, ht, hword⟩ := g.nonempty
      exact List.ne_nil_of_mem (List.mem_filter.2 ⟨ht, by simp [hword]⟩)
    calc extractFrom none (g.bracket :: g.inside ++ [g.closing] ++ rest)
        = extractFrom (some (g.bracket, [])) (g.inside ++ g.closing :: rest) := by
          simp [extractFrom, g.opens.1, g.opens.2]
      _ = extractFrom (some (g.bracket, g.inside.filter (!·.isDelimiter))) (g.closing :: rest) :=
          extractFrom_inside g.flat g.bracket (g.closing :: rest) []
      _ = (extractFrom none rest).map (.group g.bracket (g.inside.filter (!·.isDelimiter)) :: ·) := by
          rw [extractFrom]
          simp [g.closes.1, g.closes.2, hwords]

/-- Operands that are written as arguments are read as these arguments. -/
theorem extract_of_writtenAs {operands : List Token} {arguments : List Argument}
    (h : WrittenAs operands arguments) : extract operands = .ok arguments := by
  obtain ⟨pieces, rfl, rfl⟩ := h
  rw [extract]
  induction pieces with
  | nil => rfl
  | cons p pieces ih =>
    rw [List.flatMap_cons, extractFrom_tokens, ih]
    cases h : p.argument? <;> simp [h, Except.map]

/-! ## Grouping as a whole -/

/-- **Grouping accepts exactly flat groups.**  It succeeds on the operands that are written as
words, commas and groups with at least one word, and then it lists the words and the groups in
order, with all words of the operands in them.  On other operands it stops at the first bracket that
is opened inside a group, closed outside any, or closed with no word in it, and, if there is none of
these, at the bracket that stays open. -/
theorem extract_accepts_flat_groups {operands : List Token} (h : ∀ t ∈ operands, t.Marked) :
    (∀ arguments, extract operands = .ok arguments ↔ WrittenAs operands arguments) ∧
    (∀ arguments, extract operands = .ok arguments →
      arguments.flatMap tokens = operands.filter (!·.isDelimiter)) ∧
    ∀ d, extract operands = .error d ↔ Faulty operands d := by
  have houtcome := outcome_extract_of_marked h
  refine ⟨fun arguments => ⟨fun hok => ?_, extract_of_writtenAs⟩,
    fun arguments => flatMap_tokens_of_extract, fun d => ⟨fun herror => ?_, fun hfaulty => ?_⟩⟩
  · rw [hok] at houtcome
    exact houtcome.of_ok.1
  · rw [herror] at houtcome
    exact houtcome.of_error
  · cases hresult : extract operands with
    | error e =>
      rw [hresult] at houtcome
      rw [houtcome.of_error.unique hfaulty]
    | ok arguments =>
      rw [hresult] at houtcome
      obtain ⟨-, hnone, houtside⟩ := houtcome.of_ok
      cases hfaulty with
      | violated hsplit _ hviolates => exact absurd hviolates (hnone _ _ _ _ hsplit)
      | unclosed _ hsplit hopens hinside => exact absurd ⟨_, _, _, hsplit, hopens, hinside⟩ houtside

/-- The operands of the first line of a text. -/
def operandsOf (code : String) : List Token :=
  ((tokenize code).toOption.bind List.head?).elim [] List.tail

/-- A line with stray commas in and between its groups. -/
def strayCommas : List Token := operandsOf "X 7,, [R3, 5 , ] [,SP]"

/-- A line with a closed group, and one that is open when the next is opened. -/
def nestedBrackets : List Token := operandsOf "X [R1] [2, [3"

/-- Commas may stand anywhere, and the bracket inside a bracket is where the fault is found. -/
theorem strayCommas_accepted_nestedBrackets_refused :
    (∀ t ∈ strayCommas, t.Marked) ∧ (∀ t ∈ nestedBrackets, t.Marked) ∧
    (∃ arguments, arguments.map (·.tokens.map (·.text)) = [["7"], ["R3", "5"], ["SP"]] ∧
      WrittenAs strayCommas arguments ∧
      arguments.flatMap tokens = strayCommas.filter (!·.isDelimiter)) ∧
    ∃ t ∈ nestedBrackets[6]?, Faulty nestedBrackets (.atToken .bracketNested t) := by
  have hmarked : (∀ t ∈ strayCommas, t.Marked) ∧ ∀ t ∈ nestedBrackets, t.Marked := by
    decide +kernel
  have hread : (extract strayCommas).toOption.map (·.map (·.tokens.map (·.text))) =
      some [["7"], ["R3", "5"], ["SP"]] := by decide +kernel
  have hrefused : ∃ t ∈ nestedBrackets[6]?,
      extract nestedBrackets = .error (.atToken .bracketNested t) := by decide +kernel
  obtain ⟨arguments, hok, htexts⟩ := Option.map_eq_some_iff.1 hread
  rw [toOption_eq_some] at hok
  obtain ⟨t, ht, herror⟩ := hrefused
  obtain ⟨hwritten, hwords, -⟩ := extract_accepts_flat_groups hmarked.1
  obtain ⟨-, -, hfaulty⟩ := extract_accepts_flat_groups hmarked.2
  exact ⟨hmarked.1, hmarked.2, ⟨arguments, htexts, (hwritten _).1 hok, hwords _ hok⟩,
    t, ht, (hfaulty _).1 herror⟩

end Argument
end CircuitRom
