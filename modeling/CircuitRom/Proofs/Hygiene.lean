import CircuitRom.Proofs.Binding
import CircuitRom.Proofs.Provenance

/-!
# Symbolic labels under expansion

A macro's body has no symbolic label, and the labels in front of a call keep a line of their own.
So expansion neither makes nor moves a symbolic label: the labels that it leaves are those that
were written outside all declarations, in their order, and those that start a line are all still
there.  If these have different names, none is found to be repeated, however often and however
deeply macros are called.
-/

namespace CircuitRom

/-! ## Symbolic labels -/

/-- The tokens that are symbolic labels, wherever they stand on their lines. -/
def symbolicTokens (lines : List Line) : List Token :=
  lines.flatten.filter (·.kind == .symbolic)

theorem symbolicTokens_append (before after : List Line) :
    symbolicTokens (before ++ after) = symbolicTokens before ++ symbolicTokens after := by
  simp [symbolicTokens]

theorem symbolicTokens_eq_nil {lines : List Line}
    (h : ∀ line ∈ lines, ∀ t ∈ line, t.kind ≠ .symbolic) : symbolicTokens lines = [] := by
  rw [symbolicTokens, List.filter_eq_nil_iff]
  intro t ht
  obtain ⟨line, hline, htoken⟩ := List.mem_flatten.1 ht
  simpa using h line hline t htoken

namespace Line

/-- The symbolic labels at the start of a line. -/
def symbolicLabels (line : Line) : List Token := line.labels.filter (·.kind == .symbolic)

theorem isLabel_of_mem_labels {line : Line} {t : Token} (h : t ∈ line.labels) :
    t.kind.isLabel = true := by
  induction line using labels.induct with
  | case1 label colon rest hlabel ih =>
    rw [labels, if_pos hlabel] at h
    rcases List.mem_cons.1 h with rfl | h
    · exact (Bool.and_eq_true_iff.1 hlabel).1
    · exact ih h
  | case2 label colon rest hlabel =>
    rw [labels, if_neg hlabel] at h
    cases h
  | case3 line hline =>
    rw [labels] at h
    · cases h
    · exact hline

/-- The labels of a line are told by the kinds of its tokens. -/
theorem labels_map {f : Token → Token} (hf : ∀ t, (f t).kind = t.kind) (line : Line) :
    labels (line.map f) = line.labels.map f := by
  induction line using labels.induct with
  | case1 label colon rest hlabel ih =>
    rw [List.map_cons, List.map_cons, labels, labels, hf, hf, if_pos hlabel, if_pos hlabel, ih,
      List.map_cons]
  | case2 label colon rest hlabel =>
    rw [List.map_cons, List.map_cons, labels, labels, hf, hf, if_neg hlabel, if_neg hlabel,
      List.map_nil]
  | case3 line hline =>
    rcases line with _ | ⟨label, _ | ⟨colon, rest⟩⟩
    · rfl
    · rfl
    · exact absurd rfl (hline label colon rest)

theorem labels_labelPart (line : Line) : line.labelPart.labels = line.labels := by
  induction line using labels.induct with
  | case1 label colon rest hlabel ih =>
    rw [labelPart, labelCount, if_pos hlabel, Nat.mul_add, List.take_succ_cons, List.take_succ_cons,
      labels, labels, if_pos hlabel, if_pos hlabel]
    exact congrArg (label :: ·) ih
  | case2 label colon rest hlabel =>
    rw [labelPart, labelCount, if_neg hlabel, labels, if_neg hlabel]
    rfl
  | case3 line hline =>
    rcases line with _ | ⟨label, _ | ⟨colon, rest⟩⟩
    · rfl
    · rfl
    · exact absurd rfl (hline label colon rest)

theorem symbolicLabels_eq_nil {line : Line} (h : ∀ t ∈ line, t.kind ≠ .symbolic) :
    line.symbolicLabels = [] := by
  rw [symbolicLabels, List.filter_eq_nil_iff]
  intro t ht
  simpa using h t (mem_of_mem_labels ht)

end Line

/-- The names under which labels are declared are those of the symbolic labels. -/
theorem Program.names_bindings (lines : List Line) :
    Binding.names (bindings lines) = (lines.flatMap Line.symbolicLabels).map (·.text) := by
  have hline : ∀ line : Line,
      Binding.names (bindings [line]) = line.symbolicLabels.map (·.text) := by
    intro line
    rw [bindings_singleton, Binding.names, List.filter_map, List.map_map, Line.symbolicLabels]
    refine congrArg (List.map _) (List.filter_congr fun t ht => ?_)
    have hlabel := Line.isLabel_of_mem_labels ht
    revert hlabel
    cases hkind : t.kind <;> simp [Kind.isLabel, Binding.isNumeric, hkind]
  induction lines with
  | nil => rfl
  | cons line rest ih =>
    rw [← List.singleton_append, bindings_append, Binding.names_append, Binding.names_map_shift,
      hline, ih, List.flatMap_append, List.map_append, List.flatMap_singleton]

/-! ## Expansion -/

/-- The symbolic labels of `out` are some of those of the lines, in the same order, and those that
start a line are all still there. -/
structure KeepsLabels (lines out : List Line) : Prop where
  tokens : (symbolicTokens out).Sublist (symbolicTokens lines)
  starts : out.flatMap Line.symbolicLabels = lines.flatMap Line.symbolicLabels

namespace KeepsLabels

theorem refl (lines : List Line) : KeepsLabels lines lines := ⟨List.Sublist.refl _, rfl⟩

theorem trans {lines middle out : List Line} (h : KeepsLabels lines middle)
    (h' : KeepsLabels middle out) : KeepsLabels lines out :=
  ⟨h'.tokens.trans h.tokens, h'.starts.trans h.starts⟩

/-- What holds line by line holds of the program. -/
theorem flatten {lines : List Line} {results : List (List Line)}
    (h : List.Forall₂ (fun line result => KeepsLabels [line] result) lines results) :
    KeepsLabels lines results.flatten := by
  induction h with
  | nil => exact refl []
  | @cons line result lines results hline _ ih =>
    constructor
    · rw [List.flatten_cons, symbolicTokens_append, ← List.singleton_append,
        symbolicTokens_append]
      exact hline.tokens.append ih.tokens
    · rw [List.flatten_cons, List.flatMap_append, ← List.singleton_append, List.flatMap_append,
        hline.starts, ih.starts]

end KeepsLabels

namespace MacroTable

variable {table : MacroTable} {line : Line} {lines out : List Line}

/-- A call leaves the symbolic labels at the start of its line, and no others. -/
theorem keepsLabels_expand {call : Call}
    (hbodies : ∀ m ∈ table.values, ∀ l ∈ m.body, ∀ t ∈ l, t.kind ≠ .symbolic)
    (hcall : table.call? line = some call) (h : call.expand = .ok lines) :
    KeepsLabels [line] lines := by
  obtain ⟨name, rest, m, -, -, hm, rfl⟩ := call?_eq_some_iff.1 hcall
  obtain ⟨-, body, hbody, rfl⟩ := Call.expand_eq_ok.1 h
  have hkinds : ∀ l ∈ body, ∀ t ∈ l, t.kind ≠ .symbolic := by
    intro l hl t' ht'
    obtain ⟨source, hsource, hcopied⟩ := exists_of_mem_right hbody hl
    obtain ⟨t, ht, hcopy⟩ := exists_of_mem_right hcopied ht'
    rw [← Call.kind_of_instantiate hcopy]
    exact hbodies m (mem_values_of_find? hm).1 source hsource t ht
  have htokens : symbolicTokens body = [] := symbolicTokens_eq_nil hkinds
  have hstarts : body.flatMap Line.symbolicLabels = [] :=
    List.flatMap_eq_nil_iff.2 fun l hl => Line.symbolicLabels_eq_nil (hkinds l hl)
  have hfront : line.labelPart.symbolicLabels = line.symbolicLabels := by
    rw [Line.symbolicLabels, Line.labels_labelPart]
    rfl
  split
  · next hempty =>
    have hnone : line.labelPart = [] := List.isEmpty_iff.1 hempty
    refine ⟨by rw [htokens]; exact List.nil_sublist _, ?_⟩
    rw [hstarts, List.flatMap_singleton, ← hfront, hnone]
    rfl
  · constructor
    · rw [← List.singleton_append, symbolicTokens_append, htokens, List.append_nil]
      simp only [symbolicTokens, List.flatten_singleton]
      exact (List.take_sublist _ line).filter _
    · rw [List.flatMap_cons, hstarts, List.flatMap_singleton, hfront, List.append_nil]

/-- A call keeps the symbolic labels in front of it, and its body brings none. -/
theorem FullExpansion.keepsLabels {depth : Nat} {result : List Line}
    (hbodies : ∀ m ∈ table.values, ∀ l ∈ m.body, ∀ t ∈ l, t.kind ≠ .symbolic)
    (h : table.FullExpansion line depth result) : KeepsLabels [line] result := by
  induction h with
  | plain _ => exact .refl _
  | @call line call parts hcall hexpand _ ih =>
    have hparts : KeepsLabels (parts.map (·.line)) (parts.flatMap (·.result)) := by
      rw [List.flatMap_def]
      refine .flatten ?_
      rw [List.forall₂_map_left_iff, List.forall₂_map_right_iff, List.forall₂_same]
      exact ih
    exact (keepsLabels_expand hbodies hcall hexpand).trans hparts

/-- Expansion neither adds nor loses a symbolic label, however many rounds it takes. -/
theorem keepsLabels_settle {limit k : Nat}
    (hbodies : ∀ m ∈ table.values, ∀ l ∈ m.body, ∀ t ∈ l, t.kind ≠ .symbolic)
    (h : table.settle limit k lines = .ok out) : KeepsLabels lines out := by
  obtain ⟨results, hresults, rfl⟩ := settle_eq_ok_iff.1 h
  refine .flatten (hresults.imp fun line result hfull => ?_)
  obtain ⟨depth, -, hfull⟩ := hfull
  exact hfull.keepsLabels hbodies

end MacroTable

/-! ## Repeated labels -/

namespace Program

/-- Labels of different names are never found to be repeated. -/
theorem outcome_layOutFrom (lines : List Line) :
    ∀ {labels : Labels} {bs : List Binding} (address : Nat), labels.Declares bs →
      (Binding.names (bs ++ (bindings lines).map (Binding.shift address))).Nodup →
      Outcome (fun e => ∀ name, e.cause ≠ .labelRepeated name) (fun _ => True)
        (layOutFrom labels address lines) := by
  induction lines with
  | nil => exact fun _ _ _ => .ok trivial
  | cons line rest ih =>
    intro labels bs address hlabels hnames
    cases hfind : line.find? (·.kind == .unknown) with
    | some token =>
      rw [layOutFrom, hfind]
      exact .error fun name => Cause.noConfusion
    | none =>
      rw [layOutFrom_cons (by simpa using hfind)]
      rw [bindings_cons, ← List.append_assoc] at hnames
      have hline := hnames
      rw [Binding.names_append] at hline
      have hdefine : Decides _ _ (labels.defineAll address line.labels) :=
        Labels.decides_defineAll address hlabels
      obtain ⟨labels', hok⟩ := hdefine.exists_ok_iff.2 (List.Nodup.of_append_left hline)
      rw [hok] at hdefine ⊢
      exact (ih _ hdefine.of_ok.2 hnames).map fun _ _ => trivial

/-- Lines whose symbolic labels are distinct are never at fault for repeating one. -/
theorem cause_ne_labelRepeated {lines : List Line}
    (h : ((lines.flatMap Line.symbolicLabels).map (·.text)).Nodup) {e : Diagnostic}
    (he : layOut lines = .error e) (name : String) : e.cause ≠ .labelRepeated name := by
  have hnames : (Binding.names ([] ++ (bindings lines).map (Binding.shift 0))).Nodup := by
    rw [List.nil_append, Binding.names_map_shift, names_bindings]
    exact h
  have hrun := outcome_layOutFrom lines 0 Labels.declares_empty hnames
  rw [layOut] at he
  rw [he] at hrun
  exact hrun.of_error name

end Program

/-! ## Definitions -/

namespace Definition

theorem rename_of_find?_eq_none {defs : Dictionary String} {t : Token}
    (h : defs.find? t.text = none) : rename defs t = t := by
  rw [rename, h]
  rfl

/-- Definitions of other words leave the symbolic labels alone. -/
theorem symbolicLabels_rename {defs : Dictionary String} {line : Line}
    (h : ∀ t ∈ line.symbolicLabels, defs.find? t.text = none) :
    Line.symbolicLabels (line.map (rename defs)) = line.symbolicLabels := by
  have hkind : ∀ t, (rename defs t).kind = t.kind := fun _ => rfl
  rw [Line.symbolicLabels, Line.labels_map hkind, List.filter_map]
  refine (List.map_congr_left fun t ht => ?_).trans (List.map_id _)
  exact rename_of_find?_eq_none (h t ht)

/-- Definitions that rename no symbolic label make none. -/
theorem symbolicLabels_substituteFrom {lines : List Line} :
    ∀ {defs : Dictionary String} {out : List Line}, substituteFrom defs lines = .ok out →
      (∀ before line after, lines = before ++ line :: after →
        ∀ t ∈ line.symbolicLabels, (before.foldl learn defs).find? t.text = none) →
      (out.flatMap Line.symbolicLabels).Sublist (lines.flatMap Line.symbolicLabels) := by
  induction lines with
  | nil =>
    intro defs out h _
    cases h
    exact List.Sublist.refl _
  | cons line rest ih =>
    intro defs out h hdefs
    have hlater : ∀ before later after, rest = before ++ later :: after →
        ∀ t ∈ later.symbolicLabels, (before.foldl learn (learn defs line)).find? t.text = none := by
      rintro before later after rfl
      exact hdefs (line :: before) later after rfl
    rcases substituteFrom_cons_eq_ok h with
      ⟨head, key, value, hline, hhead, -, -, hrest⟩ | ⟨hhead, tail, hrest, rfl⟩
    · rw [← learn_of_definition hline hhead] at hrest
      exact (ih hrest hlater).trans (List.sublist_append_right _ _)
    · rw [← learn_of_not_headed hhead] at hrest
      have hline : ∀ t ∈ line.symbolicLabels, defs.find? t.text = none := hdefs [] line rest rfl
      rw [List.flatMap_cons, List.flatMap_cons, symbolicLabels_rename hline]
      exact (List.Sublist.refl _).append (ih hrest hlater)

end Definition

/-! ## Programs -/

/-- What expansion makes of the tokens of a program, given the macros that it declares. -/
structure Hygienic (lines : List Line) (table : MacroTable) (out : List Line) : Prop where
  /-- Every token stands where a token outside all declarations was written. -/
  outside : ∀ line ∈ out, ∀ t ∈ line, ∃ i source, lines[i]? = some source ∧
    (∀ m ∈ table.values, m.covers i = false) ∧ ∃ u ∈ source, u.site = t.site
  /-- So no token stands on a line of a declaration. -/
  apart : ∀ line ∈ out, ∀ t ∈ line, ∀ m ∈ table.values, ∀ i source, m.covers i = true →
    lines[i]? = some source → ∀ u ∈ source, u.site.line ≠ t.site.line
  /-- A token that was not copied is a token outside the declarations, unchanged. -/
  kept : ∀ line ∈ out, ∀ t ∈ line, t.origin = none → ∃ source ∈ table.strip lines, t ∈ source
  /-- A token that was copied remembers the place of a token of a macro's body. -/
  copied : ∀ line ∈ out, ∀ t ∈ line, ∀ s, t.origin = some s → ∃ m ∈ table.values,
    ∃ i source, m.first < i ∧ i < m.last ∧ lines[i]? = some source ∧ source ∈ m.body ∧
      ∃ u ∈ source, u.site = s
  /-- No symbolic label was copied. -/
  notCopied : ∀ t ∈ symbolicTokens out, t.origin = none
  /-- The symbolic labels are some of those outside the declarations, in the same order, and all of
  those that start a line. -/
  labels : KeepsLabels (table.strip lines) out
  /-- If these have different names, none of them is found to be repeated. -/
  distinct : (((table.strip lines).flatMap Line.symbolicLabels).map (·.text)).Nodup →
    ∀ e, Program.layOut out = .error e → ∀ name, e.cause ≠ .labelRepeated name
  /-- Nor after definitions, unless one of these renames a label. -/
  renamed : (((table.strip lines).flatMap Line.symbolicLabels).map (·.text)).Nodup →
    (∀ before line after, out = before ++ line :: after →
      ∀ t ∈ line.symbolicLabels, (Definition.inForce before).find? t.text = none) →
    ∀ final, Definition.substitute out = .ok final →
      ∀ e, Program.layOut final = .error e → ∀ name, e.cause ≠ .labelRepeated name

/-- **Expansion is hygienic.**  The macros of a program whose expansion succeeds leave every token
at a place outside their declarations, and they neither make nor repeat a symbolic label. -/
theorem expandMacros_hygienic {code : String} {lines out : List Line}
    (hlines : tokenize code = .ok lines) (hout : expandMacros lines = .ok out) :
    ∃ table, MacroTable.collect lines = .ok table ∧ Hygienic lines table out := by
  obtain ⟨table, hcollect, h⟩ := bind_eq_ok.1 hout
  obtain ⟨-, -, hsettle⟩ := bind_eq_ok.1 h
  have hnonempty := ne_nil_of_tokenize hlines
  have hstrip := MacroTable.strip_eq_outside hnonempty hcollect
  have hblocks := (MacroTable.blocks_of_collect hnonempty hcollect).1
  have hbodies : ∀ m ∈ table.values, ∀ line ∈ m.body, ∀ t ∈ line, t.kind ≠ .symbolic :=
    MacroTable.body_of_collect_of_not_symbolic (fun _ _ hkinds => hkinds) hcollect
  have horigin : ∀ line ∈ table.strip lines, ∀ t ∈ line, t.origin = none :=
    fun line hline => origin_of_tokenize hlines line (MacroTable.mem_of_mem_strip hline)
  have hcomes := MacroTable.comesFrom_settle horigin hsettle
  have hlabels := MacroTable.keepsLabels_settle hbodies hsettle
  have houtside : ∀ line ∈ out, ∀ t ∈ line, ∃ i source, lines[i]? = some source ∧
      (∀ m ∈ table.values, m.covers i = false) ∧ ∃ u ∈ source, u.site = t.site := by
    intro line hline t ht
    obtain ⟨source, hsource, u, hu, hsite⟩ := (hcomes line hline t ht).site
    rw [hstrip, MacroTable.mem_outside] at hsource
    obtain ⟨i, hi, hcovers⟩ := hsource
    exact ⟨i, source, hi, hcovers, u, hu, hsite⟩
  have hnames : (((table.strip lines).flatMap Line.symbolicLabels).map (·.text)).Nodup →
      ((out.flatMap Line.symbolicLabels).map (·.text)).Nodup := by
    rw [hlabels.starts]
    exact id
  refine ⟨table, hcollect, houtside, ?_, ?_, ?_, ?_, hlabels, ?_, ?_⟩
  · intro line hline t ht m hm j source hcovered hj u hu
    obtain ⟨i, source', hi, hcovers, v, hv, hsite⟩ := houtside line hline t ht
    have hne : j ≠ i := by
      rintro rfl
      rw [hcovers m hm] at hcovered
      cases hcovered
    rw [← hsite]
    exact line_ne_of_tokenize hlines hne hj hi u hu v hv
  · exact fun line hline t ht => (hcomes line hline t ht).kept
  · intro line hline t ht s hs
    obtain ⟨m, hm, source, hsource, hsite⟩ := (hcomes line hline t ht).copied s hs
    obtain ⟨i, hfirst, hlast, hi⟩ := (hblocks m hm).exists_of_mem_body hsource
    exact ⟨m, hm, i, source, hfirst, hlast, hi, hsource, hsite⟩
  · intro t ht
    have hmem := List.mem_of_mem_filter (hlabels.tokens.subset ht)
    obtain ⟨source, hsource, htoken⟩ := List.mem_flatten.1 hmem
    exact horigin source hsource t htoken
  · exact fun hnodup e he name => Program.cause_ne_labelRepeated (hnames hnodup) he name
  · intro hnodup hdefs final hfinal e he name
    have hsublist := (Definition.symbolicLabels_substituteFrom hfinal hdefs).map (·.text)
    exact Program.cause_ne_labelRepeated ((hnames hnodup).sublist hsublist) he name

/-- A macro that calls another one twice, with a register of its own and with its argument, behind
a label. -/
def steppingText : String :=
  "#macro step 2\n1: ADD $0, $0, $1\n#endm\n#macro twice 1\nstep $0, R9\nstep $0, $0\n#endm\n" ++
    "top: twice R1\nend: B top"

/-- The text of a token, the line where it stands, and the line that it was copied from. -/
def Token.trace (t : Token) : String × Nat × Option Nat :=
  (t.text, t.site.line, t.origin.map (·.line))

/-- The two copies of the numeric label do not clash, and each token of a copy still knows the line
that it was written on. -/
theorem steppingText_hygienic :
    ∃ lines out, tokenize steppingText = .ok lines ∧ expandMacros lines = .ok out ∧
      out.map (·.map Token.trace) =
        [[("top", 8, none), (":", 8, none)],
          [("1", 8, some 2), (":", 8, some 2), ("ADD", 8, some 2), ("R1", 8, some 2),
            (",", 8, some 2), ("R1", 8, some 2), (",", 8, some 2), ("R9", 8, some 2)],
          [("1", 8, some 2), (":", 8, some 2), ("ADD", 8, some 2), ("R1", 8, some 2),
            (",", 8, some 2), ("R1", 8, some 2), (",", 8, some 2), ("R1", 8, some 2)],
          [("end", 9, none), (":", 9, none), ("B", 9, none), ("top", 9, none)]] ∧
      ∃ table, MacroTable.collect lines = .ok table ∧ Hygienic lines table out := by
  have htraces : (tokenize steppingText >>= expandMacros).toOption.map
      (·.map (·.map Token.trace)) = some
        [[("top", 8, none), (":", 8, none)],
          [("1", 8, some 2), (":", 8, some 2), ("ADD", 8, some 2), ("R1", 8, some 2),
            (",", 8, some 2), ("R1", 8, some 2), (",", 8, some 2), ("R9", 8, some 2)],
          [("1", 8, some 2), (":", 8, some 2), ("ADD", 8, some 2), ("R1", 8, some 2),
            (",", 8, some 2), ("R1", 8, some 2), (",", 8, some 2), ("R1", 8, some 2)],
          [("end", 9, none), (":", 9, none), ("B", 9, none), ("top", 9, none)]] := by
    decide +kernel
  obtain ⟨out, hrun, htraces⟩ := Option.map_eq_some_iff.1 htraces
  rw [toOption_eq_some, bind_eq_ok] at hrun
  obtain ⟨lines, hlines, hout⟩ := hrun
  exact ⟨lines, out, hlines, hout, htraces, expandMacros_hygienic hlines hout⟩

end CircuitRom
