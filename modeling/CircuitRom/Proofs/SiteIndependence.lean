import CircuitRom.Assembly
import CircuitRom.Proofs.Agreement
import CircuitRom.Proofs.Call
import CircuitRom.Proofs.Declaration
import CircuitRom.Proofs.Inlining
import CircuitRom.Proofs.Lookup
import CircuitRom.Proofs.Resolution

/-!
# Sites do not change the result

Two programs that have the same words of the same kinds, line by line, may be written at different
places: with other comments and blank lines, in other columns, or copied from other macros.  Every
stage of the assembly takes such a pair to such a pair, or fails on both for the same cause.  So
they have the same instructions and the same signals, and the same labels of them are unused.
-/

namespace CircuitRom

/-! ## Words in different places -/

/-- The tokens are the same word and of the same kind. -/
structure Token.Same (t u : Token) : Prop where
  text : t.text = u.text
  kind : t.kind = u.kind

instance (t u : Token) : Decidable (t.Same u) :=
  decidable_of_iff (t.text = u.text ∧ t.kind = u.kind) ⟨fun h => ⟨h.1, h.2⟩, fun h => ⟨h.text, h.kind⟩⟩

/-- The lines have the same words of the same kinds. -/
abbrev Line.Same : Line → Line → Prop := List.Forall₂ Token.Same

/-- The programs have the same lines, up to the places of their words. -/
abbrev SameLines : List Line → List Line → Prop := List.Forall₂ Line.Same

namespace Token.Same

variable {t u : Token}

theorem isDelimiter_eq (h : t.Same u) : t.isDelimiter = u.isDelimiter := by
  rw [isDelimiter, isDelimiter, h.kind]

theorem isDirective_eq (h : t.Same u) (name : String) : t.isDirective name = u.isDirective name := by
  rw [isDirective, isDirective, h.text]

theorem alike (h : t.Same u) : t.Alike u := ⟨h.text, h.isDelimiter_eq⟩

end Token.Same

namespace Line.Same

variable {line line' : Line}

theorem labelCount_eq (h : line.Same line') : line.labelCount = line'.labelCount :=
  labelCount_congr (h.imp fun _ _ ht => ht.kind)

theorem labelPart (h : line.Same line') : line.labelPart.Same line'.labelPart := by
  rw [Line.labelPart, Line.labelPart, h.labelCount_eq]
  exact List.forall₂_take _ h

theorem statement (h : line.Same line') : line.statement.Same line'.statement :=
  forall₂_statement h fun _ _ ht => ht.kind

theorem labels (h : line.Same line') : Line.Same line.labels line'.labels := by
  induction line using labels.induct generalizing line' with
  | case1 label colon rest hlabel ih =>
    obtain ⟨label', l', hl, hrest, rfl⟩ := List.forall₂_cons_left_iff.1 h
    obtain ⟨colon', rest', hc, htail, rfl⟩ := List.forall₂_cons_left_iff.1 hrest
    rw [Line.labels, Line.labels, ← hl.kind, ← hc.kind, if_pos hlabel, if_pos hlabel]
    exact .cons hl (ih htail)
  | case2 label colon rest hlabel =>
    obtain ⟨label', l', hl, hrest, rfl⟩ := List.forall₂_cons_left_iff.1 h
    obtain ⟨colon', rest', hc, -, rfl⟩ := List.forall₂_cons_left_iff.1 hrest
    rw [Line.labels, Line.labels, ← hl.kind, ← hc.kind, if_neg hlabel, if_neg hlabel]
    exact .nil
  | case3 line hline =>
    cases h with
    | nil => exact .nil
    | cons _ h =>
      cases h with
      | nil => exact .nil
      | cons => exact absurd rfl (hline _ _ _)

end Line.Same

/-! ## Declarations of macros -/

/-- The macros are declared by the same lines, up to the places of their words. -/
structure Macro.Same (m n : Macro) : Prop where
  name : m.name = n.name
  parameters : m.parameters = n.parameters
  first : m.first = n.first
  last : m.last = n.last
  body : SameLines m.body n.body

/-- The tables have the same macros. -/
abbrev MacroTable.Same (table table' : MacroTable) : Prop :=
  table.toDictionary.Rel Macro.Same table'.toDictionary

namespace MacroSearch

/-- The searches have found the same declarations so far. -/
structure Same (s s' : MacroSearch) : Prop where
  table : s.table.Same s'.table
  pending : Option.Rel Macro.Same s.pending s'.pending

variable {s s' : MacroSearch} {index : Nat}

theorem Same.start (h : s.Same s') {head head' : Token} {rest rest' : List Token}
    (hrest : Line.Same rest rest') :
    Agree Same (s.start index head rest) (s'.start index head' rest') := by
  unfold MacroSearch.start
  rw [isSome_eq_of_rel h.pending]
  split
  · exact .error rfl
  · match hrest with
    | .nil => exact .error rfl
    | .cons _ .nil => exact .error rfl
    | .cons hname (.cons hcount .nil) =>
      dsimp only
      rw [← hname.text, ← hcount.text, ← h.table.contains_eq]
      split
      · exact .error rfl
      · split
        · exact .error rfl
        · exact .ok ⟨h.table, .some ⟨rfl, rfl, rfl, rfl, .nil⟩⟩
    | .cons _ (.cons _ (.cons _ _)) => exact .error rfl

theorem Same.finish (h : s.Same s') {head head' : Token} :
    Agree Same (s.finish index head) (s'.finish index head') := by
  obtain ⟨table, pending⟩ := s
  obtain ⟨table', pending'⟩ := s'
  obtain ⟨htable, hpending⟩ := h
  cases hpending with
  | none => exact .error rfl
  | @some m n hm =>
    have hlast : Macro.Same { m with last := index } { n with last := index } :=
      ⟨hm.name, hm.parameters, hm.first, rfl, hm.body⟩
    exact .ok ⟨htable.insert hm.name hlast, .none⟩

theorem Same.keep (h : s.Same s') {line line' : Line} (hline : line.Same line') :
    Agree Same (s.keep line) (s'.keep line') := by
  obtain ⟨table, pending⟩ := s
  obtain ⟨table', pending'⟩ := s'
  obtain ⟨htable, hpending⟩ := h
  cases hpending with
  | none => exact .ok ⟨htable, .none⟩
  | @some m n hm =>
    have hlabel := rel_find? (p := (·.kind == .symbolic)) (q := (·.kind == .symbolic)) hline
      fun t u htu => by rw [htu.kind]
    rw [MacroSearch.keep, MacroSearch.keep]
    dsimp only
    generalize line.find? (·.kind == .symbolic) = found at hlabel ⊢
    generalize line'.find? (·.kind == .symbolic) = found' at hlabel ⊢
    cases hlabel with
    | some htu => exact .error (congrArg Cause.symbolInMacro htu.text)
    | none =>
      refine .ok ⟨htable, .some ⟨hm.name, hm.parameters, hm.first, hm.last, ?_⟩⟩
      exact List.rel_append hm.body (.cons hline .nil)

/-- The step lemma of collecting macros: the same line is read in the same way in the same state. -/
theorem Same.step (h : s.Same s') {line line' : Line} (hline : line.Same line') :
    Agree Same (s.step index line) (s'.step index line') := by
  cases hline with
  | nil => exact .ok h
  | cons hhead hrest =>
    rw [MacroSearch.step, MacroSearch.step, hhead.isDirective_eq, hhead.isDirective_eq]
    split
    · exact h.start hrest
    · split
      · exact h.finish
      · exact h.keep (.cons hhead hrest)

theorem Same.run {lines lines' : List Line} (hlines : SameLines lines lines') :
    ∀ {s s' : MacroSearch} (index : Nat), s.Same s' →
      Agree Same (s.run index lines) (s'.run index lines') := by
  induction hlines with
  | nil => exact fun _ h => .ok h
  | cons hline _ ih =>
    intro s s' index h
    rw [run_cons, run_cons]
    exact (h.step hline).bind fun _ _ hnext => ih (index + 1) hnext

end MacroSearch

namespace MacroTable

variable {table table' : MacroTable} {lines lines' : List Line}

/-- Macros are collected alike, up to where they were written. -/
theorem agree_collect (h : SameLines lines lines') :
    Agree MacroTable.Same (collect lines) (collect lines') := by
  have hrun : Agree MacroSearch.Same (MacroSearch.run {} 0 lines) (MacroSearch.run {} 0 lines') :=
    MacroSearch.Same.run h 0 ⟨.nil, .none⟩
  rw [collect, collect]
  generalize MacroSearch.run {} 0 lines = result at hrun ⊢
  generalize MacroSearch.run {} 0 lines' = result' at hrun ⊢
  cases hrun with
  | error hcause => exact .error hcause
  | @ok s s' hs =>
    obtain ⟨found, pending⟩ := s
    obtain ⟨found', pending'⟩ := s'
    obtain ⟨htable, hpending⟩ := hs
    cases hpending with
    | none => exact .ok htable
    | some hm => exact .error (congrArg Cause.macroUnclosed hm.name)

/-- The declarations take up the same lines, so removing them leaves the same lines. -/
theorem Same.strip (h : table.Same table') (hlines : SameLines lines lines') :
    SameLines (table.strip lines) (table'.strip lines') := by
  refine List.rel_foldr (fun m n hm rest rest' hrest => ?_) hlines h.values
  rw [removeBlock, removeBlock, ← hm.first, ← hm.last]
  exact List.rel_append (List.forall₂_take _ hrest) (List.forall₂_drop _ hrest)

/-! ## Circles of macros -/

theorem Same.dependencies (h : table.Same table') {m n : Macro} (hm : m.Same n) :
    Agree Eq (table.dependencies m) (table'.dependencies n) := by
  have hbody : Line.Same m.body.flatten n.body.flatten := List.rel_flatten hm.body
  have hself := rel_find? (p := (·.text == m.name)) (q := (·.text == n.name)) hbody
    fun t u htu => by rw [htu.text, hm.name]
  have htexts : m.body.flatten.map (·.text) = n.body.flatten.map (·.text) :=
    map_eq_map hbody fun _ _ htu => htu.text
  have hnames : m.body.flatten.filterMap (fun t => table.indexOf? t.text) =
      n.body.flatten.filterMap (fun t => table'.indexOf? t.text) := by
    simpa [List.filterMap_map, Function.comp_def, h.indexOf?_eq] using
      congrArg (List.filterMap table.indexOf?) htexts
  rw [MacroTable.dependencies, MacroTable.dependencies, hnames]
  generalize m.body.flatten.find? (·.text == m.name) = found at hself ⊢
  generalize n.body.flatten.find? (·.text == n.name) = found' at hself ⊢
  cases hself with
  | some _ => exact .error (congrArg Cause.macroSelfReference hm.name)
  | none => exact .ok rfl

theorem Same.circleFault (h : table.Same table') (nodes : List Nat) :
    Option.Rel (fun d e => d.cause = e.cause) (table.circleFault nodes)
      (table'.circleFault nodes) := by
  have hmembers : List.Forall₂ Macro.Same (nodes.filterMap (table.values[·]?))
      (nodes.filterMap (table'.values[·]?)) := by
    induction nodes with
    | nil => exact .nil
    | cons node rest ih =>
      have hnode := rel_getElem? h.values node
      rw [List.filterMap_cons, List.filterMap_cons]
      generalize table.values[node]? = found at hnode ⊢
      generalize table'.values[node]? = found' at hnode ⊢
      cases hnode with
      | none => exact ih
      | some hm => exact .cons hm ih
  rw [MacroTable.circleFault, MacroTable.circleFault]
  refine rel_map (rel_head? hmembers) fun _ _ _ => ?_
  exact congrArg Cause.macroCycle (map_eq_map hmembers fun _ _ hm => hm.name)

/-- The check sees names and not places, so it has the same result and the same cause of fault. -/
theorem Same.check (h : table.Same table') : Agree Eq table.check table'.check := by
  have hgraph : Agree Eq table.graph table'.graph := by
    have hagree := Agree.mapM h.values fun _ _ hm => h.dependencies hm
    rwa [List.forall₂_eq_eq_eq] at hagree
  refine hgraph.bind fun edges edges' hedges => ?_
  subst hedges
  cases findCircle edges with
  | ok _ => exact .ok rfl
  | error nodes =>
    have hfault := h.circleFault nodes
    dsimp only
    generalize table.circleFault nodes = found at hfault ⊢
    generalize table'.circleFault nodes = found' at hfault ⊢
    cases hfault with
    | none => exact .ok rfl
    | some hcause => exact .error hcause

end MacroTable

/-! ## Expansion of calls -/

/-- The calls are of the same macro, with the same words. -/
structure Call.Same (call call' : Call) : Prop where
  target : call.target.Same call'.target
  labels : call.labels.Same call'.labels
  arguments : Line.Same call.arguments call'.arguments

namespace Call

variable {call call' : Call}

/-- A copy takes its text from the body or an argument, and only its place from the call. -/
theorem Same.instantiate (h : call.Same call') {t u : Token} (htu : t.Same u) :
    Agree Token.Same (call.instantiate t) (call'.instantiate u) := by
  unfold Call.instantiate
  rw [← htu.text, ← htu.kind, ← h.target.name, ← h.target.parameters]
  split
  · next digits _ =>
    cases Text.count? (String.ofList digits) with
    | none => exact .error rfl
    | some n =>
      have hargument := rel_getElem? h.arguments n
      dsimp only
      generalize call.arguments[n]? = found at hargument ⊢
      generalize call'.arguments[n]? = found' at hargument ⊢
      cases hargument with
      | none => exact .error rfl
      | some harg => exact .ok ⟨harg.text, rfl⟩
  · exact .ok ⟨rfl, rfl⟩

/-- The same call expands to the same lines. -/
theorem Same.expand (h : call.Same call') : Agree SameLines call.expand call'.expand := by
  have hbody : Agree SameLines
      (call.target.body.mapM fun (line : Line) => line.mapM call.instantiate)
      (call'.target.body.mapM fun (line : Line) => line.mapM call'.instantiate) :=
    Agree.mapM h.target.body fun _ _ hline => Agree.mapM hline fun _ _ htu => h.instantiate htu
  rw [Call.expand, Call.expand, ← h.arguments.length_eq, ← h.target.parameters, ← h.target.name]
  split
  · exact .error rfl
  · refine hbody.map fun body body' hlines => ?_
    rw [← isEmpty_eq_of_rel h.labels]
    split
    · exact hlines
    · exact .cons h.labels hlines

end Call

namespace MacroTable

variable {table table' : MacroTable} {lines lines' : List Line}

theorem Same.call? (h : table.Same table') {line line' : Line} (hline : line.Same line') :
    Option.Rel Call.Same (table.call? line) (table'.call? line') := by
  have hstatement := hline.statement
  rw [MacroTable.call?, MacroTable.call?]
  generalize line.statement = tokens at hstatement ⊢
  generalize line'.statement = tokens' at hstatement ⊢
  cases hstatement with
  | nil => exact .none
  | @cons name name' rest rest' hname hrest =>
    dsimp only
    rw [← hname.isDelimiter_eq, ← hname.text]
    split
    · exact .none
    · refine rel_map (h.find? name.text) fun m n hm => ⟨hm, hline.labelPart, ?_⟩
      refine List.rel_filter (fun t u htu => ?_) hrest
      show (!t.isDelimiter) = true ↔ (!u.isDelimiter) = true
      rw [htu.isDelimiter_eq]

theorem Same.expandLine (h : table.Same table') {line line' : Line} (hline : line.Same line') :
    Agree SameLines (table.expandLine line) (table'.expandLine line') := by
  have hcall := h.call? hline
  rw [MacroTable.expandLine, MacroTable.expandLine]
  generalize table.call? line = found at hcall ⊢
  generalize table'.call? line' = found' at hcall ⊢
  cases hcall with
  | none => exact .ok (.cons hline .nil)
  | some hcall => exact hcall.expand

theorem Same.round (h : table.Same table') (hlines : SameLines lines lines') :
    Agree (fun r r' => r.1 = r'.1 ∧ SameLines r.2 r'.2) (table.round lines)
      (table'.round lines') := by
  induction hlines with
  | nil => exact .ok ⟨rfl, .nil⟩
  | cons hline _ ih =>
    rw [round_cons, round_cons, isSome_eq_of_rel (h.call? hline)]
    refine ih.bind fun result result' hresult => ?_
    refine (h.expandLine hline).bind fun part part' hpart => ?_
    rw [hresult.1]
    exact .ok ⟨rfl, List.rel_append hpart hresult.2⟩

/-- Rounds go on for as long on both sides. -/
theorem Same.settle (h : table.Same table') (limit left : Nat) :
    ∀ {lines lines' : List Line}, SameLines lines lines' →
      Agree SameLines (table.settle limit left lines) (table'.settle limit left lines') := by
  induction left with
  | zero =>
    intro lines lines' hlines
    have hpending := rel_findSome? hlines fun _ _ hline => h.call? hline
    rw [MacroTable.settle, MacroTable.settle]
    generalize lines.findSome? table.call? = found at hpending ⊢
    generalize lines'.findSome? table'.call? = found' at hpending ⊢
    cases hpending with
    | none => exact .ok hlines
    | some _ => exact .error rfl
  | succ left ih =>
    intro lines lines' hlines
    rw [settle_succ, settle_succ]
    refine (h.round hlines).bind fun result result' hresult => ?_
    obtain ⟨changed, after⟩ := result
    obtain ⟨changed', after'⟩ := result'
    obtain ⟨rfl, hafter⟩ := hresult
    cases changed with
    | true => exact ih hafter
    | false => exact .ok hafter

end MacroTable

theorem agree_expandMacros {lines lines' : List Line} (h : SameLines lines lines') :
    Agree SameLines (expandMacros lines) (expandMacros lines') := by
  refine (MacroTable.agree_collect h).bind fun table table' htable => ?_
  refine htable.check.bind fun _ _ _ => ?_
  exact htable.settle roundLimit roundLimit (htable.strip h)

/-! ## Definitions -/

namespace Definition

theorem same_rename {t u : Token} (h : t.Same u) (defs : Dictionary String) :
    (rename defs t).Same (rename defs u) := by
  refine ⟨?_, h.kind⟩
  rw [rename, rename, h.text]

/-- The definitions are texts, so they are the same for both programs. -/
theorem agree_substituteFrom {lines lines' : List Line} (h : SameLines lines lines') :
    ∀ defs, Agree SameLines (substituteFrom defs lines) (substituteFrom defs lines') := by
  induction h with
  | nil => exact fun _ => .ok .nil
  | @cons line line' rest rest' hline _ ih =>
    intro defs
    have hrenamed : Line.Same (line.map (rename defs)) (line'.map (rename defs)) := by
      refine List.forall₂_map_left_iff.2 (List.forall₂_map_right_iff.2 ?_)
      exact hline.imp fun _ _ htu => same_rename htu defs
    rw [substituteFrom, substituteFrom]
    generalize line.map (rename defs) = tokens at hrenamed ⊢
    generalize line'.map (rename defs) = tokens' at hrenamed ⊢
    cases hrenamed with
    | nil => exact (ih defs).map fun _ _ htail => .cons .nil htail
    | cons hhead hoperands =>
      dsimp only
      rw [← hhead.isDirective_eq]
      split
      · match hoperands with
        | .nil => exact .error rfl
        | .cons _ .nil => exact .error rfl
        | .cons hkey (.cons hvalue .nil) =>
          dsimp only
          rw [← hkey.isDelimiter_eq, ← hvalue.isDelimiter_eq, ← hkey.text, ← hvalue.text]
          split
          · exact .error rfl
          · exact ih _
        | .cons _ (.cons _ (.cons _ _)) => exact .error rfl
      · exact (ih defs).map fun _ _ htail => .cons (.cons hhead hoperands) htail

end Definition

/-! ## Labels -/

namespace Labels

/-- The same labels are declared at the same addresses, and the same of them are used. -/
structure Same (l l' : Labels) : Prop where
  symbols : l.symbols.Rel (fun a b => a.address = b.address ∧ a.used = b.used) l'.symbols
  locals : List.Forall₂
    (fun o o' => o.digit = o'.digit ∧ o.address = o'.address ∧ o.used = o'.used) l.locals l'.locals

variable {l l' : Labels}

/-- A label is declared alike, or it is repeated on both sides. -/
theorem Same.define (h : l.Same l') {label label' : Token} (hlabel : label.Same label')
    (address : Nat) : Agree Same (l.define label address) (l'.define label' address) := by
  rw [Labels.define_eq, Labels.define_eq, ← hlabel.kind, ← hlabel.text]
  split
  · exact .ok ⟨h.symbols, List.rel_append h.locals (.cons ⟨rfl, rfl, rfl⟩ .nil)⟩
  · have hearlier := h.symbols.find? label.text
    generalize l.symbols.find? label.text = found at hearlier ⊢
    generalize l'.symbols.find? label.text = found' at hearlier ⊢
    cases hearlier with
    | some _ => exact .error rfl
    | none => exact .ok ⟨h.symbols.insert rfl ⟨rfl, rfl⟩, h.locals⟩

theorem Same.defineAll {labels labels' : List Token} (hlabels : Line.Same labels labels')
    (address : Nat) :
    ∀ {l l' : Labels}, l.Same l' →
      Agree Same (l.defineAll address labels) (l'.defineAll address labels') := by
  induction hlabels with
  | nil => exact fun h => .ok h
  | cons hlabel _ ih =>
    intro l l' h
    rw [defineAll_cons, defineAll_cons]
    exact (h.define hlabel address).bind fun _ _ hnext => ih hnext

theorem Same.occurrences_eq (h : l.Same l') (digit : Char) :
    l.occurrences digit = l'.occurrences digit := by
  have hplaces : l.locals.map (fun o => (o.digit, o.address)) =
      l'.locals.map (fun o => (o.digit, o.address)) :=
    map_eq_map h.locals fun _ _ ho => Prod.ext ho.1 ho.2.1
  have hzip := congrArg
    (fun places => (places.zipIdx.filter fun entry => entry.1.1 == digit).map
      fun entry => (entry.2, entry.1.2)) hplaces
  simpa [occurrences, List.zipIdx_map, List.filter_map, Function.comp_def] using hzip

/-- A search ends at the same label, which is then used in both, or fails for the same cause. -/
theorem Same.useNumeric (h : l.Same l') (digit : Char) (direction : Direction) (address : Nat) :
    (∃ target m m', l.useNumeric digit direction address = .ok (target, m) ∧
      l'.useNumeric digit direction address = .ok (target, m') ∧ m.Same m') ∨
    ∃ cause, l.useNumeric digit direction address = .error cause ∧
      l'.useNumeric digit direction address = .error cause := by
  rw [Labels.useNumeric_eq, Labels.useNumeric_eq, ← h.occurrences_eq digit]
  split
  · exact .inr ⟨_, rfl, rfl⟩
  · split
    · exact .inr ⟨_, rfl, rfl⟩
    · next position target _ =>
      refine .inl ⟨target, _, _, rfl, rfl, h.symbols, ?_⟩
      refine rel_modify h.locals (fun o o' ho => ?_) position
      exact ⟨ho.1, ho.2.1, rfl⟩

end Labels

/-- The instructions have the same words of the same kinds. -/
structure Instruction.Same (i j : Instruction) : Prop where
  opcode : i.opcode.Same j.opcode
  operands : Line.Same i.operands j.operands

/-- The programs have the same instructions and labels. -/
structure Program.Same (p q : Program) : Prop where
  instructions : List.Forall₂ Instruction.Same p.instructions q.instructions
  labels : p.labels.Same q.labels

namespace Program

/-- The run lemma of laying out: the labels declared so far differ in their places only. -/
theorem agree_layOutFrom {lines lines' : List Line} (h : SameLines lines lines') :
    ∀ {labels labels' : Labels} (address : Nat), labels.Same labels' →
      Agree Program.Same (layOutFrom labels address lines) (layOutFrom labels' address lines') := by
  induction h with
  | nil => exact fun _ hlabels => .ok ⟨.nil, hlabels⟩
  | @cons line line' rest rest' hline _ ih =>
    intro labels labels' address hlabels
    have hunknown := rel_find? (p := (·.kind == .unknown)) (q := (·.kind == .unknown)) hline
      fun t u htu => by rw [htu.kind]
    have hdefine := Labels.Same.defineAll hline.labels address hlabels
    have hstatement := hline.statement
    rw [layOutFrom, layOutFrom]
    generalize line.find? (·.kind == .unknown) = found at hunknown ⊢
    generalize line'.find? (·.kind == .unknown) = found' at hunknown ⊢
    cases hunknown with
    | some htu => exact .error (congrArg Cause.wordUnknown htu.text)
    | none =>
      dsimp only
      generalize labels.defineAll address line.labels = result at hdefine ⊢
      generalize labels'.defineAll address line'.labels = result' at hdefine ⊢
      cases hdefine with
      | error hcause => exact .error hcause
      | ok hnext =>
        dsimp only
        generalize line.statement = tokens at hstatement ⊢
        generalize line'.statement = tokens' at hstatement ⊢
        cases hstatement with
        | nil => exact ih address hnext
        | cons hopcode hoperands =>
          refine (ih (address + 1) hnext).map fun p q hpq => ?_
          exact ⟨.cons ⟨hopcode, hoperands⟩ hpq.instructions, hpq.labels⟩

/-- Resolving an operand asks for its text and for addresses, and neither has to do with places. -/
theorem agree_resolveToken {t u : Token} (h : t.Same u) {labels labels' : Labels}
    (hlabels : labels.Same labels') (address : Nat) :
    Agree (fun r r' => r.1.Same r'.1 ∧ r.2.Same r'.2) (resolveToken labels address t)
      (resolveToken labels' address u) := by
  rw [resolveToken, resolveToken, ← h.kind, ← h.text]
  split
  · exact .ok ⟨h, hlabels⟩
  · have hsymbol := hlabels.symbols.find? t.text
    rw [Labels.useSymbol, Labels.useSymbol]
    generalize labels.symbols.find? t.text = found at hsymbol ⊢
    generalize labels'.symbols.find? t.text = found' at hsymbol ⊢
    cases hsymbol with
    | some ha =>
      refine .ok ⟨⟨congrArg toString ha.1, rfl⟩, ?_, hlabels.locals⟩
      exact hlabels.symbols.modify t.text fun _ _ hab => ⟨hab.1, rfl⟩
    | none =>
      cases numericReference? t.text with
      | none => exact .ok ⟨h, hlabels⟩
      | some reference =>
        obtain ⟨digit, direction⟩ := reference
        dsimp only [Option.map_none]
        rcases hlabels.useNumeric digit direction address with
          ⟨target, m, m', hm, hm', hsame⟩ | ⟨cause, hc, hc'⟩
        · rw [hm, hm']
          exact .ok ⟨⟨rfl, rfl⟩, hsame⟩
        · rw [hc, hc']
          exact .error rfl

theorem agree_resolveTokens {tokens tokens' : List Token} (h : Line.Same tokens tokens')
    (address : Nat) :
    ∀ {labels labels' : Labels}, labels.Same labels' →
      Agree (fun r r' => Line.Same r.1 r'.1 ∧ r.2.Same r'.2) (resolveTokens labels address tokens)
        (resolveTokens labels' address tokens') := by
  induction h with
  | nil => exact fun hlabels => .ok ⟨.nil, hlabels⟩
  | cons htu _ ih =>
    intro labels labels' hlabels
    rw [resolveTokens_cons, resolveTokens_cons]
    refine (agree_resolveToken htu hlabels address).bind fun result result' hresult => ?_
    exact (ih hresult.2).map fun more more' hmore => ⟨.cons hresult.1 hmore.1, hmore.2⟩

theorem agree_resolveFrom {instructions instructions' : List Instruction}
    (h : List.Forall₂ Instruction.Same instructions instructions') :
    ∀ {labels labels' : Labels} (address : Nat), labels.Same labels' →
      Agree Program.Same (resolveFrom labels address instructions)
        (resolveFrom labels' address instructions') := by
  induction h with
  | nil => exact fun _ hlabels => .ok ⟨.nil, hlabels⟩
  | cons hi _ ih =>
    intro labels labels' address hlabels
    rw [resolveFrom_cons, resolveFrom_cons]
    refine (agree_resolveTokens hi.operands address hlabels).bind fun result result' hresult => ?_
    refine (ih (address + 1) hresult.2).map fun p q hpq => ?_
    exact ⟨.cons ⟨hi.opcode, hresult.1⟩ hpq.instructions, hpq.labels⟩

theorem agree_resolve {lines lines' : List Line} (h : SameLines lines lines') :
    Agree Program.Same (resolve lines) (resolve lines') := by
  have hempty : ({} : Labels).Same {} := ⟨.nil, .nil⟩
  rw [resolve_eq, resolve_eq]
  refine (agree_layOutFrom h 0 hempty).bind fun p q hpq => ?_
  exact agree_resolveFrom hpq.instructions 0 hpq.labels

theorem Same.finish {p q : Program} (h : p.Same q) (options : Options) :
    (p.finish options).Same (q.finish options) := by
  rw [Program.finish, Program.finish]
  split
  · have hhalt : Instruction.halt.Same Instruction.halt := ⟨⟨rfl, rfl⟩, .nil⟩
    exact ⟨List.rel_append h.instructions (.cons hhalt .nil), h.labels⟩
  · exact h

end Program

/-! ## The whole way -/

/-- The names of the symbolic labels and the digits of the numeric ones. -/
def UnusedLabels.names (u : UnusedLabels) : List String × List Char :=
  (u.symbolic.map (·.1), u.numeric.map (·.1))

theorem UnusedLabels.isEmpty_eq (u : UnusedLabels) :
    u.isEmpty = (u.names.1.isEmpty && u.names.2.isEmpty) := by
  simp [isEmpty, names]

theorem Labels.Same.names_unused {l l' : Labels} (h : l.Same l') :
    l.unused.map UnusedLabels.names = l'.unused.map UnusedLabels.names := by
  have hsymbolic : l.unusedLabels.symbolic.map (·.1) = l'.unusedLabels.symbolic.map (·.1) := by
    have hfilter : List.Forall₂ (fun x y => x.1 = y.1 ∧ x.2.address = y.2.address ∧
        x.2.used = y.2.used) (l.symbols.entries.filter (!·.2.used))
        (l'.symbols.entries.filter (!·.2.used)) := by
      refine List.rel_filter (fun x y hxy => ?_) h.symbols
      simp only [hxy.2.2]
    simpa [unusedLabels, Function.comp_def] using map_eq_map hfilter fun _ _ hxy => hxy.1
  have hnumeric : l.unusedLabels.numeric.map (·.1) = l'.unusedLabels.numeric.map (·.1) := by
    have hfilter : List.Forall₂ (fun o o' => o.digit = o'.digit ∧ o.address = o'.address ∧
        o.used = o'.used) (l.locals.filter (!·.used)) (l'.locals.filter (!·.used)) := by
      refine List.rel_filter (fun o o' ho => ?_) h.locals
      simp only [ho.2.2]
    simpa [unusedLabels, Function.comp_def] using map_eq_map hfilter fun _ _ ho => ho.1
  have hnames : l.unusedLabels.names = l'.unusedLabels.names := Prod.ext hsymbolic hnumeric
  rw [unused, unused, UnusedLabels.isEmpty_eq, UnusedLabels.isEmpty_eq, hnames]
  split
  · rfl
  · exact congrArg some hnames

/-- The assemblies have the same instructions, the same signals, and the same unused labels. -/
structure Assembly.Same (a b : Assembly) : Prop where
  instructions : List.Forall₂ Instruction.Same a.instructions b.instructions
  signals : a.signals = b.signals
  warning : a.warning.map UnusedLabels.names = b.warning.map UnusedLabels.names

/-- Assemble lines that have been read: expand macros, apply definitions, resolve labels, add the
halt that the options ask for, and encode. -/
def assembleLines (lines : List Line) (options : Options) : Except Diagnostic Assembly := do
  let lines ← expandMacros lines
  let lines ← Definition.substitute lines
  let program ← Program.resolve lines
  let program := program.finish options
  let signals ← Instruction.encodeAll program.instructions
  return ⟨program.instructions, signals, program.labels.unused⟩

theorem assemble_eq (code : String) (options : Options) :
    assemble code options = tokenize code >>= (assembleLines · options) := by
  rw [assemble, preprocess_eq]
  simp only [bind_assoc, pure_bind]
  rfl

theorem agree_assembleLines {lines lines' : List Line} (h : SameLines lines lines')
    (options : Options) :
    Agree Assembly.Same (assembleLines lines options) (assembleLines lines' options) := by
  refine (agree_expandMacros h).bind fun expanded expanded' hexpanded => ?_
  refine (Definition.agree_substituteFrom hexpanded _).bind fun replaced replaced' hreplaced => ?_
  refine (Program.agree_resolve hreplaced).bind fun p q hpq => ?_
  have hfinish := hpq.finish options
  have halike : List.Forall₂ Instruction.Alike (p.finish options).instructions
      (q.finish options).instructions :=
    hfinish.instructions.imp fun i j hij => ⟨hij.opcode.text, hij.operands.imp fun _ _ h => h.alike⟩
  refine (Instruction.agree_encodeAll halike).bind fun signals signals' hsignals => ?_
  exact .ok ⟨hfinish.instructions, hsignals, hfinish.labels.names_unused⟩

/-- The places of the words do not show in what is assembled.  Lines that differ only in them have
the same instructions, signals and unused labels, or fail for the same cause.  So do two source
texts with such lines, however they are spaced and commented. -/
theorem assembly_independent_of_sites (options : Options) :
    (∀ lines lines', SameLines lines lines' →
      Agree Assembly.Same (assembleLines lines options) (assembleLines lines' options)) ∧
    ∀ code code' lines lines', tokenize code = .ok lines → tokenize code' = .ok lines' →
      SameLines lines lines' → Agree Assembly.Same (assemble code options) (assemble code' options) := by
  refine ⟨fun lines lines' h => agree_assembleLines h options, ?_⟩
  intro code code' lines lines' hcode hcode' h
  rw [assemble_eq, assemble_eq, hcode, hcode']
  exact agree_assembleLines h options

/-- A loop that a macro closes, with a label that nothing refers to. -/
def tightLoop : String :=
  "#macro back 1\n0: sub $0,$0,1\nbn 0b\n#endm\n#def n 3\ntop: mov r1,n\nback r1"

/-- The same loop with comments, blank lines and indentation. -/
def airyLoop : String :=
  "; counts down\n#macro back 1\n  0:  sub $0, $0, 1\n\n      bn 0b\n#endm\n\n#def  n  3 ; turns\n" ++
  "top:\tmov r1, n\n\n  back r1 ; again"

/-- Two texts that differ in blanks, comments and empty lines. -/
theorem airyLoop_assembles_as_tightLoop :
    ∃ lines lines', tokenize tightLoop = .ok lines ∧ tokenize airyLoop = .ok lines' ∧
      lines ≠ lines' ∧ SameLines lines lines' ∧
      ∃ a b, assemble tightLoop {} = .ok a ∧ assemble airyLoop {} = .ok b ∧ a.Same b := by
  have hwords : ∃ lines ∈ (tokenize tightLoop).toOption, ∃ lines' ∈ (tokenize airyLoop).toOption,
      lines ≠ lines' ∧ SameLines lines lines' := by decide +kernel
  obtain ⟨lines, htight, lines', hairy, hne, hsame⟩ := hwords
  rw [Option.mem_def, toOption_eq_some] at htight hairy
  have hagree := (assembly_independent_of_sites {}).2 _ _ _ _ htight hairy hsame
  obtain ⟨a, ha⟩ : ∃ a, assemble tightLoop {} = .ok a := exists_eq_ok (by decide +kernel)
  obtain ⟨b, hb, hab⟩ := hagree.exists_ok ha
  exact ⟨lines, lines', htight, hairy, hne, hsame, a, b, ha, hb, hab⟩

end CircuitRom
