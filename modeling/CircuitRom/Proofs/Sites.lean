import CircuitRom.Proofs.Delimiters
import CircuitRom.Proofs.Scanning

/-!
# Sites of tokens

A token gets its site when its line is read, and it is a place of the source text.  A token that a
macro call copies from the macro's body stands at the call or at an argument, and remembers the
place it was copied from.  So whatever holds of the sites of all tokens before macros are expanded
holds of them afterwards, and of the sites in every fault that is found on the way.
-/

namespace CircuitRom

variable {P : Site → Prop}

/-! ## Sites of tokens and of faults -/

/-- The sites of the token have a property. -/
structure Token.Placed (P : Site → Prop) (t : Token) : Prop where
  site : P t.site
  origin : ∀ s, t.origin = some s → P s

/-- The sites of all tokens of the line have a property. -/
def Line.Placed (P : Site → Prop) (line : Line) : Prop := ∀ t ∈ line, t.Placed P

/-- The site of the fault and those of its notes have a property. -/
structure Diagnostic.Placed (P : Site → Prop) (d : Diagnostic) : Prop where
  site : P d.site
  notes : ∀ note ∈ d.notes, P note.site

/-- The run ends with a result that has a property, or with a fault whose sites have theirs. -/
abbrev Traced {α : Type} (P : Site → Prop) (Q : α → Prop) (x : Except Diagnostic α) : Prop :=
  Outcome (Diagnostic.Placed P) Q x

/-- A fault at a token is at the token's places. -/
theorem Token.Placed.atToken {t : Token} (h : t.Placed P) (cause : Cause) :
    (Diagnostic.atToken cause t).Placed P := by
  refine ⟨h.site, fun note hnote => ?_⟩
  obtain ⟨s, hs, rfl⟩ := List.mem_map.1 hnote
  exact h.origin s (Option.mem_toList.1 hs)

theorem Diagnostic.Placed.withNote {d : Diagnostic} (h : d.Placed P) {s : Site} (hs : P s)
    (text : String) : (d.withNote text s).Placed P := by
  refine ⟨h.site, fun note hnote => ?_⟩
  rcases List.mem_append.1 hnote with hnote | hnote
  · exact h.notes note hnote
  · rw [List.mem_singleton.1 hnote]
    exact hs

theorem Line.Placed.mono {line part : Line} (h : line.Placed P) (hpart : ∀ t ∈ part, t ∈ line) :
    part.Placed P :=
  fun t ht => h t (hpart t ht)

theorem Line.Placed.statement {line : Line} (h : line.Placed P) : line.statement.Placed P :=
  h.mono fun _ ht => List.mem_of_mem_drop ht

/-! ## Reading lines -/

namespace Lexeme

/-- A lexeme starts inside the text that is scanned. -/
theorem col_lt_of_mem_scan {l : Lexeme} {cs : List Char} :
    ∀ {col : Nat}, l ∈ scan col cs → l.col < col + cs.length := by
  induction cs with
  | nil => exact fun h => absurd h List.not_mem_nil
  | cons c rest ih =>
    intro col h
    rw [List.length_cons]
    rw [scan] at h
    split at h
    · have := ih h
      omega
    · split at h
      · rcases List.mem_cons.1 h with rfl | h
        · exact Nat.lt_add_of_pos_right (Nat.succ_pos _)
        · have := ih h
          omega
      · rcases mem_join h with hcol | h
        · omega
        · have := ih h
          omega

/-- The tokens of a line stand where its lexemes do, and so do the faults that are found there. -/
theorem traced_classify {number : Nat} {raw : String} {lexemes : List Lexeme} :
    ∀ {named : Bool} {previous : Option Token}, (∀ l ∈ lexemes, P ⟨number, l.col, raw⟩) →
      (∀ t, previous = some t → t.Placed P) →
      Traced P (Line.Placed P) (classify number raw named previous lexemes) := by
  induction lexemes with
  | nil => exact fun _ _ => .ok (List.forall_mem_nil _)
  | cons l rest ih =>
    intro named previous hlexemes hprevious
    obtain ⟨hl, hrest⟩ := List.forall_mem_cons.1 hlexemes
    have htoken : ∀ kind, (l.token number raw kind).Placed P := fun _ => ⟨hl, by simp [token]⟩
    have hnext : ∀ kind t, some (l.token number raw kind) = some t → t.Placed P := by
      rintro kind t ⟨⟩
      exact htoken kind
    rw [classify]
    split
    · split
      · refine (ih hrest (hnext .colon)).map fun tail htail => ?_
        exact List.forall_mem_cons.2 ⟨htoken .colon, htail⟩
      · refine .error ?_
        cases previous with
        | none => exact (htoken .colon).atToken _
        | some t => exact (hprevious t rfl).atToken _
    · refine (ih hrest (hnext _)).map fun tail htail => ?_
      exact List.forall_mem_cons.2 ⟨htoken _, htail⟩

end Lexeme

/-- The site is a place of the text: it has the number and the characters of one of its lines, and
a column of that line. -/
structure Site.IsIn (code : String) (s : Site) : Prop where
  one_le : 1 ≤ s.line
  le_length : s.line ≤ (Text.lines code.toList).length
  raw : (Text.lines code.toList)[s.line - 1]? = some s.raw.toList
  col_lt : s.col < s.raw.length

/-- The tokens of a line lie in it, and so does a stray colon. -/
theorem traced_lexLine {code : String} {number : Nat} {raw : List Char} (hnumber : 1 ≤ number)
    (h : (Text.lines code.toList)[number - 1]? = some raw) :
    Traced (Site.IsIn code) (Line.Placed (Site.IsIn code)) (lexLine number raw) := by
  refine Lexeme.traced_classify (fun l hl => ?_) (by simp)
  obtain ⟨hlength, -⟩ := List.getElem?_eq_some_iff.1 h
  have hcol : l.col < 0 + (codePart raw).length := Lexeme.col_lt_of_mem_scan hl
  have hcode : (codePart raw).length ≤ raw.length := (List.takeWhile_sublist _).length_le
  refine ⟨hnumber, ?_, ?_, ?_⟩
  · show number ≤ _
    omega
  · rw [String.toList_ofList]
    exact h
  · rw [String.length_ofList]
    show l.col < _
    omega

theorem traced_tokenize (code : String) :
    Traced (Site.IsIn code) (fun lines => ∀ line ∈ lines, line.Placed (Site.IsIn code))
      (tokenize code) := by
  have hlines : ∀ entry ∈ (Text.lines code.toList).zipIdx 1,
      Traced (Site.IsIn code) (Line.Placed (Site.IsIn code)) (lexLine entry.2 entry.1) := by
    intro entry hentry
    obtain ⟨hnumber, hline⟩ := List.mk_mem_zipIdx_iff_le_and_getElem?_sub.1 hentry
    exact traced_lexLine hnumber hline
  refine (Outcome.mapM hlines).bind fun lines hlines => .ok ?_
  exact fun line hline => hlines line (List.mem_of_mem_filter hline)

/-! ## Declarations of macros -/

/-- The sites of the macro's head and body have a property. -/
structure Macro.Placed (P : Site → Prop) (m : Macro) : Prop where
  head : m.head.Placed P
  body : ∀ line ∈ m.body, line.Placed P

namespace MacroSearch

/-- The sites of all declarations, finished or not, have a property. -/
structure Placed (P : Site → Prop) (s : MacroSearch) : Prop where
  table : ∀ entry ∈ s.table.entries, entry.2.Placed P
  pending : ∀ m, s.pending = some m → m.Placed P

variable {s : MacroSearch} {index : Nat}

theorem Placed.start (hs : s.Placed P) {head : Token} {rest : List Token} (hhead : head.Placed P)
    (hrest : Line.Placed P rest) : Traced P (Placed P) (s.start index head rest) := by
  unfold MacroSearch.start
  split
  · exact .error (hhead.atToken _)
  · split
    · next name count =>
      have hname := hrest name (by simp)
      have hcount := hrest count (by simp)
      split
      · exact .error (hname.atToken _)
      · split
        · exact .error (hcount.atToken _)
        · refine .ok ⟨hs.table, ?_⟩
          rintro m ⟨⟩
          exact ⟨hhead, List.forall_mem_nil _⟩
    · exact .error (hhead.atToken _)

theorem Placed.finish (hs : s.Placed P) {head : Token} (hhead : head.Placed P) :
    Traced P (Placed P) (s.finish index head) := by
  rw [MacroSearch.finish]
  split
  · exact .error (hhead.atToken _)
  · next m hm =>
    have hplaced := hs.pending m hm
    refine .ok ⟨Dictionary.forall_mem_put ⟨hplaced.head, hplaced.body⟩ hs.table, ?_⟩
    rintro m' ⟨⟩

theorem Placed.keep (hs : s.Placed P) {line : Line} (hline : line.Placed P) :
    Traced P (Placed P) (s.keep line) := by
  rw [MacroSearch.keep]
  split
  · exact .ok hs
  · next m hm =>
    split
    · next label hlabel =>
      exact .error ((hline label (List.mem_of_find?_eq_some hlabel)).atToken _)
    · refine .ok ⟨hs.table, ?_⟩
      rintro m' ⟨⟩
      have hplaced := hs.pending m hm
      exact ⟨hplaced.head, List.forall_mem_append.2
        ⟨hplaced.body, List.forall_mem_singleton.2 hline⟩⟩

theorem Placed.step (hs : s.Placed P) {line : Line} (hline : line.Placed P) :
    Traced P (Placed P) (s.step index line) := by
  unfold MacroSearch.step
  split
  · exact .ok hs
  · next head rest =>
    obtain ⟨hhead, hrest⟩ := List.forall_mem_cons.1 hline
    split
    · exact hs.start hhead hrest
    · split
      · exact hs.finish hhead
      · exact hs.keep hline

theorem Placed.run {lines : List Line} (hlines : ∀ line ∈ lines, line.Placed P) :
    ∀ {s : MacroSearch} (index : Nat), s.Placed P → Traced P (Placed P) (s.run index lines) := by
  induction lines with
  | nil => exact fun _ hs => .ok hs
  | cons line rest ih =>
    intro s index hs
    obtain ⟨hline, hrest⟩ := List.forall_mem_cons.1 hlines
    rw [run_cons]
    exact (hs.step hline).bind fun s' hs' => ih hrest (index + 1) hs'

end MacroSearch

namespace MacroTable

/-- The sites of all macros have a property. -/
def Placed (P : Site → Prop) (table : MacroTable) : Prop := ∀ m ∈ table.values, m.Placed P

/-- Declarations keep the places of their lines, and so do their faults. -/
theorem traced_collect {lines : List Line} (hlines : ∀ line ∈ lines, line.Placed P) :
    Traced P (Placed P) (collect lines) := by
  have hempty : MacroSearch.Placed P {} := ⟨List.forall_mem_nil _, by simp⟩
  have hrun := MacroSearch.Placed.run hlines 0 hempty
  rw [collect]
  cases hresult : MacroSearch.run {} 0 lines with
  | error e =>
    rw [hresult] at hrun
    exact .error hrun.of_error
  | ok s =>
    rw [hresult] at hrun
    have hs := hrun.of_ok
    cases hpending : s.pending with
    | some m =>
      simp only [hpending]
      exact .error ((hs.pending m hpending).head.atToken _)
    | none =>
      simp only [hpending]
      refine .ok fun m hm => ?_
      obtain ⟨entry, hentry, rfl⟩ := List.mem_map.1 hm
      exact hs.table entry hentry

variable {table : MacroTable}

theorem traced_dependencies (table : MacroTable) {m : Macro} (hm : m.Placed P) :
    Traced P (fun _ => True) (table.dependencies m) := by
  rw [dependencies]
  split
  · next token htoken =>
    obtain ⟨line, hline, hmem⟩ := List.mem_flatten.1 (List.mem_of_find?_eq_some htoken)
    exact .error ((hm.body line hline token hmem).atToken _)
  · exact .ok trivial

/-- A circle is reported at the head of one of its macros. -/
theorem placed_circleFault (h : table.Placed P) {nodes : List Nat} {fault : Diagnostic}
    (hfault : table.circleFault nodes = some fault) : fault.Placed P := by
  obtain ⟨m, hm, rfl⟩ := Option.map_eq_some_iff.1 hfault
  obtain ⟨node, -, hnode⟩ := List.mem_filterMap.1 (List.mem_of_head? hm)
  exact (h m (List.mem_of_getElem? hnode)).head.atToken _

/-- The check fails at a place in one of the macros. -/
theorem traced_check (h : table.Placed P) : Traced P (fun _ => True) table.check := by
  have hgraph : Traced P (fun _ => True) table.graph :=
    (Outcome.mapM fun m hm => traced_dependencies table (h m hm)).imp (fun _ he => he)
      fun _ _ => trivial
  refine hgraph.bind fun edges _ => ?_
  split
  · exact .ok trivial
  · split
    · next fault hfault => exact .error (placed_circleFault h hfault)
    · exact .ok trivial

end MacroTable

/-! ## Expansion of calls -/

namespace Call

/-- The sites of the call and of its macro have a property. -/
structure Placed (P : Site → Prop) (call : Call) : Prop where
  target : call.target.Placed P
  labels : call.labels.Placed P
  name : call.name.Placed P
  arguments : Line.Placed P call.arguments

variable {call : Call}

/-- A copied token stands at the call or at an argument, and comes from the body. -/
theorem Placed.instantiate (h : call.Placed P) {t : Token} (ht : t.Placed P) :
    Traced P (Token.Placed P) (call.instantiate t) := by
  unfold Call.instantiate
  split
  · split
    · exact .error ((ht.atToken _).withNote h.name.site _)
    · next n _ =>
      split
      · exact .error ((ht.atToken _).withNote h.name.site _)
      · next argument hargument =>
        have hplaced := h.arguments argument (List.mem_of_getElem? hargument)
        refine .ok ⟨hplaced.site, ?_⟩
        rintro s ⟨⟩
        exact ht.site
  · refine .ok ⟨h.name.site, ?_⟩
    rintro s ⟨⟩
    exact ht.site

/-- A copy is placed at the call or at an argument, and it remembers its place in the body. -/
theorem Placed.expand (h : call.Placed P) :
    Traced P (fun lines => ∀ line ∈ lines, line.Placed P) call.expand := by
  rw [Call.expand]
  split
  · exact .error (h.name.atToken _)
  · have hbody : Traced P (fun lines => ∀ line ∈ lines, Line.Placed P line)
        (call.target.body.mapM fun (line : Line) => line.mapM call.instantiate) :=
      Outcome.mapM fun line hline =>
        Outcome.mapM fun t ht => h.instantiate (h.target.body line hline t ht)
    refine hbody.map fun lines hlines => ?_
    split
    · exact hlines
    · exact List.forall_mem_cons.2 ⟨h.labels, hlines⟩

end Call

namespace MacroTable

variable {table : MacroTable} {lines : List Line}

theorem Placed.call? (h : table.Placed P) {line : Line} {call : Call} (hline : line.Placed P)
    (hcall : table.call? line = some call) : call.Placed P := by
  obtain ⟨name, rest, m, hstatement, -, hm, rfl⟩ := call?_eq_some_iff.1 hcall
  have htokens : Line.Placed P (name :: rest) := by
    rw [← hstatement]
    exact hline.statement
  obtain ⟨hname, hrest⟩ := List.forall_mem_cons.1 htokens
  refine ⟨h m (mem_values_of_find? hm).1, ?_, hname, ?_⟩
  · exact hline.mono fun _ ht => List.mem_of_mem_take ht
  · exact Line.Placed.mono hrest fun _ ht => List.mem_of_mem_filter ht

theorem Placed.expandLine (h : table.Placed P) {line : Line} (hline : line.Placed P) :
    Traced P (fun lines => ∀ line ∈ lines, line.Placed P) (table.expandLine line) := by
  rw [MacroTable.expandLine]
  split
  · exact .ok (List.forall_mem_singleton.2 hline)
  · next call hcall => exact (h.call? hline hcall).expand

theorem Placed.round (h : table.Placed P) (hlines : ∀ line ∈ lines, line.Placed P) :
    Traced P (fun result => ∀ line ∈ result.2, line.Placed P) (table.round lines) := by
  induction lines with
  | nil => exact .ok (List.forall_mem_nil _)
  | cons line rest ih =>
    obtain ⟨hline, hrest⟩ := List.forall_mem_cons.1 hlines
    rw [round_cons]
    refine (ih hrest).bind fun result hresult => ?_
    refine (h.expandLine hline).bind fun part hpart => .ok ?_
    exact List.forall_mem_append.2 ⟨hpart, hresult⟩

theorem Placed.settle (h : table.Placed P) (limit : Nat) :
    ∀ (left : Nat) {lines : List Line}, (∀ line ∈ lines, line.Placed P) →
      Traced P (fun lines => ∀ line ∈ lines, line.Placed P) (table.settle limit left lines) := by
  intro left
  induction left with
  | zero =>
    intro lines hlines
    rw [MacroTable.settle]
    split
    · next call hcall =>
      obtain ⟨line, hline, hcall⟩ := List.exists_of_findSome?_eq_some hcall
      exact .error ((h.call? (hlines line hline) hcall).name.atToken _)
    · exact .ok hlines
  | succ left ih =>
    intro lines hlines
    rw [settle_succ]
    refine (h.round hlines).bind fun result hresult => ?_
    obtain ⟨changed, after⟩ := result
    cases changed with
    | true => exact ih hresult
    | false => exact .ok hresult

end MacroTable

/-- After expansion all tokens, and all faults on the way, lie where the program did. -/
theorem traced_expandMacros {lines : List Line} (hlines : ∀ line ∈ lines, line.Placed P) :
    Traced P (fun lines => ∀ line ∈ lines, line.Placed P) (expandMacros lines) := by
  refine (MacroTable.traced_collect hlines).bind fun table htable => ?_
  refine (MacroTable.traced_check htable).bind fun _ _ => ?_
  refine htable.settle roundLimit roundLimit fun line hline => ?_
  exact hlines line (MacroTable.mem_of_mem_strip hline)

end CircuitRom
