import CircuitRom.Proofs.Blocks
import CircuitRom.Proofs.Call
import CircuitRom.Proofs.Inlining
import CircuitRom.Proofs.MarkedSearch
import CircuitRom.Proofs.Scanning

/-!
# Reading and expanding by position

Words are cut out of a line by the positions where they begin and end, the declarations of macros
are taken out of the lines by the positions of their blocks, and a round of expansion goes through
the lines from the last position to the first.  The stages are written here in this way, with every
position checked where it is used, and shown to come to what `tokenize` and `expandMacros` come to:
no position is ever out of range.
-/

namespace CircuitRom

variable {ε : Type}

/-! ## Cutting lines into lexemes -/

namespace Lexeme

/-- The word up to a position, if one has begun before it. -/
def wordUpTo (code : List Char) (stop : Nat) : Option Nat → Access ε (List Lexeme)
  | none => return []
  | some start => return [⟨start, ← Access.slice code start stop⟩]

/-- The lexemes of the last characters of a line, from a position on, with the position where a
word has begun before them. -/
def cutAt (code : List Char) (i : Nat) (start : Option Nat) : List Char → Access ε (List Lexeme)
  | [] => wordUpTo code i start
  | c :: rest =>
    if isWordChar c then cutAt code (i + 1) (some (start.getD i)) rest
    else do
      let word ← wordUpTo code i start
      let lexemes ← cutAt code (i + 1) none rest
      return word ++ if isMark c then ⟨i, [c]⟩ :: lexemes else lexemes

/-- Where a word begins that may still be empty. -/
def startOf (col : Nat) (w : List Char) : Option Nat := if w = [] then none else some col

/-- A word that may be empty, as lexemes. -/
def wordAt (col : Nat) (w : List Char) : List Lexeme := if w = [] then [] else [⟨col, w⟩]

/-- The word that ends here is cut out between positions that are both in the line. -/
theorem wordUpTo_eq (before w rest : List Char) :
    (wordUpTo (before ++ w ++ rest) (before.length + w.length) (startOf before.length w) :
      Access ε (List Lexeme)) = pure (wordAt before.length w) := by
  unfold startOf wordAt
  by_cases hw : w = []
  · simp [hw, wordUpTo]
  · simp [hw, wordUpTo, Access.slice_append, -List.append_assoc]

/-- Scanning a word at once or character by character comes to the same. -/
theorem scan_wordAt {w rest : List Char} (hw : ∀ c ∈ w, isWordChar c = true) (hrest : Stops rest)
    (col : Nat) : scan col (w ++ rest) = wordAt col w ++ scan (col + w.length) rest := by
  unfold wordAt
  by_cases hne : w = []
  · simp [hne]
  · rw [if_neg hne, scan_run hw hne hrest]
    rfl

theorem scan_of_not_isWordChar {c : Char} (h : isWordChar c = false) (col : Nat)
    (rest : List Char) : scan col (c :: rest) =
      if isMark c then ⟨col, [c]⟩ :: scan (col + 1) rest else scan (col + 1) rest := by
  by_cases hmark : isMark c = true
  · rw [scan_of_isMark rest hmark, if_pos hmark]
  · have hblank : Text.isBlank c = true := by
      simpa [isWordChar, hmark] using h
    rw [scan, if_pos hblank, if_neg hmark]

/-- Cutting a line by positions gives its lexemes.  The induction is on the characters still to be
read; `w` is the word that has been read so far. -/
theorem cutAt_eq (rest : List Char) :
    ∀ before w : List Char, (∀ c ∈ w, isWordChar c = true) →
      (cutAt (before ++ w ++ rest) (before.length + w.length) (startOf before.length w) rest :
        Access ε (List Lexeme)) = pure (scan before.length (w ++ rest)) := by
  induction rest with
  | nil =>
    intro before w hw
    have hstops : Stops [] := by simp [Stops]
    rw [cutAt, wordUpTo_eq, scan_wordAt hw hstops, scan, List.append_nil]
  | cons c rest ih =>
    intro before w hw
    rw [cutAt]
    by_cases hc : isWordChar c = true
    · -- the character is added to the word
      have hstart : some ((startOf before.length w).getD (before.length + w.length)) =
          startOf before.length (w ++ [c]) := by
        by_cases hne : w = [] <;> simp [startOf, hne]
      have hword : ∀ d ∈ w ++ [c], isWordChar d = true := by
        simpa [or_imp, forall_and] using ⟨hw, hc⟩
      rw [if_pos hc, hstart]
      simpa [Nat.add_assoc] using ih before (w ++ [c]) hword
    · -- the word ends before the character, and the next one has not begun
      have hc' : isWordChar c = false := by simpa using hc
      have hstops : Stops (c :: rest) := by
        refine stops_cons rest ?_
        by_contra hnone
        simp only [not_or, Bool.not_eq_true] at hnone
        exact hc (isWordChar_iff.2 hnone)
      have hnext : (cutAt (before ++ w ++ c :: rest) (before.length + w.length + 1) none rest :
          Access ε (List Lexeme)) = pure (scan (before.length + w.length + 1) rest) := by
        simpa [startOf, Nat.add_assoc] using ih (before ++ w ++ [c]) [] (by simp)
      rw [if_neg hc, wordUpTo_eq, scan_wordAt hw hstops, scan_of_not_isWordChar hc', pure_bind,
        hnext, pure_bind]

end Lexeme

/-- The tokens of one source line, cut by positions. -/
def lexLineAt (number : Nat) (raw : List Char) : Access Diagnostic Line := do
  let lexemes ← Lexeme.cutAt (codePart raw) 0 none (codePart raw)
  Access.ofExcept (Lexeme.classify number (String.ofList raw) false none lexemes)

/-- The tokens of a source text, cut by positions. -/
def tokenizeAt (code : String) : Access Diagnostic (List Line) := do
  let lines ← ((Text.lines code.toList).zipIdx 1).mapM fun line => lexLineAt line.2 line.1
  return lines.filter (!·.isEmpty)

theorem lexLineAt_eq (number : Nat) (raw : List Char) :
    lexLineAt number raw = Access.ofExcept (lexLine number raw) := by
  have hcut : (Lexeme.cutAt (codePart raw) 0 none (codePart raw) : Access Diagnostic _) =
      pure (Lexeme.scan 0 (codePart raw)) := by
    simpa [Lexeme.startOf] using Lexeme.cutAt_eq (codePart raw) [] [] (by simp)
  rw [lexLineAt, hcut, pure_bind, lexLine]

/-- The lexer never looks outside of a line. -/
theorem tokenizeAt_eq (code : String) : tokenizeAt code = Access.ofExcept (tokenize code) := by
  refine Access.bind_eq_ofExcept (Access.mapM_eq_ofExcept fun line _ => ?_) fun _ _ => rfl
  exact lexLineAt_eq line.2 line.1

/-! ## Finding declarations -/

namespace MacroSearch

/-- Read the line at a position, of which the first token decides what it is. -/
def stepAt (s : MacroSearch) (index : Nat) (line : Line) : Access Diagnostic MacroSearch := do
  let head ← Access.get line 0
  if head.isDirective "#macro" then Access.ofExcept (s.start index head line.tail)
  else if head.isDirective "#endm" then Access.ofExcept (s.finish index head)
  else Access.ofExcept (s.keep line)

/-- Read the lines from a position on. -/
def runAt (s : MacroSearch) (index : Nat) : List Line → Access Diagnostic MacroSearch
  | [] => return s
  | line :: rest => do
    let s ← s.stepAt index line
    s.runAt (index + 1) rest

/-- Reading a declaration looks at the head of its line, which is there. -/
theorem stepAt_eq (s : MacroSearch) (index : Nat) {line : Line} (h : line ≠ []) :
    s.stepAt index line = Access.ofExcept (s.step index line) := by
  cases line with
  | nil => exact absurd rfl h
  | cons head rest =>
    rw [stepAt, step, Access.get_zero_cons, pure_bind]
    split
    · rfl
    · split <;> rfl

theorem runAt_eq {lines : List Line} (h : ∀ line ∈ lines, line ≠ []) (s : MacroSearch)
    (index : Nat) : s.runAt index lines = Access.ofExcept (s.run index lines) := by
  induction lines generalizing s index with
  | nil => rfl
  | cons line rest ih =>
    obtain ⟨hline, hrest⟩ := List.forall_mem_cons.1 h
    rw [runAt, run_cons]
    exact Access.bind_eq_ofExcept (s.stepAt_eq index hline) fun s' _ => ih hrest s' (index + 1)

end MacroSearch

namespace MacroTable

variable {table : MacroTable} {lines : List Line}

/-- The declarations of a program. -/
def collectAt (lines : List Line) : Access Diagnostic MacroTable := do
  let s ← MacroSearch.runAt {} 0 lines
  match s.pending with
  | some m => Access.ofExcept (.error (.atToken (.macroUnclosed m.name) m.head))
  | none => return s.table

/-- Collecting macros stays in range on lines that are not empty. -/
theorem collectAt_eq (h : ∀ line ∈ lines, line ≠ []) :
    collectAt lines = Access.ofExcept (collect lines) := by
  rw [collectAt, collect, MacroSearch.runAt_eq h]
  cases hrun : MacroSearch.run {} 0 lines with
  | error e => rfl
  | ok s =>
    rw [Access.ofExcept_ok, pure_bind]
    cases hpending : s.pending <;> simp [hpending]

/-! ## Removing declarations -/

/-- The lines without the declarations, of which the one that starts last is removed first. -/
def stripAt (table : MacroTable) (lines : List Line) : Access ε (List Line) :=
  (table.values.mergeSort fun a b => b.first ≤ a.first).foldlM
    (fun lines m => Access.splice lines m.first (m.last + 1) []) lines

/-- Declarations that lie one behind the other are sorted the other way round. -/
theorem mergeSort_blocks {macros : List Macro} (hblocks : ∀ m ∈ macros, m.first < m.last)
    (hascend : macros.Pairwise fun a b => a.last < b.first) :
    (macros.mergeSort fun a b => b.first ≤ a.first) = macros.reverse := by
  have hfirst : macros.Pairwise fun a b => a.first < b.first :=
    hascend.imp_of_mem fun ha _ hab => Nat.lt_trans (hblocks _ ha) hab
  have hnodup : (macros.map (·.first)).Nodup :=
    List.pairwise_map.2 (hfirst.imp fun hab => Nat.ne_of_lt hab)
  have hsorted : (macros.mergeSort fun a b => b.first ≤ a.first).Pairwise
      fun a b => decide (b.first ≤ a.first) = true := by
    refine List.pairwise_mergeSort (fun a b c hab hbc => ?_) (fun a b => ?_) macros
    · simp only [decide_eq_true_eq] at hab hbc ⊢
      exact Nat.le_trans hbc hab
    · simpa using Nat.le_total b.first a.first
  have hreverse : macros.reverse.Pairwise fun a b => decide (b.first ≤ a.first) = true := by
    rw [List.pairwise_reverse]
    exact hfirst.imp fun hab => by simpa using Nat.le_of_lt hab
  have hperm := (List.mergeSort_perm macros fun a b => b.first ≤ a.first).trans
    (List.reverse_perm macros).symm
  refine List.Perm.eq_of_pairwise (fun a b ha hb hab hba => ?_) hsorted hreverse hperm
  simp only [decide_eq_true_eq] at hab hba
  rw [List.mem_mergeSort] at ha
  exact List.inj_on_of_nodup_map hnodup ha (List.mem_reverse.1 hb) (Nat.le_antisymm hba hab)

/-- Blocks further on can be removed without touching the lines up to a position. -/
theorem le_length_foldr_removeBlock {k : Nat} {macros : List Macro} (hk : k ≤ lines.length)
    (h : ∀ m ∈ macros, k ≤ m.first) :
    k ≤ (macros.foldr (fun m lines => removeBlock m.first m.last lines) lines).length := by
  induction macros with
  | nil => exact hk
  | cons m macros ih =>
    obtain ⟨hm, hmacros⟩ := List.forall_mem_cons.1 h
    have hrest := ih hmacros
    rw [List.foldr_cons, removeBlock, List.length_append, List.length_take]
    omega

/-- Blocks are removed from the last to the first, so each one still is where it was found. -/
theorem foldrM_splice {macros : List Macro}
    (hblocks : ∀ m ∈ macros, m.first < m.last ∧ m.last < lines.length)
    (hascend : macros.Pairwise fun a b => a.last < b.first) :
    (macros.foldrM (fun m lines => Access.splice lines m.first (m.last + 1) []) lines :
      Access ε (List Line)) =
      pure (macros.foldr (fun m lines => removeBlock m.first m.last lines) lines) := by
  induction macros with
  | nil => rfl
  | cons m macros ih =>
    obtain ⟨hm, hmacros⟩ := List.forall_mem_cons.1 hblocks
    obtain ⟨hbehind, hrest⟩ := List.pairwise_cons.1 hascend
    have hlength : m.last + 1 ≤
        (macros.foldr (fun m lines => removeBlock m.first m.last lines) lines).length :=
      le_length_foldr_removeBlock hm.2 hbehind
    rw [List.foldrM_cons, ih hmacros hrest, pure_bind, Access.splice_of_le (by omega) hlength,
      List.append_nil]
    rfl

/-- Removing the declarations stays in range, because they are blocks of the program. -/
theorem stripAt_eq (hlines : ∀ line ∈ lines, line ≠ []) (h : collect lines = .ok table) :
    (table.stripAt lines : Access ε (List Line)) = pure (table.strip lines) := by
  obtain ⟨hblocks, hascend⟩ := blocks_of_collect hlines h
  rw [stripAt, mergeSort_blocks (fun m hm => (hblocks m hm).first_lt_last) hascend,
    List.foldlM_reverse]
  exact foldrM_splice (fun m hm => ⟨(hblocks m hm).first_lt_last, (hblocks m hm).last_lt_length⟩)
    hascend

/-! ## Calls -/

/-- The macro that a line calls, and the position of its name. -/
def calledAt? (table : MacroTable) (l : Line) : Option (Macro × Nat) :=
  (l[2 * l.labelCount]?).bind fun name =>
    if name.isDelimiter then none
    else (table.find? name.text).map fun m => (m, 2 * l.labelCount)

/-- The call that a line makes of a macro named at a position. -/
def callAt (m : Macro) (line : Line) (position : Nat) : Access ε Call := do
  let (labels, statement) ← Access.splitOff line position
  let name ← Access.get statement 0
  let (_, rest) ← Access.splitOff statement 1
  return ⟨m, labels, name, rest.filter (!·.isDelimiter)⟩

end MacroTable

/-- Each label has a colon, so twice their number fits into the line. -/
theorem Line.two_mul_labelCount_le (line : Line) : 2 * line.labelCount ≤ line.length := by
  induction line using labelCount.induct with
  | case1 label colon rest hlabel ih =>
    rw [labelCount, if_pos hlabel, List.length_cons, List.length_cons]
    omega
  | case2 label colon rest hlabel =>
    rw [labelCount, if_neg hlabel]
    exact Nat.zero_le _
  | case3 line hline =>
    rw [labelCount.eq_2 line hline]
    exact Nat.zero_le _

/-- The labels of a line can be cut off. -/
theorem Line.splitOff_labels (line : Line) :
    (Access.splitOff line (2 * line.labelCount) : Access ε (Line × Line)) =
      pure (line.labelPart, line.statement) :=
  Access.splitOff_of_le line.two_mul_labelCount_le

namespace MacroTable

variable {table : MacroTable} {lines : List Line}

theorem calledAt?_eq_none {l : Line} (h : table.call? l = none) : table.calledAt? l = none := by
  have hname : l[2 * l.labelCount]? = l.statement.head? := by
    rw [Line.statement, List.head?_drop]
  rw [calledAt?, hname]
  rw [call?] at h
  split at h
  · next hnil => simp [hnil]
  · next name rest hcons =>
    split at h
    · next hdelimiter => simp [hcons, hdelimiter]
    · next hdelimiter => simp_all

/-- The name of a call stands right behind the labels and their colons. -/
theorem calledAt?_eq_some {l : Line} {call : Call} (h : table.call? l = some call) :
    table.calledAt? l = some (call.target, 2 * l.labelCount) ∧
      l[2 * l.labelCount]? = some call.name := by
  obtain ⟨name, rest, m, hstatement, hdelimiter, hm, rfl⟩ := call?_eq_some_iff.1 h
  have hname : l[2 * l.labelCount]? = some name := by
    rw [← List.head?_drop, ← Line.statement, hstatement]
    rfl
  exact ⟨by simp [calledAt?, hname, hdelimiter, hm], hname⟩

theorem callAt_eq {line : Line} {call : Call} (h : table.call? line = some call) :
    (callAt call.target line (2 * line.labelCount) : Access ε Call) = pure call := by
  obtain ⟨name, rest, m, hstatement, -, -, rfl⟩ := call?_eq_some_iff.1 h
  rw [callAt, Line.splitOff_labels, pure_bind]
  simp [hstatement]

/-! ## Rounds of expansion -/

/-- Expand the calls at the positions before the given one, from the last to the first, and note
whether there was any.  A line is taken out while it is expanded. -/
def roundAt (table : MacroTable) : Nat → Bool → List Line → Access Diagnostic (Bool × List Line)
  | 0, changed, lines => return (changed, lines)
  | i + 1, changed, lines => do
    let line ← Access.get lines i
    match table.calledAt? line with
    | none => table.roundAt i changed lines
    | some (m, position) => do
      let lines ← Access.set lines i []
      let call ← callAt m line position
      let new ← Access.ofExcept call.expand
      let lines ← Access.splice lines i (i + 1) new
      table.roundAt i true lines

/-- Rounds of expansion until one finds no call. -/
def settleAt (table : MacroTable) (limit : Nat) : Nat → List Line → Access Diagnostic (List Line)
  | 0, lines =>
    match lines.findSome? fun line => (table.calledAt? line).map fun call => (line, call.2) with
    | some (line, position) => do
      let name ← Access.get line position
      Access.ofExcept (.error (.atToken (.expansionUnsettled limit) name))
    | none => return lines
  | left + 1, lines => do
    let (changed, lines) ← table.roundAt lines.length false lines
    if changed then table.settleAt limit left lines else return lines

/-- The last line is expanded first. -/
theorem round_concat (line : Line) :
    table.round (lines ++ [line]) = (do
      let new ← table.expandLine line
      let (changed, before) ← table.round lines
      return (changed || (table.call? line).isSome, before ++ new)) := by
  induction lines with
  | nil =>
    rw [List.nil_append, round_cons, round]
    cases table.expandLine line <;> simp [bind, Except.bind, pure, Except.pure]
  | cons first rest ih =>
    rw [List.cons_append, round_cons, ih, round_cons]
    cases table.expandLine line <;> cases table.round rest <;> cases table.expandLine first <;>
      simp [bind, Except.bind, pure, Except.pure, Bool.or_right_comm]

/-- A round by position does what a round does.  The induction is on the lines still to be
expanded, from the last to the first. -/
theorem roundAt_eq (before : List Line) :
    ∀ (changed : Bool) (after : List Line),
      table.roundAt before.length changed (before ++ after) =
        Access.ofExcept ((table.round before).map fun result =>
          (result.1 || changed, result.2 ++ after)) := by
  induction before using List.reverseRecOn with
  | nil =>
    intro changed after
    simp [roundAt, round, Except.map]
  | append_singleton before line ih =>
    intro changed after
    have hline : (before ++ [line] ++ after)[before.length]? = some line := by simp
    rw [List.length_append, List.length_singleton, roundAt, Access.get_of_getElem? hline, pure_bind,
      round_concat, expandLine]
    cases hcall : table.call? line with
    | none =>
      rw [calledAt?_eq_none hcall, List.append_assoc]
      simp only [ih]
      cases table.round before <;> simp [bind, Except.bind, pure, Except.pure, Except.map]
    | some call =>
      have hset : (before ++ [line] ++ after).set before.length [] = before ++ [] :: after := by
        simp
      have hsplice : ∀ new, (Access.splice (before ++ [] :: after) before.length
          (before.length + 1) new : Access Diagnostic (List Line)) =
            pure (before ++ (new ++ after)) := by
        intro new
        rw [Access.splice_of_le (by omega) (by simp)]
        simp
      rw [(calledAt?_eq_some hcall).1]
      simp only [Access.set_of_lt (show before.length < (before ++ [line] ++ after).length by simp),
        hset, callAt_eq hcall, hsplice, pure_bind]
      cases call.expand with
      | error e => rfl
      | ok new =>
        rw [Access.ofExcept_ok, pure_bind, ih]
        cases table.round before <;> simp [bind, Except.bind, pure, Except.pure, Except.map]

/-- The first call that is left, with the line that makes it. -/
theorem findSome?_calledAt? {call : Call} (h : lines.findSome? table.call? = some call) :
    ∃ l : Line, l[2 * l.labelCount]? = some call.name ∧
      (lines.findSome? fun line => (table.calledAt? line).map fun call => (line, call.2)) =
        some (l, 2 * l.labelCount) := by
  induction lines with
  | nil => cases h
  | cons line rest ih =>
    rw [List.findSome?_cons] at h
    cases hcall : table.call? line with
    | none =>
      rw [hcall] at h
      obtain ⟨l, hname, hfind⟩ := ih h
      refine ⟨l, hname, ?_⟩
      rw [List.findSome?_cons, calledAt?_eq_none hcall]
      exact hfind
    | some call' =>
      rw [hcall] at h
      cases h
      obtain ⟨hcalled, hname⟩ := calledAt?_eq_some hcall
      refine ⟨line, hname, ?_⟩
      rw [List.findSome?_cons, hcalled]
      rfl

/-- Rounds stay in range, however many are left. -/
theorem settleAt_eq (limit left : Nat) (lines : List Line) :
    table.settleAt limit left lines = Access.ofExcept (table.settle limit left lines) := by
  induction left generalizing lines with
  | zero =>
    rw [settleAt, settle]
    cases hpending : lines.findSome? table.call? with
    | none =>
      have hnone : (lines.findSome? fun line =>
          (table.calledAt? line).map fun call => (line, call.2)) = none := by
        rw [List.findSome?_eq_none_iff] at hpending ⊢
        intro line hline
        rw [calledAt?_eq_none (hpending line hline)]
        rfl
      rw [hnone]
      rfl
    | some call =>
      obtain ⟨line, hname, hfind⟩ := findSome?_calledAt? hpending
      rw [hfind]
      simp only [Access.get_of_getElem? hname, pure_bind]
  | succ left ih =>
    have hround : table.roundAt lines.length false lines = Access.ofExcept (table.round lines) := by
      have hall : table.roundAt lines.length false (lines ++ []) = _ := roundAt_eq lines false []
      rw [List.append_nil] at hall
      rw [hall]
      cases table.round lines <;> simp [Except.map]
    rw [settleAt, settle_succ]
    refine Access.bind_eq_ofExcept hround ?_
    rintro ⟨changed, rest⟩ -
    cases changed with
    | false => rfl
    | true => exact ih rest

end MacroTable

/-- The lines of a program with its macros expanded and their declarations removed, by position.
Without macros there is nothing to expand. -/
def expandMacrosAt (lines : List Line) : Access Diagnostic (List Line) := do
  let table ← MacroTable.collectAt lines
  table.checkMarked
  let lines ← table.stripAt lines
  if table.isEmpty then return lines
  else table.settleAt roundLimit roundLimit lines

theorem MacroTable.settle_of_isEmpty {table : MacroTable} (h : table.isEmpty = true)
    (limit left : Nat) (lines : List Line) : table.settle limit left lines = .ok lines := by
  have hnone : ∀ line ∈ lines, table.call? line = none := fun line _ => call?_of_isEmpty h line
  exact settle_eq_ok_iff.2 ((inlines_iff_of_call?_eq_none hnone).2 rfl)

/-- Expansion stays in range and comes to the same. -/
theorem expandMacrosAt_eq {lines : List Line} (h : ∀ line ∈ lines, line ≠ []) :
    expandMacrosAt lines = Access.ofExcept (expandMacros lines) := by
  refine Access.bind_eq_ofExcept (MacroTable.collectAt_eq h) fun table hcollect => ?_
  refine Access.bind_eq_ofExcept table.checkMarked_eq fun _ _ => ?_
  rw [MacroTable.stripAt_eq h hcollect, pure_bind, MacroTable.expandWithin]
  split
  · next hempty => rw [MacroTable.settle_of_isEmpty hempty, Access.ofExcept_ok]
  · exact MacroTable.settleAt_eq _ _ _

end CircuitRom
