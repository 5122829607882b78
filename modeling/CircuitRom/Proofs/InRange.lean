import CircuitRom.Assembly
import CircuitRom.Proofs.Positions
import CircuitRom.Proofs.Provenance
import CircuitRom.Proofs.Relocation
import CircuitRom.Proofs.Renaming

/-!
# No position is out of range

The remaining stages by position, and the whole of the assembly.  `assembleAt` uses positions where
the machine would: it reads the first token of a line, cuts off labels, opcodes and arguments, takes
out blocks of lines, follows the graph of macros, and marks the numeric label that is found.  It has
an outcome for every source text, and the same one as `assemble`.
-/

namespace CircuitRom

variable {ε : Type}

/-! ## Definitions -/

namespace Definition

/-- Refuse a definition. -/
def refuse (line : Line) (head : Token) : Access Diagnostic (List Line) := do
  let (_, rest) ← Access.splitOff line 1
  Access.ofExcept (.error (fault head rest))

/-- Apply definitions, starting with those given, by position. -/
def substituteFromAt (defs : Dictionary String) : List Line → Access Diagnostic (List Line)
  | [] => return []
  | line :: lines => do
    let renamed := line.map (rename defs)
    let head ← Access.get renamed 0
    if head.isDirective "#def" then
      match renamed.tail with
      | [key, value] =>
        if key.isDelimiter || value.isDelimiter then refuse renamed head
        else substituteFromAt (defs.insert key.text value.text) lines
      | _ => refuse renamed head
    else return renamed :: (← substituteFromAt defs lines)

/-- Applying definitions looks at the head of a line, so it needs lines that are not empty. -/
theorem substituteFromAt_eq {lines : List Line} (h : ∀ line ∈ lines, line ≠ []) :
    ∀ defs, substituteFromAt defs lines = Access.ofExcept (substituteFrom defs lines) := by
  induction lines with
  | nil => exact fun _ => rfl
  | cons line lines ih =>
    intro defs
    obtain ⟨hline, hlines⟩ := List.forall_mem_cons.1 h
    obtain ⟨head, rest, hrenamed⟩ := List.exists_cons_of_ne_nil
      (show line.map (rename defs) ≠ [] by simpa using hline)
    have hrefuse : refuse (head :: rest) head = Access.ofExcept (.error (fault head rest)) := by
      simp [refuse]
    rw [substituteFromAt, substituteFrom, hrenamed]
    simp only [Access.get_zero_cons, pure_bind, List.tail_cons, hrefuse]
    by_cases hdef : head.isDirective "#def" = true
    · rw [if_pos hdef, if_pos hdef]
      rcases rest with _ | ⟨key, _ | ⟨value, _ | ⟨extra, more⟩⟩⟩
      · rfl
      · rfl
      · by_cases hdelimiter : (key.isDelimiter || value.isDelimiter) = true
        · simp [hdelimiter]
        · simp [hdelimiter, ih hlines]
      · rfl
    · rw [if_neg hdef, if_neg hdef, ih hlines]
      cases substituteFrom defs lines <;> rfl

end Definition

/-! ## Addresses -/

/-- Every second element, from the first on. -/
def everySecond {α : Type} : List α → List α
  | a :: _ :: rest => a :: everySecond rest
  | as => as

theorem Line.everySecond_labelPart (line : Line) : everySecond line.labelPart = line.labels := by
  induction line using labels.induct with
  | case1 label colon rest hlabel ih =>
    rw [labelPart, labelCount, labels, if_pos hlabel, if_pos hlabel, Nat.mul_add,
      List.take_succ_cons, List.take_succ_cons, everySecond]
    exact congrArg (label :: ·) ih
  | case2 label colon rest hlabel =>
    rw [labelPart, labelCount, labels, if_neg hlabel, if_neg hlabel]
    rfl
  | case3 line hline =>
    rcases line with _ | ⟨label, _ | ⟨colon, rest⟩⟩
    · rfl
    · rfl
    · exact absurd rfl (hline label colon rest)

namespace Program

/-- Lay out lines, starting at an address with the labels before it, by position. -/
def layOutFromAt (labels : Labels) (address : Nat) : List Line → Access Diagnostic Program
  | [] => return ⟨[], labels⟩
  | line :: rest =>
    match line.find? (·.kind == .unknown) with
    | some token => Access.ofExcept (.error (.atToken (.wordUnknown token.text) token))
    | none => do
      let (front, statement) ← Access.splitOff line (2 * line.labelCount)
      let labels ← Access.ofExcept (labels.defineAll address (everySecond front))
      if statement.isEmpty then layOutFromAt labels address rest
      else
        let (first, operands) ← Access.splitOff statement 1
        let opcode ← Access.get first 0
        let program ← layOutFromAt labels (address + 1) rest
        return { program with instructions := ⟨opcode, operands⟩ :: program.instructions }

/-- Laying out takes every second token of the labels in front, which are the labels. -/
theorem layOutFromAt_eq (lines : List Line) : ∀ (labels : Labels) (address : Nat),
    layOutFromAt labels address lines = Access.ofExcept (layOutFrom labels address lines) := by
  induction lines with
  | nil => exact fun _ _ => rfl
  | cons line rest ih =>
    intro labels address
    rw [layOutFromAt, layOutFrom]
    cases hunknown : line.find? (·.kind == .unknown) with
    | some token => rfl
    | none =>
      simp only [Line.splitOff_labels, pure_bind, Line.everySecond_labelPart]
      cases labels.defineAll address line.labels with
      | error e => rfl
      | ok labels =>
        rw [Access.ofExcept_ok, pure_bind]
        cases hstatement : line.statement with
        | nil => exact ih labels address
        | cons opcode operands =>
          simp only [List.isEmpty_cons, Bool.false_eq_true, if_false, Access.splitOff_one_cons,
            pure_bind, ih]
          cases layOutFrom labels (address + 1) rest <;> rfl

end Program

/-! ## References -/

namespace Labels

/-- The address that a numeric reference means; its declaration is marked at its position. -/
def useNumericAt (l : Labels) (digit : Char) (direction : Direction) (address : Nat) :
    Access Cause (Nat × Labels) :=
  match firstDescent ((l.occurrences digit).map (·.2)) with
  | some (earlier, later) => Access.ofExcept (.error (.labelOrder digit earlier later))
  | none =>
    match target? (l.occurrences digit) address direction with
    | none => Access.ofExcept (.error (notFound digit direction))
    | some (position, _) => do
      let found ← Access.get l.locals position
      let locals ← Access.set l.locals position { found with used := true }
      let marked ← Access.get locals position
      return (marked.address, { l with locals })

theorem getElem?_of_mem_occurrences {l : Labels} {digit : Char} {o : Nat × Nat}
    (h : o ∈ l.occurrences digit) :
    ∃ found, l.locals[o.1]? = some found ∧ found.address = o.2 := by
  obtain ⟨⟨found, position⟩, hentry, rfl⟩ := List.mem_map.1 h
  exact ⟨found, List.mk_mem_zipIdx_iff_getElem?.1 (List.mem_of_mem_filter hentry), rfl⟩

/-- The position of a declaration that was found is in range when it is marked as used. -/
theorem useNumericAt_eq (l : Labels) (digit : Char) (direction : Direction) (address : Nat) :
    l.useNumericAt digit direction address =
      Access.ofExcept (l.useNumeric digit direction address) := by
  rw [useNumericAt, useNumeric_eq]
  cases firstDescent ((l.occurrences digit).map (·.2)) with
  | some descent => rfl
  | none =>
    cases htarget : target? (l.occurrences digit) address direction with
    | none => rfl
    | some target =>
      obtain ⟨position, at'⟩ := target
      obtain ⟨found, hfound, rfl⟩ := getElem?_of_mem_occurrences (mem_of_target? htarget)
      have hlt : position < l.locals.length := (List.getElem?_eq_some_iff.1 hfound).1
      have hmodify : l.locals.modify position (fun o => { o with used := true }) =
          l.locals.set position { found with used := true } := by
        rw [List.modify_eq_set_getElem?, hfound]
        rfl
      have hmarked : (l.locals.set position { found with used := true })[position]? =
          some { found with used := true } := by simp [hlt]
      simp [hmodify, Access.get_of_getElem? hfound, Access.set_of_lt hlt,
        Access.get_of_getElem? hmarked]

end Labels

namespace Program

/-- Replace the reference that an operand of the instruction at the given address may be, by
position. -/
def resolveTokenAt (labels : Labels) (address : Nat) (token : Token) :
    Access Diagnostic (Token × Labels) :=
  if token.kind ≠ .operand then return (token, labels)
  else
    match labels.useSymbol token.text with
    | some (target, labels) => return ({ token with text := toString target }, labels)
    | none =>
      match numericReference? token.text with
      | none => return (token, labels)
      | some (digit, direction) => do
        let (target, labels) ←
          ExceptT.adapt (Diagnostic.atToken · token) (labels.useNumericAt digit direction address)
        return ({ token with text := toString target }, labels)

/-- Replace the references in operands, by position. -/
def resolveTokensAt (labels : Labels) (address : Nat) :
    List Token → Access Diagnostic (List Token × Labels)
  | [] => return ([], labels)
  | token :: rest => do
    let (token, labels) ← resolveTokenAt labels address token
    let (rest, labels) ← resolveTokensAt labels address rest
    return (token :: rest, labels)

/-- Replace the references in the instructions from the given address on, by position. -/
def resolveFromAt (labels : Labels) (address : Nat) :
    List Instruction → Access Diagnostic Program
  | [] => return ⟨[], labels⟩
  | i :: rest => do
    let (operands, labels) ← resolveTokensAt labels address i.operands
    let program ← resolveFromAt labels (address + 1) rest
    return { program with instructions := ⟨i.opcode, operands⟩ :: program.instructions }

/-- The program of source lines, by position. -/
def resolveAt (lines : List Line) : Access Diagnostic Program := do
  let program ← layOutFromAt {} 0 lines
  resolveFromAt program.labels 0 program.instructions

theorem resolveTokenAt_eq (labels : Labels) (address : Nat) (token : Token) :
    resolveTokenAt labels address token =
      Access.ofExcept (resolveToken labels address token) := by
  unfold resolveTokenAt resolveToken
  by_cases hkind : token.kind = .operand
  · rw [if_neg (not_not_intro hkind), if_neg (not_not_intro hkind)]
    cases labels.useSymbol token.text with
    | some found => rfl
    | none =>
      cases numericReference? token.text with
      | none => rfl
      | some reference =>
        obtain ⟨digit, direction⟩ := reference
        simp only [Labels.useNumericAt_eq, Access.adapt_ofExcept]
        cases labels.useNumeric digit direction address <;> rfl
  · rw [if_pos hkind, if_pos hkind]
    rfl

theorem resolveTokensAt_eq (address : Nat) (tokens : List Token) : ∀ labels : Labels,
    resolveTokensAt labels address tokens =
      Access.ofExcept (resolveTokens labels address tokens) := by
  induction tokens with
  | nil => exact fun _ => rfl
  | cons token rest ih =>
    intro labels
    rw [resolveTokensAt, resolveTokens, resolveTokenAt_eq]
    cases resolveToken labels address token with
    | error e => rfl
    | ok result =>
      obtain ⟨token, labels⟩ := result
      simp only [Access.ofExcept_ok, pure_bind, ih]
      cases resolveTokens labels address rest <;> rfl

theorem resolveFromAt_eq (instructions : List Instruction) : ∀ (labels : Labels) (address : Nat),
    resolveFromAt labels address instructions =
      Access.ofExcept (resolveFrom labels address instructions) := by
  induction instructions with
  | nil => exact fun _ _ => rfl
  | cons i rest ih =>
    intro labels address
    rw [resolveFromAt, resolveFrom, resolveTokensAt_eq]
    cases resolveTokens labels address i.operands with
    | error e => rfl
    | ok result =>
      obtain ⟨operands, labels⟩ := result
      simp only [Access.ofExcept_ok, pure_bind, ih]
      cases resolveFrom labels (address + 1) rest <;> rfl

theorem resolveAt_eq (lines : List Line) :
    resolveAt lines = Access.ofExcept (resolve lines) := by
  rw [resolveAt, resolve, layOut, layOutFromAt_eq]
  cases layOutFrom {} 0 lines with
  | error e => rfl
  | ok program => exact resolveFromAt_eq _ _ _

end Program

/-! ## Lines between the stages -/

theorem Call.ne_nil_of_expand {call : Call} {lines : List Line}
    (hbody : ∀ line ∈ call.target.body, line ≠ []) (h : call.expand = .ok lines) :
    ∀ line ∈ lines, line ≠ [] := by
  obtain ⟨-, body, hcopies, rfl⟩ := expand_eq_ok.1 h
  have hnew : ∀ line ∈ body, line ≠ [] := by
    rintro _ hline rfl
    obtain ⟨old, hold, hcopy⟩ := exists_of_mem_right hcopies hline
    exact hbody old hold (List.forall₂_nil_right_iff.1 hcopy)
  split
  · exact hnew
  · next hlabels =>
    refine List.forall_mem_cons.2 ⟨?_, hnew⟩
    simpa using hlabels

namespace MacroTable

variable {table : MacroTable} {lines out : List Line}

theorem ne_nil_of_call (hbodies : ∀ m ∈ table.values, ∀ line ∈ m.body, line ≠ []) {line : Line}
    {call : Call} (hcall : table.call? line = some call) (h : call.expand = .ok out) :
    ∀ l ∈ out, l ≠ [] := by
  obtain ⟨name, rest, m, -, -, hm, rfl⟩ := call?_eq_some_iff.1 hcall
  exact Call.ne_nil_of_expand (hbodies m (mem_values_of_find? hm).1) h

/-- A round leaves no empty lines, because bodies have none and labels are put on a line only if
there are some. -/
theorem ne_nil_of_round (hbodies : ∀ m ∈ table.values, ∀ line ∈ m.body, line ≠ [])
    (hlines : ∀ line ∈ lines, line ≠ []) {changed : Bool}
    (h : table.round lines = .ok (changed, out)) : ∀ line ∈ out, line ≠ [] := by
  obtain ⟨-, parts, hparts, rfl⟩ := round_eq_ok.1 h
  intro l hl
  obtain ⟨part, hpart, hl⟩ := List.mem_flatten.1 hl
  obtain ⟨line, hline, hexpand⟩ := exists_of_mem_right hparts hpart
  rw [expandLine] at hexpand
  cases hcall : table.call? line with
  | none =>
    rw [hcall] at hexpand
    cases hexpand
    rw [List.mem_singleton.1 hl]
    exact hlines line hline
  | some call =>
    rw [hcall] at hexpand
    exact ne_nil_of_call hbodies hcall hexpand l hl

theorem ne_nil_of_rounds (hbodies : ∀ m ∈ table.values, ∀ line ∈ m.body, line ≠ []) (k : Nat) :
    ∀ {lines : List Line}, (∀ line ∈ lines, line ≠ []) → table.rounds k lines = .ok out →
      ∀ line ∈ out, line ≠ [] := by
  induction k with
  | zero =>
    intro lines hlines h
    cases h
    exact hlines
  | succ k ih =>
    intro lines hlines h
    obtain ⟨⟨changed, next⟩, hround, hrest⟩ := bind_eq_ok.1 h
    exact ih (ne_nil_of_round hbodies hlines hround) hrest

theorem ne_nil_of_strip (hlines : ∀ line ∈ lines, line ≠ []) :
    ∀ line ∈ table.strip lines, line ≠ [] :=
  fun line hline => hlines line (mem_of_mem_strip hline)

end MacroTable

/-- No stage makes an empty line out of lines that are not empty. -/
theorem ne_nil_of_expandMacros {lines out : List Line} (hlines : ∀ line ∈ lines, line ≠ [])
    (h : expandMacros lines = .ok out) : ∀ line ∈ out, line ≠ [] := by
  obtain ⟨table, hcollect, h⟩ := bind_eq_ok.1 h
  obtain ⟨-, -, hsettle⟩ := bind_eq_ok.1 h
  have hbodies := MacroTable.body_of_collect hlines hcollect
  refine MacroTable.forall_of_settle (fun line call new hcall hexpand _ => ?_) hsettle
    (MacroTable.ne_nil_of_strip hlines)
  exact MacroTable.ne_nil_of_call hbodies hcall hexpand

theorem ne_nil_of_substitute {lines out : List Line} (hlines : ∀ line ∈ lines, line ≠ [])
    (h : Definition.substitute lines = .ok out) : ∀ line ∈ out, line ≠ [] := by
  intro line' hline'
  obtain ⟨before, line, after, rfl, rfl⟩ := Definition.exists_of_substituteFrom h line' hline'
  simpa using hlines line (by simp)

/-! ## The whole assembly -/

/-- The instructions and labels of a source text, by position. -/
def preprocessAt (code : String) (options : Options) : Access Diagnostic Program := do
  let lines ← tokenizeAt code
  let lines ← expandMacrosAt lines
  let lines ← Definition.substituteFromAt Dictionary.empty lines
  let program ← Program.resolveAt lines
  return program.finish options

/-- Assemble a source text, by position. -/
def assembleAt (code : String) (options : Options) : Access Diagnostic Assembly := do
  let program ← preprocessAt code options
  let signals ← Access.ofExcept (Instruction.encodeAll program.instructions)
  return ⟨program.instructions, signals, program.labels.unused⟩

/-- The stages in a row stay in range, each on what the one before it leaves. -/
theorem preprocessAt_eq (code : String) (options : Options) :
    preprocessAt code options = Access.ofExcept (preprocess code options) := by
  rw [preprocess_eq]
  refine Access.bind_eq_ofExcept (tokenizeAt_eq code) fun lines htokenize => ?_
  have hlines := ne_nil_of_tokenize htokenize
  refine Access.bind_eq_ofExcept (expandMacrosAt_eq hlines) fun expanded hexpand => ?_
  have hexpanded := ne_nil_of_expandMacros hlines hexpand
  refine Access.bind_eq_ofExcept (Definition.substituteFromAt_eq hexpanded _) fun lines _ => ?_
  exact Access.bind_eq_ofExcept (Program.resolveAt_eq lines) fun program _ => rfl

theorem assembleAt_eq (code : String) (options : Options) :
    assembleAt code options = Access.ofExcept (assemble code options) := by
  refine Access.bind_eq_ofExcept (preprocessAt_eq code options) fun program _ => ?_
  exact Access.bind_eq_ofExcept rfl fun signals _ => rfl

/-- What keeps the positions within range that are used on the way from a source text to its
instructions. -/
structure StaysInRange (code : String) : Prop where
  /-- No source line is empty. -/
  tokenized : ∀ lines, tokenize code = .ok lines → ∀ line ∈ lines, line ≠ []
  /-- The declarations are blocks of lines, one behind the other. -/
  blocks : ∀ lines table, tokenize code = .ok lines → MacroTable.collect lines = .ok table →
    (∀ m ∈ table.values, m.first < m.last ∧ m.last < lines.length) ∧
      table.values.Pairwise fun a b => a.last < b.first
  /-- So they can be removed one by one, the one that starts last first. -/
  stripped : ∀ lines table, tokenize code = .ok lines → MacroTable.collect lines = .ok table →
    (table.stripAt lines : Access Diagnostic (List Line)) = pure (table.strip lines)
  /-- No line is empty when the declarations are removed, nor after any number of rounds. -/
  rounds : ∀ lines table k out, tokenize code = .ok lines → MacroTable.collect lines = .ok table →
    table.rounds k (table.strip lines) = .ok out → ∀ line ∈ out, line ≠ []
  /-- No line is empty when all macros are expanded. -/
  expanded : ∀ lines out, tokenize code = .ok lines → expandMacros lines = .ok out →
    ∀ line ∈ out, line ≠ []
  /-- No line is empty when definitions are applied. -/
  substituted : ∀ lines out final, tokenize code = .ok lines → expandMacros lines = .ok out →
    Definition.substitute out = .ok final → ∀ line ∈ final, line ≠ []
  /-- The labels of a line and their colons are tokens of it. -/
  labels : ∀ line : Line, 2 * line.labelCount ≤ line.length
  /-- The graph of macros has a node for each macro and no edge to anything else. -/
  graph : ∀ (table : MacroTable) edges, table.graph = .ok edges →
    edges.length = table.values.length ∧ ∀ targets ∈ edges, ∀ i ∈ targets, i < table.values.length
  /-- The search of the graph notes only macros as parents. -/
  parents : ∀ (table : MacroTable) edges notes, table.graph = .ok edges →
    (MacroTable.searchMarked edges = pure notes ∨
      ∃ nodes, MacroTable.searchMarked edges = Access.ofExcept (.error (nodes, notes))) →
    notes.Within table.values.length
  /-- The numeric label that is found is one of those declared. -/
  numeric : ∀ (l : Labels) digit direction address target,
    Labels.target? (l.occurrences digit) address direction = some target →
    target.1 < l.locals.length

theorem MacroTable.lt_of_mem_graph {table : MacroTable} {edges : List (List Nat)}
    (h : table.graph = .ok edges) :
    ∀ targets ∈ edges, ∀ i ∈ targets, i < table.values.length := by
  intro targets htargets i hi
  obtain ⟨node, hnode⟩ := List.mem_iff_getElem?.1 htargets
  have hleads : Leads edges node i := by
    rw [Leads, List.getD_eq_getElem?_getD, hnode]
    exact hi
  rw [(forall₂_graph h).length_eq]
  exact closed_graph h node i hleads

theorem staysInRange (code : String) : StaysInRange code where
  tokenized lines h := ne_nil_of_tokenize h
  blocks lines table h hcollect := by
    obtain ⟨hblocks, hascend⟩ := MacroTable.blocks_of_collect (ne_nil_of_tokenize h) hcollect
    exact ⟨fun m hm => ⟨(hblocks m hm).first_lt_last, (hblocks m hm).last_lt_length⟩, hascend⟩
  stripped lines table h hcollect := MacroTable.stripAt_eq (ne_nil_of_tokenize h) hcollect
  rounds lines table k out h hcollect hrounds := by
    have hlines := ne_nil_of_tokenize h
    have hbodies := MacroTable.body_of_collect hlines hcollect
    exact MacroTable.ne_nil_of_rounds hbodies k (MacroTable.ne_nil_of_strip hlines) hrounds
  expanded lines out h := ne_nil_of_expandMacros (ne_nil_of_tokenize h)
  substituted lines out final h hexpand :=
    ne_nil_of_substitute (ne_nil_of_expandMacros (ne_nil_of_tokenize h) hexpand)
  labels := Line.two_mul_labelCount_le
  graph table edges h :=
    ⟨(MacroTable.forall₂_graph h).length_eq.symm, MacroTable.lt_of_mem_graph h⟩
  parents table edges notes h hsearch := by
    rw [(MacroTable.forall₂_graph h).length_eq]
    exact MacroTable.within_of_searchMarked (MacroTable.closed_graph h) hsearch
  numeric l digit direction address target h :=
    Labels.position_lt_of_mem_occurrences (Labels.mem_of_target? h)

/-- Every source text is preprocessed and assembled without a position out of range: with each
position checked where it is used, both end as they do without. -/
theorem assembly_meets_no_position_out_of_range (code : String) (options : Options) :
    StaysInRange code ∧
      (preprocessAt code options).run = some (preprocess code options) ∧
      (assembleAt code options).run = some (assemble code options) := by
  refine ⟨staysInRange code, ?_, ?_⟩
  · rw [preprocessAt_eq]
    rfl
  · rw [assembleAt_eq]
    rfl

end CircuitRom
