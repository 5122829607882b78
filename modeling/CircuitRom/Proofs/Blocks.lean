import CircuitRom.Proofs.Declaration

/-!
# The blocks of declarations

A declaration is a block of lines, from its `#macro` to its `#endm`, and its body is what stands in
between.  Lines are read from the first to the last, so the block of a declaration lies behind those
of the declarations before it.  Taking the blocks out, the last one first, leaves exactly the lines
outside of them, in their order.
-/

namespace CircuitRom

/-- Does the position lie in the block of the declaration? -/
def Macro.covers (m : Macro) (i : Nat) : Bool := m.first ≤ i && i ≤ m.last

/-- The block of the declaration lies within the lines, and its body is what stands between the
ends of the block. -/
structure Macro.IsBlock (lines : List Line) (m : Macro) : Prop where
  first_lt_last : m.first < m.last
  last_lt_length : m.last < lines.length
  body : m.body = (lines.take m.last).drop (m.first + 1)

theorem Macro.IsBlock.append {lines : List Line} {m : Macro} (h : m.IsBlock lines)
    (more : List Line) : m.IsBlock (lines ++ more) where
  first_lt_last := h.first_lt_last
  last_lt_length := by
    rw [List.length_append]
    exact Nat.lt_add_right _ h.last_lt_length
  body := by
    rw [List.take_append_of_le_length (Nat.le_of_lt h.last_lt_length)]
    exact h.body

/-- A line of the body stands between the ends of the block. -/
theorem Macro.IsBlock.exists_of_mem_body {lines : List Line} {m : Macro} (h : m.IsBlock lines)
    {line : Line} (hline : line ∈ m.body) :
    ∃ i, m.first < i ∧ i < m.last ∧ lines[i]? = some line := by
  rw [h.body] at hline
  obtain ⟨i, hi⟩ := List.mem_iff_getElem?.1 hline
  rw [List.getElem?_drop, List.getElem?_take] at hi
  split at hi
  · next hlast => exact ⟨m.first + 1 + i, by omega, hlast, hi⟩
  · cases hi

/-! ## Reading blocks -/

theorem MacroTable.values_declare {table : MacroTable} {m : Macro} (h : m.name ∉ table.keys) :
    (table.declare m).values = table.values ++ [m] := by
  show (table.insert m.name m).entries.map Prod.snd = _
  rw [Dictionary.entries_insert_of_not_mem h, List.map_append]
  rfl

namespace MacroSearch

variable {s s' : MacroSearch} {before : List Line} {line : Line}

/-- The search has read the lines: the finished declarations are blocks of them, one behind the
other, and the declaration whose end is still to come takes up all lines from its first on. -/
structure Reads (before : List Line) (s : MacroSearch) : Prop where
  finished : ∀ m ∈ s.table.values, m.IsBlock before
  ascend : s.table.values.Pairwise fun a b => a.last < b.first
  pending : ∀ m, s.pending = some m →
    m.first < before.length ∧ m.body = before.drop (m.first + 1) ∧ m.name ∉ s.table.keys ∧
      ∀ a ∈ s.table.values, a.last < m.first

theorem reads_empty : Reads [] {} :=
  ⟨by simp [MacroTable.empty, Dictionary.values], List.Pairwise.nil, by simp⟩

/-- One more line keeps the invariant: it opens a block, closes one, or goes into the open one. -/
theorem Reads.step (hs : s.Reads before) (hline : line ≠ [])
    (h : s.step before.length line = .ok s') : s'.Reads (before ++ [line]) := by
  have hfinished : ∀ m ∈ s.table.values, m.IsBlock (before ++ [line]) :=
    fun m hm => (hs.finished m hm).append [line]
  have hlength : (before ++ [line]).length = before.length + 1 := List.length_append
  rcases step_cases h with ⟨hempty, -⟩ | ⟨head, name, count, parameters, -, -, -, hnew, -, rfl⟩ |
    ⟨m, -, -, hpending, rfl⟩ | ⟨-, -, hpending, rfl⟩ | ⟨m, -, -, hpending, -, rfl⟩
  · exact absurd hempty hline
  · refine ⟨hfinished, hs.ascend, ?_⟩
    rintro m ⟨⟩
    refine ⟨by rw [hlength]; exact Nat.lt_succ_self _, ?_, ?_, ?_⟩
    · rw [List.drop_eq_nil_of_le (Nat.le_of_eq hlength)]
    · exact Dictionary.contains_eq_false_iff.1 hnew
    · exact fun a ha => (hs.finished a ha).last_lt_length
  · obtain ⟨hfirst, hbody, hname, hbehind⟩ := hs.pending m hpending
    have hvalues : (s.table.declare { m with last := before.length }).values =
        s.table.values ++ [{ m with last := before.length }] :=
      MacroTable.values_declare hname
    have hblock : Macro.IsBlock (before ++ [line]) { m with last := before.length } := by
      refine ⟨hfirst, by rw [hlength]; exact Nat.lt_succ_self _, ?_⟩
      rw [List.take_left]
      exact hbody
    refine ⟨?_, ?_, by simp⟩
    · rw [hvalues]
      exact List.forall_mem_append.2 ⟨hfinished, List.forall_mem_singleton.2 hblock⟩
    · rw [hvalues, List.pairwise_append]
      refine ⟨hs.ascend, List.pairwise_singleton _ _, fun a ha b hb => ?_⟩
      rw [List.mem_singleton.1 hb]
      exact hbehind a ha
  · exact ⟨hfinished, hs.ascend, by simp [hpending]⟩
  · obtain ⟨hfirst, hbody, hname, hbehind⟩ := hs.pending m hpending
    refine ⟨hfinished, hs.ascend, ?_⟩
    rintro m' ⟨⟩
    refine ⟨by rw [hlength]; exact Nat.lt_succ_of_lt hfirst, ?_, hname, hbehind⟩
    rw [List.drop_append_of_le_length hfirst, ← hbody]

/-- The invariant holds after any run over lines that are not empty. -/
theorem Reads.run {rest : List Line} (hrest : ∀ line ∈ rest, line ≠ []) :
    ∀ {before : List Line} {s : MacroSearch}, s.Reads before →
      s.run before.length rest = .ok s' → s'.Reads (before ++ rest) := by
  induction rest with
  | nil =>
    intro before s hs h
    cases h
    rwa [List.append_nil]
  | cons line rest ih =>
    intro before s hs h
    obtain ⟨hline, hrest⟩ := List.forall_mem_cons.1 hrest
    rw [run_cons] at h
    obtain ⟨s₁, hstep, hrun⟩ := bind_eq_ok.1 h
    have hlength : (before ++ [line]).length = before.length + 1 := List.length_append
    rw [← hlength] at hrun
    rw [List.append_cons]
    exact ih hrest (hs.step hline hstep) hrun

end MacroSearch

namespace MacroTable

variable {table : MacroTable} {lines : List Line}

/-- The declarations of a program are blocks of its lines, one behind the other. -/
theorem blocks_of_collect (hlines : ∀ line ∈ lines, line ≠ []) (h : collect lines = .ok table) :
    (∀ m ∈ table.values, m.IsBlock lines) ∧
      table.values.Pairwise fun a b => a.last < b.first := by
  have hreads : MacroSearch.Reads ([] ++ lines) ⟨table, none⟩ :=
    MacroSearch.reads_empty.run hlines (collect_eq_ok h)
  exact ⟨hreads.finished, hreads.ascend⟩

/-! ## Removing blocks -/

/-- Of lines that start at a position, those that no block covers. -/
def outsideFrom (macros : List Macro) (start : Nat) (lines : List Line) : List Line :=
  ((lines.zipIdx start).filter fun entry => macros.all (!·.covers entry.2)).map Prod.fst

/-- The lines that no block covers. -/
def outside (macros : List Macro) (lines : List Line) : List Line := outsideFrom macros 0 lines

/-- A line is outside exactly if it stands at a position that no block covers. -/
theorem mem_outside {macros : List Macro} {line : Line} :
    line ∈ outside macros lines ↔
      ∃ i, lines[i]? = some line ∧ ∀ m ∈ macros, m.covers i = false := by
  simp only [outside, outsideFrom, List.mem_map, List.mem_filter, List.all_eq_true,
    Bool.not_eq_true', Prod.exists, List.mk_mem_zipIdx_iff_getElem?]
  constructor
  · rintro ⟨_, i, ⟨hline, hcovers⟩, rfl⟩
    exact ⟨i, hline, hcovers⟩
  · rintro ⟨i, hline, hcovers⟩
    exact ⟨line, i, ⟨hline, hcovers⟩, rfl⟩

section Outside

variable {macros : List Macro} {start : Nat}

theorem outsideFrom_append (before after : List Line) :
    outsideFrom macros start (before ++ after) =
      outsideFrom macros start before ++ outsideFrom macros (start + before.length) after := by
  simp only [outsideFrom, List.zipIdx_append, List.filter_append, List.map_append]

theorem outsideFrom_eq_self
    (h : ∀ m ∈ macros, ∀ i < start + lines.length, m.covers i = false) :
    outsideFrom macros start lines = lines := by
  rw [outsideFrom, List.filter_eq_self.2, List.zipIdx_map_fst]
  intro entry hentry
  have hlt := List.snd_lt_of_mem_zipIdx hentry
  rw [List.all_eq_true]
  intro m hm
  rw [h m hm entry.2 (by omega)]
  rfl

theorem outsideFrom_eq_nil {m : Macro} (hm : m ∈ macros)
    (h : ∀ i, start ≤ i → i < start + lines.length → m.covers i = true) :
    outsideFrom macros start lines = [] := by
  rw [outsideFrom, List.filter_eq_nil_iff.2, List.map_nil]
  intro entry hentry hall
  have hle := List.le_snd_of_mem_zipIdx hentry
  have hlt := List.snd_lt_of_mem_zipIdx hentry
  have hcovers := List.all_eq_true.1 hall m hm
  rw [h entry.2 hle (by omega)] at hcovers
  cases hcovers

/-- A block before the lines takes none of them. -/
theorem outsideFrom_cons {m : Macro} (h : ∀ i, start ≤ i → m.covers i = false) :
    outsideFrom (m :: macros) start lines = outsideFrom macros start lines := by
  rw [outsideFrom, outsideFrom]
  congr 1
  refine List.filter_congr fun entry hentry => ?_
  rw [List.all_cons, h entry.2 (List.le_snd_of_mem_zipIdx hentry)]
  rfl

/-- The blocks behind a block leave the lines up to its end alone, so it is found where it was. -/
theorem removeBlock_outside {m : Macro} (hblock : m.first ≤ m.last)
    (hlast : m.last < lines.length) (hbehind : ∀ a ∈ macros, m.last < a.first) :
    removeBlock m.first m.last (outside macros lines) = outside (m :: macros) lines := by
  -- the lines before the block, those of the block, and those behind it
  obtain ⟨head, block, tail, rfl, hhead, hend⟩ : ∃ head block tail,
      lines = head ++ block ++ tail ∧ head.length = m.first ∧
        (head ++ block).length = m.last + 1 := by
    refine ⟨(lines.take (m.last + 1)).take m.first, (lines.take (m.last + 1)).drop m.first,
      lines.drop (m.last + 1), ?_, ?_, ?_⟩
    · rw [List.take_append_drop, List.take_append_drop]
    · rw [List.length_take, List.length_take]
      omega
    · rw [List.take_append_drop, List.length_take]
      omega
  have hnear : ∀ a ∈ macros, ∀ i < 0 + (head ++ block).length, a.covers i = false := by
    intro a ha i hi
    have := hbehind a ha
    simp only [Macro.covers, Bool.and_eq_false_iff, decide_eq_false_iff_not]
    omega
  have hfront : outsideFrom (m :: macros) 0 (head ++ block) = head := by
    have hkept : outsideFrom (m :: macros) 0 head = head := by
      refine outsideFrom_eq_self fun a ha i hi => ?_
      rcases List.mem_cons.1 ha with rfl | ha
      · simp only [Macro.covers, Bool.and_eq_false_iff, decide_eq_false_iff_not]
        omega
      · refine hnear a ha i ?_
        rw [List.length_append]
        omega
    have hgone : outsideFrom (m :: macros) (0 + head.length) block = [] := by
      refine outsideFrom_eq_nil List.mem_cons_self fun i hle hlt => ?_
      rw [List.length_append] at hend
      simp only [Macro.covers, Bool.and_eq_true, decide_eq_true_eq]
      omega
    rw [outsideFrom_append, hkept, hgone, List.append_nil]
  have htail : outsideFrom (m :: macros) (0 + (head ++ block).length) tail =
      outsideFrom macros (0 + (head ++ block).length) tail := by
    refine outsideFrom_cons fun i hi => ?_
    simp only [Macro.covers, Bool.and_eq_false_iff, decide_eq_false_iff_not]
    omega
  rw [outside, outside, outsideFrom_append (head ++ block), outsideFrom_append (head ++ block),
    outsideFrom_eq_self hnear, hfront, htail, removeBlock, ← hend, List.drop_left,
    List.append_assoc, ← hhead, List.take_left]

end Outside

/-- Removing blocks from the last to the first leaves the positions of the earlier ones valid, and
what is left are the lines outside. -/
theorem foldr_removeBlock {macros : List Macro}
    (hblocks : ∀ m ∈ macros, m.first ≤ m.last ∧ m.last < lines.length)
    (hascend : macros.Pairwise fun a b => a.last < b.first) :
    macros.foldr (fun m lines => removeBlock m.first m.last lines) lines =
      outside macros lines := by
  induction macros with
  | nil => exact (outsideFrom_eq_self (by simp)).symm
  | cons m macros ih =>
    obtain ⟨hm, hmacros⟩ := List.forall_mem_cons.1 hblocks
    obtain ⟨hbehind, hrest⟩ := List.pairwise_cons.1 hascend
    rw [List.foldr_cons, ih hmacros hrest, removeBlock_outside hm.1 hm.2 hbehind]

/-- Removing the declarations of a program leaves the lines outside their blocks. -/
theorem strip_eq_outside (hlines : ∀ line ∈ lines, line ≠ []) (h : collect lines = .ok table) :
    table.strip lines = outside table.values lines := by
  obtain ⟨hblocks, hascend⟩ := blocks_of_collect hlines h
  refine foldr_removeBlock (fun m hm => ?_) hascend
  have hblock := hblocks m hm
  exact ⟨Nat.le_of_lt hblock.first_lt_last, hblock.last_lt_length⟩

end MacroTable
end CircuitRom
