import CircuitRom.Proofs.Acyclicity
import CircuitRom.Proofs.Blocks
import CircuitRom.Proofs.Fences
import CircuitRom.Token.Lexer

/-!
# Exactly the declarations are found

The search for declarations succeeds on exactly the well-declared programs: at every line it goes on
if and only if the line may stand behind those before it.  What it then knows of the lines it has
read is one invariant, `Tracks`: every fence belongs to a declaration that it has noted, at the
place where it was noted.  So the table lists one macro for each declaration, in the order of the
program, and removing the declarations takes out all fences and nothing outside of them.
-/

namespace CircuitRom

open Declarations

/-- The first line of the declaration gives the macro its name and its number of parameters. -/
def Macro.HeadedIn (lines : List Line) (m : Macro) : Prop :=
  ∃ name count, lines[m.first]? = some [m.head, name, count] ∧
    m.head.isDirective "#macro" = true ∧ m.name = name.text ∧
    Text.WritesCount count.text m.parameters

theorem Macro.HeadedIn.append {lines : List Line} {m : Macro} (h : m.HeadedIn lines)
    (more : List Line) : m.HeadedIn (lines ++ more) := by
  obtain ⟨name, count, hline, hrest⟩ := h
  have hlt := (List.getElem?_eq_some_iff.1 hline).1
  exact ⟨name, count, by rw [List.getElem?_append_left hlt, hline], hrest⟩

theorem Macro.HeadedIn.fenceAt_first {lines : List Line} {m : Macro} (h : m.HeadedIn lines) :
    fenceAt lines m.first = some .opening := by
  obtain ⟨name, count, hline, hhead, -⟩ := h
  rw [fenceAt_of_getElem? hline]
  exact Line.fence?_eq_opening_iff.2 hhead

namespace MacroSearch

variable {s s' : MacroSearch} {before lines : List Line} {line : Line} {index : Nat}

/-! ## What the search has noted -/

/-- The declarations that have been started, finished or not. -/
def noted (s : MacroSearch) : List Macro := s.table.values ++ s.pending.toList

theorem mem_noted_iff {m : Macro} : m ∈ s.noted ↔ m ∈ s.table.values ∨ s.pending = some m := by
  rw [noted, List.mem_append, Option.mem_toList]

theorem noted_eq_values (h : s.pending = none) : s.noted = s.table.values := by
  rw [noted, h, Option.toList_none, List.append_nil]

/-- The search has read the lines and noted all their fences: those that open are the first lines of
the declarations noted, and those that close the last lines of the finished ones. -/
structure Tracks (before : List Line) (s : MacroSearch) : Prop where
  reads : s.Reads before
  names : declaredNames before = s.noted.map (·.name)
  isOpen : (fences before).getLast? = some .opening ↔ s.pending.isSome = true
  headed : ∀ m ∈ s.noted, m.HeadedIn before
  finished : ∀ m ∈ s.table.values, IsDeclaration before m.first m.last
  pending : ∀ m, s.pending = some m → ∀ i, m.first < i → fenceAt before i = none
  opening : ∀ i, fenceAt before i = some .opening → ∃ m ∈ s.noted, m.first = i
  closing : ∀ i, fenceAt before i = some .closing → ∃ m ∈ s.table.values, m.last = i

theorem tracks_empty : Tracks [] {} where
  reads := reads_empty
  names := rfl
  isOpen := by simp [fences]
  headed := by simp [noted, MacroTable.empty, Dictionary.values]
  finished := by simp [MacroTable.empty, Dictionary.values]
  pending := by simp
  opening := by simp [fenceAt]
  closing := by simp [fenceAt]

namespace Tracks

theorem pending_eq_none (hs : s.Tracks before) (h : (fences before).getLast? ≠ some .opening) :
    s.pending = none := by
  cases hpending : s.pending with
  | none => rfl
  | some m => exact absurd (hs.isOpen.2 (by rw [hpending]; rfl)) h

theorem exists_pending (hs : s.Tracks before) (h : (fences before).getLast? = some .opening) :
    ∃ m, s.pending = some m :=
  Option.isSome_iff_exists.1 (hs.isOpen.1 h)

/-- Between blocks, the names in the table are those declared so far. -/
theorem mem_keys_iff (hs : s.Tracks before) (hpending : s.pending = none) {name : String} :
    name ∈ s.table.keys ↔ name ∈ declaredNames before := by
  rw [hs.names, noted_eq_values hpending, MacroTable.keys_eq_map_name]

/-- A line that opens a declaration is noted as its first. -/
theorem start (hs : s.Tracks before) {head name count : Token} {parameters : Nat}
    (hpending : s.pending = none) (hhead : head.isDirective "#macro" = true)
    (hcount : Text.WritesCount count.text parameters)
    (hs' : s' = { s with
      pending := some ⟨name.text, parameters, head, before.length, before.length, []⟩ })
    (hreads : s'.Reads (before ++ [[head, name, count]])) :
    s'.Tracks (before ++ [[head, name, count]]) := by
  subst hs'
  have hfence : Line.fence? [head, name, count] = some .opening :=
    Line.fence?_eq_opening_iff.2 hhead
  have hnoted := noted_eq_values hpending
  refine ⟨hreads, ?_, ?_, ?_, ?_, ?_, ?_, ?_⟩
  · rw [declaredNames_concat, Line.declaredName?_eq_some hfence, hs.names, hnoted, noted,
      List.map_append]
    rfl
  · rw [fences_concat, hfence, Option.toList_some, List.getLast?_concat]
    exact iff_of_true rfl rfl
  · intro m hm
    rcases mem_noted_iff.1 hm with hm | ⟨⟨⟩⟩
    · exact (hs.headed m (mem_noted_iff.2 (.inl hm))).append _
    · exact ⟨name, count, List.getElem?_concat_length, hhead, rfl, hcount⟩
  · exact fun m hm => (hs.finished m hm).append _
  · rintro m ⟨⟩ i hi
    exact fenceAt_concat_of_lt hi
  · intro i hi
    rcases fenceAt_concat_eq_some hi with hi | ⟨rfl, -⟩
    · obtain ⟨m, hm, rfl⟩ := hs.opening i hi
      rw [hnoted] at hm
      exact ⟨m, mem_noted_iff.2 (.inl hm), rfl⟩
    · exact ⟨_, mem_noted_iff.2 (.inr rfl), rfl⟩
  · intro i hi
    rcases fenceAt_concat_eq_some hi with hi | ⟨-, hi⟩
    · exact hs.closing i hi
    · rw [hfence] at hi
      cases hi

/-- A line that closes a declaration is noted as its last. -/
theorem finish (hs : s.Tracks before) {m : Macro} (hpending : s.pending = some m)
    (hfence : line.fence? = some .closing)
    (hs' : s' = ⟨s.table.declare { m with last := before.length }, none⟩)
    (hreads : s'.Reads (before ++ [line])) : s'.Tracks (before ++ [line]) := by
  obtain ⟨hfirst, -, hname, -⟩ := hs.reads.pending m hpending
  have hvalues : s'.table.values = s.table.values ++ [{ m with last := before.length }] := by
    rw [hs']
    exact MacroTable.values_declare hname
  have hnoted : s'.noted = s'.table.values := noted_eq_values (by rw [hs'])
  have hheaded : m.HeadedIn before := hs.headed m (mem_noted_iff.2 (.inr hpending))
  have hdeclaration : IsDeclaration (before ++ [line]) m.first before.length := by
    refine ⟨hfirst, ?_, ?_, fun i hi hi' => ?_⟩
    · rw [fenceAt_append_left hfirst, hheaded.fenceAt_first]
    · rw [fenceAt_concat_length, hfence]
    · rw [fenceAt_append_left hi', hs.pending m hpending i hi]
  refine ⟨hreads, ?_, ?_, ?_, ?_, by simp [hs'], ?_, ?_⟩
  · rw [declaredNames_concat, Line.declaredName?_eq_none (by simp [hfence]), hs.names, hnoted,
      hvalues, noted, hpending]
    simp
  · rw [fences_concat, hfence, Option.toList_some, List.getLast?_concat, hs']
    simp
  · rw [hnoted, hvalues]
    refine List.forall_mem_append.2 ⟨fun m' hm' => ?_, List.forall_mem_singleton.2 ?_⟩
    · exact (hs.headed m' (mem_noted_iff.2 (.inl hm'))).append _
    · exact hheaded.append _
  · rw [hvalues]
    exact List.forall_mem_append.2
      ⟨fun m' hm' => (hs.finished m' hm').append _, List.forall_mem_singleton.2 hdeclaration⟩
  · intro i hi
    rw [hnoted, hvalues]
    rcases fenceAt_concat_eq_some hi with hi | ⟨-, hi⟩
    · obtain ⟨m', hm', rfl⟩ := hs.opening i hi
      rcases mem_noted_iff.1 hm' with hm' | hm'
      · exact ⟨m', List.mem_append_left _ hm', rfl⟩
      · cases hpending.symm.trans hm'
        exact ⟨_, List.mem_append_right _ List.mem_cons_self, rfl⟩
    · rw [hfence] at hi
      cases hi
  · intro i hi
    rw [hvalues]
    rcases fenceAt_concat_eq_some hi with hi | ⟨rfl, -⟩
    · obtain ⟨m', hm', rfl⟩ := hs.closing i hi
      exact ⟨m', List.mem_append_left _ hm', rfl⟩
    · exact ⟨_, List.mem_append_right _ List.mem_cons_self, rfl⟩

/-- A line that is no fence changes nothing that is noted but the body of an open declaration. -/
theorem keep (hs : s.Tracks before) (hfence : line.fence? = none) (htable : s'.table = s.table)
    (hpending : s'.pending = s.pending.map fun m => { m with body := m.body ++ [line] })
    (hreads : s'.Reads (before ++ [line])) : s'.Tracks (before ++ [line]) := by
  refine ⟨hreads, ?_, ?_, ?_, ?_, ?_, ?_, ?_⟩
  · rw [declaredNames_concat, Line.declaredName?_eq_none (by simp [hfence]), hs.names, noted, noted,
      htable, hpending]
    cases s.pending <;> simp
  · rw [fences_concat, hfence, Option.toList_none, List.append_nil, hs.isOpen, hpending,
      Option.isSome_map]
  · intro m hm
    rw [mem_noted_iff, htable, hpending, Option.map_eq_some_iff] at hm
    rcases hm with hm | ⟨m₀, hm₀, rfl⟩
    · exact (hs.headed m (mem_noted_iff.2 (.inl hm))).append _
    · exact (hs.headed m₀ (mem_noted_iff.2 (.inr hm₀))).append [line]
  · rw [htable]
    exact fun m hm => (hs.finished m hm).append _
  · intro m hm i hi
    rw [hpending] at hm
    obtain ⟨m₀, hm₀, rfl⟩ := Option.map_eq_some_iff.1 hm
    rw [fenceAt_concat_of_none hfence, hs.pending m₀ hm₀ i hi]
  · intro i hi
    rw [fenceAt_concat_of_none hfence] at hi
    obtain ⟨m, hm, rfl⟩ := hs.opening i hi
    simp only [mem_noted_iff, htable, hpending, Option.map_eq_some_iff]
    rcases mem_noted_iff.1 hm with hm | hm
    · exact ⟨m, .inl hm, rfl⟩
    · exact ⟨_, .inr ⟨m, hm, rfl⟩, rfl⟩
  · intro i hi
    rw [fenceAt_concat_of_none hfence] at hi
    rw [htable]
    exact hs.closing i hi

/-- The step lemma: after one more line the state is that of one more line. -/
theorem step (hs : s.Tracks before) (hline : line ≠ []) (h : s.step before.length line = .ok s') :
    s'.Tracks (before ++ [line]) := by
  have hreads := hs.reads.step hline h
  rcases step_cases h with ⟨hempty, -⟩ |
    ⟨head, name, count, parameters, rfl, hhead, hpending, -, hcount, hs'⟩ |
    ⟨m, hopening, hclosing, hpending, hs'⟩ | ⟨hopening, hclosing, hpending, rfl⟩ |
    ⟨m, hopening, hclosing, hpending, -, rfl⟩
  · exact absurd hempty hline
  · exact hs.start hpending hhead (Text.count?_eq_some_iff.1 hcount) hs' hreads
  · exact hs.finish hpending (Line.fence?_eq_closing_iff.2 ⟨hopening, hclosing⟩) hs' hreads
  · have hfence := Line.fence?_eq_none_iff.2 ⟨hopening, hclosing⟩
    exact hs.keep hfence rfl (by rw [hpending]; rfl) hreads
  · have hfence := Line.fence?_eq_none_iff.2 ⟨hopening, hclosing⟩
    exact hs.keep hfence rfl (by rw [hpending]; rfl) hreads

/-! ## Lines that may come next -/

/-- A step succeeds only on a line that may stand there. -/
theorem admits_of_step (hs : s.Tracks before) (hline : line ≠ [])
    (h : s.step before.length line = .ok s') : Admits before line := by
  rcases step_cases h with ⟨hempty, -⟩ |
    ⟨head, name, count, parameters, rfl, hhead, hpending, hnew, hcount, -⟩ |
    ⟨m, hopening, hclosing, hpending, -⟩ | ⟨hopening, hclosing, hpending, -⟩ |
    ⟨m, hopening, hclosing, hpending, hkinds, -⟩
  · exact absurd hempty hline
  · have hfence : Line.fence? [head, name, count] = some .opening :=
      Line.fence?_eq_opening_iff.2 hhead
    refine ⟨fun _ => ⟨?_, head, name, count, parameters, rfl, ?_, ?_⟩, by simp [hfence],
      by simp [hfence]⟩
    · simp [hs.isOpen, hpending]
    · rw [← hs.mem_keys_iff hpending]
      exact Dictionary.contains_eq_false_iff.1 hnew
    · exact Text.count?_eq_some_iff.1 hcount
  · have hfence := Line.fence?_eq_closing_iff.2 ⟨hopening, hclosing⟩
    exact ⟨by simp [hfence], fun _ => hs.isOpen.2 (by rw [hpending]; rfl), by simp [hfence]⟩
  · have hfence := Line.fence?_eq_none_iff.2 ⟨hopening, hclosing⟩
    exact ⟨by simp [hfence], by simp [hfence], by simp [hs.isOpen, hpending]⟩
  · have hfence := Line.fence?_eq_none_iff.2 ⟨hopening, hclosing⟩
    exact ⟨by simp [hfence], by simp [hfence], fun _ _ => hkinds⟩

/-- A step succeeds on every line that may stand there. -/
theorem exists_step (hs : s.Tracks before) (hline : line ≠ []) (h : Admits before line) :
    ∃ s', s.step before.length line = .ok s' := by
  obtain ⟨head, rest, rfl⟩ := List.exists_cons_of_ne_nil hline
  cases hfence : Line.fence? (head :: rest) with
  | none =>
    obtain ⟨hopening, hclosing⟩ := Line.fence?_eq_none_iff.1 hfence
    rw [step_eq_keep hopening hclosing]
    refine exists_keep fun m hpending => ?_
    exact h.plain hfence (hs.isOpen.2 (by rw [hpending]; rfl))
  | some f =>
    cases f with
    | opening =>
      obtain ⟨hopen, head, name, count, n, heq, hfresh, hcount⟩ := h.opening hfence
      cases heq
      have hpending := hs.pending_eq_none hopen
      rw [step_eq_start (Line.fence?_eq_opening_iff.1 hfence)]
      refine exists_start hpending ?_ (Text.count?_eq_some_iff.2 hcount)
      rwa [Dictionary.contains_eq_false_iff, hs.mem_keys_iff hpending]
    | closing =>
      obtain ⟨hopening, hclosing⟩ := Line.fence?_eq_closing_iff.1 hfence
      obtain ⟨m, hpending⟩ := hs.exists_pending (h.closing hfence)
      rw [step_eq_finish hopening hclosing]
      exact exists_finish hpending

end Tracks

/-! ## Whole programs -/

/-- The run lemma: after a whole program the state is that of the program. -/
theorem tracks_of_run (hlines : ∀ line ∈ lines, line ≠ []) (h : run {} 0 lines = .ok s) :
    s.Tracks lines := by
  induction lines using List.reverseRecOn generalizing s with
  | nil =>
    cases h
    exact tracks_empty
  | append_singleton before line ih =>
    rw [run_concat, Nat.zero_add] at h
    obtain ⟨s₁, hrun, hstep⟩ := bind_eq_ok.1 h
    obtain ⟨hbefore, hline⟩ := List.forall_mem_append.1 hlines
    exact (ih hbefore hrun).step (hline line List.mem_cons_self) hstep

/-- The search reads to the end exactly the programs whose lines may all stand where they are. -/
theorem exists_run_iff (hlines : ∀ line ∈ lines, line ≠ []) :
    (∃ s, run {} 0 lines = .ok s) ↔ AllAdmitted lines := by
  induction lines using List.reverseRecOn with
  | nil => exact iff_of_true ⟨_, rfl⟩ allAdmitted_nil
  | append_singleton before line ih =>
    obtain ⟨hbefore, hline⟩ := List.forall_mem_append.1 hlines
    have hne := hline line List.mem_cons_self
    rw [allAdmitted_concat, ← ih hbefore, run_concat, Nat.zero_add]
    constructor
    · rintro ⟨s, h⟩
      obtain ⟨s₁, hrun, hstep⟩ := bind_eq_ok.1 h
      exact ⟨⟨s₁, hrun⟩, (tracks_of_run hbefore hrun).admits_of_step hne hstep⟩
    · rintro ⟨⟨s₁, hrun⟩, hadmits⟩
      obtain ⟨s, hstep⟩ := (tracks_of_run hbefore hrun).exists_step hne hadmits
      exact ⟨s, bind_eq_ok.2 ⟨s₁, hrun, hstep⟩⟩

end MacroSearch

namespace MacroTable

variable {table : MacroTable} {lines : List Line}

/-- Macros can be collected exactly if the program is well declared. -/
theorem exists_collect_iff (hlines : ∀ line ∈ lines, line ≠ []) :
    (∃ table, collect lines = .ok table) ↔ WellDeclared lines := by
  rw [wellDeclared_iff, ← MacroSearch.exists_run_iff hlines]
  constructor
  · rintro ⟨table, h⟩
    have hrun := collect_eq_ok h
    refine ⟨⟨_, hrun⟩, fun hopen => ?_⟩
    cases (MacroSearch.tracks_of_run hlines hrun).isOpen.1 hopen
  · rintro ⟨⟨s, hrun⟩, hlast⟩
    have hpending := (MacroSearch.tracks_of_run hlines hrun).pending_eq_none hlast
    exact ⟨s.table, by rw [collect, hrun]; simp only [hpending]⟩

/-- The macros of the table are the declarations among the lines, each with the name and the number
of parameters that its first line gives and the lines between its fences as its body, in the order
in which they stand. -/
structure Lists (table : MacroTable) (lines : List Line) : Prop where
  declarations : ∀ first last, IsDeclaration lines first last ↔
    ∃ m ∈ table.values, m.first = first ∧ m.last = last
  ascend : table.values.Pairwise fun a b => a.last < b.first
  headed : ∀ m ∈ table.values, m.HeadedIn lines
  body : ∀ m ∈ table.values, m.body = (lines.take m.last).drop (m.first + 1)

theorem lists_of_collect (hlines : ∀ line ∈ lines, line ≠ []) (h : collect lines = .ok table) :
    table.Lists lines := by
  have hs := MacroSearch.tracks_of_run hlines (collect_eq_ok h)
  have hnoted : MacroSearch.noted ⟨table, none⟩ = table.values := MacroSearch.noted_eq_values rfl
  refine ⟨fun first last => ⟨fun hdeclaration => ?_, ?_⟩, hs.reads.ascend, ?_, ?_⟩
  · obtain ⟨m, hm, rfl⟩ := hs.opening first hdeclaration.opening
    rw [hnoted] at hm
    exact ⟨m, hm, rfl, (hs.finished m hm).last_unique hdeclaration⟩
  · rintro ⟨m, hm, rfl, rfl⟩
    exact hs.finished m hm
  · exact fun m hm => hs.headed m (hnoted ▸ hm)
  · exact fun m hm => (hs.reads.finished m hm).body

/-- No fence is left over, because every fence belongs to a block. -/
theorem fence?_eq_none_of_mem_strip (hlines : ∀ line ∈ lines, line ≠ [])
    (h : collect lines = .ok table) {line : Line} (hline : line ∈ table.strip lines) :
    line.fence? = none := by
  have hs := MacroSearch.tracks_of_run hlines (collect_eq_ok h)
  rw [strip_eq_outside hlines h] at hline
  obtain ⟨i, hi, hcovers⟩ := mem_outside.1 hline
  have hends : ∀ m ∈ table.values, m.first ≠ i ∧ m.last ≠ i := by
    intro m hm
    have hlt := (hs.finished m hm).lt
    have hnot := hcovers m hm
    simp only [Macro.covers, Bool.and_eq_false_iff, decide_eq_false_iff_not] at hnot
    omega
  rw [← fenceAt_of_getElem? hi]
  cases hfence : fenceAt lines i with
  | none => rfl
  | some f =>
    cases f with
    | opening =>
      obtain ⟨m, hm, hfirst⟩ := hs.opening i hfence
      rw [MacroSearch.noted_eq_values rfl] at hm
      exact absurd hfirst (hends m hm).1
    | closing =>
      obtain ⟨m, hm, hlast⟩ := hs.closing i hfence
      exact absurd hlast (hends m hm).2

/-- The declarations of a program can be collected exactly if it is well declared.  The table then
lists them, and removing them leaves the lines outside of them, none of which is a fence. -/
theorem collect_lists_exactly_declarations (hlines : ∀ line ∈ lines, line ≠ []) :
    ((∃ table, collect lines = .ok table) ↔ WellDeclared lines) ∧
    ∀ table, collect lines = .ok table →
      table.Lists lines ∧ table.strip lines = outside table.values lines ∧
      ∀ line ∈ table.strip lines,
        line.isHeadedBy "#macro" = false ∧ line.isHeadedBy "#endm" = false := by
  refine ⟨exists_collect_iff hlines, fun table h => ⟨lists_of_collect hlines h,
    strip_eq_outside hlines h, fun line hline => ?_⟩⟩
  exact Line.fence?_eq_none_iff.1 (fence?_eq_none_of_mem_strip hlines h hline)

/-- A program with a macro whose directives are in either case, a call behind a label, and a macro
without a body. -/
def declaringProgram : List Line :=
  ((tokenize ("NOP\n#MACRO a +1\n1: INC $0\n#endm\nb: a R1\n#macro c 0\n#ENDM")).toOption).getD []

/-- The macros of `declaringProgram`. -/
def declaringTable : MacroTable := ((collect declaringProgram).toOption).getD empty

/-- The table has the two macros with their bodies and the lines of their fences, and what is left
are the other two lines. -/
theorem declaringProgram_lists_declarations :
    ((∀ line ∈ declaringProgram, line ≠ []) ∧ WellDeclared declaringProgram ∧
      collect declaringProgram = .ok declaringTable) ∧
    declaringTable.values.map (fun m => (m.name, m.parameters, m.first, m.last)) =
      [("a", 1, 1, 3), ("c", 0, 5, 6)] ∧
    declaringTable.values.map (fun m => m.body.map fun line => line.map (·.text)) =
      [[["1", ":", "INC", "$0"]], []] ∧
    (outside declaringTable.values declaringProgram).map (fun line => line.map (·.text)) =
      [["NOP"], ["b", ":", "a", "R1"]] ∧
    declaringTable.Lists declaringProgram ∧
    declaringTable.strip declaringProgram = outside declaringTable.values declaringProgram := by
  have hlines : ∀ line ∈ declaringProgram, line ≠ [] := by decide +kernel
  have htable : collect declaringProgram = .ok declaringTable := rfl
  have hmacros :
      declaringTable.values.map (fun m => (m.name, m.parameters, m.first, m.last)) =
        [("a", 1, 1, 3), ("c", 0, 5, 6)] ∧
      declaringTable.values.map (fun m => m.body.map fun line => line.map (·.text)) =
        [[["1", ":", "INC", "$0"]], []] ∧
      (outside declaringTable.values declaringProgram).map (fun line => line.map (·.text)) =
        [["NOP"], ["b", ":", "a", "R1"]] := by decide +kernel
  obtain ⟨hiff, hall⟩ := collect_lists_exactly_declarations hlines
  obtain ⟨hlists, hstrip, -⟩ := hall declaringTable htable
  exact ⟨⟨hlines, hiff.1 ⟨declaringTable, htable⟩, htable⟩, hmacros.1, hmacros.2.1, hmacros.2.2,
    hlists, hstrip⟩

end MacroTable
end CircuitRom
