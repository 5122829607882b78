import CircuitRom.Macro
import CircuitRom.Proofs.Sequencing

/-!
# Reading declarations

The lines of a program are read one by one.  What one line can do to the search is listed once, in
`step_cases`, and what holds of every table that the search ends with follows from it: a program has
no more macros than lines, and the body lines of its macros are lines of the program.
-/

namespace CircuitRom
namespace MacroSearch

variable {s s' : MacroSearch} {index : Nat} {line : Line} {lines : List Line}

/-- A declaration is opened by a new name and a count, and only if none is open. -/
theorem start_eq_ok {head : Token} {rest : List Token} (h : s.start index head rest = .ok s') :
    ∃ name count parameters, rest = [name, count] ∧ s.pending = none ∧
      s.table.contains name.text = false ∧ Text.count? count.text = some parameters ∧
      s' = { s with pending := some ⟨name.text, parameters, head, index, index, []⟩ } := by
  unfold start at h
  split at h
  · cases h
  · next hpending =>
    split at h
    · next name count =>
      split at h
      · cases h
      · next hnew =>
        split at h
        · cases h
        · next parameters hcount =>
          cases h
          exact ⟨name, count, parameters, rfl, by simpa using hpending, by simpa using hnew, hcount,
            rfl⟩
    · cases h

/-- A declaration that is closed goes into the table with its last line. -/
theorem finish_eq_ok {head : Token} (h : s.finish index head = .ok s') :
    ∃ m, s.pending = some m ∧ s' = ⟨s.table.declare { m with last := index }, none⟩ := by
  rw [finish] at h
  split at h
  · cases h
  · next m hpending =>
    cases h
    exact ⟨m, hpending, rfl⟩

/-- Any other line is passed over, or it goes into the body that is open, which has no symbolic
labels. -/
theorem keep_eq_ok (h : s.keep line = .ok s') :
    (s.pending = none ∧ s' = s) ∨
    ∃ m, s.pending = some m ∧ (∀ token ∈ line, token.kind ≠ .symbolic) ∧
      s' = { s with pending := some { m with body := m.body ++ [line] } } := by
  rw [keep] at h
  split at h
  · next hpending =>
    cases h
    exact .inl ⟨hpending, rfl⟩
  · next m hpending =>
    split at h
    · cases h
    · next hfind =>
      cases h
      refine .inr ⟨m, hpending, fun token htoken hkind => ?_, rfl⟩
      exact List.find?_eq_none.1 hfind token htoken (by simp [hkind])

/-- What a line can do: start a declaration, end one, stand outside all of them, or belong to the
body of one.  An empty line does nothing. -/
theorem step_cases (h : s.step index line = .ok s') :
    (line = [] ∧ s' = s) ∨
    (∃ head name count parameters, line = [head, name, count] ∧
      head.isDirective "#macro" = true ∧ s.pending = none ∧
      s.table.contains name.text = false ∧ Text.count? count.text = some parameters ∧
      s' = { s with pending := some ⟨name.text, parameters, head, index, index, []⟩ }) ∨
    (∃ m, line.isHeadedBy "#macro" = false ∧ line.isHeadedBy "#endm" = true ∧
      s.pending = some m ∧ s' = ⟨s.table.declare { m with last := index }, none⟩) ∨
    (line.isHeadedBy "#macro" = false ∧ line.isHeadedBy "#endm" = false ∧ s.pending = none ∧
      s' = s) ∨
    (∃ m, line.isHeadedBy "#macro" = false ∧ line.isHeadedBy "#endm" = false ∧
      s.pending = some m ∧ (∀ token ∈ line, token.kind ≠ .symbolic) ∧
      s' = { s with pending := some { m with body := m.body ++ [line] } }) := by
  unfold step at h
  split at h
  · cases h
    exact .inl ⟨rfl, rfl⟩
  · next head rest =>
    refine .inr ?_
    split at h
    · next hmacro =>
      obtain ⟨name, count, parameters, rfl, hpending, hnew, hcount, rfl⟩ := start_eq_ok h
      exact .inl ⟨head, name, count, parameters, rfl, hmacro, hpending, hnew, hcount, rfl⟩
    · next hmacro =>
      have hmacro' : Line.isHeadedBy (head :: rest) "#macro" = false := by
        simpa [Line.isHeadedBy] using hmacro
      split at h
      · next hendm =>
        obtain ⟨m, hpending, rfl⟩ := finish_eq_ok h
        exact .inr (.inl ⟨m, hmacro', by simpa [Line.isHeadedBy] using hendm, hpending, rfl⟩)
      · next hendm =>
        have hendm' : Line.isHeadedBy (head :: rest) "#endm" = false := by
          simpa [Line.isHeadedBy] using hendm
        rcases keep_eq_ok h with ⟨hpending, rfl⟩ | ⟨m, hpending, hkinds, rfl⟩
        · exact .inr (.inr (.inl ⟨hmacro', hendm', hpending, rfl⟩))
        · exact .inr (.inr (.inr ⟨m, hmacro', hendm', hpending, hkinds, rfl⟩))

section Steps

variable {head : Token} {rest : List Token}

theorem step_eq_start (h : Line.isHeadedBy (head :: rest) "#macro" = true) :
    s.step index (head :: rest) = s.start index head rest :=
  if_pos h

theorem step_eq_finish (hopening : Line.isHeadedBy (head :: rest) "#macro" = false)
    (hclosing : Line.isHeadedBy (head :: rest) "#endm" = true) :
    s.step index (head :: rest) = s.finish index head :=
  (if_neg (Bool.eq_false_iff.1 hopening)).trans (if_pos hclosing)

theorem step_eq_keep (hopening : Line.isHeadedBy (head :: rest) "#macro" = false)
    (hclosing : Line.isHeadedBy (head :: rest) "#endm" = false) :
    s.step index (head :: rest) = s.keep (head :: rest) :=
  (if_neg (Bool.eq_false_iff.1 hopening)).trans (if_neg (Bool.eq_false_iff.1 hclosing))

theorem exists_start {name count : Token} {parameters : Nat} (hpending : s.pending = none)
    (hnew : s.table.contains name.text = false)
    (hcount : Text.count? count.text = some parameters) :
    ∃ s', s.start index head [name, count] = .ok s' := by
  refine ⟨{ s with pending := some ⟨name.text, parameters, head, index, index, []⟩ }, ?_⟩
  simp [start, hpending, hnew, hcount]

theorem exists_finish {m : Macro} (hpending : s.pending = some m) :
    ∃ s', s.finish index head = .ok s' := by
  refine ⟨⟨s.table.declare { m with last := index }, none⟩, ?_⟩
  rw [finish, hpending]

theorem exists_keep
    (hkinds : ∀ m, s.pending = some m → ∀ token ∈ line, token.kind ≠ .symbolic) :
    ∃ s', s.keep line = .ok s' := by
  rw [keep]
  cases hpending : s.pending with
  | none => exact ⟨s, rfl⟩
  | some m =>
    have hfind : line.find? (·.kind == .symbolic) = none :=
      List.find?_eq_none.2 fun t ht => by simpa using hkinds m hpending t ht
    simp only [hfind]
    exact ⟨_, rfl⟩

end Steps

theorem run_cons {rest : List Line} :
    s.run index (line :: rest) = s.step index line >>= fun s => s.run (index + 1) rest := by
  rw [run]
  cases s.step index line <;> rfl

/-- The last line is read in the state that the lines before it leave. -/
theorem run_concat {before : List Line} :
    s.run index (before ++ [line]) =
      s.run index before >>= fun s => s.step (index + before.length) line := by
  induction before generalizing s index with
  | nil =>
    rw [List.nil_append, run_cons]
    exact bind_pure _
  | cons first rest ih =>
    rw [List.cons_append, run_cons, run_cons, bind_assoc, List.length_cons,
      Nat.add_comm rest.length, ← Nat.add_assoc]
    exact congrArg _ (funext fun s => ih)

/-- What every step keeps, a run keeps. -/
theorem run_induction {P : MacroSearch → Prop}
    (hstep : ∀ {s s' : MacroSearch} {index : Nat}, ∀ line ∈ lines, s.step index line = .ok s' →
      P s → P s')
    (h : s.run index lines = .ok s') (hs : P s) : P s' := by
  induction lines generalizing s index with
  | nil =>
    cases h
    exact hs
  | cons line rest ih =>
    rw [run_cons] at h
    obtain ⟨s₁, hfirst, hrest⟩ := bind_eq_ok.1 h
    have hs₁ : P s₁ := hstep line List.mem_cons_self hfirst hs
    exact ih (fun l hl => hstep l (List.mem_cons_of_mem _ hl)) hrest hs₁

/-! ## As many macros as lines -/

theorem size_declare_le (table : MacroTable) (m : Macro) :
    (table.declare m).size ≤ table.size + 1 := by
  have hlength : ∀ entries : List (String × Macro),
      (Dictionary.put m.name m entries).length ≤ entries.length + 1 := by
    intro entries
    induction entries with
    | nil => simp [Dictionary.put]
    | cons entry rest ih =>
      rw [Dictionary.put]
      split
      · simp
      · simpa using ih
  exact hlength table.entries

/-- A line declares at most one macro. -/
theorem size_le_of_step (h : s.step index line = .ok s') :
    s'.table.size ≤ s.table.size + 1 := by
  rcases step_cases h with ⟨-, rfl⟩ | ⟨-, -, -, -, -, -, -, -, -, rfl⟩ | ⟨m, -, -, -, rfl⟩ |
    ⟨-, -, -, rfl⟩ | ⟨m, -, -, -, -, rfl⟩
  · exact Nat.le_succ _
  · exact Nat.le_succ _
  · exact size_declare_le _ _
  · exact Nat.le_succ _
  · exact Nat.le_succ _

/-- So there are no more macros than lines. -/
theorem size_le_of_run (h : s.run index lines = .ok s') :
    s'.table.size ≤ s.table.size + lines.length := by
  induction lines generalizing s index with
  | nil =>
    cases h
    exact Nat.le_refl _
  | cons line rest ih =>
    rw [run_cons] at h
    obtain ⟨s₁, hfirst, hrest⟩ := bind_eq_ok.1 h
    have hone := size_le_of_step hfirst
    have hmore := ih hrest
    rw [List.length_cons]
    omega

/-! ## Bodies -/

/-- All body lines of all declarations, finished or not, have a property. -/
structure Bodies (p : Line → Prop) (s : MacroSearch) : Prop where
  table : ∀ entry ∈ s.table.entries, ∀ line ∈ entry.2.body, p line
  pending : ∀ m, s.pending = some m → ∀ line ∈ m.body, p line

/-- A property of lines without symbolic labels passes to the lines of bodies. -/
theorem bodies_of_step {p : Line → Prop} (hline : (∀ t ∈ line, t.kind ≠ .symbolic) → p line)
    (h : s.step index line = .ok s') (hs : Bodies p s) : Bodies p s' := by
  rcases step_cases h with ⟨-, rfl⟩ | ⟨head, name, count, parameters, -, -, -, -, -, rfl⟩ |
    ⟨m, -, -, hpending, rfl⟩ | ⟨-, -, -, rfl⟩ | ⟨m, -, -, hpending, hkinds, rfl⟩
  · exact hs
  · refine ⟨hs.table, ?_⟩
    rintro m hm
    cases hm
    simp
  · refine ⟨Dictionary.forall_mem_put ?_ hs.table, ?_⟩
    · exact hs.pending m hpending
    · rintro m' hm'
      cases hm'
  · exact hs
  · refine ⟨hs.table, ?_⟩
    rintro m' hm'
    cases hm'
    intro l hl
    rcases List.mem_append.1 hl with hl | hl
    · exact hs.pending m hpending l hl
    · exact List.mem_singleton.1 hl ▸ hline hkinds

end MacroSearch

namespace MacroTable

variable {table : MacroTable} {lines : List Line}

/-- Collecting succeeds only if no declaration is left open at the end. -/
theorem collect_eq_ok (h : collect lines = .ok table) :
    MacroSearch.run {} 0 lines = .ok ⟨table, none⟩ := by
  rw [collect] at h
  split at h
  · cases h
  · next s hrun =>
    obtain ⟨table', pending⟩ := s
    cases pending with
    | some m => cases h
    | none =>
      cases h
      exact hrun

/-- A program has at most as many macros as lines. -/
theorem size_le_of_collect (h : collect lines = .ok table) : table.size ≤ lines.length := by
  have hsize := MacroSearch.size_le_of_run (collect_eq_ok h)
  simpa [Dictionary.size, empty] using hsize

/-- What holds of every line of a program without a symbolic label holds of the body lines of its
macros. -/
theorem body_of_collect_of_not_symbolic {p : Line → Prop}
    (hlines : ∀ line ∈ lines, (∀ t ∈ line, t.kind ≠ .symbolic) → p line)
    (h : collect lines = .ok table) : ∀ m ∈ table.values, ∀ line ∈ m.body, p line := by
  have hbodies : MacroSearch.Bodies p ⟨table, none⟩ :=
    MacroSearch.run_induction
      (fun line hline hstep hs => MacroSearch.bodies_of_step (hlines line hline) hstep hs)
      (collect_eq_ok h) ⟨by simp [empty], by simp⟩
  intro m hm
  obtain ⟨entry, hentry, rfl⟩ := List.mem_map.1 hm
  exact hbodies.table entry hentry

/-- What holds of every line of a program holds of the body lines of its macros. -/
theorem body_of_collect {p : Line → Prop} (hlines : ∀ line ∈ lines, p line)
    (h : collect lines = .ok table) : ∀ m ∈ table.values, ∀ line ∈ m.body, p line :=
  body_of_collect_of_not_symbolic (fun line hline _ => hlines line hline) h

end MacroTable
end CircuitRom
