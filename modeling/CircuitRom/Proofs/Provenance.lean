import CircuitRom.Proofs.Blocks
import CircuitRom.Proofs.Cutting
import CircuitRom.Proofs.Delimiters

/-!
# Where the tokens of an expanded program come from

A call copies the tokens of a macro's body and puts them where the call or one of its arguments
stands.  The call may be a copy itself, and its arguments too, but then they stand where an earlier
call stood.  So after expansion every token stands where a token outside all declarations was
written: it is that token, unchanged, or a copy that remembers its place in a body.
-/

namespace CircuitRom

/-! ## Source lines -/

theorem ne_nil_of_tokenize {code : String} {lines : List Line} (h : tokenize code = .ok lines) :
    ∀ line ∈ lines, line ≠ [] := by
  obtain ⟨all, -, h⟩ := bind_eq_ok.1 h
  cases h
  intro line hline
  simpa using List.of_mem_filter hline

theorem origin_of_tokenize {code : String} {lines : List Line} (h : tokenize code = .ok lines) :
    ∀ line ∈ lines, ∀ t ∈ line, t.origin = none := by
  obtain ⟨all, hall, h⟩ := bind_eq_ok.1 h
  cases h
  intro line hline
  obtain ⟨source, -, hlex⟩ :=
    exists_of_mem_right (mapM_eq_ok.1 hall) (List.mem_of_mem_filter hline)
  exact origin_of_lexLine hlex

/-- The first line stands above the second. -/
def Line.Above (above below : Line) : Prop :=
  ∀ s ∈ above, ∀ t ∈ below, s.site.line < t.site.line

/-- Lines that are read in order have their numbers in order. -/
theorem pairwise_above {sources : List (List Char × Nat)} {lines : List Line}
    (hsources : sources.Pairwise fun a b => a.2 < b.2)
    (h : List.Forall₂ (fun source line => lexLine source.2 source.1 = .ok line) sources lines) :
    lines.Pairwise Line.Above := by
  induction h with
  | nil => exact List.Pairwise.nil
  | @cons source line sources lines hline hlines ih =>
    obtain ⟨hfirst, hrest⟩ := List.pairwise_cons.1 hsources
    refine List.pairwise_cons.2 ⟨fun below hbelow s hs t ht => ?_, ih hrest⟩
    obtain ⟨source', hsource', hlex⟩ := exists_of_mem_right hlines hbelow
    rw [((isCutOf_of_lexLine hline).site s hs).1, ((isCutOf_of_lexLine hlex).site t ht).1]
    exact hfirst source' hsource'

/-- The lines of a program stand one above the other in the source text. -/
theorem pairwise_tokenize {code : String} {lines : List Line} (h : tokenize code = .ok lines) :
    lines.Pairwise Line.Above := by
  obtain ⟨all, hall, h⟩ := bind_eq_ok.1 h
  cases h
  have hnumbers : ((Text.lines code.toList).zipIdx 1).Pairwise fun a b => a.2 < b.2 := by
    rw [← List.pairwise_map, List.zipIdx_map_snd]
    exact List.pairwise_lt_range'
  exact (pairwise_above hnumbers (mapM_eq_ok.1 hall)).filter _

/-- Tokens of different lines have different line numbers. -/
theorem line_ne_of_tokenize {code : String} {lines : List Line} (h : tokenize code = .ok lines)
    {i j : Nat} (hij : i ≠ j) {line line' : Line} (hi : lines[i]? = some line)
    (hj : lines[j]? = some line') : ∀ s ∈ line, ∀ t ∈ line', s.site.line ≠ t.site.line := by
  obtain ⟨hilt, rfl⟩ := List.getElem?_eq_some_iff.1 hi
  obtain ⟨hjlt, rfl⟩ := List.getElem?_eq_some_iff.1 hj
  have habove := List.pairwise_iff_getElem.1 (pairwise_tokenize h)
  intro s hs t ht
  rcases Nat.lt_or_gt_of_ne hij with hlt | hlt
  · exact Nat.ne_of_lt (habove i j hilt hjlt hlt s hs t ht)
  · exact Nat.ne_of_gt (habove j i hjlt hilt hlt t ht s hs)

/-! ## Expansion -/

/-- The token stands where one of the tokens of the lines was written.  It is one of them, or it
was copied from a macro's body. -/
structure Token.ComesFrom (table : MacroTable) (lines : List Line) (t : Token) : Prop where
  site : ∃ line ∈ lines, ∃ u ∈ line, u.site = t.site
  kept : t.origin = none → ∃ line ∈ lines, t ∈ line
  copied : ∀ s, t.origin = some s →
    ∃ m ∈ table.values, ∃ line ∈ m.body, ∃ u ∈ line, u.site = s

/-- A copy stands at the call or at an argument, wherever these come from. -/
theorem Token.ComesFrom.instantiate {table : MacroTable} {lines : List Line} {call : Call}
    {t t' : Token} (hname : call.name.ComesFrom table lines)
    (harguments : ∀ a ∈ call.arguments, a.ComesFrom table lines)
    (hbody : ∃ m ∈ table.values, ∃ line ∈ m.body, t ∈ line)
    (h : call.instantiate t = .ok t') : t'.ComesFrom table lines := by
  obtain ⟨m, hm, line, hline, ht⟩ := hbody
  have horigin : ∀ s, some t.site = some s →
      ∃ m ∈ table.values, ∃ line ∈ m.body, ∃ u ∈ line, u.site = s := by
    rintro s ⟨⟩
    exact ⟨m, hm, line, hline, t, ht, rfl⟩
  rcases Call.instantiate_eq_ok.1 h with ⟨_, n, argument, _, _, hargument, rfl⟩ | ⟨_, rfl⟩
  · exact ⟨(harguments argument (List.mem_of_getElem? hargument)).site, by simp, horigin⟩
  · exact ⟨hname.site, by simp, horigin⟩

/-- Whatever the number of rounds, a token is one of the program's or a copy of one in a body. -/
theorem MacroTable.comesFrom_settle {table : MacroTable} {limit k : Nat} {lines out : List Line}
    (hlines : ∀ line ∈ lines, ∀ t ∈ line, t.origin = none)
    (h : table.settle limit k lines = .ok out) :
    ∀ line ∈ out, ∀ t ∈ line, t.ComesFrom table lines := by
  have hbodies : ∀ m ∈ table.values, ∀ line ∈ m.body, ∀ t ∈ line,
      ∃ m ∈ table.values, ∃ line ∈ m.body, t ∈ line :=
    fun m hm line hline t ht => ⟨m, hm, line, hline, ht⟩
  refine forall_of_settle (fun line call expansion hcall hexpand => ?_) h fun line hline t ht => ?_
  · refine forall_token_expand (fun call t t' hname harguments hbody hcopy => ?_) hbodies hcall
      hexpand
    exact hname.instantiate (fun a ha => (harguments a ha).1) hbody hcopy
  · have horigin := hlines line hline t ht
    exact ⟨⟨line, hline, t, ht, rfl⟩, fun _ => ⟨line, hline, ht⟩, by simp [horigin]⟩

end CircuitRom
