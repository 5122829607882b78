import CircuitRom.Proofs.Acyclicity
import CircuitRom.Proofs.Call
import CircuitRom.Proofs.Declaration
import CircuitRom.Proofs.Inlining
import CircuitRom.Token.Lexer

/-!
# When the rounds suffice

In a checked table no chain of macros that name each other is longer than the table, and a program
has fewer macros than lines.  So the calls that stand in macro bodies cannot use up the rounds of
a program.  A body may however start a line with a placeholder, and then it is the caller who
decides which macro that line calls: the check does not see such calls, and they can go on for
ever.  They are the only reason for a program to use up its rounds.  A checked table without such
body lines is done with any lines in as many rounds as it has macros.
-/

namespace CircuitRom
namespace MacroTable

variable {table : MacroTable} {line next : Line} {lines : List Line}

/-! ## Calls that come from calls -/

/-- The second line is one of those that replace the call of the first. -/
def Spawns (table : MacroTable) (line next : Line) : Prop :=
  ∃ call lines, table.call? line = some call ∧ call.expand = .ok lines ∧ next ∈ lines

/-- A call of the line gives a body line a macro's name where a placeholder stands for the name of
a call. -/
def PassesName (table : MacroTable) (line : Line) : Prop :=
  ∃ call body token rest result, table.call? line = some call ∧ body ∈ call.target.body ∧
    Line.statement body = token :: rest ∧ token.isPlaceholder = true ∧
    call.instantiate token = .ok result ∧ (table.find? result.text).isSome

/-- The line is one of the given lines, or comes from one by expansion. -/
def Reached (table : MacroTable) (lines : List Line) (line : Line) : Prop :=
  ∃ start ∈ lines, Relation.ReflTransGen table.Spawns start line

/-- A call that comes from another is the call of a body line. -/
theorem exists_body_of_spawns {call : Call} {called : Call} (hcall : table.call? line = some call)
    (hspawns : table.Spawns line next) (hcalled : table.call? next = some called) :
    ∃ body token rest, body ∈ call.target.body ∧ Line.statement body = token :: rest ∧
      call.instantiate token = .ok called.name := by
  obtain ⟨call', lines, hcall', hexpand, hnext⟩ := hspawns
  cases hcall.symm.trans hcall'
  obtain ⟨-, copies, hcopies, rfl⟩ := Call.expand_eq_ok.1 hexpand
  have hmem : next ∈ copies := by
    split at hnext
    · exact hnext
    · rcases List.mem_cons.1 hnext with rfl | hnext
      · -- the labels in front of the call have a line of their own, which calls nothing
        obtain ⟨name, rest, m, -, -, -, rfl⟩ := call?_eq_some_iff.1 hcall
        rw [call?_labelPart] at hcalled
        cases hcalled
      · exact hnext
  obtain ⟨body, hbody, hcopy⟩ := exists_of_mem_right hcopies hmem
  obtain ⟨name, rest, m, hstatement, -, -, rfl⟩ := call?_eq_some_iff.1 hcalled
  have hstatements := Line.forall₂_statement hcopy fun _ _ => Call.kind_of_instantiate
  rw [hstatement] at hstatements
  obtain ⟨token, rest', htoken, -, hbodyStatement⟩ := List.forall₂_cons_right_iff.1 hstatements
  exact ⟨body, token, rest', hbody, hbodyStatement, htoken⟩

/-- A call that comes from another, by no name that was passed on, is of a macro that the other's
body names. -/
theorem names_of_spawns {call called : Call} (hcall : table.call? line = some call)
    (hspawns : table.Spawns line next) (hcalled : table.call? next = some called)
    (hpasses : ¬table.PassesName line) : table.Names call.target called.target := by
  obtain ⟨body, token, rest, hbody, hstatement, htoken⟩ :=
    exists_body_of_spawns hcall hspawns hcalled
  obtain ⟨name, args, m, -, -, hm, rfl⟩ := call?_eq_some_iff.1 hcall
  obtain ⟨name', args', m', -, -, hm', rfl⟩ := call?_eq_some_iff.1 hcalled
  have hliteral : token.isPlaceholder = false := by
    rw [Bool.eq_false_iff]
    intro hplaceholder
    exact hpasses ⟨_, body, token, rest, name', hcall, hbody, hstatement, hplaceholder, htoken,
      by rw [hm']; rfl⟩
  have htext : name'.text = token.text := by
    rcases Call.instantiate_eq_ok.1 htoken with ⟨digits, -, -, hdigits, -⟩ | ⟨-, rfl⟩
    · rw [Token.isPlaceholder, hdigits] at hliteral
      cases hliteral
    · rfl
  have hmem : token ∈ body := List.mem_of_mem_drop (hstatement ▸ List.mem_cons_self)
  refine ⟨(mem_values_of_find? hm).1, (mem_values_of_find? hm').1, token,
    List.mem_flatten.2 ⟨body, hbody, hmem⟩, ?_⟩
  rw [(mem_values_of_find? hm').2, htext]

/-! ## Chains of calls -/

/-- A line with a call that stands after a round comes from a line before it. -/
theorem exists_spawns_of_round {changed : Bool} {after : List Line}
    (hround : table.round lines = .ok (changed, after)) (hnext : next ∈ after) {called : Call}
    (hcalled : table.call? next = some called) : ∃ line ∈ lines, table.Spawns line next := by
  obtain ⟨-, parts, hparts, rfl⟩ := round_eq_ok.1 hround
  obtain ⟨part, hpart, hnext⟩ := List.mem_flatten.1 hnext
  obtain ⟨line, hline, hexpand⟩ := exists_of_mem_right hparts hpart
  refine ⟨line, hline, ?_⟩
  rw [expandLine] at hexpand
  split at hexpand
  · next hnone =>
    cases hexpand
    rw [List.mem_singleton.1 hnext, hnone] at hcalled
    cases hcalled
  · next call hcall => exact ⟨call, part, hcall, hexpand, hnext⟩

/-- A call that is left after `k` rounds ends a chain of `k + 1` calls, each named by the body of
the one before. -/
theorem exists_chain_of_rounds {k : Nat} {after : List Line}
    (hrounds : table.rounds k lines = .ok after) {last : Line} (hlast : last ∈ after)
    (hcall : (table.call? last).isSome)
    (hpasses : ∀ line, table.Reached lines line → ¬table.PassesName line) :
    ∃ start ∈ lines, ∃ call chain, table.call? start = some call ∧
      (call.target :: chain).IsChain table.Names ∧ chain.length = k := by
  induction k generalizing lines with
  | zero =>
    cases hrounds
    obtain ⟨call, hcall⟩ := Option.isSome_iff_exists.1 hcall
    exact ⟨last, hlast, call, [], hcall, .singleton _, rfl⟩
  | succ k ih =>
    obtain ⟨⟨changed, middle⟩, hround, hrest⟩ := bind_eq_ok.1 hrounds
    have hmiddle : ∀ line, table.Reached middle line → ¬table.PassesName line := by
      rintro line ⟨start, hstart, hline⟩ hpass
      rcases Relation.ReflTransGen.cases_head hline with rfl | ⟨second, hsecond, hline'⟩
      · obtain ⟨call, -, -, -, -, hcall, -⟩ := id hpass
        obtain ⟨before, hbefore, hspawns⟩ := exists_spawns_of_round hround hstart hcall
        exact hpasses start ⟨before, hbefore, .single hspawns⟩ hpass
      · obtain ⟨call, -, hcall, -, -⟩ := id hsecond
        obtain ⟨before, hbefore, hspawns⟩ := exists_spawns_of_round hround hstart hcall
        exact hpasses line ⟨before, hbefore, .head hspawns hline⟩ hpass
    obtain ⟨second, hsecond, called, chain, hcalled, hchain, rfl⟩ := ih hrest hmiddle
    obtain ⟨start, hstart, hspawns⟩ := exists_spawns_of_round hround hsecond hcalled
    obtain ⟨call, -, hstartCall, -, -⟩ := id hspawns
    have hnames := names_of_spawns hstartCall hspawns hcalled
      (hpasses start ⟨start, hstart, .refl⟩)
    exact ⟨start, hstart, call, called.target :: chain, hstartCall,
      List.isChain_cons_cons.2 ⟨hnames, hchain⟩, rfl⟩

/-- In a table without circles a chain of names is at most as long as the table. -/
theorem length_le_of_isChain (hacyclic : ∀ m, ¬Relation.TransGen table.Names m m)
    {first : Macro} {chain : List Macro} (hfirst : first ∈ table.values)
    (hchain : (first :: chain).IsChain table.Names) :
    (first :: chain).length ≤ table.size := by
  have hpairwise : (first :: chain).Pairwise (Relation.TransGen table.Names) :=
    List.isChain_iff_pairwise.1 (hchain.imp fun _ _ h => .single h)
  have hnodup : (first :: chain).Nodup := by
    refine hpairwise.imp ?_
    rintro a b hab rfl
    exact hacyclic a hab
  have hmem : ∀ m ∈ first :: chain, m ∈ table.values := by
    rw [List.forall_mem_cons]
    refine ⟨hfirst, fun m hm => ?_⟩
    obtain ⟨b, -, hb⟩ := Relation.TransGen.tail'_iff.1 ((List.pairwise_cons.1 hpairwise).1 m hm)
    exact hb.2.1
  have hle := (List.subperm_of_subset hnodup hmem).length_le
  rwa [Dictionary.values, List.length_map] at hle

/-- Rounds that number the macros of a checked table leave a call only where a name is passed
on. -/
theorem exists_passesName_of_unsettled {k n : Nat} {e : Diagnostic} (hcheck : table.check = .ok ())
    (hk : table.size ≤ k) (he : table.expandWithin k lines = .error e)
    (hcause : e.cause = .expansionUnsettled n) :
    n = k ∧ ∃ line, table.Reached lines line ∧ table.PassesName line := by
  obtain ⟨rfl, after, hrounds, last, hlast, hcall⟩ := settle_unsettled_iff.1 ⟨e, he, hcause⟩
  refine ⟨rfl, ?_⟩
  by_contra hnone
  push Not at hnone
  obtain ⟨start, -, call, chain, hstart, hchain, hlength⟩ :=
    exists_chain_of_rounds hrounds hlast hcall hnone
  obtain ⟨name, args, m, -, -, hm, rfl⟩ := call?_eq_some_iff.1 hstart
  have hle := length_le_of_isChain (check_eq_ok_iff.1 hcheck) (mem_values_of_find? hm).1 hchain
  rw [List.length_cons] at hle
  omega

/-! ## Tables that call by name only -/

/-- No body line has a placeholder as its first token after the labels. -/
def CallsByName (table : MacroTable) : Prop :=
  ∀ m ∈ table.values, ∀ body ∈ m.body, ∀ token ∈ (Line.statement body).head?,
    token.isPlaceholder = false

instance : Decidable table.CallsByName :=
  inferInstanceAs (Decidable (∀ m ∈ table.values, ∀ body ∈ m.body,
    ∀ token ∈ (Line.statement body).head?, token.isPlaceholder = false))

/-- If every body line starts with a name, no argument can get to where a call starts. -/
theorem CallsByName.not_passesName (h : table.CallsByName) : ¬table.PassesName line := by
  rintro ⟨call, body, token, rest, -, hcall, hbody, hstatement, hplaceholder, -, -⟩
  obtain ⟨name, args, m, -, -, hm, rfl⟩ := call?_eq_some_iff.1 hcall
  have hhead : token ∈ (Line.statement body).head? := by
    rw [hstatement]
    rfl
  rw [h m (mem_values_of_find? hm).1 body hbody token hhead] at hplaceholder
  cases hplaceholder

theorem settle_of_call?_eq_none {limit k : Nat} (h : ∀ l ∈ lines, table.call? l = none) :
    table.settle limit k lines = .ok lines := by
  cases k with
  | zero => rw [settle, List.findSome?_eq_none_iff.2 h]
  | succ k =>
    rw [settle_succ, round_of_call?_eq_none h]
    rfl

/-- Rounds that suffice come to the same when there are more of them. -/
theorem settle_eq_of_le {limit limit' k k' : Nat} (hk : k ≤ k')
    (h : ∀ e n, table.settle limit k lines = .error e → e.cause ≠ .expansionUnsettled n) :
    table.settle limit' k' lines = table.settle limit k lines := by
  induction k generalizing k' lines with
  | zero =>
    cases hpending : lines.findSome? table.call? with
    | some call =>
      have herror : table.settle limit 0 lines =
          .error (.atToken (.expansionUnsettled limit) call.name) := by
        rw [settle, hpending]
      exact absurd rfl (h _ limit herror)
    | none =>
      have hnone := List.findSome?_eq_none_iff.1 hpending
      rw [settle_of_call?_eq_none hnone, settle_of_call?_eq_none hnone]
  | succ k ih =>
    obtain ⟨j, rfl⟩ : ∃ j, k' = j + 1 := ⟨k' - 1, by omega⟩
    rw [settle_succ] at h ⊢
    rw [settle_succ]
    cases hround : table.round lines with
    | error e => rfl
    | ok result =>
      obtain ⟨changed, after⟩ := result
      rw [hround] at h
      cases changed with
      | false => rfl
      | true => exact ih (by omega) h

/-- In a checked table whose body lines do not start with a placeholder, rounds that number the
macros suffice for any lines, and more rounds come to the same. -/
theorem expandWithin_settles_within_size {table : MacroTable} (hcheck : table.check = .ok ())
    (hnames : table.CallsByName) {k : Nat} (hk : table.size ≤ k) (lines : List Line) :
    (∀ e n, table.expandWithin k lines = .error e → e.cause ≠ .expansionUnsettled n) ∧
      table.expandWithin k lines = table.expandWithin table.size lines := by
  have hsuffices : ∀ j, table.size ≤ j → ∀ e n, table.expandWithin j lines = .error e →
      e.cause ≠ .expansionUnsettled n := by
    intro j hj e n he hcause
    obtain ⟨-, line, -, hpasses⟩ := exists_passesName_of_unsettled hcheck hj he hcause
    exact hnames.not_passesName hpasses
  exact ⟨hsuffices k hk, settle_eq_of_le hk (hsuffices table.size (Nat.le_refl _))⟩

/-- A program whose macros call each other behind labels.  One has no body, and its name is passed
on as an argument. -/
def layeredProgram : List Line :=
  ((tokenize ("#macro none 0\n#endm\n#macro use 1\n1: none\nMOV $0 $0\n#endm\n" ++
    "#macro top 1\n2: use $0\n#endm\nstart: top none")).toOption).getD []

/-- The macros of `layeredProgram`. -/
def layeredTable : MacroTable := ((collect layeredProgram).toOption).getD empty

/-- Three macros need three rounds here, and the next check shows that two are too few. -/
theorem layeredTable_settles_within_three :
    (layeredTable.check = .ok () ∧ layeredTable.CallsByName ∧ layeredTable.size = 3) ∧
    (∀ e n, layeredTable.expandWithin 3 (layeredTable.strip layeredProgram) = .error e →
      e.cause ≠ .expansionUnsettled n) ∧
    layeredTable.expandWithin 3 (layeredTable.strip layeredProgram) =
      layeredTable.expandWithin layeredTable.size (layeredTable.strip layeredProgram) := by
  have hfacts : layeredTable.check = .ok () ∧ layeredTable.CallsByName ∧ layeredTable.size = 3 := by
    decide +kernel
  obtain ⟨hcheck, hnames, hsize⟩ := hfacts
  exact ⟨⟨hcheck, hnames, hsize⟩,
    expandWithin_settles_within_size hcheck hnames (Nat.le_of_eq hsize) _⟩

-- one round fewer leaves a call
example : (layeredTable.expandWithin 2 (layeredTable.strip layeredProgram)).isOk = false := by
  decide +kernel

/-! ## Programs -/

theorem expandMacros_eq (hcollect : collect lines = .ok table) (hcheck : table.check = .ok ()) :
    expandMacros lines = table.expandWithin roundLimit (table.strip lines) := by
  rw [expandMacros, hcollect]
  simp only [bind, Except.bind, hcheck]

/-- A program whose macros are checked expands to lines without calls or meets a fault other than
the number of rounds, unless its calls pass a macro's name on to where a call starts. -/
theorem expandMacros_settles_unless_name_passed {lines : List Line} {table : MacroTable}
    (hlength : lines.length ≤ 1000000) (hcollect : collect lines = .ok table)
    (hcheck : table.check = .ok ()) :
    (∃ out, expandMacros lines = .ok out ∧ ∀ line ∈ out, table.call? line = none) ∨
    (∃ e, expandMacros lines = .error e ∧ ∀ n, e.cause ≠ .expansionUnsettled n) ∨
    (∃ e, expandMacros lines = .error e ∧ e.cause = .expansionUnsettled 1000000 ∧
      ∃ line, table.Reached (table.strip lines) line ∧ table.PassesName line) := by
  rw [expandMacros_eq hcollect hcheck]
  cases hresult : table.expandWithin roundLimit (table.strip lines) with
  | ok out => exact .inl ⟨out, rfl, (settle_eq_ok_iff.1 hresult).call?_eq_none⟩
  | error e =>
    refine .inr ?_
    by_cases hcause : ∃ n, e.cause = .expansionUnsettled n
    · obtain ⟨n, hcause⟩ := hcause
      have hmacros := size_le_of_collect hcollect
      obtain ⟨rfl, hpasses⟩ :=
        exists_passesName_of_unsettled hcheck (by rw [roundLimit]; omega) hresult hcause
      exact .inr ⟨e, rfl, hcause, hpasses⟩
    · push Not at hcause
      exact .inl ⟨e, rfl, hcause⟩

/-- A program in which one macro calls another. -/
def nestedProgram : List Line :=
  ((tokenize
    "#macro up 1\nINC $0\n#endm\n#macro twice 1\nup $0\nup $0\n#endm\ntwice R2").toOption).getD []

/-- The macros of `nestedProgram`. -/
def nestedTable : MacroTable := ((collect nestedProgram).toOption).getD empty

/-- It is the first of the three cases that happens here: no call is left. -/
theorem nestedProgram_settles_unless_name_passed :
    (nestedProgram.length ≤ 1000000 ∧ collect nestedProgram = .ok nestedTable ∧
      nestedTable.check = .ok ()) ∧
    ∃ out, expandMacros nestedProgram = .ok out ∧
      out.map (fun line => line.map (·.text)) = [["INC", "R2"], ["INC", "R2"]] ∧
      ∀ line ∈ out, nestedTable.call? line = none := by
  have hrun : ((expandMacros nestedProgram).map fun out =>
      out.map fun line => line.map (·.text)).toOption =
      some [["INC", "R2"], ["INC", "R2"]] := by decide +kernel
  rw [toOption_eq_some, map_eq_ok] at hrun
  obtain ⟨out, hout, htexts⟩ := hrun
  have hlength : nestedProgram.length ≤ 1000000 := by decide
  have htable : collect nestedProgram = .ok nestedTable := rfl
  have hcheck : nestedTable.check = .ok () := rfl
  refine ⟨⟨hlength, htable, hcheck⟩, out, hout, htexts, ?_⟩
  rcases expandMacros_settles_unless_name_passed hlength htable hcheck with
    ⟨out', hout', hcalls⟩ | ⟨e, he, -⟩ | ⟨e, he, -⟩
  · rw [hout] at hout'
    cases hout'
    exact hcalls
  · rw [hout] at he
    cases he
  · rw [hout] at he
    cases he

/-! ## A program that passes a name on for ever -/

theorem settle_of_round {limit k : Nat} {after : List Line}
    (h : table.round lines = .ok (true, after)) :
    table.settle limit (k + 1) lines = table.settle limit k after := by
  rw [settle_succ, h]
  rfl

/-- Lines that a round gives back unchanged, with a call in them, use up any number of rounds. -/
theorem settle_of_loop {limit k : Nat} {call : Call} (h : table.round lines = .ok (true, lines))
    (hcall : lines.findSome? table.call? = some call) :
    table.settle limit k lines = .error (.atToken (.expansionUnsettled limit) call.name) := by
  induction k with
  | zero => rw [settle, hcall]
  | succ k ih => rw [settle_of_round h, ih]

/-- The macro calls what it is given, with itself as argument, and is given itself. -/
def selfPassingProgram : List Line :=
  ((tokenize "#macro w 1\n$0 $0\n#endm\nw w").toOption).getD []

/-- The macros of `selfPassingProgram`. -/
def selfPassingTable : MacroTable := ((collect selfPassingProgram).toOption).getD empty

/-- The one line of `selfPassingProgram` after any number of rounds. -/
def selfPassingLine : Line :=
  [⟨"w", .opcode, ⟨4, 2, "w w"⟩, some ⟨2, 0, "$0 $0"⟩⟩,
    ⟨"w", .operand, ⟨4, 2, "w w"⟩, some ⟨2, 3, "$0 $0"⟩⟩]

/-- The check alone does not keep a program from using up its rounds. -/
theorem check_does_not_bound_rounds :
    ∃ lines table e, tokenize "#macro w 1\n$0 $0\n#endm\nw w" = .ok lines ∧
      lines.length ≤ 1000000 ∧ collect lines = .ok table ∧ table.check = .ok () ∧
      expandMacros lines = .error e ∧ e.cause = .expansionUnsettled 1000000 := by
  have hfirst : selfPassingTable.round (selfPassingTable.strip selfPassingProgram) =
      .ok (true, [selfPassingLine]) := rfl
  have hloop : selfPassingTable.round [selfPassingLine] = .ok (true, [selfPassingLine]) := rfl
  obtain ⟨call, hcall⟩ : ∃ call, [selfPassingLine].findSome? selfPassingTable.call? = some call :=
    ⟨_, rfl⟩
  have hexpand : expandMacros selfPassingProgram =
      selfPassingTable.expandWithin roundLimit (selfPassingTable.strip selfPassingProgram) :=
    expandMacros_eq rfl rfl
  have hlimit : roundLimit = 999999 + 1 := rfl
  rw [expandWithin, hlimit, settle_of_round hfirst, settle_of_loop hloop hcall] at hexpand
  exact ⟨selfPassingProgram, selfPassingTable, _, rfl, by decide, rfl, rfl, hexpand, rfl⟩

end MacroTable
end CircuitRom
