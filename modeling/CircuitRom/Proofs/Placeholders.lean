import CircuitRom.Proofs.Call
import CircuitRom.Proofs.Numerals
import CircuitRom.Token.Lexer

/-!
# Arguments in the place of placeholders

A call puts its arguments where the body of its macro has placeholders, and nothing else: what it
comes to is told token by token.  It can fail for two reasons only.  Either the number of its
arguments is not that of the macro, or a word of the body starts with a dollar sign and is not a
placeholder for one of them.  The number of a placeholder is read as a count, so a plus sign in
front of its digits is accepted.
-/

namespace CircuitRom

open Text

/-- The token is a placeholder for the argument of the given number: a dollar sign, an optional plus
sign, and decimal digits. -/
def Token.StandsFor (t : Token) (n : Nat) : Prop :=
  ∃ digits, (t.text.toList = '$' :: digits ∨ t.text.toList = '$' :: '+' :: digits) ∧
    Writes 10 digits n ∧ n < 2 ^ 64

theorem Token.standsFor_iff {t : Token} {n : Nat} :
    t.StandsFor n ↔ ∃ count, t.text.toList = '$' :: count ∧
      count? (String.ofList count) = some n := by
  simp only [count?_eq_some_iff, WritesCount, String.toList_ofList]
  constructor
  · rintro ⟨digits, htext | htext, hwrites⟩
    · exact ⟨digits, htext, digits, .inl rfl, hwrites⟩
    · exact ⟨'+' :: digits, htext, digits, .inr rfl, hwrites⟩
  · rintro ⟨count, htext, digits, rfl | rfl, hwrites⟩
    · exact ⟨count, .inl htext, hwrites⟩
    · exact ⟨digits, .inr htext, hwrites⟩

namespace Call

variable {call : Call}

/-- What a call makes of a token of the body. -/
inductive Copied (call : Call) : Token → Token → Prop
  /-- A placeholder takes the text and the place of its argument, as written at the call. -/
  | argument {token argument : Token} {n : Nat} : token.StandsFor n →
      call.arguments[n]? = some argument →
      Copied call token ⟨argument.text, token.kind, argument.site, some token.site⟩
  /-- Any other token keeps its text and is placed at the call. -/
  | word {token : Token} : token.isPlaceholder = false →
      Copied call token ⟨token.text, token.kind, call.name.site, some token.site⟩

theorem instantiate_eq_ok_iff_copied {token result : Token} :
    call.instantiate token = .ok result ↔ call.Copied token result := by
  rw [instantiate_eq_ok]
  constructor
  · rintro (⟨digits, n, argument, htext, hcount, hargument, rfl⟩ | ⟨hword, rfl⟩)
    · exact .argument (Token.standsFor_iff.2 ⟨digits, htext, hcount⟩) hargument
    · exact .word hword
  · rintro (⟨hstands, hargument⟩ | hword)
    · obtain ⟨digits, htext, hcount⟩ := Token.standsFor_iff.1 hstands
      exact .inl ⟨digits, _, _, htext, hcount, hargument, rfl⟩
    · exact .inr ⟨hword, rfl⟩

/-- A token can be copied unless it starts with a dollar sign and stands for no argument. -/
theorem exists_copied_iff {token : Token} :
    (∃ result, call.Copied token result) ↔
      (token.isPlaceholder = true → ∃ n < call.arguments.length, token.StandsFor n) := by
  constructor
  · rintro ⟨result, ⟨hstands, hargument⟩ | hword⟩ hplaceholder
    · exact ⟨_, (List.getElem?_eq_some_iff.1 hargument).1, hstands⟩
    · rw [hword] at hplaceholder
      cases hplaceholder
  · intro h
    cases hplaceholder : token.isPlaceholder with
    | false => exact ⟨_, .word hplaceholder⟩
    | true =>
      obtain ⟨n, hlt, hstands⟩ := h hplaceholder
      exact ⟨_, .argument hstands (List.getElem?_eq_getElem hlt)⟩

/-- A call that succeeds is replaced by its labels, on a line of their own if there are any, and a
copy of the body, line by line and token by token. -/
theorem expand_eq_ok_iff_copied {lines : List Line} :
    call.expand = .ok lines ↔
      call.arguments.length = call.target.parameters ∧
      ∃ copies, lines = (if call.labels = [] then [] else [call.labels]) ++ copies ∧
        List.Forall₂ (List.Forall₂ call.Copied) call.target.body copies := by
  simp only [expand_eq_ok, instantiate_eq_ok_iff_copied, List.isEmpty_iff]
  refine and_congr_right fun _ => exists_congr fun copies => ?_
  rw [and_comm]
  by_cases hlabels : call.labels = [] <;> simp [hlabels]

/-- A line that calls a macro consists of its labels, the name and what holds the arguments.  The
call succeeds exactly when the arguments, delimiters not counted, are as many as the macro has
parameters and every word of the body that starts with a dollar sign is a placeholder for one of
them.  Then the labels, if there are any, stand on a line of their own, and behind them the body is
copied line by line, each token with its kind: a placeholder takes the text and place of its
argument as it was written, every other token keeps its text and is placed at the call. -/
theorem expand_substitutes_arguments {table : MacroTable} {line : Line} {call : Call}
    (hcall : table.call? line = some call) :
    (∃ rest, line = line.labelPart ++ call.name :: rest ∧ call.labels = line.labelPart ∧
      call.arguments = rest.filter (!·.isDelimiter) ∧
      table.find? call.name.text = some call.target) ∧
    ((∃ lines, call.expand = .ok lines) ↔
      call.arguments.length = call.target.parameters ∧
      ∀ body ∈ call.target.body, ∀ token ∈ body, token.isPlaceholder = true →
        ∃ n < call.target.parameters, token.StandsFor n) ∧
    ∀ lines, call.expand = .ok lines →
      ∃ copies, lines = (if call.labels = [] then [] else [call.labels]) ++ copies ∧
        List.Forall₂ (List.Forall₂ call.Copied) call.target.body copies := by
  refine ⟨?_, ?_, fun lines hlines => (expand_eq_ok_iff_copied.1 hlines).2⟩
  · obtain ⟨name, rest, m, hstatement, -, hm, rfl⟩ := MacroTable.call?_eq_some_iff.1 hcall
    refine ⟨rest, ?_, rfl, rfl, hm⟩
    rw [← hstatement, Line.labelPart_append_statement]
  · have hcopies : (∃ copies, List.Forall₂ (List.Forall₂ call.Copied) call.target.body copies) ↔
        ∀ body ∈ call.target.body, ∀ token ∈ body, token.isPlaceholder = true →
          ∃ n < call.arguments.length, token.StandsFor n := by
      simp only [exists_forall₂_iff, exists_copied_iff]
    simp only [expand_eq_ok_iff_copied]
    constructor
    · rintro ⟨-, hcount, copies, -, hbody⟩
      rw [← hcount]
      exact ⟨rfl, hcopies.1 ⟨copies, hbody⟩⟩
    · rintro ⟨hcount, hbody⟩
      rw [← hcount] at hbody
      obtain ⟨copies, hcopy⟩ := hcopies.2 hbody
      exact ⟨_, hcount, copies, rfl, hcopy⟩

/-- A program with a macro that turns its two arguments around, and a call with a dollar sign in an
argument. -/
def turningProgram : List Line :=
  ((tokenize "#macro turn 2\nMOV $1, $00\n#endm\n1: turn R1, $x").toOption).getD []

/-- The macros of `turningProgram`. -/
def turningTable : MacroTable := ((MacroTable.collect turningProgram).toOption).getD .empty

/-- The line of `turningProgram` that calls. -/
def turningLine : Line := turningProgram.getLastD []

/-- The label stands on a line of its own, and the arguments are turned around.  The dollar sign in
the second one is left alone. -/
theorem turningLine_substitutes_arguments :
    ∃ call lines copies, turningTable.call? turningLine = some call ∧ call.expand = .ok lines ∧
      call.arguments.map (·.text) = ["R1", "$x"] ∧
      lines.map (fun line => line.map fun t => (t.text, t.site.col)) =
        [[("1", 0), (":", 1)], [("MOV", 3), ("$x", 12), (",", 3), ("R1", 8)]] ∧
      (∀ body ∈ call.target.body, ∀ token ∈ body, token.isPlaceholder = true →
        ∃ n < 2, token.StandsFor n) ∧
      lines = call.labels :: copies ∧
      List.Forall₂ (List.Forall₂ call.Copied) call.target.body copies := by
  have hcalls : (turningTable.call? turningLine).map (fun call =>
      (call.arguments.map (·.text), call.labels.isEmpty, call.target.parameters)) =
      some (["R1", "$x"], false, 2) := by decide +kernel
  have hexpands : ((turningTable.call? turningLine).bind (·.expand.toOption)).map (fun lines =>
      lines.map fun line => line.map fun t => (t.text, t.site.col)) =
      some [[("1", 0), (":", 1)], [("MOV", 3), ("$x", 12), (",", 3), ("R1", 8)]] := by
    decide +kernel
  obtain ⟨call, hcall, hresult⟩ := Option.map_eq_some_iff.1 hcalls
  rw [Prod.mk.injEq, Prod.mk.injEq] at hresult
  obtain ⟨harguments, hlabels, hparameters⟩ := hresult
  rw [hcall, Option.bind_some] at hexpands
  obtain ⟨lines, hlines, htexts⟩ := Option.map_eq_some_iff.1 hexpands
  rw [toOption_eq_some] at hlines
  obtain ⟨-, hiff, hall⟩ := expand_substitutes_arguments hcall
  have hstands := (hiff.1 ⟨lines, hlines⟩).2
  rw [hparameters] at hstands
  obtain ⟨copies, hcopies, hbody⟩ := hall lines hlines
  rw [if_neg (by simpa using hlabels)] at hcopies
  exact ⟨call, lines, copies, hcall, hlines, harguments, htexts, hstands, hcopies, hbody⟩

/-- A program with a plus sign in a placeholder. -/
def signedProgram : List Line :=
  ((tokenize "#macro m 1\nINC $+0\n#endm\nm R3").toOption).getD []

/-- The macros of `signedProgram`. -/
def signedTable : MacroTable := ((MacroTable.collect signedProgram).toOption).getD .empty

/-- A call succeeds although a word of the body starts with a dollar sign that no digits follow. -/
theorem signed_placeholder_accepted :
    ∃ lines table line call out, tokenize "#macro m 1\nINC $+0\n#endm\nm R3" = .ok lines ∧
      MacroTable.collect lines = .ok table ∧ line ∈ table.strip lines ∧
      table.call? line = some call ∧ call.expand = .ok out ∧
      ∃ body ∈ call.target.body, ∃ token ∈ body, token.isPlaceholder = true ∧
        ∀ digits n, token.text.toList = '$' :: digits → ¬Writes 10 digits n := by
  refine ⟨signedProgram, signedTable, _, _, _, rfl, rfl, .head _, rfl, rfl, _, .head _, _,
    .tail _ (.head _), rfl, ?_⟩
  rintro digits n ⟨⟩
  exact not_writes_plus (by decide)

end Call
end CircuitRom
