import CircuitRom.Proofs.Acyclicity
import CircuitRom.Proofs.Call
import CircuitRom.Proofs.Inlining
import CircuitRom.Proofs.RoundLimit

/-!
# Declarations in any order

A call sees of a macro only its name, the number of its arguments and its body.  Where a macro is
declared, and before or after which others, decides where the search for circles starts and which
circle it reports, but not whether there is one.  So two programs with the same macros and the same
lines outside their declarations expand to the same lines.
-/

namespace CircuitRom

/-- What a call sees of a macro. -/
def Macro.content (m : Macro) : String × Nat × List Line := (m.name, m.parameters, m.body)

theorem Macro.content_eq_iff {m m' : Macro} :
    m.content = m'.content ↔
      m.name = m'.name ∧ m.parameters = m'.parameters ∧ m.body = m'.body := by
  rw [content, content, Prod.mk.injEq, Prod.mk.injEq]

namespace MacroTable

variable {table other : MacroTable} {line : Line} {lines : List Line}

/-- The tables have the same macros, declared in any order and anywhere. -/
def SameMacros (table other : MacroTable) : Prop :=
  ∀ content, content ∈ table.values.map Macro.content ↔ content ∈ other.values.map Macro.content

theorem SameMacros.symm (h : table.SameMacros other) : other.SameMacros table :=
  fun content => (h content).symm

/-! ## Macros by name -/

theorem find?_of_mem_values {m : Macro} (h : m ∈ table.values) : table.find? m.name = some m := by
  cases hfind : table.find? m.name with
  | none =>
    have hkey := Dictionary.find?_eq_none_iff.1 hfind
    rw [keys_eq_map_name] at hkey
    exact absurd (List.mem_map_of_mem h) hkey
  | some m' =>
    obtain ⟨hm', hname⟩ := mem_values_of_find? hfind
    obtain ⟨i, hi⟩ := List.mem_iff_getElem?.1 h
    obtain ⟨j, hj⟩ := List.mem_iff_getElem?.1 hm'
    rw [eq_of_name_eq hi hj hname.symm, hj] at hi
    exact hi

/-- The macro that the table has under the name of another. -/
def namesake (table : MacroTable) (m : Macro) : Macro := (table.find? m.name).getD m

/-- For each macro the other table has one of the same name and content. -/
theorem SameMacros.namesake (h : table.SameMacros other) {m : Macro} (hm : m ∈ table.values) :
    other.find? m.name = some (other.namesake m) ∧ other.namesake m ∈ other.values ∧
      (other.namesake m).content = m.content := by
  obtain ⟨m', hm', hcontent⟩ := List.mem_map.1 ((h m.content).1 (List.mem_map_of_mem hm))
  have hname : m'.name = m.name := (Macro.content_eq_iff.1 hcontent).1
  have hfind : other.find? m.name = some m' := by
    rw [← hname]
    exact find?_of_mem_values hm'
  have hnamesake : other.namesake m = m' := by
    unfold MacroTable.namesake
    rw [hfind]
    rfl
  rw [hnamesake]
  exact ⟨hfind, hm', hcontent⟩

/-! ## The check -/

theorem SameMacros.names (h : table.SameMacros other) {a b : Macro} (hab : table.Names a b) :
    other.Names (other.namesake a) (other.namesake b) := by
  obtain ⟨ha, hb, token, htoken, hname⟩ := hab
  obtain ⟨-, ha', hacontent⟩ := h.namesake ha
  obtain ⟨-, hb', hbcontent⟩ := h.namesake hb
  refine ⟨ha', hb', token, ?_, ?_⟩
  · rw [(Macro.content_eq_iff.1 hacontent).2.2]
    exact htoken
  · rw [(Macro.content_eq_iff.1 hbcontent).1]
    exact hname

/-- A circle of one table is a circle of the other, wherever the search for it starts. -/
theorem SameMacros.check_of_check (h : table.SameMacros other) (hcheck : other.check = .ok ()) :
    table.check = .ok () := by
  apply check_eq_ok_iff.2
  intro m hm
  apply check_eq_ok_iff.1 hcheck (other.namesake m)
  exact hm.lift other.namesake fun a b hab => h.names hab

/-- The check does not depend on the order of declarations. -/
theorem SameMacros.check_iff (h : table.SameMacros other) :
    table.check = .ok () ↔ other.check = .ok () :=
  ⟨h.symm.check_of_check, h.check_of_check⟩

/-! ## Expansion -/

/-- The expansion of a call depends on the macro by what a call sees of it. -/
theorem expand_retarget {call : Call} {m : Macro} (h : m.content = call.target.content) :
    Call.expand { call with target := m } = call.expand := by
  obtain ⟨hname, hparameters, hbody⟩ := Macro.content_eq_iff.1 h
  have hinstantiate : Call.instantiate { call with target := m } = call.instantiate := by
    funext token
    unfold Call.instantiate
    rw [hname, hparameters]
  unfold Call.expand
  rw [hinstantiate, hname, hparameters, hbody]

/-- A line that calls in one table calls the namesake in the other, with the same arguments. -/
theorem SameMacros.call? (h : table.SameMacros other) {call : Call}
    (hcall : table.call? line = some call) :
    other.call? line = some { call with target := other.namesake call.target } ∧
      (other.namesake call.target).content = call.target.content := by
  obtain ⟨name, rest, m, hstatement, hname, hm, rfl⟩ := call?_eq_some_iff.1 hcall
  obtain ⟨hvalues, htext⟩ := mem_values_of_find? hm
  obtain ⟨hfind, -, hcontent⟩ := h.namesake hvalues
  rw [htext] at hfind
  exact ⟨call?_eq_some_iff.2 ⟨name, rest, _, hstatement, hname, hfind, rfl⟩, hcontent⟩

theorem SameMacros.call?_eq_none (h : table.SameMacros other) (hcall : table.call? line = none) :
    other.call? line = none := by
  cases hother : other.call? line with
  | none => rfl
  | some call =>
    rw [(h.symm.call? hother).1] at hcall
    cases hcall

/-- The tables agree on who calls, and on what replaces a call. -/
theorem SameMacros.agree (h : table.SameMacros other) (line : Line) :
    (table.call? line).map (·.name) = (other.call? line).map (·.name) ∧
      table.expandLine line = other.expandLine line := by
  unfold expandLine
  cases hcall : table.call? line with
  | none =>
    rw [h.call?_eq_none hcall]
    exact ⟨rfl, rfl⟩
  | some call =>
    obtain ⟨hother, hcontent⟩ := h.call? hcall
    rw [hother]
    exact ⟨rfl, (expand_retarget hcontent).symm⟩

/-- Since namesakes expand alike, a round over any lines gives the same in both tables. -/
theorem SameMacros.round (h : table.SameMacros other) (lines : List Line) :
    table.round lines = other.round lines := by
  induction lines with
  | nil => rfl
  | cons line rest ih =>
    obtain ⟨hname, hexpand⟩ := h.agree line
    have hcalls : (table.call? line).isSome = (other.call? line).isSome := by
      rw [← Option.isSome_map, hname, Option.isSome_map]
    rw [round_cons, round_cons, ih, hexpand, hcalls]

theorem SameMacros.settle (h : table.SameMacros other) (limit k : Nat) (lines : List Line) :
    table.settle limit k lines = other.settle limit k lines := by
  induction k generalizing lines with
  | zero =>
    have hfirst : (lines.findSome? table.call?).map (·.name) =
        (lines.findSome? other.call?).map (·.name) := by
      rw [List.map_findSome?, List.map_findSome?]
      congr 1
      funext line
      exact (h.agree line).1
    unfold MacroTable.settle
    cases htable : lines.findSome? table.call? with
    | none =>
      rw [htable, Option.map_none, eq_comm, Option.map_eq_none_iff] at hfirst
      rw [hfirst]
    | some call =>
      rw [htable, Option.map_some, eq_comm, Option.map_eq_some_iff] at hfirst
      obtain ⟨call', hother, hname⟩ := hfirst
      rw [hother]
      exact congrArg (fun name =>
        Except.error (Diagnostic.atToken (.expansionUnsettled limit) name)) hname.symm
  | succ k ih =>
    rw [settle_succ, settle_succ, h.round]
    simp only [ih]

/-- A program that expands has passed the check. -/
theorem check_of_expandMacros {out : List Line} (hcollect : collect lines = .ok table)
    (h : expandMacros lines = .ok out) : table.check = .ok () := by
  obtain ⟨table', hcollect', h⟩ := bind_eq_ok.1 h
  cases hcollect.symm.trans hcollect'
  obtain ⟨⟨⟩, hcheck, -⟩ := bind_eq_ok.1 h
  exact hcheck

/-- Two programs whose declarations have the same names, numbers of arguments and bodies, and which
are the same outside of them, have circular macros both or neither.  If they have none, they expand
to the same lines or fail with the same fault, and so one expands to some lines exactly when the
other expands to these. -/
theorem expandMacros_ignores_declaration_order {lines lines' : List Line}
    {table table' : MacroTable} (hcollect : collect lines = .ok table)
    (hcollect' : collect lines' = .ok table') (hsame : table.SameMacros table')
    (hstrip : table.strip lines = table'.strip lines') :
    (table.check = .ok () ↔ table'.check = .ok ()) ∧
    (table.check = .ok () → expandMacros lines = expandMacros lines') ∧
    ∀ out, expandMacros lines = .ok out ↔ expandMacros lines' = .ok out := by
  have hcheck := hsame.check_iff
  have hequal : table.check = .ok () → expandMacros lines = expandMacros lines' := by
    intro hok
    rw [expandMacros_eq hcollect hok, expandMacros_eq hcollect' (hcheck.1 hok), hstrip]
    exact hsame.settle roundLimit roundLimit _
  refine ⟨hcheck, hequal, fun out => ?_⟩
  by_cases hok : table.check = .ok ()
  · rw [hequal hok]
  · constructor
    · intro hout
      exact absurd (check_of_expandMacros hcollect hout) hok
    · intro hout
      exact absurd (hcheck.2 (check_of_expandMacros hcollect' hout)) hok

/-- The program `nestedProgram` with its first declaration behind the call. -/
def rotatedProgram : List Line := nestedProgram.drop 3 ++ nestedProgram.take 3

/-- The macros of `rotatedProgram`. -/
def rotatedTable : MacroTable := ((collect rotatedProgram).toOption).getD empty

theorem collect_eq_getD (h : (collect lines).toOption.isSome = true) :
    collect lines = .ok (((collect lines).toOption).getD empty) := by
  obtain ⟨table, htable⟩ := Option.isSome_iff_exists.1 h
  rw [htable, toOption_eq_some.1 htable]
  rfl

theorem rotatedProgram_expands_as_nestedProgram :
    (collect nestedProgram = .ok nestedTable ∧ collect rotatedProgram = .ok rotatedTable ∧
      nestedTable.SameMacros rotatedTable ∧
      nestedTable.strip nestedProgram = rotatedTable.strip rotatedProgram ∧
      nestedTable.keys = ["up", "twice"] ∧ rotatedTable.keys = ["twice", "up"]) ∧
    (nestedTable.check = .ok () ↔ rotatedTable.check = .ok ()) ∧
    (nestedTable.check = .ok () → expandMacros nestedProgram = expandMacros rotatedProgram) ∧
    ∀ out, expandMacros nestedProgram = .ok out ↔ expandMacros rotatedProgram = .ok out := by
  have hfacts : (collect nestedProgram).toOption.isSome = true ∧
      (collect rotatedProgram).toOption.isSome = true ∧
      (nestedTable.values.map Macro.content).Perm (rotatedTable.values.map Macro.content) ∧
      nestedTable.strip nestedProgram = rotatedTable.strip rotatedProgram ∧
      nestedTable.keys = ["up", "twice"] ∧ rotatedTable.keys = ["twice", "up"] := by
    decide +kernel
  obtain ⟨hnested, hrotated, hperm, hstrip, hkeys⟩ := hfacts
  have hsame : nestedTable.SameMacros rotatedTable := fun _ => hperm.mem_iff
  exact ⟨⟨collect_eq_getD hnested, collect_eq_getD hrotated, hsame, hstrip, hkeys⟩,
    expandMacros_ignores_declaration_order (collect_eq_getD hnested) (collect_eq_getD hrotated)
      hsame hstrip⟩

end MacroTable
end CircuitRom
