import CircuitRom.Macro.Expansion
import CircuitRom.Proofs.Sequencing

/-!
# Expansion in rounds is recursive inlining

`expandWithin` replaces the calls of a whole program round by round.  The full expansion of a
single line is defined by recursion instead: a line without a call stays, and a call becomes the
full expansions of the lines that replace it, one level deeper.  The rounds succeed exactly when
every line has a full expansion no deeper than their number, and they put the full expansions one
after the other.  So what a line becomes does not depend on the lines around it.
-/

namespace CircuitRom
namespace MacroTable

variable {table : MacroTable} {k : Nat} {line : Line} {lines out : List Line}

/-! ## The full expansion of a line -/

/-- A line, the depth of its full expansion, and the lines that it becomes. -/
structure Inlined where
  /-- The line. -/
  line : Line
  /-- The depth. -/
  depth : Nat
  /-- What it becomes. -/
  result : List Line

/-- The greatest depth of some lines, zero if there are none. -/
def maxDepth (parts : List Inlined) : Nat := (parts.map (·.depth)).foldr max 0

/-- What a line becomes when its calls, the calls in what replaces them and so on are all
expanded, and how deep these calls are nested. -/
inductive FullExpansion (table : MacroTable) : Line → Nat → List Line → Prop
  | plain {line : Line} : table.call? line = none → FullExpansion table line 0 [line]
  | call {line : Line} {call : Call} (parts : List Inlined) :
      table.call? line = some call → call.expand = .ok (parts.map (·.line)) →
      (∀ part ∈ parts, FullExpansion table part.line part.depth part.result) →
      FullExpansion table line (1 + maxDepth parts) (parts.flatMap (·.result))

theorem maxDepth_le_iff {parts : List Inlined} :
    maxDepth parts ≤ k ↔ ∀ part ∈ parts, part.depth ≤ k := by
  induction parts with
  | nil => simp [maxDepth]
  | cons part rest ih =>
    rw [List.forall_mem_cons, ← ih, maxDepth, List.map_cons, List.foldr_cons]
    exact Nat.max_le

/-- Each line has a full expansion of depth at most `k`, and `out` is these one after the other. -/
def Inlines (table : MacroTable) (k : Nat) (lines out : List Line) : Prop :=
  ∃ results, List.Forall₂ (fun line result => ∃ depth ≤ k, table.FullExpansion line depth result)
    lines results ∧ out = results.flatten

theorem inlines_nil : table.Inlines k [] out ↔ out = [] := by
  simp [Inlines]

/-- Lines are expanded independently of each other. -/
theorem inlines_append {before after : List Line} :
    table.Inlines k (before ++ after) out ↔
      ∃ a b, table.Inlines k before a ∧ table.Inlines k after b ∧ out = a ++ b := by
  constructor
  · rintro ⟨results, hresults, rfl⟩
    have hbefore := List.forall₂_take before.length hresults
    have hafter := List.forall₂_drop before.length hresults
    rw [List.take_left] at hbefore
    rw [List.drop_left] at hafter
    refine ⟨_, _, ⟨_, hbefore, rfl⟩, ⟨_, hafter, rfl⟩, ?_⟩
    rw [← List.flatten_append, List.take_append_drop]
  · rintro ⟨a, b, ⟨as, has, rfl⟩, ⟨bs, hbs, rfl⟩, rfl⟩
    exact ⟨as ++ bs, List.rel_append has hbs, List.flatten_append.symm⟩

theorem inlines_singleton {result : List Line} :
    table.Inlines k [line] result ↔ ∃ depth ≤ k, table.FullExpansion line depth result := by
  constructor
  · rintro ⟨results, hresults, rfl⟩
    obtain ⟨result, rest, hresult, hrest, rfl⟩ := List.forall₂_cons_left_iff.1 hresults
    cases hrest
    simpa using hresult
  · intro h
    exact ⟨[result], .cons h .nil, by simp⟩

theorem inlines_cons {rest : List Line} :
    table.Inlines k (line :: rest) out ↔
      ∃ a b, (∃ depth ≤ k, table.FullExpansion line depth a) ∧ table.Inlines k rest b ∧
        out = a ++ b := by
  rw [← List.singleton_append, inlines_append]
  simp only [inlines_singleton]

/-- What is inlined has no call left. -/
theorem FullExpansion.call?_eq_none {depth : Nat} {result : List Line}
    (h : table.FullExpansion line depth result) : ∀ l ∈ result, table.call? l = none := by
  induction h with
  | plain hline => simpa using hline
  | call parts _ _ _ ih =>
    intro l hl
    obtain ⟨part, hpart, hl⟩ := List.mem_flatMap.1 hl
    exact ih part hpart l hl

/-- When calls are expanded in full, none is left. -/
theorem Inlines.call?_eq_none (h : table.Inlines k lines out) :
    ∀ l ∈ out, table.call? l = none := by
  obtain ⟨results, hresults, rfl⟩ := h
  intro l hl
  obtain ⟨result, hresult, hl⟩ := List.mem_flatten.1 hl
  obtain ⟨line, -, depth, -, hline⟩ := exists_of_mem_right hresults hresult
  exact hline.call?_eq_none l hl

/-- What the expansion of one call keeps, inlining keeps. -/
theorem FullExpansion.forall_result {p : Line → Prop} {depth : Nat} {result : List Line}
    (hstep : ∀ line call lines, table.call? line = some call → call.expand = .ok lines →
      p line → ∀ l ∈ lines, p l)
    (h : table.FullExpansion line depth result) (hline : p line) : ∀ l ∈ result, p l := by
  induction h with
  | plain _ => simpa using hline
  | @call line call parts hcall hexpand _ ih =>
    intro l hl
    obtain ⟨part, hpart, hl⟩ := List.mem_flatMap.1 hl
    have hp := hstep line call _ hcall hexpand hline part.line (List.mem_map_of_mem hpart)
    exact ih part hpart hp l hl

/-- Lines without calls are inlined at every depth, and to themselves only. -/
theorem inlines_iff_of_call?_eq_none (h : ∀ l ∈ lines, table.call? l = none) :
    table.Inlines k lines out ↔ out = lines := by
  induction lines generalizing out with
  | nil => exact inlines_nil
  | cons line rest ih =>
    obtain ⟨hline, hrest⟩ := List.forall_mem_cons.1 h
    rw [inlines_cons]
    constructor
    · rintro ⟨a, b, ⟨depth, -, ha⟩, hb, rfl⟩
      cases ha with
      | plain => rw [(ih hrest).1 hb, List.singleton_append]
      | call _ hcall => rw [hline] at hcall; cases hcall
    · rintro rfl
      exact ⟨[line], rest, ⟨0, Nat.zero_le _, .plain hline⟩, (ih hrest).2 rfl, rfl⟩

/-! ## One round -/

/-- What one round puts in the place of a line. -/
def expandLine (table : MacroTable) (line : Line) : Except Diagnostic (List Line) :=
  match table.call? line with
  | none => .ok [line]
  | some call => call.expand

/-- A round goes through the lines from the last to the first, and it notes whether it met a call.
-/
theorem round_cons (line : Line) (rest : List Line) :
    table.round (line :: rest) = (do
      let (changed, rest) ← table.round rest
      let lines ← table.expandLine line
      return (changed || (table.call? line).isSome, lines ++ rest)) := by
  rw [round, expandLine]
  cases table.round rest with
  | error e => rfl
  | ok result =>
    obtain ⟨changed, rest⟩ := result
    cases table.call? line with
    | none => simp [bind, Except.bind, pure, Except.pure]
    | some call =>
      cases hcall : call.expand with
      | error e => simp [bind, Except.bind, hcall]
      | ok lines => simp [bind, Except.bind, pure, Except.pure, hcall]

/-- A round replaces each line by what stands for it, and notes whether there was a call. -/
theorem round_eq_ok {changed : Bool} :
    table.round lines = .ok (changed, out) ↔
      changed = lines.any (fun l => (table.call? l).isSome) ∧
      ∃ parts, List.Forall₂ (fun l part => table.expandLine l = .ok part) lines parts ∧
        out = parts.flatten := by
  induction lines generalizing changed out with
  | nil => simp [round]
  | cons line rest ih =>
    rw [round_cons, bind_eq_ok]
    constructor
    · rintro ⟨⟨changed', rest'⟩, hrest, h⟩
      obtain ⟨part, hpart, h⟩ := bind_eq_ok.1 h
      cases h
      obtain ⟨rfl, parts, hparts, rfl⟩ := ih.1 hrest
      refine ⟨by rw [List.any_cons, Bool.or_comm], part :: parts, .cons hpart hparts, ?_⟩
      rw [List.flatten_cons]
    · rintro ⟨rfl, parts, hparts, rfl⟩
      obtain ⟨part, parts, hpart, hrest, rfl⟩ := List.forall₂_cons_left_iff.1 hparts
      refine ⟨_, ih.2 ⟨rfl, parts, hrest, rfl⟩, bind_eq_ok.2 ⟨part, hpart, ?_⟩⟩
      rw [List.any_cons, Bool.or_comm, List.flatten_cons]
      rfl

/-- A round without a call changes nothing. -/
theorem round_of_call?_eq_none (h : ∀ l ∈ lines, table.call? l = none) :
    table.round lines = .ok (false, lines) := by
  induction lines with
  | nil => rfl
  | cons line rest ih =>
    obtain ⟨hline, hrest⟩ := List.forall_mem_cons.1 h
    rw [round, ih hrest, hline]

/-- A round that changes nothing has met no call. -/
theorem call?_eq_none_of_round (h : table.round lines = .ok (false, out)) :
    ∀ l ∈ lines, table.call? l = none := by
  intro l hl
  have hany := (round_eq_ok.1 h).1.symm
  simpa using List.any_eq_false.1 hany l hl

/-! ## A round less, a level less -/

theorem exists_inlined {results : List (List Line)}
    (h : List.Forall₂ (fun line result => ∃ depth ≤ k, table.FullExpansion line depth result)
      lines results) :
    ∃ parts : List Inlined, parts.map (·.line) = lines ∧ parts.map (·.result) = results ∧
      (∀ part ∈ parts, part.depth ≤ k) ∧
      ∀ part ∈ parts, table.FullExpansion part.line part.depth part.result := by
  induction h with
  | nil => exact ⟨[], by simp⟩
  | cons hline _ ih =>
    obtain ⟨depth, hdepth, hfull⟩ := hline
    obtain ⟨parts, rfl, rfl, hdepths, hparts⟩ := ih
    exact ⟨⟨_, depth, _⟩ :: parts, rfl, rfl, List.forall_mem_cons.2 ⟨hdepth, hdepths⟩,
      List.forall_mem_cons.2 ⟨hfull, hparts⟩⟩

/-- A line has a full expansion of depth at most `k + 1` when what replaces it is inlined at depth
at most `k`. -/
theorem fullExpansion_succ_iff {result : List Line} :
    (∃ depth ≤ k + 1, table.FullExpansion line depth result) ↔
      ∃ part, table.expandLine line = .ok part ∧ table.Inlines k part result := by
  constructor
  · rintro ⟨depth, hdepth, h⟩
    cases h with
    | plain hline =>
      refine ⟨[line], by rw [expandLine, hline], ?_⟩
      exact inlines_singleton.2 ⟨0, Nat.zero_le _, .plain hline⟩
    | call parts hcall hexpand hparts =>
      have hle : ∀ part ∈ parts, part.depth ≤ k := maxDepth_le_iff.1 (by omega)
      refine ⟨parts.map (·.line), by rw [expandLine, hcall]; exact hexpand, ?_⟩
      refine ⟨parts.map (·.result), ?_, List.flatMap_def⟩
      rw [List.forall₂_map_left_iff, List.forall₂_map_right_iff, List.forall₂_same]
      intro part hpart
      exact ⟨part.depth, hle part hpart, hparts part hpart⟩
  · rintro ⟨part, hpart, hinlines⟩
    rw [expandLine] at hpart
    cases hcall : table.call? line with
    | none =>
      rw [hcall] at hpart
      cases hpart
      obtain ⟨depth, hdepth, hfull⟩ := inlines_singleton.1 hinlines
      exact ⟨depth, by omega, hfull⟩
    | some call =>
      rw [hcall] at hpart
      obtain ⟨results, hresults, rfl⟩ := hinlines
      obtain ⟨parts, rfl, rfl, hdepths, hparts⟩ := exists_inlined hresults
      have hle : maxDepth parts ≤ k := maxDepth_le_iff.2 hdepths
      refine ⟨1 + maxDepth parts, by omega, ?_⟩
      rw [← List.flatMap_def]
      exact .call parts hcall hpart hparts

/-- One level of calls is one round. -/
theorem inlines_succ_iff :
    table.Inlines (k + 1) lines out ↔
      ∃ parts, List.Forall₂ (fun l part => table.expandLine l = .ok part) lines parts ∧
        table.Inlines k parts.flatten out := by
  induction lines generalizing out with
  | nil => simp [inlines_nil]
  | cons line rest ih =>
    rw [inlines_cons]
    constructor
    · rintro ⟨a, b, ha, hb, rfl⟩
      obtain ⟨part, hpart, ha⟩ := fullExpansion_succ_iff.1 ha
      obtain ⟨parts, hparts, hb⟩ := ih.1 hb
      refine ⟨part :: parts, .cons hpart hparts, ?_⟩
      rw [List.flatten_cons, inlines_append]
      exact ⟨a, b, ha, hb, rfl⟩
    · rintro ⟨parts, hparts, h⟩
      obtain ⟨part, parts, hpart, hrest, rfl⟩ := List.forall₂_cons_left_iff.1 hparts
      rw [List.flatten_cons, inlines_append] at h
      obtain ⟨a, b, ha, hb, rfl⟩ := h
      exact ⟨a, b, fullExpansion_succ_iff.2 ⟨part, hpart, ha⟩, ih.2 ⟨parts, hrest, hb⟩, rfl⟩

/-- Without any level there must be no calls. -/
theorem inlines_zero_iff :
    table.Inlines 0 lines out ↔ (∀ l ∈ lines, table.call? l = none) ∧ out = lines := by
  constructor
  · intro h
    have hnone : ∀ l ∈ lines, table.call? l = none := by
      intro l hl
      obtain ⟨results, hresults, -⟩ := h
      obtain ⟨result, -, depth, hdepth, hfull⟩ := exists_of_mem_left hresults hl
      cases hfull with
      | plain hline => exact hline
      | call parts => omega
    exact ⟨hnone, (inlines_iff_of_call?_eq_none hnone).1 h⟩
  · rintro ⟨hnone, rfl⟩
    exact (inlines_iff_of_call?_eq_none hnone).2 rfl

/-! ## All rounds -/

/-- The first `k` rounds, whether or not they find a call. -/
def rounds (table : MacroTable) : Nat → List Line → Except Diagnostic (List Line)
  | 0, lines => .ok lines
  | k + 1, lines => do
    let (_, lines) ← table.round lines
    table.rounds k lines

theorem rounds_of_call?_eq_none (h : ∀ l ∈ lines, table.call? l = none) :
    table.rounds k lines = .ok lines := by
  induction k with
  | zero => rfl
  | succ k ih =>
    rw [rounds, round_of_call?_eq_none h]
    exact ih

theorem settle_succ (limit : Nat) :
    table.settle limit (k + 1) lines = (do
      let (changed, lines) ← table.round lines
      if changed then table.settle limit k lines else .ok lines) := by
  rw [settle]
  cases table.round lines <;> rfl

/-- Rounds settle exactly on the full expansion, if its depth does not exceed their number. -/
theorem settle_eq_ok_iff {limit : Nat} :
    table.settle limit k lines = .ok out ↔ table.Inlines k lines out := by
  induction k generalizing lines with
  | zero =>
    rw [inlines_zero_iff, settle]
    cases hpending : lines.findSome? table.call? with
    | none =>
      have hnone := List.findSome?_eq_none_iff.1 hpending
      simp only [Except.ok.injEq]
      exact ⟨fun h => ⟨hnone, h.symm⟩, fun h => h.2.symm⟩
    | some call =>
      obtain ⟨l, hl, hcall⟩ := List.exists_of_findSome?_eq_some hpending
      simp only [reduceCtorEq, false_iff, not_and]
      intro hnone
      rw [hnone l hl] at hcall
      cases hcall
  | succ k ih =>
    rw [settle_succ, bind_eq_ok]
    constructor
    · rintro ⟨⟨changed, after⟩, hround, h⟩
      cases changed with
      | false =>
        -- nothing was called, so nothing is left to inline
        have hnone := call?_eq_none_of_round hround
        rw [round_of_call?_eq_none hnone] at hround
        cases hround
        cases h
        exact (inlines_iff_of_call?_eq_none hnone).2 rfl
      | true =>
        obtain ⟨-, parts, hparts, rfl⟩ := round_eq_ok.1 hround
        exact inlines_succ_iff.2 ⟨parts, hparts, ih.1 h⟩
    · intro h
      obtain ⟨parts, hparts, hrest⟩ := inlines_succ_iff.1 h
      refine ⟨_, round_eq_ok.2 ⟨rfl, parts, hparts, rfl⟩, ?_⟩
      cases hany : lines.any (fun l => (table.call? l).isSome) with
      | true => exact ih.2 hrest
      | false =>
        have hround := round_eq_ok.2 ⟨hany.symm, parts, hparts, rfl⟩
        have hnone := call?_eq_none_of_round hround
        rw [round_of_call?_eq_none hnone] at hround
        rw [(inlines_iff_of_call?_eq_none hnone).1 h]
        cases hround
        rfl

/-- What the expansion of one call keeps, the expansion of a program keeps. -/
theorem forall_of_settle {p : Line → Prop} {limit : Nat}
    (hstep : ∀ line call lines, table.call? line = some call → call.expand = .ok lines →
      p line → ∀ l ∈ lines, p l)
    (h : table.settle limit k lines = .ok out) (hlines : ∀ l ∈ lines, p l) : ∀ l ∈ out, p l := by
  obtain ⟨results, hresults, rfl⟩ := settle_eq_ok_iff.1 h
  intro l hl
  obtain ⟨result, hresult, hl⟩ := List.mem_flatten.1 hl
  obtain ⟨line, hline, depth, -, hfull⟩ := exists_of_mem_right hresults hresult
  exact hfull.forall_result hstep (hlines line hline) l hl

/-! ## Rounds that do not suffice -/

theorem instantiate_cause {call : Call} {token : Token} {e : Diagnostic} {n : Nat}
    (h : call.instantiate token = .error e) : e.cause ≠ .expansionUnsettled n := by
  rw [Call.instantiate] at h
  split at h
  · split at h
    · cases h
      exact Cause.noConfusion
    · split at h
      · cases h
        exact Cause.noConfusion
      · cases h
  · cases h

/-- The faults of a single call are not about the number of rounds. -/
theorem expand_cause {call : Call} {e : Diagnostic} {n : Nat} (h : call.expand = .error e) :
    e.cause ≠ .expansionUnsettled n := by
  rw [Call.expand] at h
  split at h
  · cases h
    exact Cause.noConfusion
  · obtain ⟨body, -, hbody⟩ := mapM_eq_error (map_eq_error.1 h)
    obtain ⟨token, -, htoken⟩ := mapM_eq_error hbody
    exact instantiate_cause htoken

/-- A single round does not know of a limit, so no fault of it is about one. -/
theorem round_cause {e : Diagnostic} {n : Nat} (h : table.round lines = .error e) :
    e.cause ≠ .expansionUnsettled n := by
  induction lines with
  | nil => cases h
  | cons line rest ih =>
    rw [round_cons] at h
    rcases bind_eq_error.1 h with hrest | ⟨⟨changed, after⟩, -, h⟩
    · exact ih hrest
    · rcases bind_eq_error.1 h with hline | ⟨part, -, h⟩
      · rw [expandLine] at hline
        split at hline
        · cases hline
        · exact expand_cause hline
      · cases h

/-- The limit is at fault exactly if all rounds succeed and still leave a call. -/
theorem settle_unsettled_iff {limit n : Nat} :
    (∃ e, table.settle limit k lines = .error e ∧ e.cause = .expansionUnsettled n) ↔
      n = limit ∧ ∃ after, table.rounds k lines = .ok after ∧
        ∃ l ∈ after, (table.call? l).isSome := by
  induction k generalizing lines with
  | zero =>
    rw [settle, rounds]
    cases hpending : lines.findSome? table.call? with
    | none =>
      have hnone := List.findSome?_eq_none_iff.1 hpending
      constructor
      · rintro ⟨e, h, -⟩
        cases h
      · rintro ⟨-, after, h, l, hl, hcall⟩
        cases h
        rw [hnone l hl] at hcall
        cases hcall
    | some call =>
      obtain ⟨l, hl, hcall⟩ := List.exists_of_findSome?_eq_some hpending
      constructor
      · rintro ⟨e, h, hcause⟩
        cases h
        cases hcause
        exact ⟨rfl, lines, rfl, l, hl, by rw [hcall]; rfl⟩
      · rintro ⟨rfl, -⟩
        exact ⟨_, rfl, rfl⟩
  | succ k ih =>
    rw [settle_succ, rounds]
    cases hround : table.round lines with
    | error e =>
      constructor
      · rintro ⟨e', h, hcause⟩
        cases h
        exact absurd hcause (round_cause hround)
      · rintro ⟨-, after, h, -⟩
        cases h
    | ok result =>
      obtain ⟨changed, after⟩ := result
      cases changed with
      | true => exact ih
      | false =>
        have hnone := call?_eq_none_of_round hround
        rw [round_of_call?_eq_none hnone] at hround
        cases hround
        constructor
        · rintro ⟨e, h, -⟩
          cases h
        · rintro ⟨-, after, h, l, hl, hcall⟩
          have hafter := (rounds_of_call?_eq_none hnone).symm.trans h
          cases hafter
          rw [hnone l hl] at hcall
          cases hcall

/-- Expansion within `k` rounds succeeds exactly when every line has a full expansion of depth at
most `k`, and gives these one after the other.  So no call is left in the result, and the parts of
a program expand independently.  The number of rounds is the fault exactly when `k` rounds go
through and leave a call. -/
theorem expandWithin_eq_inlining (table : MacroTable) (k : Nat) (lines : List Line) :
    (∀ out, table.expandWithin k lines = .ok out ↔
      ∃ results, List.Forall₂
        (fun line result => ∃ depth ≤ k, table.FullExpansion line depth result) lines results ∧
        out = results.flatten) ∧
    (∀ out, table.expandWithin k lines = .ok out → ∀ line ∈ out, table.call? line = none) ∧
    (∀ more out, table.expandWithin k (lines ++ more) = .ok out ↔
      ∃ a b, table.expandWithin k lines = .ok a ∧ table.expandWithin k more = .ok b ∧
        out = a ++ b) ∧
    ∀ n, (∃ e, table.expandWithin k lines = .error e ∧ e.cause = .expansionUnsettled n) ↔
      n = k ∧ ∃ after, table.rounds k lines = .ok after ∧
        ∃ line ∈ after, (table.call? line).isSome := by
  refine ⟨fun out => settle_eq_ok_iff, ?_, ?_, fun n => settle_unsettled_iff⟩
  · intro out h
    exact (settle_eq_ok_iff.1 h).call?_eq_none
  · intro more out
    simp only [expandWithin, settle_eq_ok_iff]
    exact inlines_append

end MacroTable
end CircuitRom
