import CircuitRom.Proofs.Search
import CircuitRom.Proofs.Sequencing

/-!
# Tables without circular macros

A macro *names* another when the other's name is a token of its body.  `check` accepts a table
exactly when no macro names itself, directly or through others, and what it reports otherwise is a
circle of the table: the macros on it are distinct, each names the next, and the place of the
report is the declaration where the circle starts and ends.
-/

namespace CircuitRom

theorem Dictionary.indexOf?_eq_some_iff {α : Type} {d : Dictionary α} {key : String} {i : Nat} :
    d.indexOf? key = some i ↔ d.keys[i]? = some key := by
  have hkeys : d.keys.Nodup := d.distinct
  rw [indexOf?, List.idxOf?, List.findIdx?_eq_some_iff_getElem, List.getElem?_eq_some_iff]
  constructor
  · rintro ⟨hi, hkey, -⟩
    exact ⟨hi, by simpa using hkey⟩
  · rintro ⟨hi, hkey⟩
    refine ⟨hi, by simpa using hkey, fun j hj hc => ?_⟩
    have hjkey : d.keys[j] = key := by simpa using hc
    have := (hkeys.getElem_inj_iff).1 (hjkey.trans hkey.symm)
    omega

namespace MacroTable

variable {table : MacroTable}

/-- One macro of the table has the name of another in its body. -/
def Names (table : MacroTable) (a b : Macro) : Prop :=
  a ∈ table.values ∧ b ∈ table.values ∧ ∃ token ∈ a.body.flatten, token.text = b.name

/-! ## Positions in the table -/

theorem keys_eq_map_name (table : MacroTable) : table.keys = table.values.map (·.name) := by
  rw [Dictionary.keys, Dictionary.values, List.map_map]
  exact List.map_congr_left table.named

/-- The position of a name is that of the macro that has it. -/
theorem indexOf?_eq_some_iff {text : String} {i : Nat} :
    table.indexOf? text = some i ↔ ∃ m, table.values[i]? = some m ∧ m.name = text := by
  rw [Dictionary.indexOf?_eq_some_iff, keys_eq_map_name, List.getElem?_map, Option.map_eq_some_iff]

/-- No two macros of a table have one name. -/
theorem eq_of_name_eq {i j : Nat} {a b : Macro} (ha : table.values[i]? = some a)
    (hb : table.values[j]? = some b) (h : a.name = b.name) : i = j := by
  have hi := indexOf?_eq_some_iff.2 ⟨a, ha, h⟩
  have hj := indexOf?_eq_some_iff.2 ⟨b, hb, rfl⟩
  exact Option.some.inj (hi.symm.trans hj)

/-! ## The graph of a table -/

/-- The dependencies of a macro that does not name itself are the positions of the macros it
names. -/
theorem mem_dependencies {m : Macro} {deps : List Nat} (h : table.dependencies m = .ok deps)
    {i : Nat} :
    i ∈ deps ↔ ∃ b, table.values[i]? = some b ∧ ∃ token ∈ m.body.flatten, token.text = b.name := by
  rw [dependencies] at h
  split at h
  · cases h
  · cases h
    rw [List.mem_eraseDups, List.mem_filterMap]
    constructor
    · rintro ⟨token, htoken, hi⟩
      obtain ⟨b, hb, hname⟩ := indexOf?_eq_some_iff.1 hi
      exact ⟨b, hb, token, htoken, hname.symm⟩
    · rintro ⟨b, hb, token, htoken, hname⟩
      exact ⟨token, htoken, indexOf?_eq_some_iff.2 ⟨b, hb, hname.symm⟩⟩

theorem forall₂_graph {edges : List (List Nat)} (h : table.graph = .ok edges) :
    List.Forall₂ (fun m deps => table.dependencies m = .ok deps) table.values edges :=
  mapM_eq_ok.1 h

/-- The edges of the graph are the pairs of positions of which one macro names the other. -/
theorem leads_iff {edges : List (List Nat)} (h : table.graph = .ok edges) {i j : Nat} :
    Leads edges i j ↔
      ∃ a b, table.values[i]? = some a ∧ table.values[j]? = some b ∧ table.Names a b := by
  have hgraph := forall₂_graph h
  have hlen : table.values.length = edges.length := hgraph.length_eq
  constructor
  · intro hij
    have hi : i < edges.length := by
      by_contra hge
      rw [Leads, List.getD_eq_default _ _ (by omega)] at hij
      cases hij
    rw [Leads, List.getD_eq_getElem _ _ hi] at hij
    have hdeps := hgraph.get (by omega) hi
    obtain ⟨b, hb, htoken⟩ := (mem_dependencies hdeps).1 hij
    exact ⟨_, b, List.getElem?_eq_getElem (by omega), hb, List.getElem_mem _,
      List.mem_of_getElem? hb, htoken⟩
  · rintro ⟨a, b, ha, hb, -, -, htoken⟩
    obtain ⟨hi, rfl⟩ := List.getElem?_eq_some_iff.1 ha
    have hdeps := hgraph.get hi (by omega)
    rw [Leads, List.getD_eq_getElem _ _ (by omega)]
    exact (mem_dependencies hdeps).2 ⟨b, hb, htoken⟩

/-- Every edge of the graph leads to a macro of the table. -/
theorem closed_graph {edges : List (List Nat)} (h : table.graph = .ok edges) : Closed edges := by
  intro i j hij
  obtain ⟨-, b, -, hb, -⟩ := (leads_iff h).1 hij
  rw [← (forall₂_graph h).length_eq]
  exact (List.getElem?_eq_some_iff.1 hb).1

/-! ## Macros that name themselves -/

/-- Collecting the edges of a macro fails only at a word of its body that is its own name. -/
theorem dependencies_eq_error {m : Macro} {e : Diagnostic} (h : table.dependencies m = .error e) :
    ∃ token ∈ m.body.flatten, token.text = m.name ∧
      e = .atToken (.macroSelfReference m.name) token := by
  rw [dependencies] at h
  split at h
  · next token hfind =>
    cases h
    exact ⟨token, List.mem_of_find?_eq_some hfind, by simpa using List.find?_some hfind, rfl⟩
  · cases h

/-- Once there is a graph, no macro names itself directly. -/
theorem not_names_self_of_graph {edges : List (List Nat)} (h : table.graph = .ok edges)
    (m : Macro) : ¬table.Names m m := by
  rintro ⟨hm, -, token, htoken, hname⟩
  obtain ⟨deps, -, hdeps⟩ := exists_of_mem_left (forall₂_graph h) hm
  rw [dependencies] at hdeps
  split at hdeps
  · cases hdeps
  · next hfind =>
    have := List.find?_eq_none.1 hfind token htoken
    exact this (by simpa using hname)

/-- The graph of a table fails with a self-reference, at a token that is one. -/
theorem graph_eq_error {e : Diagnostic} (h : table.graph = .error e) :
    ∃ m token, table.Names m m ∧ token ∈ m.body.flatten ∧ token.text = m.name ∧
      e = .atToken (.macroSelfReference m.name) token := by
  obtain ⟨m, hm, hdeps⟩ := mapM_eq_error h
  obtain ⟨token, htoken, hname, he⟩ := dependencies_eq_error hdeps
  exact ⟨m, token, ⟨hm, hm, token, htoken, hname⟩, htoken, hname, he⟩

/-! ## Circles of macros and of positions -/

section Circles

variable {edges : List (List Nat)}

/-- What macros reach by their names, their positions reach in the graph. -/
theorem transGen_leads (h : table.graph = .ok edges) {a b : Macro}
    (hab : Relation.TransGen table.Names a b) :
    ∃ i j, table.values[i]? = some a ∧ table.values[j]? = some b ∧
      Relation.TransGen (Leads edges) i j := by
  induction hab with
  | single hab =>
    obtain ⟨i, hi⟩ := List.mem_iff_getElem?.1 hab.1
    obtain ⟨j, hj⟩ := List.mem_iff_getElem?.1 hab.2.1
    exact ⟨i, j, hi, hj, .single ((leads_iff h).2 ⟨_, _, hi, hj, hab⟩)⟩
  | tail _ hbc ih =>
    obtain ⟨i, j, hi, hj, hij⟩ := ih
    obtain ⟨k, hk⟩ := List.mem_iff_getElem?.1 hbc.2.1
    exact ⟨i, k, hi, hk, hij.tail ((leads_iff h).2 ⟨_, _, hj, hk, hbc⟩)⟩

/-- What positions reach in the graph, the macros reach by their names. -/
theorem transGen_names (h : table.graph = .ok edges) {i j : Nat}
    (hij : Relation.TransGen (Leads edges) i j) :
    ∃ a b, table.values[i]? = some a ∧ table.values[j]? = some b ∧
      Relation.TransGen table.Names a b := by
  induction hij with
  | single hij =>
    obtain ⟨a, b, ha, hb, hab⟩ := (leads_iff h).1 hij
    exact ⟨a, b, ha, hb, .single hab⟩
  | tail _ hjk ih =>
    obtain ⟨a, b, ha, hb, hab⟩ := ih
    obtain ⟨b', c, hb', hc, hbc⟩ := (leads_iff h).1 hjk
    cases hb.symm.trans hb'
    exact ⟨a, c, ha, hc, hab.tail hbc⟩

/-- The macros of a table form no circle exactly when their positions form none. -/
theorem acyclic_iff (h : table.graph = .ok edges) :
    (∀ m, ¬Relation.TransGen table.Names m m) ↔
      ∀ node, ¬Relation.TransGen (Leads edges) node node := by
  constructor
  · intro hm node hnode
    obtain ⟨a, b, ha, hb, hab⟩ := transGen_names h hnode
    cases ha.symm.trans hb
    exact hm a hab
  · intro hnode m hm
    obtain ⟨i, j, hi, hj, hij⟩ := transGen_leads h hm
    cases eq_of_name_eq hi hj rfl
    exact hnode i hij

/-- The macros at given positions. -/
theorem exists_members {nodes : List Nat} (hnodes : ∀ node ∈ nodes, node < table.values.length) :
    ∃ members, List.Forall₂ (fun i m => table.values[i]? = some m) nodes members := by
  induction nodes with
  | nil => exact ⟨[], .nil⟩
  | cons node rest ih =>
    obtain ⟨hnode, hrest⟩ := List.forall_mem_cons.1 hnodes
    obtain ⟨members, hmembers⟩ := ih hrest
    exact ⟨_, .cons (List.getElem?_eq_getElem hnode) hmembers⟩

theorem filterMap_members {nodes : List Nat} {members : List Macro}
    (h : List.Forall₂ (fun i m => table.values[i]? = some m) nodes members) :
    nodes.filterMap (table.values[·]?) = members := by
  induction h with
  | nil => rfl
  | cons hm _ ih => rw [List.filterMap_cons_some hm, ih]

/-- A path in the graph is a chain of macros each of which names the next. -/
theorem isChain_members (hgraph : table.graph = .ok edges) {nodes : List Nat}
    {members : List Macro}
    (h : List.Forall₂ (fun i m => table.values[i]? = some m) nodes members)
    (hnodes : nodes.IsChain (Leads edges)) : members.IsChain table.Names := by
  induction h with
  | nil => exact .nil
  | cons hi hrest ih =>
    cases hrest with
    | nil => exact .singleton _
    | cons hj hrest =>
      rw [List.isChain_cons_cons] at hnodes ⊢
      obtain ⟨a, b, ha, hb, hab⟩ := (leads_iff hgraph).1 hnodes.1
      cases hi.symm.trans ha
      cases hj.symm.trans hb
      exact ⟨hab, ih hnodes.2⟩

theorem biUnique_position :
    Relator.BiUnique fun (i : Nat) (m : Macro) => table.values[i]? = some m :=
  ⟨fun _ _ _ ha hb => eq_of_name_eq ha hb rfl,
    fun _ _ _ ha hb => Option.some.inj (ha.symm.trans hb)⟩

/-- A circle that the search finds is reported as a circle of macros. -/
theorem circleFault_eq (hgraph : table.graph = .ok edges) {nodes : List Nat}
    (h : IsCircle edges nodes) :
    ∃ first inner, inner ≠ [] ∧ (first :: inner).Nodup ∧
      (first :: inner ++ [first]).IsChain table.Names ∧
      table.circleFault nodes = some (.atToken
        (.macroCycle ((first :: inner ++ [first]).map (·.name))) first.head) := by
  obtain ⟨node, rest, rfl, hnodup, hchain, hwithin⟩ := h
  have hlen : table.values.length = edges.length := (forall₂_graph hgraph).length_eq
  obtain ⟨members, hmembers⟩ : ∃ members,
      List.Forall₂ (fun i m => table.values[i]? = some m) (node :: rest) members :=
    exists_members fun i hi => hlen ▸ hwithin i (List.mem_append_left _ hi)
  obtain ⟨first, inner, hfirst, hinner, rfl⟩ := List.forall₂_cons_left_iff.1 hmembers
  have hall : List.Forall₂ (fun i m => table.values[i]? = some m)
      (node :: rest ++ [node]) (first :: inner ++ [first]) :=
    List.rel_append hmembers (.cons hfirst .nil)
  have hnames := isChain_members hgraph hall hchain
  refine ⟨first, inner, ?_, (List.rel_nodup biUnique_position hmembers).1 hnodup, hnames, ?_⟩
  · -- a circle of one macro would be a macro that names itself
    rintro rfl
    exact not_names_self_of_graph hgraph first (List.isChain_cons_cons.1 hnames).1
  · rw [circleFault, filterMap_members hall]
    rfl

end Circles

/-! ## The check -/

theorem check_of_graph_error {e : Diagnostic} (h : table.graph = .error e) :
    table.check = .error e := by
  rw [check, h]
  rfl

theorem check_of_findCircle_ok {edges : List (List Nat)} {done : List Nat}
    (h : table.graph = .ok edges) (hdone : findCircle edges = .ok done) :
    table.check = .ok () := by
  rw [check, h]
  simp only [bind, Except.bind, hdone]
  rfl

theorem check_of_findCircle_error {edges : List (List Nat)} {nodes : List Nat} {e : Diagnostic}
    (h : table.graph = .ok edges) (hnodes : findCircle edges = .error nodes)
    (he : table.circleFault nodes = some e) : table.check = .error e := by
  rw [check, h]
  simp only [bind, Except.bind, hnodes, he]

/-- What the check can say: nothing, a macro that names itself, or a circle of several macros. -/
theorem check_cases (table : MacroTable) :
    (table.check = .ok () ∧ ∀ m, ¬Relation.TransGen table.Names m m) ∨
    (∃ m token, table.Names m m ∧ token ∈ m.body.flatten ∧ token.text = m.name ∧
      table.check = .error (.atToken (.macroSelfReference m.name) token)) ∨
    ((∀ m, ¬table.Names m m) ∧ ∃ first inner, inner ≠ [] ∧ (first :: inner).Nodup ∧
      (first :: inner ++ [first]).IsChain table.Names ∧
      table.check = .error (.atToken
        (.macroCycle ((first :: inner ++ [first]).map (·.name))) first.head)) := by
  cases hgraph : table.graph with
  | error e =>
    obtain ⟨m, token, hself, htoken, hname, rfl⟩ := graph_eq_error hgraph
    exact .inr (.inl ⟨m, token, hself, htoken, hname, check_of_graph_error hgraph⟩)
  | ok edges =>
    have hclosed := closed_graph hgraph
    have hsound := sound_findCircle hclosed
    cases hfind : findCircle edges with
    | ok done =>
      have hnodes := (findCircle_isOk_iff hclosed).1 ⟨done, hfind⟩
      exact .inl ⟨check_of_findCircle_ok hgraph hfind, (acyclic_iff hgraph).2 hnodes⟩
    | error nodes =>
      rw [hfind] at hsound
      obtain ⟨first, inner, hinner, hnodup, hchain, hfault⟩ := circleFault_eq hgraph hsound
      exact .inr (.inr ⟨not_names_self_of_graph hgraph, first, inner, hinner, hnodup, hchain,
        check_of_findCircle_error hgraph hfind hfault⟩)

/-- The check accepts exactly the tables in which no macro leads back to itself. -/
theorem check_eq_ok_iff : table.check = .ok () ↔ ∀ m, ¬Relation.TransGen table.Names m m := by
  rcases check_cases table with ⟨hok, hacyclic⟩ | ⟨m, token, hself, -, -, herror⟩ |
    ⟨-, first, inner, -, -, hchain, herror⟩
  · exact iff_of_true hok hacyclic
  · refine iff_of_false (by simp [herror]) fun h => h m (.single hself)
  · refine iff_of_false (by simp [herror]) fun h => h first (transGen_of_isChain hchain)

/-- `check` accepts exactly the tables in which no macro names itself, directly or through others.
It reports a self-reference exactly when a macro's own body names it.  A circle that it reports is
one of at least two distinct macros, each naming the next and the last the first, and the place of
the report is the declaration of the first; it reports nothing else. -/
theorem check_decides_acyclicity (table : MacroTable) :
    (table.check = .ok () ↔ ∀ m, ¬Relation.TransGen table.Names m m) ∧
    ((∃ e name, table.check = .error e ∧ e.cause = .macroSelfReference name) ↔
      ∃ m, table.Names m m) ∧
    (∀ e path, table.check = .error e → e.cause = .macroCycle path →
      ∃ first inner, inner ≠ [] ∧ (first :: inner).Nodup ∧
        (first :: inner ++ [first]).IsChain table.Names ∧
        path = (first :: inner ++ [first]).map (·.name) ∧
        e.cause.message = "Cyclic macro dependency: " ++ " => ".intercalate path ∧
        e.site = first.head.site) ∧
    ∀ e, table.check = .error e → (∃ name, e.cause = .macroSelfReference name) ∨
      ∃ path, e.cause = .macroCycle path := by
  refine ⟨check_eq_ok_iff, ?_⟩
  rcases check_cases table with ⟨hok, hacyclic⟩ | ⟨m, token, hself, -, -, herror⟩ |
    ⟨hnone, first, inner, hinner, hnodup, hchain, herror⟩
  · have hnot : ∀ m, ¬table.Names m m := fun m hm => hacyclic m (.single hm)
    simp [hok, hnot]
  · refine ⟨⟨fun _ => ⟨m, hself⟩, fun _ => ⟨_, _, herror, rfl⟩⟩, ?_, ?_⟩
    · rintro e path he hpath
      cases herror.symm.trans he
      cases hpath
    · rintro e he
      cases herror.symm.trans he
      exact .inl ⟨_, rfl⟩
  · refine ⟨⟨?_, fun ⟨m, hm⟩ => absurd hm (hnone m)⟩, ?_, ?_⟩
    · rintro ⟨e, name, he, hname⟩
      cases herror.symm.trans he
      cases hname
    · rintro e path he hpath
      cases herror.symm.trans he
      cases hpath
      exact ⟨first, inner, hinner, hnodup, hchain, rfl, rfl, rfl⟩
    · rintro e he
      cases herror.symm.trans he
      exact .inr ⟨_, rfl⟩

end MacroTable
end CircuitRom
