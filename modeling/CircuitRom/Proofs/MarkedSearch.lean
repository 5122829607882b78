import CircuitRom.Proofs.Access
import CircuitRom.Proofs.Acyclicity

/-!
# The search for a circle with marks

The search can be carried out with two tables that have an entry for each node: a mark that says
how far the search has come with the node, and the node from which it was reached.  A node on the
current path is told by its mark, and a circle is read off by going back from parent to parent.
`searchMarked` does this with every entry looked up by position.  It meets no position out of range
and finds what `findCircle` finds, and so does the check of a table that is built on it.
-/

namespace CircuitRom
namespace MacroTable

variable {ε : Type}

/-- How far the search has come with a node. -/
inductive Mark where
  /-- It has not been reached. -/
  | unvisited
  /-- It is on the current path. -/
  | onPath
  /-- It is done with. -/
  | done
deriving DecidableEq, Repr

/-- What the search notes about the nodes. -/
structure Notes where
  /-- How far it has come with each. -/
  mark : List Mark
  /-- The node from which each was reached. -/
  parent : List (Option Nat)

namespace Notes

/-- Nothing is noted about `n` nodes. -/
def blank (n : Nat) : Notes := ⟨List.replicate n .unvisited, List.replicate n none⟩

/-- Change the mark of a node. -/
def setMark (notes : Notes) (node : Nat) (mark : Mark) : Access ε Notes := do
  return { notes with mark := ← Access.set notes.mark node mark }

/-- Note from which node a node was reached. -/
def setParent (notes : Notes) (node before : Nat) : Access ε Notes := do
  return { notes with parent := ← Access.set notes.parent node (some before) }

/-- The nodes from the given one back to `goal`, from parent to parent, in at most the given number
of steps. -/
def trace (notes : Notes) (goal : Nat) : Nat → Nat → Access ε (List Nat)
  | 0, _ => ExceptT.mk none
  | steps + 1, node =>
    if node = goal then return [node]
    else do
      match ← Access.get notes.parent node with
      | none => return [node]
      | some before => return node :: (← notes.trace goal steps before)

end Notes

/-- How a search ends that closes a circle: the nodes of the circle, and the notes at that time. -/
abbrev Closing : Type := List Nat × Notes

/-- Follow the edge from `node` to `next`. -/
def followEdge (size : Nat) (visit : Notes → Nat → Access Closing Notes) (node : Nat)
    (notes : Notes) (next : Nat) : Access Closing Notes := do
  match ← Access.get notes.mark next with
  | .unvisited => do
    let notes ← notes.setMark next .onPath
    let notes ← notes.setParent next node
    visit notes next
  | .onPath => do
    let nodes ← notes.trace next size node
    Access.ofExcept (.error ((next :: nodes).reverse, notes))
  | .done => return notes

/-- Search from a node that has been marked, at most so many levels deep. -/
def visitMarked (edges : List (List Nat)) : Nat → Notes → Nat → Access Closing Notes
  | 0, _, _ => ExceptT.mk none
  | levels + 1, notes, node => do
    let targets ← Access.get edges node
    let notes ← targets.foldlM (followEdge edges.length (visitMarked edges levels) node) notes
    notes.setMark node .done

/-- Search from a node on which no other node of the path leads. -/
def startFrom (edges : List (List Nat)) (notes : Notes) (root : Nat) :
    Access Closing Notes := do
  match ← Access.get notes.mark root with
  | .unvisited => do
    let notes ← notes.setMark root .onPath
    visitMarked edges edges.length notes root
  | _ => return notes

/-- Search from all nodes. -/
def searchMarked (edges : List (List Nat)) : Access Closing Notes :=
  (List.range edges.length).foldlM (startFrom edges) (Notes.blank edges.length)

/-! ## What the notes say -/

namespace Notes

/-- Every parent is one of `n` nodes. -/
def Within (n : Nat) (notes : Notes) : Prop := ∀ before, some before ∈ notes.parent → before < n

/-- The notes on `n` nodes when the search is at the end of `path` and has finished `done`. -/
structure Records (n : Nat) (path done : List Nat) (notes : Notes) : Prop where
  length_mark : notes.mark.length = n
  length_parent : notes.parent.length = n
  onPath : ∀ i, notes.mark[i]? = some .onPath ↔ i ∈ path
  done : ∀ i, notes.mark[i]? = some .done ↔ i ∈ done
  linked : path.IsChain fun node before => notes.parent[node]? = some (some before)
  within : notes.Within n

variable {n : Nat} {notes : Notes} {path done : List Nat}

theorem records_blank (n : Nat) : (blank n).Records n [] [] where
  length_mark := by simp [blank]
  length_parent := by simp [blank]
  onPath i := by simp [blank, List.getElem?_replicate]
  done i := by simp [blank, List.getElem?_replicate]
  linked := .nil
  within before h := by simp [blank, List.mem_replicate] at h

theorem setMark_of_lt {node : Nat} (h : node < notes.mark.length) (mark : Mark) :
    (notes.setMark node mark : Access ε Notes) =
      pure { notes with mark := notes.mark.set node mark } := by
  rw [setMark, Access.set_of_lt h]
  rfl

theorem setParent_of_lt {node : Nat} (h : node < notes.parent.length) (before : Nat) :
    (notes.setParent node before : Access ε Notes) =
      pure { notes with parent := notes.parent.set node (some before) } := by
  rw [setParent, Access.set_of_lt h]
  rfl

/-- Going back from the end of the path leads along the path. -/
theorem trace_eq {goal : Nat} {rest : List Nat} :
    ∀ {node steps : Nat}, (node :: rest).IsChain
        (fun node before => notes.parent[node]? = some (some before)) →
      goal ∈ node :: rest → rest.length < steps →
      (notes.trace goal steps node : Access ε (List Nat)) =
        pure ((node :: rest).takeWhile (· ≠ goal) ++ [goal]) := by
  induction rest with
  | nil =>
    intro node steps _ hgoal hsteps
    obtain ⟨steps, rfl⟩ := Nat.exists_eq_succ_of_ne_zero (Nat.ne_of_gt hsteps)
    obtain rfl : goal = node := by simpa using hgoal
    simp [trace]
  | cons before rest ih =>
    intro node steps hlinked hgoal hsteps
    obtain ⟨steps, rfl⟩ := Nat.exists_eq_succ_of_ne_zero (Nat.ne_of_gt (Nat.zero_lt_of_lt hsteps))
    obtain ⟨hparent, hlinked⟩ := List.isChain_cons_cons.1 hlinked
    by_cases hnode : node = goal
    · subst hnode
      simp [trace]
    · have hgoal' : goal ∈ before :: rest := (List.mem_cons.1 hgoal).resolve_left (Ne.symm hnode)
      have hsteps' : rest.length < steps := by simpa using hsteps
      have htake : (node :: before :: rest).takeWhile (· ≠ goal) =
          node :: (before :: rest).takeWhile (· ≠ goal) :=
        List.takeWhile_cons_of_pos (by simpa using hnode)
      rw [trace, if_neg hnode, Access.get_of_getElem? hparent, pure_bind, htake]
      simp [ih hlinked hgoal' hsteps']

theorem getElem?_set_eq_self_iff {α : Type} {as : List α} {node i : Nat} {a : α}
    (h : node < as.length) : (as.set node a)[i]? = some a ↔ i = node ∨ as[i]? = some a := by
  by_cases hi : i = node
  · simp [hi, h]
  · simp [hi, List.getElem?_set_ne (Ne.symm hi)]

theorem getElem?_set_eq_other_iff {α : Type} {as : List α} {node i : Nat} {a b : α}
    (hab : a ≠ b) : (as.set node a)[i]? = some b ↔ i ≠ node ∧ as[i]? = some b := by
  by_cases hi : i = node
  · simp [hi, List.getElem?_set, hab]
  · simp [hi, List.getElem?_set_ne (Ne.symm hi)]

/-- A node that the search starts from. -/
theorem Records.start (h : notes.Records n [] done) {root : Nat} (hroot : root < n)
    (hnew : root ∉ done) :
    Records n [root] done { notes with mark := notes.mark.set root .onPath } where
  length_mark := by simpa using h.length_mark
  length_parent := h.length_parent
  onPath i := by
    rw [getElem?_set_eq_self_iff (h.length_mark ▸ hroot), h.onPath]
    simp
  done i := by
    rw [getElem?_set_eq_other_iff (by simp), h.done, and_iff_right_iff_imp]
    rintro hi rfl
    exact hnew hi
  linked := .singleton _
  within := h.within

/-- A node that is reached from the end of the path. -/
theorem Records.extend {node next : Nat} (h : notes.Records n (node :: path) done)
    (hnode : node < n) (hnext : next < n) (hpath : next ∉ node :: path) (hdone : next ∉ done) :
    Records n (next :: node :: path) done
      ⟨notes.mark.set next .onPath, notes.parent.set next (some node)⟩ where
  length_mark := by simpa using h.length_mark
  length_parent := by simpa using h.length_parent
  onPath i := by
    rw [getElem?_set_eq_self_iff (h.length_mark ▸ hnext), h.onPath, ← List.mem_cons]
  done i := by
    rw [getElem?_set_eq_other_iff (by simp), h.done, and_iff_right_iff_imp]
    rintro hi rfl
    exact hdone hi
  linked := by
    have hlength : next < notes.parent.length := h.length_parent ▸ hnext
    refine List.isChain_cons_cons.2 ⟨by simp [hlength], ?_⟩
    refine h.linked.imp_of_mem_imp fun a b ha _ hab => ?_
    have hne : next ≠ a := by
      rintro rfl
      exact hpath ha
    simpa [List.getElem?_set_ne hne] using hab
  within before hbefore := by
    rcases List.mem_or_eq_of_mem_set hbefore with hold | hnew
    · exact h.within before hold
    · cases hnew
      exact hnode

/-- A node that is done with leaves the path. -/
theorem Records.finish {node : Nat} (h : notes.Records n (node :: path) done) (hnode : node < n)
    (hpath : node ∉ path) :
    Records n path (node :: done) { notes with mark := notes.mark.set node .done } where
  length_mark := by simpa using h.length_mark
  length_parent := h.length_parent
  onPath i := by
    rw [getElem?_set_eq_other_iff (by simp), h.onPath, List.mem_cons]
    constructor
    · rintro ⟨hne, hi⟩
      exact hi.resolve_left hne
    · intro hi
      refine ⟨?_, .inr hi⟩
      rintro rfl
      exact hpath hi
  done i := by
    rw [getElem?_set_eq_self_iff (h.length_mark ▸ hnode), h.done, ← List.mem_cons]
  linked := h.linked.tail
  within := h.within

end Notes

/-! ## The two searches agree -/

/-- The search with marks meets no position out of range, shows the same circle as the other one,
or ends with notes on the nodes that are done. -/
def Agrees (n : Nat) (path : List Nat) (marked : Access Closing Notes) :
    Except (List Nat) (List Nat) → Prop
  | .error nodes => ∃ notes : Notes,
    marked = Access.ofExcept (.error (nodes, notes)) ∧ notes.Within n
  | .ok done => ∃ notes : Notes, marked = pure notes ∧ notes.Records n path done

/-- If the notes record the path after the first step, the two searches may go on. -/
theorem Agrees.bind {n : Nat} {path path' : List Nat} {marked : Access Closing Notes}
    {plain : Except (List Nat) (List Nat)} {f : Notes → Access Closing Notes}
    {g : List Nat → Except (List Nat) (List Nat)} (h : Agrees n path marked plain)
    (hnext : ∀ (notes : Notes) (done : List Nat), notes.Records n path done →
      Agrees n path' (f notes) (g done)) :
    Agrees n path' (marked >>= f) (plain >>= g) := by
  cases plain with
  | error nodes =>
    obtain ⟨notes, rfl, hwithin⟩ := h
    exact ⟨notes, rfl, hwithin⟩
  | ok done =>
    obtain ⟨notes, rfl, hrecords⟩ := h
    rw [pure_bind]
    exact hnext notes done hrecords

/-- Two runs over several nodes agree when their steps do. -/
theorem agrees_foldlM {n : Nat} {path : List Nat}
    {marked : Notes → Nat → Access Closing Notes}
    {step : List Nat → Nat → Except (List Nat) (List Nat)} {targets : List Nat}
    (hstep : ∀ (notes : Notes) (done : List Nat), notes.Records n path done →
      ∀ next ∈ targets, Agrees n path (marked notes next) (step done next))
    {notes : Notes} {done : List Nat} (h : notes.Records n path done) :
    Agrees n path (targets.foldlM marked notes) (targets.foldlM step done) := by
  induction targets generalizing notes done with
  | nil => exact ⟨notes, rfl, h⟩
  | cons next rest ih =>
    rw [List.foldlM_cons, List.foldlM_cons]
    refine (hstep notes done h next List.mem_cons_self).bind fun notes' done' h' => ?_
    exact ih (fun m d hm k hk => hstep m d hm k (List.mem_cons_of_mem _ hk)) h'

variable {edges : List (List Nat)}

/-- The mark of the node at the end of an edge tells whether it is on the path or done with. -/
theorem agrees_followEdge {visit : Notes → Nat → Access Closing Notes}
    {search : List Nat → Nat → Except (List Nat) (List Nat)} {node next : Nat}
    {path done : List Nat} {notes : Notes} (hclosed : Closed edges)
    (htrail : Trail edges (node :: path)) (hnext : Leads edges node next)
    (hvisit : next ∉ node :: path → ∀ notes : Notes,
      notes.Records edges.length (next :: node :: path) done →
      Agrees edges.length (node :: path) (visit notes next) (search done next))
    (h : notes.Records edges.length (node :: path) done) :
    Agrees edges.length (node :: path) (followEdge edges.length visit node notes next)
      (if next ∈ node :: path then .error (circle (node :: path) next)
        else if next ∈ done then .ok done else search done next) := by
  have hlt : next < edges.length := hclosed node next hnext
  have hnode : node < edges.length := htrail.within node List.mem_cons_self
  obtain ⟨mark, hmark⟩ : ∃ mark, notes.mark[next]? = some mark :=
    ⟨_, List.getElem?_eq_getElem (h.length_mark ▸ hlt)⟩
  have honPath := h.onPath next
  have hdone := h.done next
  rw [hmark] at honPath hdone
  rw [followEdge, Access.get_of_getElem? hmark, pure_bind]
  cases mark with
  | unvisited =>
    have hpath : next ∉ node :: path := fun hmem => by simpa using honPath.2 hmem
    have hnew : next ∉ done := fun hmem => by simpa using hdone.2 hmem
    rw [if_neg hpath, if_neg hnew]
    simp only [Notes.setMark_of_lt (h.length_mark ▸ hlt), pure_bind]
    rw [Notes.setParent_of_lt (h.length_parent ▸ hlt), pure_bind]
    exact hvisit hpath _ (h.extend hnode hlt hpath hnew)
  | onPath =>
    have hpath : next ∈ node :: path := honPath.1 rfl
    have hlength : path.length < edges.length := htrail.length_le
    rw [if_pos hpath]
    simp only [Notes.trace_eq h.linked hpath hlength, pure_bind]
    refine ⟨notes, ?_, h.within⟩
    rw [circle]
    simp
  | done =>
    have hpath : next ∉ node :: path := fun hmem => by simpa using honPath.2 hmem
    rw [if_neg hpath, if_pos (hdone.1 rfl)]
    exact ⟨notes, rfl, h⟩

/-- A visit with marks finds what the visit with lists finds, and leaves the notes of the finished
nodes. -/
theorem agrees_visitMarked (hclosed : Closed edges) (levels : Nat) {path done : List Nat}
    {node : Nat} {notes : Notes} (htrail : Trail edges (node :: path))
    (hlevels : edges.length ≤ levels + path.length)
    (h : notes.Records edges.length (node :: path) done) :
    Agrees edges.length path (visitMarked edges levels notes node)
      (visit edges levels path done node) := by
  induction levels generalizing path done node notes with
  | zero =>
    -- a path through all nodes cannot be extended
    have hlength := htrail.length_le
    rw [List.length_cons] at hlength
    omega
  | succ levels ih =>
    have hnode : node < edges.length := htrail.within node List.mem_cons_self
    have hpath : node ∉ path := (List.nodup_cons.1 htrail.distinct).1
    have htargets : edges[node]? = some (edges.getD node []) := by
      rw [List.getElem?_eq_getElem hnode, List.getD_eq_getElem _ _ hnode]
    have hstep : ∀ (notes : Notes) (done : List Nat),
        notes.Records edges.length (node :: path) done → ∀ next ∈ edges.getD node [],
        Agrees edges.length (node :: path)
          (followEdge edges.length (visitMarked edges levels) node notes next)
          (if next ∈ node :: path then .error (circle (node :: path) next)
            else if next ∈ done then .ok done
            else visit edges levels (node :: path) done next) := by
      intro notes done hrecords next hnext
      refine agrees_followEdge hclosed htrail hnext (fun hnew notes hrecords => ?_) hrecords
      refine ih (htrail.cons hclosed hnext hnew) ?_ hrecords
      rw [List.length_cons]
      omega
    rw [visitMarked, Access.get_of_getElem? htargets, pure_bind]
    refine (agrees_foldlM hstep h).bind fun notes done hrecords => ?_
    rw [Notes.setMark_of_lt (hrecords.length_mark ▸ hnode)]
    exact ⟨_, rfl, hrecords.finish hnode hpath⟩

/-- The search with marks does what the search along paths does. -/
theorem agrees_searchMarked (hclosed : Closed edges) :
    Agrees edges.length [] (searchMarked edges) (findCircle edges) := by
  refine agrees_foldlM (fun notes done h root hroot => ?_) (Notes.records_blank _)
  have hlt : root < edges.length := List.mem_range.1 hroot
  obtain ⟨mark, hmark⟩ : ∃ mark, notes.mark[root]? = some mark :=
    ⟨_, List.getElem?_eq_getElem (h.length_mark ▸ hlt)⟩
  have honPath := h.onPath root
  have hdone := h.done root
  rw [hmark] at honPath hdone
  rw [startFrom, Access.get_of_getElem? hmark, pure_bind]
  cases mark with
  | unvisited =>
    have hnew : root ∉ done := fun hmem => by simpa using hdone.2 hmem
    rw [if_neg hnew]
    simp only [Notes.setMark_of_lt (h.length_mark ▸ hlt), pure_bind]
    refine agrees_visitMarked hclosed _ ⟨by simp, by simp, by simpa using hlt⟩ (by simp) ?_
    exact h.start hlt hnew
  | onPath => simp at honPath
  | done =>
    rw [if_pos (hdone.1 rfl)]
    exact ⟨notes, rfl, h⟩

/-! ## The check of a table -/

/-- The check of a table, with all macros looked up by position. -/
def checkMarked (table : MacroTable) : Access Diagnostic Unit := do
  let edges ← Access.ofExcept table.graph
  match ← Access.attempt (searchMarked edges) with
  | .ok _ => return ()
  | .error (nodes, _) => do
    let members ← nodes.mapM (Access.get table.values)
    let first ← Access.get members 0
    Access.ofExcept (.error (.atToken (.macroCycle (members.map (·.name))) first.head))

theorem mapM_get {nodes : List Nat} {members : List Macro} {table : MacroTable}
    (h : List.Forall₂ (fun i m => table.values[i]? = some m) nodes members) :
    (nodes.mapM (Access.get table.values) : Access ε (List Macro)) = pure members := by
  induction h with
  | nil => rfl
  | cons hm _ ih => simp [List.mapM_cons, Access.get_of_getElem? hm, ih]

/-- The check meets no position out of range, whatever it finds. -/
theorem checkMarked_eq (table : MacroTable) : table.checkMarked = Access.ofExcept table.check := by
  cases hgraph : table.graph with
  | error e =>
    rw [checkMarked, hgraph, check_of_graph_error hgraph]
    rfl
  | ok edges =>
    have hclosed := closed_graph hgraph
    have hagrees := agrees_searchMarked hclosed
    have hsound := sound_findCircle hclosed
    rw [checkMarked, hgraph, Access.ofExcept_ok, pure_bind]
    cases hfind : findCircle edges with
    | ok done =>
      rw [hfind] at hagrees
      obtain ⟨notes, hnotes, -⟩ := hagrees
      rw [hnotes, check_of_findCircle_ok hgraph hfind]
      rfl
    | error nodes =>
      rw [hfind] at hagrees hsound
      obtain ⟨node, inner, rfl, -, -, hwithin⟩ := hsound
      obtain ⟨notes, hmarked, -⟩ := hagrees
      have hlength : table.values.length = edges.length := (forall₂_graph hgraph).length_eq
      obtain ⟨members, hmembers⟩ : ∃ members, List.Forall₂
          (fun i m => table.values[i]? = some m) (node :: inner ++ [node]) members :=
        exists_members fun i hi => hlength ▸ hwithin i hi
      obtain ⟨first, rest, -, -, rfl⟩ := List.forall₂_cons_left_iff.1 hmembers
      have hfault : table.circleFault (node :: inner ++ [node]) = some (.atToken
          (.macroCycle ((first :: rest).map (·.name))) first.head) := by
        rw [circleFault, filterMap_members hmembers]
        rfl
      rw [check_of_findCircle_error hgraph hfind hfault, hmarked, Access.attempt_ofExcept,
        pure_bind]
      simp only [mapM_get hmembers, pure_bind, Access.get_zero_cons]

/-- However the search ends, every parent that it has noted is a node. -/
theorem within_of_searchMarked {edges : List (List Nat)} (hclosed : Closed edges) {notes : Notes}
    (h : searchMarked edges = pure notes ∨
      ∃ nodes, searchMarked edges = Access.ofExcept (.error (nodes, notes))) :
    notes.Within edges.length := by
  have hagrees := agrees_searchMarked hclosed
  cases hfind : findCircle edges with
  | error nodes =>
    rw [hfind] at hagrees
    obtain ⟨notes', hnotes', hwithin⟩ := hagrees
    rw [hnotes'] at h
    rcases h with h | ⟨nodes', h⟩
    · cases h
    · cases h
      exact hwithin
  | ok done =>
    rw [hfind] at hagrees
    obtain ⟨notes', hnotes', hrecords⟩ := hagrees
    rw [hnotes'] at h
    rcases h with h | ⟨nodes', h⟩
    · cases h
      exact hrecords.within
    · cases h

end MacroTable
end CircuitRom
