import CircuitRom.Macro.Dependency
import Mathlib.Data.List.Chain
import Mathlib.Data.List.GetD
import Mathlib.Data.List.Nodup
import Mathlib.Data.List.Perm.Subperm
import Mathlib.Logic.Relation

/-!
# The search for a circle

`findCircle` follows the edges of a graph until it has seen every node or closes a circle.  The
nodes that are done are kept in an order in which every edge leads further back (`Settled`), so no
circle passes through them.  The nodes of the current path are distinct and linked by edges
(`Trail`), so an edge back into the path closes a genuine circle (`IsCircle`), and a path cannot
outgrow the graph: the levels that the search is given suffice.
-/

namespace CircuitRom
namespace MacroTable

variable {edges : List (List Nat)}

/-- There is an edge from one node to another. -/
def Leads (edges : List (List Nat)) (a b : Nat) : Prop := b ∈ edges.getD a []

/-- All edges of a graph end at its nodes. -/
def Closed (edges : List (List Nat)) : Prop := ∀ a b, Leads edges a b → b < edges.length

/-! ## Nodes that are done -/

/-- Every edge from a node of the list leads to a node behind it. -/
def Settled (edges : List (List Nat)) : List Nat → Prop
  | [] => True
  | node :: rest => (∀ next, Leads edges node next → next ∈ rest) ∧ Settled edges rest

theorem Settled.mem_of_leads {done : List Nat} (h : Settled edges done) {a b : Nat} (ha : a ∈ done)
    (hab : Leads edges a b) : b ∈ done := by
  induction done with
  | nil => cases ha
  | cons node rest ih =>
    obtain ⟨hnode, hrest⟩ := h
    rcases List.mem_cons.1 ha with rfl | ha
    · exact List.mem_cons_of_mem _ (hnode b hab)
    · exact List.mem_cons_of_mem _ (ih hrest ha)

/-- What is finished is closed under edges, so nothing that is reached from it is still open. -/
theorem Settled.mem_of_transGen {done : List Nat} (h : Settled edges done) {a b : Nat}
    (ha : a ∈ done) (hab : Relation.TransGen (Leads edges) a b) : b ∈ done := by
  induction hab with
  | single hab => exact h.mem_of_leads ha hab
  | tail _ hbc ih => exact h.mem_of_leads ih hbc

/-- No circle passes through a node that is done. -/
theorem Settled.not_transGen {done : List Nat} (h : Settled edges done) {a : Nat} (ha : a ∈ done) :
    ¬Relation.TransGen (Leads edges) a a := by
  induction done with
  | nil => cases ha
  | cons node rest ih =>
    obtain ⟨hnode, hrest⟩ := h
    intro haa
    rcases List.mem_cons.1 ha with rfl | ha
    · -- the circle leaves the first node, and from the nodes behind it there is no way back
      obtain ⟨b, hab, hba⟩ := Relation.TransGen.head'_iff.1 haa
      have hb : b ∈ rest := hnode b hab
      rcases Relation.reflTransGen_iff_eq_or_transGen.1 hba with rfl | hba
      · exact ih hrest hb haa
      · exact ih hrest (hrest.mem_of_transGen hb hba) haa
    · exact ih hrest ha haa

/-! ## The current path -/

/-- A path of the search, listed from its last node back to its first. -/
structure Trail (edges : List (List Nat)) (path : List Nat) : Prop where
  linked : path.IsChain fun node before => Leads edges before node
  distinct : path.Nodup
  within : ∀ node ∈ path, node < edges.length

/-- A trail has no node twice, so it is no longer than the graph. -/
theorem Trail.length_le {path : List Nat} (h : Trail edges path) : path.length ≤ edges.length := by
  have hsub : path ⊆ List.range edges.length := fun node hn => List.mem_range.2 (h.within node hn)
  simpa using (List.subperm_of_subset h.distinct hsub).length_le

/-- A trail can be continued to a node that is not on it. -/
theorem Trail.cons {node next : Nat} {path : List Nat} (h : Trail edges (node :: path))
    (hclosed : Closed edges) (hnext : Leads edges node next) (hnew : next ∉ node :: path) :
    Trail edges (next :: node :: path) where
  linked := List.isChain_cons_cons.2 ⟨hnext, h.linked⟩
  distinct := List.nodup_cons.2 ⟨hnew, h.distinct⟩
  within := List.forall_mem_cons.2 ⟨hclosed node next hnext, h.within⟩

/-- A walk along edges that ends where it starts and meets no other node twice. -/
def IsCircle (edges : List (List Nat)) (nodes : List Nat) : Prop :=
  ∃ first inner, nodes = first :: inner ++ [first] ∧ (first :: inner).Nodup ∧
    nodes.IsChain (Leads edges) ∧ ∀ node ∈ nodes, node < edges.length

/-- An edge from the last node of a path back into the path closes a circle. -/
theorem Trail.isCircle {node next : Nat} {path : List Nat} (h : Trail edges (node :: path))
    (hnext : Leads edges node next) (hmem : next ∈ node :: path) :
    IsCircle edges (circle (node :: path) next) := by
  obtain ⟨before, after, hsplit⟩ := List.append_of_mem hmem
  have hnodup : (before ++ next :: after).Nodup := hsplit ▸ h.distinct
  have hbefore : next ∉ before := fun hb => (List.nodup_append.1 hnodup).2.2 _ hb _
    List.mem_cons_self rfl
  have htake : (node :: path).takeWhile (· ≠ next) = before := by
    rw [hsplit, List.takeWhile_append_of_pos, List.takeWhile_cons_of_neg (by simp),
      List.append_nil]
    intro a ha
    simpa using fun hc : a = next => hbefore (hc ▸ ha)
  have hsplit' : node :: path = (before ++ [next]) ++ after := by simp [hsplit]
  have hback : (next :: before.reverse).IsChain (Leads edges) := by
    have hlinked := h.linked
    rw [hsplit'] at hlinked
    simpa using List.isChain_reverse.2 hlinked.left_of_append
  have hlast : (next :: before.reverse).getLast? = some node := by
    have := congrArg List.head? hsplit
    rw [← List.reverse_reverse (next :: before.reverse), List.getLast?_reverse]
    cases before with
    | nil => simpa using this.symm
    | cons b bs => simpa using this.symm
  rw [circle, htake]
  refine ⟨next, before.reverse, rfl, ?_, ?_, ?_⟩
  · have hdistinct := h.distinct
    rw [hsplit'] at hdistinct
    simpa using List.nodup_reverse.2 (List.nodup_append.1 hdistinct).1
  · refine hback.append (List.isChain_singleton _) ?_
    intro a ha b hb
    rw [hlast] at ha
    cases ha
    cases hb
    exact hnext
  · intro a ha
    refine h.within a ?_
    rw [hsplit]
    simp only [List.cons_append, List.mem_cons, List.mem_append, List.mem_reverse,
      List.not_mem_nil, or_false] at ha ⊢
    tauto

/-! ## The run of the search -/

/-- What a run of the search that starts with the nodes in `done` says about `targets`: they are
done with, or there is a circle. -/
def Sound (edges : List (List Nat)) (done targets : List Nat) :
    Except (List Nat) (List Nat) → Prop
  | .ok done' => Settled edges done' ∧ done ⊆ done' ∧ targets ⊆ done'
  | .error nodes => IsCircle edges nodes

/-- A run over several nodes is sound when each of its steps is. -/
theorem sound_foldlM {step : List Nat → Nat → Except (List Nat) (List Nat)} {targets : List Nat}
    (hstep : ∀ done, Settled edges done →
      ∀ next ∈ targets, Sound edges done [next] (step done next))
    {done : List Nat} (hdone : Settled edges done) :
    Sound edges done targets (targets.foldlM step done) := by
  induction targets generalizing done with
  | nil => exact ⟨hdone, List.Subset.refl _, List.nil_subset _⟩
  | cons next rest ih =>
    have hnext := hstep done hdone next List.mem_cons_self
    rw [List.foldlM_cons]
    cases hs : step done next with
    | error nodes =>
      rw [hs] at hnext
      exact hnext
    | ok done' =>
      rw [hs] at hnext
      obtain ⟨hdone', hsub, htarget⟩ := hnext
      have hrest := ih (fun d hd n hn => hstep d hd n (List.mem_cons_of_mem _ hn)) hdone'
      show Sound edges done (next :: rest) (rest.foldlM step done')
      cases hr : rest.foldlM step done' with
      | error nodes =>
        rw [hr] at hrest
        exact hrest
      | ok done'' =>
        rw [hr] at hrest
        obtain ⟨hdone'', hsub', htargets⟩ := hrest
        refine ⟨hdone'', List.Subset.trans hsub hsub', List.cons_subset.2 ⟨hsub' ?_, htargets⟩⟩
        exact htarget List.mem_cons_self

/-- A visit to a node is sound when the levels and the path together outnumber the nodes. -/
theorem sound_visit (hclosed : Closed edges) (levels : Nat) {path done : List Nat} {node : Nat}
    (htrail : Trail edges (node :: path)) (hdone : Settled edges done)
    (hlevels : edges.length ≤ levels + path.length) :
    Sound edges done [node] (visit edges levels path done node) := by
  induction levels generalizing path done node with
  | zero =>
    -- a path through all nodes cannot be extended
    have := htrail.length_le
    rw [List.length_cons] at this
    omega
  | succ levels ih =>
    have hstep : ∀ done, Settled edges done → ∀ next ∈ edges.getD node [],
        Sound edges done [next]
          (if next ∈ node :: path then .error (circle (node :: path) next)
            else if next ∈ done then .ok done
            else visit edges levels (node :: path) done next) := by
      intro done hdone next hnext
      by_cases hpath : next ∈ node :: path
      · rw [if_pos hpath]
        exact htrail.isCircle hnext hpath
      · rw [if_neg hpath]
        by_cases hmem : next ∈ done
        · rw [if_pos hmem]
          exact ⟨hdone, List.Subset.refl _, by simpa using hmem⟩
        · rw [if_neg hmem]
          refine ih (htrail.cons hclosed hnext hpath) hdone ?_
          rw [List.length_cons]
          omega
    have hall := sound_foldlM hstep hdone
    rw [visit]
    cases hf : (edges.getD node []).foldlM (fun finished next =>
        if next ∈ node :: path then .error (circle (node :: path) next)
          else if next ∈ finished then .ok finished
          else visit edges levels (node :: path) finished next) done with
    | error nodes =>
      rw [hf] at hall
      show IsCircle edges nodes
      exact hall
    | ok done' =>
      rw [hf] at hall
      obtain ⟨hdone', hsub, htargets⟩ := hall
      exact ⟨⟨fun next hnext => htargets hnext, hdone'⟩,
        List.Subset.trans hsub (List.subset_cons_self _ _), by simp⟩

/-- The search reaches every node or shows a circle. -/
theorem sound_findCircle (hclosed : Closed edges) :
    Sound edges [] (List.range edges.length) (findCircle edges) := by
  refine sound_foldlM (fun done hdone root hroot => ?_) trivial
  by_cases hmem : root ∈ done
  · rw [if_pos hmem]
    exact ⟨hdone, List.Subset.refl _, by simpa using hmem⟩
  · rw [if_neg hmem]
    refine sound_visit hclosed _ ⟨by simp, by simp, ?_⟩ hdone (by simp)
    simpa using hroot

/-- A walk that ends where it starts is a circle of the relation. -/
theorem transGen_of_isChain {α : Type} {r : α → α → Prop} {first : α} {inner : List α}
    (h : (first :: inner ++ [first]).IsChain r) : Relation.TransGen r first first := by
  refine Relation.TransGen.head'_iff.2 ?_
  obtain ⟨next, rest, hrest⟩ := List.exists_cons_of_ne_nil
    (List.append_ne_nil_of_right_ne_nil inner (List.cons_ne_nil first []))
  rw [List.cons_append, hrest] at h
  refine ⟨next, (List.isChain_cons_cons.1 h).1, ?_⟩
  refine List.relationReflTransGen_of_exists_isChain_cons rest h.tail ?_
  simp only [← hrest, List.getLast_append_singleton]

theorem IsCircle.transGen {nodes : List Nat} (h : IsCircle edges nodes) :
    ∃ node, Relation.TransGen (Leads edges) node node := by
  obtain ⟨first, inner, rfl, -, hchain, -⟩ := h
  exact ⟨first, transGen_of_isChain hchain⟩

/-- The search ends without a circle exactly when the graph has none. -/
theorem findCircle_isOk_iff (hclosed : Closed edges) :
    (∃ done, findCircle edges = .ok done) ↔ ∀ node, ¬Relation.TransGen (Leads edges) node node := by
  have hsound := sound_findCircle hclosed
  cases hf : findCircle edges with
  | error nodes =>
    rw [hf] at hsound
    obtain ⟨node, hnode⟩ := hsound.transGen
    simpa using ⟨node, hnode⟩
  | ok done =>
    rw [hf] at hsound
    obtain ⟨hdone, -, hall⟩ := hsound
    refine ⟨fun _ node hnode => ?_, fun _ => ⟨done, rfl⟩⟩
    obtain ⟨next, hnext, -⟩ := Relation.TransGen.head'_iff.1 hnode
    have hlt : node < edges.length := by
      by_contra hge
      rw [Leads, List.getD_eq_default _ _ (by omega)] at hnext
      cases hnext
    exact hdone.not_transGen (hall (List.mem_range.2 hlt)) hnode

end MacroTable
end CircuitRom
