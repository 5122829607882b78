import CircuitRom.Proofs.Wiring
import Mathlib.Combinatorics.SimpleGraph.Connectivity.Connected

/-!
# Networks of the memory

Connectors that wires join, directly or through others, carry the same signals: they form a network.
The networks of a memory are those that its rows are meant to have.  Each row has a red network of
its own, by which its storage and the address handed on to it reach its decider; one green network
brings the address that is asked for to all rows, and one takes the instruction away from them.

The components of a graph are known once a family of sets is found that no edge leaves and that
edges hold together (`IsPartition`).  The sets of the memory hold together along the rows
(`reachable_lamp`, `reachable_output`), are apart by their colours and places
(`eq_of_mem_memoryNetworks`), and contain every wire that was drawn
(`exists_network_of_mem_wiring`).
-/

namespace CircuitRom

/-! ## Components of a graph -/

section Components

variable {V : Type} {G : SimpleGraph V} {family : Set (Set V)}

/-- The components of a graph that have more than one member. -/
def components (G : SimpleGraph V) : Set (Set V) :=
  {S | S.Nontrivial ∧ ∃ K : G.ConnectedComponent, K.supp = S}

/-- A family of disjoint sets of vertices such that no edge leaves a set and each set is held
together by edges. -/
structure IsPartition (G : SimpleGraph V) (family : Set (Set V)) : Prop where
  adj : ∀ c d, G.Adj c d → ∃ N ∈ family, c ∈ N ∧ d ∈ N
  unique : ∀ N ∈ family, ∀ M ∈ family, ∀ c, c ∈ N → c ∈ M → N = M
  reachable : ∀ N ∈ family, ∀ c ∈ N, ∀ d ∈ N, G.Reachable c d
  nontrivial : ∀ N ∈ family, N.Nontrivial

namespace IsPartition

/-- Wires do not lead out of a network. -/
theorem mem_of_reachable (h : IsPartition G family) {N : Set V} (hN : N ∈ family) {c d : V}
    (hc : c ∈ N) (hcd : G.Reachable c d) : d ∈ N := by
  obtain ⟨walk⟩ := hcd
  induction walk with
  | nil => exact hc
  | cons hadj _ ih =>
    obtain ⟨M, hM, hcM, hdM⟩ := h.adj _ _ hadj
    obtain rfl := h.unique N hN M hM _ hc hcM
    exact ih hdM

theorem supp_eq (h : IsPartition G family) {N : Set V} (hN : N ∈ family) {c : V} (hc : c ∈ N) :
    (G.connectedComponentMk c).supp = N := by
  ext d
  rw [SimpleGraph.ConnectedComponent.mem_supp_iff, SimpleGraph.ConnectedComponent.eq]
  constructor
  · intro hdc
    exact h.mem_of_reachable hN hc hdc.symm
  · intro hd
    exact h.reachable N hN d hd c hc

/-- Whatever reaches something else belongs to a set of the family. -/
theorem exists_mem_of_reachable (h : IsPartition G family) {c d : V} (hcd : G.Reachable c d)
    (hne : c ≠ d) : ∃ N ∈ family, c ∈ N := by
  obtain ⟨walk⟩ := hcd
  cases walk with
  | nil => exact absurd rfl hne
  | cons hadj _ =>
    obtain ⟨N, hN, hc, -⟩ := h.adj _ _ hadj
    exact ⟨N, hN, hc⟩

/-- The networks of a partition are all components there are. -/
theorem components_eq (h : IsPartition G family) : components G = family := by
  ext S
  constructor
  · rintro ⟨⟨c, hc, d, hd, hne⟩, K, rfl⟩
    obtain ⟨N, hN, hcN⟩ := h.exists_mem_of_reachable (K.reachable_of_mem_supp hc hd) hne
    have hK : G.connectedComponentMk c = K := hc
    rwa [← hK, h.supp_eq hN hcN]
  · intro hS
    have hnontrivial : S.Nontrivial := h.nontrivial S hS
    obtain ⟨c, hc⟩ := hnontrivial.nonempty
    exact ⟨hnontrivial, _, h.supp_eq hS hc⟩

end IsPartition
end Components

namespace Blueprint

variable {b : Blueprint} {n : Nat}

/-! ## Connectors -/

/-- Where wires of one colour are attached. -/
structure Connector extends Terminal where
  /-- The colour. -/
  color : Color
deriving DecidableEq, Repr

/-- The first connector records a wire to the second. -/
def Wired (b : Blueprint) (c d : Connector) : Prop :=
  c.color = d.color ∧ ∃ near far, b.entities[c.place]? = some near ∧
    b.entities[d.place]? = some far ∧ ⟨far.number, d.side.number⟩ ∈ near.wires c.side c.color

/-- The connectors of a blueprint and the wires that are recorded between them. -/
def circuit (b : Blueprint) : SimpleGraph Connector := SimpleGraph.fromRel b.Wired

/-- The red network of a row, given the row before it if there is one. -/
def rowNetwork (row : Row Nat) (previous : Option (Row Nat)) : Set Connector :=
  {⟨⟨row.counter, .one⟩, .red⟩, ⟨⟨row.lamp, .one⟩, .red⟩, ⟨⟨row.storage, .one⟩, .red⟩,
    ⟨⟨row.decider, .one⟩, .red⟩} ∪ {c | ∃ p, previous = some p ∧ c = ⟨⟨p.counter, .two⟩, .red⟩}

/-- The green network that brings in the address that is asked for. -/
def addressNetwork (rows : List (Row Nat)) : Set Connector :=
  {⟨⟨addressLamp, .one⟩, .green⟩} ∪
    {c | ∃ row ∈ rows, c = ⟨⟨row.lamp, .one⟩, .green⟩ ∨ c = ⟨⟨row.decider, .one⟩, .green⟩}

/-- The green network that gives out the instruction. -/
def outputNetwork (rows : List (Row Nat)) : Set Connector :=
  {⟨⟨outputLamp, .one⟩, .green⟩} ∪ {c | ∃ row ∈ rows, c = ⟨⟨row.decider, .two⟩, .green⟩}

/-- The row before a row, if it is not the first. -/
def previousRow (b : Blueprint) : Nat → Option (Row Nat)
  | 0 => none
  | i + 1 => b.rows[i]?

/-! ## Wires as edges -/

theorem Numbered.wired_iff (h : b.Numbered) {c d : Connector} :
    b.Wired c d ↔ c.color = d.color ∧ d.place < b.entities.size ∧
      d.wire ∈ b.wiresAt c.toTerminal c.color := by
  rw [mem_wiresAt, Wired]
  constructor
  · rintro ⟨hcolor, near, far, hnear, hfar, hmem⟩
    have hlt : d.place < b.entities.size := (Array.getElem?_eq_some_iff.1 hfar).1
    rw [h.number d.place far hfar] at hmem
    exact ⟨hcolor, hlt, near, hnear, hmem⟩
  · rintro ⟨hcolor, hlt, near, hnear, hmem⟩
    have hfar : b.entities[d.place]? = some b.entities[d.place] := Array.getElem?_eq_getElem hlt
    refine ⟨hcolor, near, _, hnear, hfar, ?_⟩
    rwa [h.number d.place _ hfar]

theorem Terminal.wire_inj {s t : Terminal} : s.wire = t.wire ↔ s = t := by
  obtain ⟨place, side⟩ := s
  obtain ⟨place', side'⟩ := t
  cases side <;> cases side' <;> simp [Terminal.wire, Side.number]

/-- A connector records a wire to another one if such a wire was drawn, from either end. -/
theorem IsMemory.wired_iff (h : b.IsMemory n) {c d : Connector} :
    b.Wired c d ↔ ∃ color s t, (color, s, t) ∈ memoryWires n ∧
      (c = ⟨s, color⟩ ∧ d = ⟨t, color⟩ ∨ c = ⟨t, color⟩ ∧ d = ⟨s, color⟩) := by
  obtain ⟨c, hue⟩ := c
  obtain ⟨d, hue'⟩ := d
  simp only [h.numbered.wired_iff, h.wires, h.size, Records, Terminal.wire_inj, Connector.mk.injEq]
  constructor
  · rintro ⟨rfl, -, ⟨color, s, t⟩, hdrawn, rfl, ⟨rfl, rfl⟩ | ⟨rfl, rfl⟩⟩
    · exact ⟨_, _, _, hdrawn, .inl ⟨⟨rfl, rfl⟩, rfl, rfl⟩⟩
    · exact ⟨_, _, _, hdrawn, .inr ⟨⟨rfl, rfl⟩, rfl, rfl⟩⟩
  · rintro ⟨color, s, t, hdrawn, ⟨⟨rfl, rfl⟩, rfl, rfl⟩ | ⟨⟨rfl, rfl⟩, rfl, rfl⟩⟩
    · exact ⟨rfl, (place_lt_of_mem_memoryWires hdrawn).2, _, hdrawn, rfl, .inl ⟨rfl, rfl⟩⟩
    · exact ⟨rfl, (place_lt_of_mem_memoryWires hdrawn).1, _, hdrawn, rfl, .inr ⟨rfl, rfl⟩⟩

/-- Every wire is recorded at both of its ends. -/
theorem IsMemory.wired_symm (h : b.IsMemory n) {c d : Connector} (hwired : b.Wired c d) :
    b.Wired d c := by
  obtain ⟨color, s, t, hdrawn, hends⟩ := h.wired_iff.1 hwired
  exact h.wired_iff.2 ⟨color, s, t, hdrawn, hends.symm.imp And.symm And.symm⟩

/-- Every edge is a wire of one of the rows. -/
theorem IsMemory.exists_of_adj (h : b.IsMemory n) {c d : Connector} (hadj : b.circuit.Adj c d) :
    ∃ i < n, ∃ color s t, (color, s, t) ∈ wiring (rowAt i) (rowBefore i) ∧
      (c = ⟨s, color⟩ ∧ d = ⟨t, color⟩ ∨ c = ⟨t, color⟩ ∧ d = ⟨s, color⟩) := by
  obtain ⟨-, hwired⟩ := (SimpleGraph.fromRel_adj ..).1 hadj
  obtain ⟨color, s, t, hdrawn, hends⟩ := h.wired_iff.1 (hwired.elim id h.wired_symm)
  obtain ⟨i, hi, hrow⟩ := mem_memoryWires.1 hdrawn
  exact ⟨i, hi, color, s, t, hrow, hends⟩

/-- The wires of the rows join their ends. -/
theorem IsMemory.reachable_of_mem_wiring (h : b.IsMemory n) {i : Nat} (hi : i < n) {color : Color}
    {s t : Terminal} (hdrawn : (color, s, t) ∈ wiring (rowAt i) (rowBefore i)) :
    b.circuit.Reachable ⟨s, color⟩ ⟨t, color⟩ := by
  by_cases hne : s = t
  · rw [hne]
  · have hwired : b.Wired ⟨s, color⟩ ⟨t, color⟩ :=
      h.wired_iff.2 ⟨color, s, t, mem_memoryWires.2 ⟨i, hi, hdrawn⟩, .inl ⟨rfl, rfl⟩⟩
    have hadj : b.circuit.Adj ⟨s, color⟩ ⟨t, color⟩ :=
      (SimpleGraph.fromRel_adj ..).2 ⟨by simpa using hne, .inl hwired⟩
    exact hadj.reachable

/-! ## The networks hold together -/

section Rows

variable {i : Nat}

/-- Each connector of a row is tied to the row's counter. -/
theorem IsMemory.reachable_rowNetwork (h : b.IsMemory n) (hi : i < n) {c : Connector}
    (hc : c ∈ rowNetwork (rowAt i) (rowBefore i)) :
    b.circuit.Reachable c ⟨⟨(rowAt i).counter, .one⟩, .red⟩ := by
  have hlamp : b.circuit.Reachable ⟨⟨(rowAt i).counter, .one⟩, .red⟩
      ⟨⟨(rowAt i).lamp, .one⟩, .red⟩ :=
    h.reachable_of_mem_wiring hi (by simp [wiring])
  have hdecider : b.circuit.Reachable ⟨⟨(rowAt i).lamp, .one⟩, .red⟩
      ⟨⟨(rowAt i).decider, .one⟩, .red⟩ :=
    h.reachable_of_mem_wiring hi (by simp [wiring])
  have hstorage : b.circuit.Reachable ⟨⟨(rowAt i).storage, .one⟩, .red⟩
      ⟨⟨(rowAt i).decider, .one⟩, .red⟩ :=
    h.reachable_of_mem_wiring hi (by simp [wiring])
  rcases hc with (rfl | rfl | rfl | rfl) | ⟨p, hp, rfl⟩
  · exact .refl _
  · exact hlamp.symm
  · exact hstorage.trans (hlamp.trans hdecider).symm
  · exact (hlamp.trans hdecider).symm
  · exact (h.reachable_of_mem_wiring hi (by simp [wiring, hp])).symm

/-- The lamps hand the address on from row to row. -/
theorem IsMemory.reachable_lamp (h : b.IsMemory n) (hi : i < n) :
    b.circuit.Reachable ⟨⟨(rowAt i).lamp, .one⟩, .green⟩ ⟨⟨addressLamp, .one⟩, .green⟩ := by
  induction i with
  | zero => exact h.reachable_of_mem_wiring hi (by simp [wiring, rowBefore])
  | succ i ih =>
    have hstep : b.circuit.Reachable ⟨⟨(rowAt (i + 1)).lamp, .one⟩, .green⟩
        ⟨⟨(rowAt i).lamp, .one⟩, .green⟩ :=
      h.reachable_of_mem_wiring hi (by simp [wiring, rowBefore])
    exact hstep.trans (ih (by omega))

/-- The deciders hand the instruction on from row to row. -/
theorem IsMemory.reachable_output (h : b.IsMemory n) (hi : i < n) :
    b.circuit.Reachable ⟨⟨(rowAt i).decider, .two⟩, .green⟩ ⟨⟨outputLamp, .one⟩, .green⟩ := by
  induction i with
  | zero => exact h.reachable_of_mem_wiring hi (by simp [wiring, rowBefore])
  | succ i ih =>
    have hstep : b.circuit.Reachable ⟨⟨(rowAt (i + 1)).decider, .two⟩, .green⟩
        ⟨⟨(rowAt i).decider, .two⟩, .green⟩ :=
      h.reachable_of_mem_wiring hi (by simp [wiring, rowBefore])
    exact hstep.trans (ih (by omega))

end Rows

theorem mem_addressNetwork {c : Connector} :
    c ∈ addressNetwork ((List.range n).map rowAt) ↔ c = ⟨⟨addressLamp, .one⟩, .green⟩ ∨
      ∃ i < n, c = ⟨⟨(rowAt i).lamp, .one⟩, .green⟩ ∨ c = ⟨⟨(rowAt i).decider, .one⟩, .green⟩ := by
  simp [addressNetwork]

theorem mem_outputNetwork {c : Connector} :
    c ∈ outputNetwork ((List.range n).map rowAt) ↔ c = ⟨⟨outputLamp, .one⟩, .green⟩ ∨
      ∃ i < n, c = ⟨⟨(rowAt i).decider, .two⟩, .green⟩ := by
  simp [outputNetwork]

/-- Each connector of the address network is tied to its lamp, through the rows before. -/
theorem IsMemory.reachable_addressNetwork (h : b.IsMemory n) {c : Connector}
    (hc : c ∈ addressNetwork ((List.range n).map rowAt)) :
    b.circuit.Reachable c ⟨⟨addressLamp, .one⟩, .green⟩ := by
  obtain rfl | ⟨i, hi, rfl | rfl⟩ := mem_addressNetwork.1 hc
  · exact .refl _
  · exact h.reachable_lamp hi
  · have hdecider : b.circuit.Reachable ⟨⟨(rowAt i).lamp, .one⟩, .green⟩
        ⟨⟨(rowAt i).decider, .one⟩, .green⟩ :=
      h.reachable_of_mem_wiring hi (by simp [wiring])
    exact hdecider.symm.trans (h.reachable_lamp hi)

/-- Each connector of the output network is tied to its lamp, through the rows before. -/
theorem IsMemory.reachable_outputNetwork (h : b.IsMemory n) {c : Connector}
    (hc : c ∈ outputNetwork ((List.range n).map rowAt)) :
    b.circuit.Reachable c ⟨⟨outputLamp, .one⟩, .green⟩ := by
  obtain rfl | ⟨i, hi, rfl⟩ := mem_outputNetwork.1 hc
  · exact .refl _
  · exact h.reachable_output hi

/-! ## The networks are apart -/

/-- The networks of a memory of `n` rows. -/
def memoryNetworks (n : Nat) : Set (Set Connector) :=
  {S | (∃ i < n, S = rowNetwork (rowAt i) (rowBefore i)) ∨
    0 < n ∧ (S = addressNetwork ((List.range n).map rowAt) ∨
      S = outputNetwork ((List.range n).map rowAt))}

/-- A row's network lies in the row, but for the output of the counter before it. -/
theorem place_of_mem_rowNetwork {i : Nat} {c : Connector}
    (hc : c ∈ rowNetwork (rowAt i) (rowBefore i)) :
    c.color = .red ∧ (c.side = .one ∧ 8 + 4 * i ≤ c.place ∧ c.place < 12 + 4 * i ∨
      c.side = .two ∧ c.place + 4 = 8 + 4 * i) := by
  rcases hc with hc | ⟨p, hp, rfl⟩
  · rcases hc with rfl | rfl | rfl | rfl <;> refine ⟨rfl, .inl ⟨rfl, ?_, ?_⟩⟩ <;>
      simp only [rowAt] <;> omega
  · cases i with
    | zero => simp [rowBefore] at hp
    | succ i =>
      obtain rfl : rowAt i = p := Option.some.inj hp
      exact ⟨rfl, .inr ⟨rfl, by simp only [rowAt]; omega⟩⟩

/-- No connector belongs to two rows. -/
theorem eq_of_mem_rowNetwork {i j : Nat} {c : Connector}
    (hi : c ∈ rowNetwork (rowAt i) (rowBefore i)) (hj : c ∈ rowNetwork (rowAt j) (rowBefore j)) :
    i = j := by
  obtain ⟨-, ⟨hside, hle, hlt⟩ | ⟨hside, hplace⟩⟩ := place_of_mem_rowNetwork hi <;>
    obtain ⟨-, ⟨hside', hle', hlt'⟩ | ⟨hside', hplace'⟩⟩ := place_of_mem_rowNetwork hj
  · omega
  · simp [hside] at hside'
  · simp [hside] at hside'
  · omega

/-- Rows are tied in red, and the two networks across them in green. -/
theorem not_mem_rowNetwork {i : Nat} {c : Connector} (hc : c.color = .green) :
    c ∉ rowNetwork (rowAt i) (rowBefore i) := by
  intro hrow
  simp [(place_of_mem_rowNetwork hrow).1] at hc

theorem color_of_mem_addressNetwork {c : Connector}
    (hc : c ∈ addressNetwork ((List.range n).map rowAt)) : c.color = .green := by
  obtain rfl | ⟨i, hi, rfl | rfl⟩ := mem_addressNetwork.1 hc <;> rfl

theorem color_of_mem_outputNetwork {c : Connector}
    (hc : c ∈ outputNetwork ((List.range n).map rowAt)) : c.color = .green := by
  obtain rfl | ⟨i, hi, rfl⟩ := mem_outputNetwork.1 hc <;> rfl

theorem not_mem_outputNetwork {c : Connector}
    (hc : c ∈ addressNetwork ((List.range n).map rowAt)) :
    c ∉ outputNetwork ((List.range n).map rowAt) := by
  intro hout
  obtain rfl | ⟨i, hi, rfl⟩ := mem_outputNetwork.1 hout
  · obtain heq | ⟨j, -, heq | heq⟩ := mem_addressNetwork.1 hc <;>
      simp only [rowAt, addressLamp, outputLamp, Connector.mk.injEq, Terminal.mk.injEq] at heq <;>
      omega
  · simp [mem_addressNetwork] at hc

/-- The colour tells the networks of the rows from the others. -/
theorem eq_of_mem_memoryNetworks {N M : Set Connector} (hN : N ∈ memoryNetworks n)
    (hM : M ∈ memoryNetworks n) {c : Connector} (hcN : c ∈ N) (hcM : c ∈ M) : N = M := by
  obtain ⟨i, hi, rfl⟩ | ⟨-, rfl | rfl⟩ := hN <;> obtain ⟨j, hj, rfl⟩ | ⟨-, rfl | rfl⟩ := hM
  · rw [eq_of_mem_rowNetwork hcN hcM]
  · exact absurd hcN (not_mem_rowNetwork (color_of_mem_addressNetwork hcM))
  · exact absurd hcN (not_mem_rowNetwork (color_of_mem_outputNetwork hcM))
  · exact absurd hcM (not_mem_rowNetwork (color_of_mem_addressNetwork hcN))
  · rfl
  · exact absurd hcM (not_mem_outputNetwork hcN)
  · exact absurd hcM (not_mem_rowNetwork (color_of_mem_outputNetwork hcN))
  · exact absurd hcN (not_mem_outputNetwork hcM)
  · rfl

/-! ## The networks of the memory -/

/-- Each wire lies in one of the networks. -/
theorem exists_network_of_mem_wiring {i : Nat} (hi : i < n) {color : Color} {s t : Terminal}
    (h : (color, s, t) ∈ wiring (rowAt i) (rowBefore i)) :
    ∃ N ∈ memoryNetworks n, (⟨s, color⟩ : Connector) ∈ N ∧ (⟨t, color⟩ : Connector) ∈ N := by
  have hrow : rowNetwork (rowAt i) (rowBefore i) ∈ memoryNetworks n := .inl ⟨i, hi, rfl⟩
  have haddress : addressNetwork ((List.range n).map rowAt) ∈ memoryNetworks n :=
    .inr ⟨by omega, .inl rfl⟩
  have houtput : outputNetwork ((List.range n).map rowAt) ∈ memoryNetworks n :=
    .inr ⟨by omega, .inr rfl⟩
  simp only [wiring, List.mem_append, Option.mem_toList, Option.map_eq_some_iff, List.mem_cons,
    List.not_mem_nil, or_false, Prod.mk.injEq] at h
  rcases h with ⟨p, hp, rfl, rfl, rfl⟩ | ⟨rfl, rfl, rfl⟩ | ⟨rfl, rfl, rfl⟩ | ⟨rfl, rfl, rfl⟩ |
    ⟨rfl, rfl, rfl⟩ | ⟨rfl, rfl, rfl⟩ | ⟨rfl, rfl, rfl⟩
  · exact ⟨_, hrow, by simp [rowNetwork], .inr ⟨p, hp, rfl⟩⟩
  · exact ⟨_, hrow, by simp [rowNetwork], by simp [rowNetwork]⟩
  · exact ⟨_, hrow, by simp [rowNetwork], by simp [rowNetwork]⟩
  · exact ⟨_, hrow, by simp [rowNetwork], by simp [rowNetwork]⟩
  · refine ⟨_, haddress, mem_addressNetwork.2 (.inr ⟨i, hi, .inl rfl⟩), mem_addressNetwork.2 ?_⟩
    cases i with
    | zero => exact .inl rfl
    | succ i => exact .inr ⟨i, by omega, .inl rfl⟩
  · exact ⟨_, haddress, mem_addressNetwork.2 (.inr ⟨i, hi, .inl rfl⟩),
      mem_addressNetwork.2 (.inr ⟨i, hi, .inr rfl⟩)⟩
  · refine ⟨_, houtput, mem_outputNetwork.2 (.inr ⟨i, hi, rfl⟩), mem_outputNetwork.2 ?_⟩
    cases i with
    | zero => exact .inl rfl
    | succ i => exact .inr ⟨i, by omega, rfl⟩

/-- The networks of a memory are a partition: connected, disjoint and closed under wires. -/
theorem IsMemory.isPartition (h : b.IsMemory n) : IsPartition b.circuit (memoryNetworks n) where
  adj c d hadj := by
    obtain ⟨i, hi, color, s, t, hdrawn, ⟨rfl, rfl⟩ | ⟨rfl, rfl⟩⟩ := h.exists_of_adj hadj
    · exact exists_network_of_mem_wiring hi hdrawn
    · obtain ⟨N, hN, hs, ht⟩ := exists_network_of_mem_wiring hi hdrawn
      exact ⟨N, hN, ht, hs⟩
  unique N hN M hM c hcN hcM := eq_of_mem_memoryNetworks hN hM hcN hcM
  reachable N hN c hc d hd := by
    obtain ⟨i, hi, rfl⟩ | ⟨-, rfl | rfl⟩ := hN
    · exact (h.reachable_rowNetwork hi hc).trans (h.reachable_rowNetwork hi hd).symm
    · exact (h.reachable_addressNetwork hc).trans (h.reachable_addressNetwork hd).symm
    · exact (h.reachable_outputNetwork hc).trans (h.reachable_outputNetwork hd).symm
  nontrivial N hN := by
    obtain ⟨i, hi, rfl⟩ | ⟨hn, rfl | rfl⟩ := hN
    · exact ⟨⟨⟨(rowAt i).counter, .one⟩, .red⟩, by simp [rowNetwork],
        ⟨⟨(rowAt i).lamp, .one⟩, .red⟩, by simp [rowNetwork], by simp [rowAt]⟩
    · exact ⟨_, mem_addressNetwork.2 (.inl rfl), _, mem_addressNetwork.2 (.inr ⟨0, hn, .inl rfl⟩),
        by simp [rowAt, addressLamp]⟩
    · exact ⟨_, mem_outputNetwork.2 (.inl rfl), _, mem_outputNetwork.2 (.inr ⟨0, hn, rfl⟩), by simp⟩

/-- A storage puts out its signals in the network of its row only. -/
theorem eq_rowNetwork_of_storage_mem {i : Nat} {side : Side} {color : Color} {N : Set Connector}
    (hN : N ∈ memoryNetworks n) (h : (⟨⟨(rowAt i).storage, side⟩, color⟩ : Connector) ∈ N) :
    N = rowNetwork (rowAt i) (rowBefore i) := by
  obtain ⟨k, -, rfl⟩ | ⟨-, rfl | rfl⟩ := hN
  · have hplace := place_of_mem_rowNetwork h
    simp only [rowAt] at hplace
    obtain rfl : k = i := by omega
    rfl
  · obtain heq | ⟨k, -, heq | heq⟩ := mem_addressNetwork.1 h <;>
      simp only [rowAt, addressLamp, Connector.mk.injEq, Terminal.mk.injEq] at heq <;> omega
  · obtain heq | ⟨k, -, heq⟩ := mem_outputNetwork.1 h <;>
      simp only [rowAt, outputLamp, Connector.mk.injEq, Terminal.mk.injEq] at heq <;> omega

/-- The storage of one row never reaches the decider of another. -/
theorem IsMemory.not_reachable_decider (h : b.IsMemory n) {i j : Nat} (hij : i ≠ j)
    (side side' : Side) (color color' : Color) :
    ¬b.circuit.Reachable ⟨⟨(rowAt i).storage, side⟩, color⟩
      ⟨⟨(rowAt j).decider, side'⟩, color'⟩ := by
  intro hreachable
  have hne : (⟨⟨(rowAt i).storage, side⟩, color⟩ : Connector) ≠
      ⟨⟨(rowAt j).decider, side'⟩, color'⟩ := by
    simp only [rowAt, ne_eq, Connector.mk.injEq, Terminal.mk.injEq]
    omega
  obtain ⟨N, hN, hstorage⟩ := h.isPartition.exists_mem_of_reachable hreachable hne
  have hdecider := h.isPartition.mem_of_reachable hN hstorage hreachable
  rw [eq_rowNetwork_of_storage_mem hN hstorage] at hdecider
  have hplace := place_of_mem_rowNetwork hdecider
  simp only [rowAt] at hplace
  omega

theorem IsMemory.getElem?_rows (h : b.IsMemory n) {i : Nat} {row : Row Nat} :
    b.rows[i]? = some row ↔ i < n ∧ row = rowAt i := by
  rw [← Array.getElem?_toList, h.rows, List.getElem?_map, Option.map_eq_some_iff]
  simp only [List.getElem?_eq_some_iff, List.getElem_range, List.length_range]
  constructor
  · rintro ⟨_, ⟨hi, rfl⟩, rfl⟩
    exact ⟨hi, rfl⟩
  · rintro ⟨hi, rfl⟩
    exact ⟨i, ⟨hi, rfl⟩, rfl⟩

theorem IsMemory.previousRow_eq (h : b.IsMemory n) {i : Nat} (hi : i < n) :
    b.previousRow i = rowBefore i := by
  cases i with
  | zero => rfl
  | succ i => exact h.getElem?_rows.2 ⟨by omega, rfl⟩

/-- The networks of a program memory: one red network for each row, by which the storage and the
address of the row reach its decider, and two green ones, for the address that is asked for and for
the instruction that is given out.  So no storage is seen by the decider of another row. -/
theorem rom_networks (label : String) (signals : List Signals) :
    ∃ b, rom label signals = .ok b ∧ b.rows.size = signals.length ∧
      (b.stands[addressLamp]? = some ("small-lamp", ⟨.ofInt (-1), .ofInt (-2)⟩) ∧
        b.stands[outputLamp]? = some ("small-lamp", ⟨.ofInt 2, .ofInt (-2)⟩)) ∧
      (∀ i row, b.rows[i]? = some row → row.map (b.stands[·]?) =
        (Row.standard.map (moveTo i)).map fun entity => some (entity.name, entity.position)) ∧
      (∀ S, S ∈ components b.circuit ↔
        (∃ i row, b.rows[i]? = some row ∧ S = rowNetwork row (b.previousRow i)) ∨
        0 < signals.length ∧ (S = addressNetwork b.rows.toList ∨ S = outputNetwork b.rows.toList)) ∧
      ∀ i j row row', b.rows[i]? = some row → b.rows[j]? = some row' → i ≠ j →
        rowNetwork row (b.previousRow i) ∩ rowNetwork row' (b.previousRow j) = ∅ ∧
        ∀ side side' color color', ¬b.circuit.Reachable ⟨⟨row.storage, side⟩, color⟩
          ⟨⟨row'.decider, side'⟩, color'⟩ := by
  obtain ⟨b, hrom, h⟩ := isMemory_rom label signals
  refine ⟨b, hrom, h.size_rows, h.lamps, ?_, fun S => ?_, ?_⟩
  · intro i row hrow
    obtain ⟨hi, rfl⟩ := h.getElem?_rows.1 hrow
    exact h.parts i hi
  · rw [h.isPartition.components_eq, h.rows]
    refine or_congr_left ⟨?_, ?_⟩
    · rintro ⟨i, hi, rfl⟩
      exact ⟨i, rowAt i, h.getElem?_rows.2 ⟨hi, rfl⟩, by rw [h.previousRow_eq hi]⟩
    · rintro ⟨i, row, hrow, rfl⟩
      obtain ⟨hi, rfl⟩ := h.getElem?_rows.1 hrow
      exact ⟨i, hi, by rw [h.previousRow_eq hi]⟩
  · intro i j row row' hrow hrow' hij
    obtain ⟨hi, rfl⟩ := h.getElem?_rows.1 hrow
    obtain ⟨hj, rfl⟩ := h.getElem?_rows.1 hrow'
    rw [h.previousRow_eq hi, h.previousRow_eq hj]
    have hapart : ∀ c, c ∉ rowNetwork (rowAt i) (rowBefore i) ∩ rowNetwork (rowAt j) (rowBefore j) :=
      fun c hc => hij (eq_of_mem_rowNetwork hc.1 hc.2)
    exact ⟨Set.eq_empty_iff_forall_notMem.2 hapart, h.not_reachable_decider hij⟩

end Blueprint
end CircuitRom
