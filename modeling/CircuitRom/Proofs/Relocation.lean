import CircuitRom.Proofs.Resolution
import CircuitRom.Token.Lexer

/-!
# Blocks can be moved

A block of lines that can be resolved by itself keeps its meaning inside a larger program: every
address that it refers to grows by the number of instructions before the block.  Numeric labels
outside of the block do not matter, not even those that stand at its edges and share an address
with it.  A label before the block is never nearer to a reference of the block than the block's own
label, and neither is a label after it.
-/

namespace CircuitRom

/-! ## Labels of a larger program -/

namespace Binding

variable {bs cs : List Binding} {name : String}

/-- Numeric labels that come later have later positions. -/
theorem occurrences_append (bs cs : List Binding) (digit : Char) :
    occurrences (bs ++ cs) digit =
      occurrences bs digit ++ (occurrences cs digit).map
        fun o => ((bs.filter (·.isNumeric)).length + o.1, o.2) := by
  simp only [occurrences, List.filter_append, List.zipIdx_append, List.map_append, List.map_map]
  congr 1
  rw [List.zipIdx_eq_map_add, List.filter_map, List.map_map]
  simp [Function.comp_def]

/-- Moving labels changes their addresses and not their positions. -/
theorem occurrences_map_shift (n : Nat) (bs : List Binding) (digit : Char) :
    occurrences (bs.map (shift n)) digit =
      (occurrences bs digit).map fun o => (o.1, n + o.2) := by
  simp only [occurrences, List.filter_map, List.zipIdx_map, List.map_map]
  rfl

theorem address?_append_of_not_mem_left (h : name ∉ names bs) :
    address? (bs ++ cs) name = address? cs name := by
  rw [← address?_eq_none_iff, address?, Option.map_eq_none_iff] at h
  rw [address?, List.find?_append, h, Option.none_or, address?]

theorem address?_append_of_not_mem_right (h : name ∉ names cs) :
    address? (bs ++ cs) name = address? bs name := by
  rw [← address?_eq_none_iff, address?, Option.map_eq_none_iff] at h
  rw [address?, List.find?_append, h, Option.or_none, address?]

theorem address?_map_shift (n : Nat) (bs : List Binding) (name : String) :
    address? (bs.map (shift n)) name = (address? bs name).map (n + ·) := by
  rw [address?, address?, List.find?_map, Option.map_map, Option.map_map]
  rfl

end Binding

namespace Program

/-- A label stands at the latest after the last instruction. -/
theorem address_le_of_mem_bindings {lines : List Line} {b : Binding} (h : b ∈ bindings lines) :
    b.address ≤ (written lines).length := by
  obtain ⟨entry, -, hb⟩ := List.mem_flatMap.1 h
  obtain ⟨label, -, rfl⟩ := List.mem_map.1 hb
  exact ((List.take_sublist _ lines).filterMap _).length_le

end Program

/-! ## The nearest label is in the block -/

namespace Labels

theorem mem_of_target? {occurrences : List (Nat × Nat)} {index : Nat} {direction : Direction}
    {target : Nat × Nat} (h : target? occurrences index direction = some target) :
    target ∈ occurrences := by
  cases direction with
  | back => exact List.mem_of_mem_filter (List.mem_of_getLast? h)
  | forward => exact List.mem_of_find?_eq_some h

theorem position_lt_of_mem_occurrences {l : Labels} {digit : Char} {o : Nat × Nat}
    (h : o ∈ l.occurrences digit) : o.1 < l.locals.length := by
  obtain ⟨entry, hentry, rfl⟩ := List.mem_map.1 h
  have hlt := List.snd_lt_of_mem_zipIdx (List.mem_of_mem_filter hentry)
  simpa using hlt

/-- The labels of a block lie between those before it, which it cannot reach over, and those after
it.  A reference from the block that means one of the block's own labels means that label also in
their midst. -/
theorem target?_of_block {before block after : List (Nat × Nat)} {start size count index : Nat}
    {direction : Direction} {target : Nat × Nat} (hbefore : ∀ o ∈ before, o.2 ≤ start)
    (hafter : ∀ o ∈ after, start + size ≤ o.2) (hindex : index < size)
    (h : target? block index direction = some target) :
    target? (before ++ (block.map fun o => (count + o.1, start + o.2)) ++ after) (start + index)
      direction = some (count + target.1, start + target.2) := by
  cases direction with
  | back =>
    have hnone : after.filter (·.2 ≤ start + index) = [] := by
      simp only [List.filter_eq_nil_iff, decide_eq_true_eq]
      intro o ho
      have := hafter o ho
      omega
    have hshift : ((fun o : Nat × Nat => decide (o.2 ≤ start + index)) ∘
        fun o : Nat × Nat => (count + o.1, start + o.2)) = fun o => decide (o.2 ≤ index) := by
      funext o
      simp
    rw [target?] at h ⊢
    rw [List.filter_append, List.filter_append, hnone, List.append_nil, List.getLast?_append,
      List.filter_map, hshift, List.getLast?_map, h]
    rfl
  | forward =>
    have hnone : before.find? (start + index < ·.2) = none := by
      simp only [List.find?_eq_none, decide_eq_true_eq]
      intro o ho
      have := hbefore o ho
      omega
    have hshift : ((fun o : Nat × Nat => decide (start + index < o.2)) ∘
        fun o : Nat × Nat => (count + o.1, start + o.2)) = fun o => decide (index < o.2) := by
      funext o
      simp
    rw [target?] at h ⊢
    rw [List.find?_append, List.find?_append, hnone, Option.none_or, List.find?_map, hshift, h]
    rfl

end Labels

namespace Program

variable {before block after : List Line}

/-- The labels of a block between other lines are shifted by the instructions before it, and those
behind by the block too. -/
theorem bindings_around (before block after : List Line) :
    bindings (before ++ block ++ after) =
      bindings before ++ (bindings block).map (Binding.shift (written before).length) ++
        (bindings after).map
          (Binding.shift ((written before).length + (written block).length)) := by
  rw [bindings_append, bindings_append, written_append, List.length_append]

/-- Among all labels of the program, a numeric reference of the block means the one that it means
in the block alone. -/
theorem target?_around {index : Nat} {digit : Char} {direction : Direction} {target : Nat × Nat}
    (hindex : index < (written block).length)
    (h : Labels.target? (Binding.occurrences (bindings block) digit) index direction =
      some target) :
    Labels.target? (Binding.occurrences (bindings (before ++ block ++ after)) digit)
        ((written before).length + index) direction =
      some (((bindings before).filter (·.isNumeric)).length + target.1,
        (written before).length + target.2) := by
  rw [bindings_around, Binding.occurrences_append, Binding.occurrences_append,
    Binding.occurrences_map_shift, Binding.occurrences_map_shift, List.map_map, List.map_map]
  refine Labels.target?_of_block ?_ ?_ hindex h
  · intro o ho
    obtain ⟨entry, hentry, rfl⟩ := List.mem_map.1 ho
    have hmem := List.mem_of_mem_filter (List.fst_mem_of_mem_zipIdx (List.mem_of_mem_filter hentry))
    exact address_le_of_mem_bindings hmem
  · intro o ho
    obtain ⟨o', -, rfl⟩ := List.mem_map.1 ho
    exact Nat.le_add_right _ _

/-- A reference that can be resolved has a target. -/
theorem exists_target? {lines : List Line} {index : Nat} {t : Token} {digit : Char}
    {direction : Direction} (h : Binding.Resolvable (bindings lines) index t)
    (hkind : t.kind = .operand) (hname : t.text ∉ Binding.names (bindings lines))
    (hreference : IsNumericReference t.text digit direction) :
    ∃ target, Labels.target? (Binding.occurrences (bindings lines) digit) index direction =
      some target := by
  obtain ⟨address, hmem, hsees⟩ := h hkind hname digit direction hreference
  rw [← Option.ne_none_iff_exists']
  intro hnone
  have hnearest := Binding.nearest?_eq_map_target? (pairwise_bindings lines) digit direction index
  rw [hnone, Option.map_none, Direction.nearest?_eq_none_iff] at hnearest
  rw [hnearest address hmem] at hsees
  cases hsees

/-- Every token of the block means in the program what it means in the block alone, shifted by the
instructions before the block. -/
theorem meaning?_around {index : Nat} {t : Token} (hindex : index < (written block).length)
    (hresolvable : Binding.Resolvable (bindings block) index t)
    (hbefore : t.kind = .operand → t.text ∉ Binding.names (bindings before))
    (hafter : t.kind = .operand → t.text ∉ Binding.names (bindings after)) :
    Binding.meaning? (bindings (before ++ block ++ after)) ((written before).length + index) t =
      (Binding.meaning? (bindings block) index t).map ((written before).length + ·) := by
  rw [Binding.meaning?, Binding.meaning?]
  by_cases hkind : t.kind ≠ .operand
  · rw [if_pos hkind, if_pos hkind]
    rfl
  have hkind' := not_not.1 hkind
  have haddress : Binding.address? (bindings (before ++ block ++ after)) t.text =
      (Binding.address? (bindings block) t.text).map ((written before).length + ·) := by
    rw [bindings_around, List.append_assoc,
      Binding.address?_append_of_not_mem_left (hbefore hkind'),
      Binding.address?_append_of_not_mem_right
        (by rw [Binding.names_map_shift]; exact hafter hkind'),
      Binding.address?_map_shift]
  rw [if_neg hkind, if_neg hkind, haddress]
  cases hname : Binding.address? (bindings block) t.text with
  | some address => rfl
  | none =>
    cases hreference : numericReference? t.text with
    | none => rfl
    | some reference =>
      obtain ⟨digit, direction⟩ := reference
      obtain ⟨target, htarget⟩ := exists_target? hresolvable hkind'
        (Binding.address?_eq_none_iff.1 hname) (numericReference?_eq_some_iff.1 hreference)
      simp only [Option.map_none, Option.bind_some,
        Binding.nearest?_eq_map_target? (pairwise_bindings _), htarget,
        target?_around hindex htarget, Option.map_some]

theorem mapIdx_slice {α β : Type} (f : Nat → α → β) (as bs cs : List α) :
    (((as ++ bs ++ cs).mapIdx f).drop as.length).take bs.length =
      bs.mapIdx fun index => f (as.length + index) := by
  rw [List.append_assoc, List.mapIdx_append, List.drop_left' (by simp), List.mapIdx_append,
    List.take_left' (by simp)]
  simp only [Nat.add_comm]

theorem rewrite_congr {f g : Token → Option Nat} {i : Instruction}
    (h : ∀ t ∈ i.operands, f t = g t) : i.rewrite f = i.rewrite g := by
  have hoperands : i.operands.map (Token.rewrite f) = i.operands.map (Token.rewrite g) := by
    refine List.map_congr_left fun t ht => ?_
    rw [Token.rewrite, Token.rewrite, h t ht]
  rw [Instruction.rewrite, Instruction.rewrite, hoperands]

/-- **Blocks can be moved.**  Take a block that can be resolved by itself, inside a program that can
be resolved and whose other lines declare no symbolic label that the block refers to.  Its
instructions are then those of the block alone, with every address that an operand means increased
by the number of instructions before the block.  And a reference to a numeric label means the very
declaration that it means in the block alone, never one outside of it. -/
theorem resolve_block {alone program : Program} (halone : resolve block = .ok alone)
    (hprogram : resolve (before ++ block ++ after) = .ok program)
    (hnames : ∀ i ∈ written block, ∀ t ∈ i.operands, t.kind = .operand →
      t.text ∉ Binding.names (bindings before) ∧ t.text ∉ Binding.names (bindings after)) :
    alone.instructions = (written block).mapIdx
      (fun index i => i.rewrite (Binding.meaning? (bindings block) index)) ∧
    (program.instructions.drop (written before).length).take (written block).length =
      (written block).mapIdx (fun index i => i.rewrite fun t =>
        (Binding.meaning? (bindings block) index t).map ((written before).length + ·)) ∧
    ∀ index i, (written block)[index]? = some i → ∀ t ∈ i.operands, t.kind = .operand →
      t.text ∉ Binding.names (bindings block) → ∀ digit direction,
        IsNumericReference t.text digit direction →
          ∃ position address, position < alone.labels.locals.length ∧
            Labels.target? (alone.labels.occurrences digit) index direction =
              some (position, address) ∧
            Labels.target? (program.labels.occurrences digit) ((written before).length + index)
                direction =
              some (((bindings before).filter (·.isNumeric)).length + position,
                (written before).length + address) := by
  have hblock := decides_resolve block
  rw [halone] at hblock
  obtain ⟨⟨-, -, hresolvable⟩, hinstructions, hlabels⟩ := hblock.of_ok
  have hwhole := decides_resolve (before ++ block ++ after)
  rw [hprogram] at hwhole
  obtain ⟨-, hinstructions', hlabels'⟩ := hwhole.of_ok
  refine ⟨hinstructions, ?_, ?_⟩
  · rw [hinstructions', written_append, written_append, mapIdx_slice]
    refine List.mapIdx_eq_mapIdx_iff.2 fun index hindex => rewrite_congr fun t ht => ?_
    have hi := List.getElem?_eq_getElem hindex
    have houtside := hnames _ (List.getElem_mem hindex) t ht
    exact meaning?_around hindex (hresolvable index _ hi t ht)
      (fun hkind => (houtside hkind).1) fun hkind => (houtside hkind).2
  · intro index i hi t ht hkind hname digit direction hreference
    obtain ⟨target, htarget⟩ := exists_target? (hresolvable index i hi t ht) hkind hname hreference
    have hindex := (List.getElem?_eq_some_iff.1 hi).1
    rw [hlabels.occurrences_eq, hlabels'.occurrences_eq]
    refine ⟨target.1, target.2, ?_, htarget, target?_around hindex htarget⟩
    rw [← hlabels.occurrences_eq] at htarget
    exact Labels.position_lt_of_mem_occurrences (Labels.mem_of_target? htarget)

/-- The lines of a source text, or none if it has a fault. -/
def linesOf (code : String) : List Line := (tokenize code).toOption.getD []

/-- A block with a label `1` at both of its edges, between a program that ends with a label `1` and
one that starts with it. -/
theorem resolve_block_between_equal_labels :
    ∃ alone program,
      resolve (linesOf "1: B 1b\nB 1f\n1:") = .ok alone ∧
      resolve (linesOf "1: NOP\n1:" ++ linesOf "1: B 1b\nB 1f\n1:" ++ linesOf "1: HLT\nB 1b") =
        .ok program ∧
      alone.instructions.map (·.text) = ["B     0", "B     2"] ∧
      ((program.instructions.drop 1).take 2).map (·.text) = ["B     1", "B     3"] := by
  obtain ⟨alone, halone⟩ := exists_eq_ok (x := resolve (linesOf "1: B 1b\nB 1f\n1:"))
    (by decide +kernel)
  obtain ⟨program, hprogram⟩ := exists_eq_ok (x := resolve (linesOf "1: NOP\n1:" ++
    linesOf "1: B 1b\nB 1f\n1:" ++ linesOf "1: HLT\nB 1b")) (by decide +kernel)
  obtain ⟨hblock, hmoved, -⟩ := resolve_block halone hprogram (by decide +kernel)
  refine ⟨alone, program, halone, hprogram, ?_, ?_⟩
  · rw [hblock]
    decide +kernel
  · have hstart : (written (linesOf "1: NOP\n1:")).length = 1 := by decide +kernel
    have hsize : (written (linesOf "1: B 1b\nB 1f\n1:")).length = 2 := by decide +kernel
    rw [hstart, hsize] at hmoved
    rw [hmoved]
    decide +kernel

end Program
end CircuitRom
