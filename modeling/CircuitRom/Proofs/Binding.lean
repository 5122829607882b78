import CircuitRom.Label.Resolution
import CircuitRom.Proofs.Sequencing
import Mathlib.Data.List.Nodup

/-!
# Labels and their addresses

What is left of a line without its labels is an instruction or nothing.  So the address of a label
is the number of instructions on the lines before its own.  `bindings` says this for all labels of
a program at once, and without any state.  Laying out the program records exactly its bindings,
and it fails exactly if the program has an unknown word or two symbolic labels of one name.
-/

namespace CircuitRom

/-- A label and the address that it stands for. -/
structure Binding where
  /-- The label. -/
  label : Token
  /-- The address. -/
  address : Nat
deriving DecidableEq, Repr

namespace Binding

/-- The same binding after `n` more instructions. -/
def shift (n : Nat) (b : Binding) : Binding := { b with address := n + b.address }

/-- Is the label a numeric one? -/
def isNumeric (b : Binding) : Bool := b.label.kind == .numeric

/-- The digit of a numeric label, the first character of its text. -/
def digit (b : Binding) : Char := b.label.text.toList.head?.getD '0'

/-- The names of the symbolic labels. -/
def names (bs : List Binding) : List String := (bs.filter (!·.isNumeric)).map (·.label.text)

/-- The address of the symbolic label with a name. -/
def address? (bs : List Binding) (name : String) : Option Nat :=
  (bs.find? fun b => !b.isNumeric && b.label.text == name).map (·.address)

/-- The addresses of the numeric labels with a digit. -/
def addresses (bs : List Binding) (digit : Char) : List Nat :=
  (bs.filter fun b => b.isNumeric && b.digit == digit).map (·.address)

theorem names_append (bs cs : List Binding) : names (bs ++ cs) = names bs ++ names cs := by
  simp [names]

theorem names_map_shift (n : Nat) (bs : List Binding) : names (bs.map (shift n)) = names bs := by
  induction bs with
  | nil => rfl
  | cons b bs ih =>
    simp only [names, List.map_cons, List.filter_cons] at ih ⊢
    have hnumeric : (shift n b).isNumeric = b.isNumeric := rfl
    rw [hnumeric]
    split <;> simp [ih, shift]

end Binding

/-! ## Instructions and labels as they are written -/

theorem Line.mem_of_mem_labels {line : Line} {t : Token} (h : t ∈ line.labels) : t ∈ line := by
  induction line using labels.induct with
  | case1 label colon rest hlabel ih =>
    rw [labels, if_pos hlabel] at h
    rcases List.mem_cons.1 h with rfl | h
    · exact List.mem_cons_self
    · exact List.mem_cons_of_mem _ (List.mem_cons_of_mem _ (ih h))
  | case2 label colon rest hlabel =>
    rw [labels, if_neg hlabel] at h
    cases h
  | case3 line hline =>
    rw [labels] at h
    · cases h
    · exact hline

/-- What is left of a line without its labels. -/
def Line.instruction? (line : Line) : Option Instruction :=
  match line.statement with
  | [] => none
  | opcode :: operands => some ⟨opcode, operands⟩

namespace Program

/-- The instructions of lines as they are written, without their labels. -/
def written (lines : List Line) : List Instruction := lines.filterMap Line.instruction?

/-- The labels of lines, in order.  The address of a label is the number of instructions on the
lines before its own. -/
def bindings (lines : List Line) : List Binding :=
  lines.zipIdx.flatMap fun entry =>
    entry.1.labels.map fun label => ⟨label, (written (lines.take entry.2)).length⟩

theorem written_append (before after : List Line) :
    written (before ++ after) = written before ++ written after :=
  List.filterMap_append

/-- The labels of the lines that come later are shifted by the instructions before them. -/
theorem bindings_append (before after : List Line) :
    bindings (before ++ after) =
      bindings before ++ (bindings after).map (Binding.shift (written before).length) := by
  have hbefore : ∀ entry ∈ before.zipIdx,
      (before ++ after).take entry.2 = before.take entry.2 := by
    intro entry hentry
    have hlt := List.snd_lt_of_mem_zipIdx hentry
    exact List.take_append_of_le_length (by omega)
  have hafter : ∀ n, (written ((before ++ after).take (before.length + n))).length =
      (written before).length + (written (after.take n)).length := by
    intro n
    rw [List.take_length_add_append, written_append, List.length_append]
  rw [bindings, List.zipIdx_append, List.flatMap_append]
  congr 1
  · refine List.flatMap_congr fun entry hentry => ?_
    rw [hbefore entry hentry]
  · rw [Nat.zero_add, List.zipIdx_eq_map_add, List.flatMap_map, bindings, List.map_flatMap]
    refine List.flatMap_congr fun entry _ => ?_
    simp only [hafter, List.map_map]
    rfl

theorem bindings_singleton (line : Line) :
    bindings [line] = line.labels.map fun label => ⟨label, 0⟩ := by
  simp [bindings, written]

/-- A line adds its own labels at the address so far, and its instruction moves all others on. -/
theorem bindings_cons (line : Line) (rest : List Line) (address : Nat) :
    (bindings (line :: rest)).map (Binding.shift address) =
      (line.labels.map fun label => ⟨label, address⟩) ++
        (bindings rest).map (Binding.shift (address + (written [line]).length)) := by
  rw [← List.singleton_append, bindings_append, bindings_singleton, List.map_append, List.map_map,
    List.map_map]
  congr 1
  refine List.map_congr_left fun b _ => ?_
  simp [Binding.shift, Nat.add_assoc]

/-- Labels that are written later have no smaller address. -/
theorem pairwise_bindings (lines : List Line) :
    (bindings lines).Pairwise (·.address ≤ ·.address) := by
  induction lines with
  | nil => exact List.Pairwise.nil
  | cons line rest ih =>
    rw [← List.singleton_append, bindings_append, bindings_singleton]
    refine List.pairwise_append.2 ⟨?_, ?_, ?_⟩
    · rw [List.pairwise_map]
      exact List.pairwise_of_forall fun _ _ => Nat.le_refl 0
    · rw [List.pairwise_map]
      exact ih.imp fun hle => Nat.add_le_add_left hle _
    · intro b hb c _
      obtain ⟨label, -, rfl⟩ := List.mem_map.1 hb
      exact Nat.zero_le _

end Program

/-! ## Runs that decide a condition -/

/-- The run succeeds exactly under a condition, and then with a result that has a property.  Its
faults are never about the order of numeric labels. -/
def Decides {α : Type} (p : Prop) (Q : α → Prop) (x : Except Diagnostic α) : Prop :=
  Outcome (fun e => ¬p ∧ ∀ digit earlier later, e.cause ≠ .labelOrder digit earlier later)
    (fun a => p ∧ Q a) x

namespace Decides

variable {α β : Type} {p q : Prop} {Q : α → Prop} {R : β → Prop} {x : Except Diagnostic α}

theorem ok {a : α} (hp : p) (ha : Q a) : Decides p Q (.ok a) := Outcome.ok ⟨hp, ha⟩

theorem error {e : Diagnostic} (hp : ¬p)
    (he : ∀ digit earlier later, e.cause ≠ .labelOrder digit earlier later) :
    Decides p Q (.error e) :=
  Outcome.error ⟨hp, he⟩

theorem map {f : α → β} (h : Decides p Q x) (hf : ∀ a, Q a → R (f a)) :
    Decides p R (x.map f) :=
  Outcome.map h fun a ha => ⟨ha.1, hf a ha.2⟩

/-- The condition of the first step is part of that of the whole run. -/
theorem bind {f : α → Except Diagnostic β} (h : Decides p Q x) (hpq : q → p)
    (hf : ∀ a, p → Q a → Decides q R (f a)) : Decides q R (x >>= f) :=
  Outcome.bind (h.imp (fun _ he => ⟨fun hq => he.1 (hpq hq), he.2⟩) fun _ ha => ha)
    fun a ha => hf a ha.1 ha.2

theorem congr (h : Decides p Q x) (hpq : p ↔ q) : Decides q Q x :=
  h.imp (fun _ he => ⟨fun hq => he.1 (hpq.2 hq), he.2⟩) fun _ ha => ⟨hpq.1 ha.1, ha.2⟩

/-- The run succeeds exactly if its condition holds. -/
theorem exists_ok_iff (h : Decides p Q x) : (∃ a, x = .ok a) ↔ p := by
  cases h with
  | ok ha => exact iff_of_true ⟨_, rfl⟩ ha.1
  | error he => exact iff_of_false (by simp) he.1

end Decides

/-! ## Recording labels -/

namespace Labels

/-- The state records the bindings, each with its place.  What has been referred to is left
open. -/
structure Declares (l : Labels) (bs : List Binding) : Prop where
  symbols : l.symbols.entries.map (fun entry => (entry.1, entry.2.address, entry.2.site)) =
    (bs.filter (!·.isNumeric)).map fun b => (b.label.text, b.address, b.label.site)
  locals : l.locals.map (fun o => (o.digit, o.address, o.site)) =
    (bs.filter (·.isNumeric)).map fun b => (b.digit, b.address, b.label.site)

variable {l : Labels} {bs : List Binding}

theorem declares_empty : ({} : Labels).Declares [] := ⟨rfl, rfl⟩

theorem Declares.keys_eq (h : l.Declares bs) : l.symbols.keys = Binding.names bs := by
  have hfst := congrArg (List.map Prod.fst) h.symbols
  simpa [List.map_map, Function.comp_def, Dictionary.keys, Binding.names] using hfst

/-- A state never has two symbolic labels of one name. -/
theorem Declares.nodup_names (h : l.Declares bs) : (Binding.names bs).Nodup := by
  rw [← h.keys_eq]
  exact l.symbols.distinct

/-- Declaring one more label succeeds exactly if its name is new, and then it is recorded. -/
theorem decides_define (h : l.Declares bs) (label : Token) (address : Nat) :
    Decides (Binding.names (bs ++ [⟨label, address⟩])).Nodup
      (fun l' => l'.Declares (bs ++ [⟨label, address⟩])) (l.define label address) := by
  rw [define_eq, Binding.names_append]
  by_cases hkind : label.kind = .numeric
  · -- a numeric label has no name of its own
    have hnames : Binding.names [⟨label, address⟩] = [] := by
      simp [Binding.names, Binding.isNumeric, hkind]
    rw [if_pos hkind, hnames, List.append_nil]
    refine .ok h.nodup_names ⟨?_, ?_⟩
    · simp [h.symbols, Binding.isNumeric, hkind]
    · simp [h.locals, Binding.isNumeric, Binding.digit, hkind]
  · have hnames : Binding.names [⟨label, address⟩] = [label.text] := by
      simp [Binding.names, Binding.isNumeric, hkind]
    rw [if_neg hkind, hnames]
    cases hfind : l.symbols.find? label.text with
    | some earlier =>
      refine .error (fun hnodup => ?_) (by simp [Diagnostic.withNote, Diagnostic.atToken])
      have hmem : label.text ∈ Binding.names bs := by
        rw [← h.keys_eq]
        by_contra hkey
        rw [Dictionary.find?_eq_none_iff.2 hkey] at hfind
        cases hfind
      exact List.disjoint_of_nodup_append hnodup hmem (List.mem_singleton_self _)
    | none =>
      have hkey := Dictionary.find?_eq_none_iff.1 hfind
      refine .ok ?_ ⟨?_, ?_⟩
      · rw [h.keys_eq] at hkey
        exact h.nodup_names.append (List.nodup_singleton _)
          (List.disjoint_singleton.2 hkey)
      · rw [Dictionary.entries_insert_of_not_mem hkey, List.map_append, h.symbols]
        simp [Binding.isNumeric, hkind]
      · simp [h.locals, Binding.isNumeric, hkind]

theorem defineAll_cons (l : Labels) (address : Nat) (label : Token) (rest : List Token) :
    l.defineAll address (label :: rest) =
      l.define label address >>= fun l => l.defineAll address rest := by
  rw [defineAll]
  cases l.define label address <;> rfl

theorem decides_defineAll {labels : List Token} (address : Nat) :
    ∀ {l : Labels} {bs : List Binding}, l.Declares bs →
      Decides (Binding.names (bs ++ labels.map fun label => ⟨label, address⟩)).Nodup
        (fun l' => l'.Declares (bs ++ labels.map fun label => ⟨label, address⟩))
        (l.defineAll address labels) := by
  induction labels with
  | nil =>
    intro l bs h
    rw [List.map_nil, List.append_nil]
    exact .ok h.nodup_names h
  | cons label rest ih =>
    intro l bs h
    rw [defineAll_cons, List.map_cons, List.append_cons]
    refine (decides_define h label address).bind (fun hnodup => ?_) fun l' _ hl' => ih hl'
    rw [Binding.names_append] at hnodup
    exact List.Nodup.of_append_left hnodup

end Labels

/-! ## Laying out -/

namespace Program

/-- One step of laying out: the labels of the line are declared, and then its instruction is
counted. -/
theorem layOutFrom_cons {labels : Labels} {address : Nat} {line : Line} {rest : List Line}
    (h : ∀ t ∈ line, t.kind ≠ .unknown) :
    layOutFrom labels address (line :: rest) =
      labels.defineAll address line.labels >>= fun labels =>
        (layOutFrom labels (address + (written [line]).length) rest).map fun program =>
          { program with instructions := written [line] ++ program.instructions } := by
  have hfind : line.find? (·.kind == .unknown) = none := by simpa using h
  rw [layOutFrom, hfind]
  cases labels.defineAll address line.labels with
  | error e => rfl
  | ok labels =>
    cases hstatement : line.statement with
    | nil =>
      have hwritten : written [line] = [] := by simp [written, Line.instruction?, hstatement]
      rw [hwritten]
      cases hrest : layOutFrom labels address rest <;> simp [hrest, bind, Except.bind, Except.map]
    | cons opcode operands =>
      have hwritten : written [line] = [⟨opcode, operands⟩] := by
        simp [written, Line.instruction?, hstatement]
      rw [hwritten]
      rfl

/-- The invariant of laying out.  What has been declared so far are the bindings of the lines
before, and the remaining lines add theirs. -/
theorem decides_layOutFrom (lines : List Line) :
    ∀ {labels : Labels} {bs : List Binding} (address : Nat), labels.Declares bs →
      Decides
        ((∀ line ∈ lines, ∀ t ∈ line, t.kind ≠ .unknown) ∧
          (Binding.names (bs ++ (bindings lines).map (Binding.shift address))).Nodup)
        (fun program => program.instructions = written lines ∧
          program.labels.Declares (bs ++ (bindings lines).map (Binding.shift address)))
        (layOutFrom labels address lines) := by
  induction lines with
  | nil =>
    intro labels bs address h
    have hnil : (bindings []).map (Binding.shift address) = [] := rfl
    rw [hnil, List.append_nil]
    exact .ok ⟨List.forall_mem_nil _, h.nodup_names⟩ ⟨rfl, h⟩
  | cons line rest ih =>
    intro labels bs address h
    cases hfind : line.find? (·.kind == .unknown) with
    | some token =>
      rw [layOutFrom, hfind]
      refine .error (fun hcondition => ?_) (by simp [Diagnostic.atToken])
      have hknown := hcondition.1 line List.mem_cons_self token (List.mem_of_find?_eq_some hfind)
      exact hknown (by simpa using List.find?_some hfind)
    | none =>
      have hknown : ∀ t ∈ line, t.kind ≠ .unknown := by simpa using hfind
      rw [layOutFrom_cons hknown, bindings_cons, ← List.append_assoc]
      refine (Labels.decides_defineAll address h).bind ?_ fun labels' _ hlabels' => ?_
      · intro hcondition
        rw [Binding.names_append] at hcondition
        exact List.Nodup.of_append_left hcondition.2
      · refine Decides.congr ((ih _ hlabels').map fun program hprogram => ?_) ?_
        · rw [hprogram.1, ← written_append, List.singleton_append]
          exact ⟨rfl, hprogram.2⟩
        · rw [List.forall_mem_cons, and_iff_right hknown]

/-- Lines can be laid out exactly if they have no unknown word and no two symbolic labels of one
name.  The instructions are then those that are written, and the labels have their addresses. -/
theorem decides_layOut (lines : List Line) :
    Decides
      ((∀ line ∈ lines, ∀ t ∈ line, t.kind ≠ .unknown) ∧ (Binding.names (bindings lines)).Nodup)
      (fun program => program.instructions = written lines ∧
        program.labels.Declares (bindings lines))
      (layOut lines) := by
  have hshift : (bindings lines).map (Binding.shift 0) = bindings lines := by
    refine (List.map_congr_left fun b _ => ?_).trans (List.map_id _)
    rw [Binding.shift, Nat.zero_add]
    rfl
  have hdecides := decides_layOutFrom lines 0 Labels.declares_empty
  rwa [hshift, List.nil_append] at hdecides

end Program
end CircuitRom
