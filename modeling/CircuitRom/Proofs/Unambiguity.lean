import CircuitRom.Proofs.Relocation
import CircuitRom.Proofs.SignalLists
import Mathlib.Data.List.Pairwise

/-!
# Signals that say one thing

Many opcodes share control signals, and their operands share signals for their values, which may be
any word.  What tells two opcodes apart is which names stand at which places, together with the values
that are fixed: the *outlines* of an opcode.  They are finitely many, and no list of signals has the
outlines of two opcodes.  Once the opcode is known, the signals of each operand can be picked out by
their names, and they give the operand back.  So an instruction can be read off its signals.
-/

namespace CircuitRom

open Text

/-! ## Values in templates -/

namespace Template

/-- Does the template show the value of its operand? -/
def hasPlace (t : Template) : Bool := t.any (·.2 == .filled)

variable {t : Template}

theorem ne_nil_of_hasPlace (h : t.hasPlace = true) : t.keys ≠ [] := by
  rintro hnil
  rw [List.map_eq_nil_iff.1 hnil] at h
  cases h

/-- A template with a place for a value shows the value. -/
theorem entries_injective (h : t.hasPlace = true) : Function.Injective t.entries := by
  intro v w hvw
  obtain ⟨entry, hentry, hfilled⟩ := List.any_eq_true.1 h
  have hsame := List.map_inj_left.1 hvw entry hentry
  rw [beq_iff_eq.1 hfilled] at hsame
  exact (Prod.mk.inj hsame).2

theorem keys_eq_of_entries_eq {u : Template} {v w : Int32} (h : t.entries v = u.entries w) :
    t.keys = u.keys := by
  rw [← map_fst_entries t v, h, map_fst_entries]

@[simp] theorem length_entries (t : Template) (v : Int32) :
    (t.entries v).length = t.keys.length := by
  rw [← map_fst_entries t v, List.length_map]

end Template

/-! ## Operands from their signals -/

namespace OperandForm

/-- Does every template of the form show the value of its operand? -/
def legible : OperandForm → Bool
  | register t | immediate t => t.hasPlace
  | either reg imm | address reg imm => reg.hasPlace && imm.hasPlace

/-- A register with a number sets more signals than a register or a number. -/
theorem eq_both_of_entries_eq {form : OperandForm} (hreg : form.registerTemplate.hasPlace = true)
    (himm : form.numberTemplate.hasPlace = true) {base : Register} {offset : Int32} {y : Operand}
    (h : form.entries (.both base offset) = form.entries y) :
    ∃ base' offset', y = .both base' offset' := by
  have hregLength := List.length_pos_iff.2 (Template.ne_nil_of_hasPlace hreg)
  have himmLength := List.length_pos_iff.2 (Template.ne_nil_of_hasPlace himm)
  have hlength := congrArg List.length h
  cases y with
  | register s =>
    simp only [entries, List.length_append, Template.length_entries] at hlength
    omega
  | number w =>
    simp only [entries, List.length_append, Template.length_entries] at hlength
    omega
  | both base' offset' => exact ⟨base', offset', rfl⟩

/-- An operand can be read off its signals, if its form has a template for each part of it. -/
theorem eq_of_entries_eq (form : OperandForm) (hreg : form.registerTemplate.hasPlace = true)
    (himm : form.numberTemplate.hasPlace = true) (hnodup : form.keys.Nodup) {x y : Operand}
    (h : form.entries x = form.entries y) : x = y := by
  have hkeys : form.registerTemplate.keys ≠ form.numberTemplate.keys := by
    intro hsame
    rw [keys_eq, hsame] at hnodup
    obtain ⟨key, hkey⟩ := List.exists_mem_of_ne_nil _ (Template.ne_nil_of_hasPlace himm)
    exact List.disjoint_of_nodup_append hnodup hkey hkey
  cases x with
  | register r =>
    cases y with
    | register s => rw [Register.word_injective (Template.entries_injective hreg h)]
    | number w => exact absurd (Template.keys_eq_of_entries_eq h) hkeys
    | both base offset =>
      obtain ⟨_, _, hboth⟩ := eq_both_of_entries_eq hreg himm h.symm
      cases hboth
  | number v =>
    cases y with
    | register s => exact absurd (Template.keys_eq_of_entries_eq h.symm) hkeys
    | number w => rw [Template.entries_injective himm h]
    | both base offset =>
      obtain ⟨_, _, hboth⟩ := eq_both_of_entries_eq hreg himm h.symm
      cases hboth
  | both base offset =>
    obtain ⟨base', offset', rfl⟩ := eq_both_of_entries_eq hreg himm h
    obtain ⟨hbase, hoffset⟩ := List.append_inj h (by simp)
    rw [Register.word_injective (Template.entries_injective hreg hbase),
      Template.entries_injective himm hoffset]

/-- Two arguments in the place of one form that set the same signals stand for the same operand. -/
theorem Reads.eq_of_entries_eq {form : OperandForm} (hlegible : form.legible = true)
    (hnodup : form.keys.Nodup) {a b : Argument} {x y : Operand} (hx : form.Reads a x)
    (hy : form.Reads b y) (h : form.entries x = form.entries y) : x = y := by
  cases form with
  | register reg =>
    cases hx
    cases hy
    rw [Register.word_injective (Template.entries_injective hlegible h)]
  | immediate imm =>
    cases hx
    cases hy
    rw [Template.entries_injective hlegible h]
  | either reg imm =>
    obtain ⟨hreg, himm⟩ := Bool.and_eq_true_iff.1 hlegible
    exact (either reg imm).eq_of_entries_eq hreg himm hnodup h
  | address reg imm =>
    obtain ⟨hreg, himm⟩ := Bool.and_eq_true_iff.1 hlegible
    exact (address reg imm).eq_of_entries_eq hreg himm hnodup h

end OperandForm

/-- A list is cut in two at one place only, if the names before it are all in a list and those after
it are not. -/
theorem append_inj_of_names {α : Type} {names : List String}
    {before after before' after' : List (String × α)} (h : before ++ after = before' ++ after')
    (hbefore : ∀ entry ∈ before, entry.1 ∈ names) (hafter : ∀ entry ∈ after, entry.1 ∉ names)
    (hbefore' : ∀ entry ∈ before', entry.1 ∈ names)
    (hafter' : ∀ entry ∈ after', entry.1 ∉ names) : before = before' ∧ after = after' := by
  have hfilter : ∀ (front back : List (String × α)), (∀ entry ∈ front, entry.1 ∈ names) →
      (∀ entry ∈ back, entry.1 ∉ names) →
      (front ++ back).filter (fun entry => decide (entry.1 ∈ names)) = front := by
    intro front back hfront hback
    rw [List.filter_append, List.filter_eq_self.2 (by simpa using hfront),
      List.filter_eq_nil_iff.2 (by simpa using hback), List.append_nil]
  have hsame : before = before' := by
    rw [← hfilter before after hbefore hafter, h, hfilter before' after' hbefore' hafter']
  rw [hsame] at h
  exact ⟨hsame, List.append_cancel_left h⟩

namespace OperandForm

theorem mem_keys_of_mem_entries {form : OperandForm} {x : Operand} {entry : String × Int32}
    (h : entry ∈ form.entries x) : entry.1 ∈ form.keys :=
  (form.sublist_keys x).subset (List.mem_map_of_mem h)

/-- Operands of one opcode can be read off their signals: each has names of its own. -/
theorem ReadsAll.eq_of_entriesOf_eq {forms : List OperandForm} {as : List Argument}
    {xs : List Operand} (hxs : ReadsAll forms as xs) :
    ∀ {bs : List Argument} {ys : List Operand}, ReadsAll forms bs ys →
      (∀ form ∈ forms, form.legible = true) → (forms.flatMap keys).Nodup →
      entriesOf forms xs = entriesOf forms ys → xs = ys := by
  induction hxs with
  | nil =>
    intro bs ys hys _ _ _
    cases hys
    rfl
  | @cons form forms a as x xs hx _ ih =>
    intro bs ys hys hlegible hnodup h
    cases hys with
    | @cons _ _ b bs y ys hy hys =>
      obtain ⟨hform, hforms⟩ := List.forall_mem_cons.1 hlegible
      rw [List.flatMap_cons] at hnodup
      have hafter : ∀ zs, ∀ entry ∈ entriesOf forms zs, entry.1 ∉ form.keys := by
        intro zs entry hentry hmem
        exact List.disjoint_of_nodup_append hnodup hmem
          ((sublist_flatMap_keys forms zs).subset (List.mem_map_of_mem hentry))
      simp only [entriesOf, List.zipWith_cons_cons, List.flatten_cons] at h
      obtain ⟨hfirst, hrest⟩ := append_inj_of_names h (fun _ => mem_keys_of_mem_entries)
        (hafter xs) (fun _ => mem_keys_of_mem_entries) (hafter ys)
      rw [hx.eq_of_entries_eq hform (List.Nodup.of_append_left hnodup) hy hfirst,
        ih hys hforms (List.Nodup.of_append_right hnodup) hrest]

end OperandForm

/-! ## Outlines -/

namespace Template

/-- The entries have the names of the template, in order, and its fixed values. -/
def Matches (t : Template) (entries : List (String × Int32)) : Prop :=
  List.Forall₂ (fun part entry => part.1 = entry.1 ∧ ∀ v, part.2 = .fixed v → entry.2 = v) t entries

theorem matches_entries (t : Template) (value : Int32) : t.Matches (t.entries value) := by
  rw [Matches, entries, List.forall₂_map_right_iff, List.forall₂_same]
  rintro ⟨name, part⟩ _
  refine ⟨rfl, ?_⟩
  rintro v ⟨⟩
  rfl

theorem Matches.append {t u : Template} {es fs : List (String × Int32)} (ht : t.Matches es)
    (hu : u.Matches fs) : (t ++ u).Matches (es ++ fs) :=
  List.rel_append ht hu

/-- Do the templates differ in length, in a name, or in a value that both of them fix? -/
def apart : Template → Template → Bool
  | [], [] => false
  | [], _ :: _ | _ :: _, [] => true
  | (name, .fixed v) :: t, (name', .fixed w) :: u => name != name' || v != w || apart t u
  | (name, _) :: t, (name', _) :: u => name != name' || apart t u

/-- No signals match two templates that are apart, whatever is filled in. -/
theorem not_matches_of_apart {t u : Template} (h : t.apart u = true) :
    ∀ {es : List (String × Int32)}, t.Matches es → ¬u.Matches es := by
  fun_induction apart t u with
  | case1 => cases h
  | case2 =>
    intro es ht hu
    cases ht
    cases hu
  | case3 =>
    intro es ht hu
    cases ht
    cases hu
  | case4 name v t name' w u ih =>
    intro es ht hu
    cases ht with
    | cons hpart ht =>
      cases hu with
      | cons hpart' hu =>
        simp only [Bool.or_eq_true, bne_iff_ne] at h
        rcases h with (hname | hvalue) | hrest
        · exact hname (hpart.1.trans hpart'.1.symm)
        · exact hvalue ((hpart.2 v rfl).symm.trans (hpart'.2 w rfl))
        · exact ih hrest ht hu
  | case5 name p t name' q u _ ih =>
    intro es ht hu
    cases ht with
    | cons hpart ht =>
      cases hu with
      | cons hpart' hu =>
        simp only [Bool.or_eq_true, bne_iff_ne] at h
        rcases h with hname | hrest
        · exact hname (hpart.1.trans hpart'.1.symm)
        · exact ih hrest ht hu

end Template

namespace OperandForm

/-- The outlines of an operand of the form. -/
def outlines : OperandForm → List Template
  | register reg => [reg]
  | immediate imm => [imm]
  | either reg imm => [reg, imm]
  | address reg imm => [reg, imm, reg ++ imm]

theorem Reads.exists_outline {form : OperandForm} {a : Argument} {x : Operand}
    (h : form.Reads a x) : ∃ t ∈ form.outlines, t.Matches (form.entries x) := by
  cases h with
  | register => exact ⟨_, List.mem_cons_self, Template.matches_entries _ _⟩
  | immediate => exact ⟨_, List.mem_cons_self, Template.matches_entries _ _⟩
  | eitherRegister => exact ⟨_, List.mem_cons_self, Template.matches_entries _ _⟩
  | eitherNumber =>
    exact ⟨_, List.mem_cons_of_mem _ List.mem_cons_self, Template.matches_entries _ _⟩
  | base => exact ⟨_, List.mem_cons_self, Template.matches_entries _ _⟩
  | offset => exact ⟨_, List.mem_cons_of_mem _ List.mem_cons_self, Template.matches_entries _ _⟩
  | @baseOffset reg imm =>
    refine ⟨reg ++ imm, by simp [outlines], ?_⟩
    exact (Template.matches_entries _ _).append (Template.matches_entries _ _)

/-- The outlines of operands, one after the other. -/
def outlinesOf : List OperandForm → List Template
  | [] => [[]]
  | form :: forms => form.outlines.flatMap fun t => (outlinesOf forms).map (t ++ ·)

/-- The signals of operands match one of the outlines of their forms. -/
theorem ReadsAll.exists_outline {forms : List OperandForm} {as : List Argument} {xs : List Operand}
    (h : ReadsAll forms as xs) : ∃ t ∈ outlinesOf forms, t.Matches (entriesOf forms xs) := by
  induction h with
  | nil => exact ⟨[], List.mem_singleton_self _, .nil⟩
  | cons hx _ ih =>
    obtain ⟨t, ht, hmatches⟩ := hx.exists_outline
    obtain ⟨u, hu, hrest⟩ := ih
    exact ⟨t ++ u, List.mem_flatMap.2 ⟨t, ht, List.mem_map_of_mem hu⟩, hmatches.append hrest⟩

end OperandForm

namespace Opcode

theorem legible_operands (op : Opcode) : ∀ form ∈ op.operands, form.legible = true := by
  cases op <;> decide

/-- The outlines of the opcode's instructions. -/
def outlines (op : Opcode) : List Template :=
  (OperandForm.outlinesOf op.operands).map
    ((op.control.map fun entry => (entry.1, .fixed entry.2)) ++ ·)

/-- The signals of an instruction match one of the outlines of its opcode. -/
theorem exists_outline {op : Opcode} {as : List Argument} {xs : List Operand}
    (h : OperandForm.ReadsAll op.operands as xs) : ∃ t ∈ op.outlines, t.Matches (op.entries xs) := by
  have hcontrol : Template.Matches (op.control.map fun entry => (entry.1, .fixed entry.2))
      op.control := by
    rw [Template.Matches, List.forall₂_map_left_iff, List.forall₂_same]
    rintro entry _
    refine ⟨rfl, ?_⟩
    rintro v ⟨⟩
    rfl
  obtain ⟨t, ht, hmatches⟩ := h.exists_outline
  exact ⟨_, List.mem_map_of_mem ht, hcontrol.append hmatches⟩

/-- The outlines of an opcode are apart from those of the opcodes after it in the table. -/
theorem pairwise_apart : all.Pairwise fun op op' =>
    (op.outlines.all fun t => op'.outlines.all fun u => t.apart u) = true := by
  decide +kernel

/-- No list of signals has outlines of both opcodes. -/
def Distinct (op op' : Opcode) : Prop :=
  ∀ t ∈ op.outlines, ∀ u ∈ op'.outlines, ∀ es, t.Matches es → ¬u.Matches es

instance : Std.Symm Distinct :=
  ⟨fun _ _ h t ht u hu es htes hues => h u hu t ht es hues htes⟩

/-- Different opcodes are told apart by their signals. -/
theorem distinct_of_ne {op op' : Opcode} (h : op ≠ op') : op.Distinct op' := by
  have hdistinct : all.Pairwise Distinct := by
    refine pairwise_apart.imp ?_
    intro op op' hapart t ht u hu es
    exact Template.not_matches_of_apart (List.all_eq_true.1 (List.all_eq_true.1 hapart t ht) u hu)
  exact hdistinct.forall (mem_all op) (mem_all op') h

/-- An opcode and its operands can be read off their signals. -/
theorem eq_of_entries_eq {op op' : Opcode} {as bs : List Argument} {xs ys : List Operand}
    (hxs : OperandForm.ReadsAll op.operands as xs) (hys : OperandForm.ReadsAll op'.operands bs ys)
    (h : op.entries xs = op'.entries ys) : op = op' ∧ xs = ys := by
  have hop : op = op' := by
    by_contra hne
    obtain ⟨t, ht, hmatches⟩ := exists_outline hxs
    obtain ⟨u, hu, hmatches'⟩ := exists_outline hys
    rw [← h] at hmatches'
    exact distinct_of_ne hne t ht u hu _ hmatches hmatches'
  subst hop
  exact ⟨rfl, hxs.eq_of_entriesOf_eq hys op.legible_operands
    (List.Nodup.of_append_right op.nodup_keys) (List.append_cancel_left h)⟩

end Opcode

/-! ## Instructions -/

namespace Instruction

/-- **Signals say one thing.**  Two instructions with the same signals, in the same order, have the
same mnemonic up to the case of letters, and their operands are the same registers, numbers, or
registers with numbers, one for one.  Neither of them can be read in another way. -/
theorem encode_unambiguous {i j : Instruction} {signals signals' : Signals}
    (hi : i.encode = .ok signals) (hj : j.encode = .ok signals')
    (h : signals.entries = signals'.entries) :
    sameLetters i.opcode.text j.opcode.text = true ∧
    ∃ op operands, i.Reads op operands ∧ j.Reads op operands ∧
      ∀ op' operands', i.Reads op' operands' ∨ j.Reads op' operands' →
        op' = op ∧ operands' = operands := by
  obtain ⟨op, xs, hreads, hentries⟩ := encode_eq_ok_iff.1 hi
  obtain ⟨op', ys, hreads', hentries'⟩ := encode_eq_ok_iff.1 hj
  obtain ⟨as, -, has⟩ := hreads.operands
  obtain ⟨bs, -, hbs⟩ := hreads'.operands
  obtain ⟨rfl, rfl⟩ :=
    Opcode.eq_of_entries_eq has hbs (hentries.symm.trans (h.trans hentries'))
  refine ⟨?_, op, xs, hreads, hreads', ?_⟩
  · rw [sameLetters_iff, ← sameLetters_iff.1 hreads.opcode, sameLetters_iff.1 hreads'.opcode]
  · rintro op' ys (hother | hother)
    · exact hother.unique hreads
    · exact hother.unique hreads'

/-- The same store with the register and the number spelled in two ways. -/
theorem store_spellings_unambiguous :
    ∃ i ∈ (Program.written (Program.linesOf "store r3, [SP 0x1F]")).head?,
    ∃ j ∈ (Program.written (Program.linesOf "STORE R3, [R15, 31]")).head?,
    ∃ signals, i.encode = .ok signals ∧ j.encode = .ok signals ∧
      sameLetters i.opcode.text j.opcode.text = true ∧
      ∃ op operands, i.Reads op operands ∧ j.Reads op operands ∧
        ∀ op' operands', i.Reads op' operands' ∨ j.Reads op' operands' →
          op' = op ∧ operands' = operands := by
  have hspot : ∃ i ∈ (Program.written (Program.linesOf "store r3, [SP 0x1F]")).head?,
      ∃ j ∈ (Program.written (Program.linesOf "STORE R3, [R15, 31]")).head?,
      i.encode.isOk = true ∧ i.encode.toOption = j.encode.toOption := by
    decide +kernel
  obtain ⟨i, hi, j, hj, hok, hsame⟩ := hspot
  obtain ⟨signals, hencode⟩ := exists_eq_ok hok
  have hencode' : j.encode = .ok signals := by
    rw [← toOption_eq_some, ← hsame, hencode]
    rfl
  exact ⟨i, hi, j, hj, signals, hencode, hencode', encode_unambiguous hencode hencode' rfl⟩

-- Increasing a register and adding one to it set the same signals, in different orders.
example : (Opcode.inc.entries [.register ⟨4⟩]).Perm
    (Opcode.add.entries [.register ⟨4⟩, .register ⟨4⟩, .number 1]) := by
  decide

end Instruction
end CircuitRom
