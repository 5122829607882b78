import CircuitRom.Proofs.FaultTokens
import CircuitRom.Proofs.Resolution
import CircuitRom.Proofs.Sites

/-!
# Faults point into the source

Definitions, labels and addresses change the texts of tokens and leave their sites alone, and
encoding reports its faults at the tokens that it is given.  The one token that no source line
has, the opcode of the halt that may be added at the end, is never at fault.  So all sites in a
fault, and in its notes, are places of the source text.
-/

namespace CircuitRom

variable {P : Site → Prop}

/-! ## Definitions -/

namespace Definition

theorem placed_rename {t : Token} (h : t.Placed P) (defs : Dictionary String) :
    (rename defs t).Placed P :=
  ⟨h.site, h.origin⟩

/-- A malformed definition is at fault at one of its own tokens. -/
theorem placed_fault {head : Token} {rest : List Token} (hhead : head.Placed P)
    (hrest : Line.Placed P rest) : (fault head rest).Placed P := by
  rw [fault]
  cases hfind : rest.find? (·.isDelimiter) with
  | none => exact hhead.atToken _
  | some t => exact (hrest t (List.mem_of_find?_eq_some hfind)).atToken _

/-- Definitions pass texts on, not places, so the places of all tokens stay. -/
theorem traced_substituteFrom {lines : List Line} :
    ∀ {defs : Dictionary String}, (∀ line ∈ lines, line.Placed P) →
      Traced P (fun lines => ∀ line ∈ lines, line.Placed P) (substituteFrom defs lines) := by
  induction lines with
  | nil => exact fun _ => .ok (List.forall_mem_nil _)
  | cons line rest ih =>
    intro defs hlines
    obtain ⟨hline, hrest⟩ := List.forall_mem_cons.1 hlines
    have hrenamed : Line.Placed P (line.map (rename defs)) := by
      intro t' ht'
      obtain ⟨t, ht, rfl⟩ := List.mem_map.1 ht'
      exact placed_rename (hline t ht) defs
    rw [substituteFrom]
    split
    · exact (ih hrest).map fun tail htail =>
        List.forall_mem_cons.2 ⟨List.forall_mem_nil _, htail⟩
    · next head operands hmap =>
      rw [hmap] at hrenamed
      obtain ⟨hhead, hoperands⟩ := List.forall_mem_cons.1 hrenamed
      split
      · split
        · split
          · exact .error (placed_fault hhead hoperands)
          · exact ih hrest
        · exact .error (placed_fault hhead hoperands)
      · exact (ih hrest).map fun tail htail => List.forall_mem_cons.2 ⟨hrenamed, htail⟩

end Definition

/-! ## Labels -/

namespace Labels

/-- The sites of the symbolic labels have a property. -/
def Placed (P : Site → Prop) (l : Labels) : Prop := ∀ entry ∈ l.symbols.entries, P entry.2.site

variable {l : Labels}

/-- A label that is there already is at fault at its own place, with a note at that of the earlier
one. -/
theorem Placed.define (h : l.Placed P) {label : Token} (hlabel : label.Placed P) (address : Nat) :
    Traced P (Placed P) (l.define label address) := by
  rw [Labels.define_eq]
  split
  · exact .ok h
  · split
    · next earlier hearlier =>
      have hsite : P earlier.site := h _ (Dictionary.mem_of_find? hearlier)
      exact .error ((hlabel.atToken _).withNote hsite _)
    · exact .ok (Dictionary.forall_mem_put hlabel.site h)

theorem Placed.defineAll {labels : List Token} (hlabels : Line.Placed P labels) (address : Nat) :
    ∀ {l : Labels}, l.Placed P → Traced P (Placed P) (l.defineAll address labels) := by
  induction labels with
  | nil => exact fun h => .ok h
  | cons label rest ih =>
    intro l h
    obtain ⟨hlabel, hrest⟩ := List.forall_mem_cons.1 hlabels
    rw [defineAll_cons]
    exact (h.define hlabel address).bind fun l' hl' => ih hrest hl'

end Labels

/-- The sites of the opcode and of the operands have a property. -/
structure Instruction.Placed (P : Site → Prop) (i : Instruction) : Prop where
  opcode : i.opcode.Placed P
  operands : Line.Placed P i.operands

namespace Program

theorem placed_written {lines : List Line} (hlines : ∀ line ∈ lines, line.Placed P) :
    ∀ i ∈ written lines, i.Placed P := by
  intro i hi
  obtain ⟨line, hline, hinstruction⟩ := List.mem_filterMap.1 hi
  have hstatement := (hlines line hline).statement
  rw [Line.instruction?] at hinstruction
  split at hinstruction
  · cases hinstruction
  · next opcode operands htokens =>
    cases hinstruction
    rw [htokens] at hstatement
    obtain ⟨hopcode, hoperands⟩ := List.forall_mem_cons.1 hstatement
    exact ⟨hopcode, hoperands⟩

/-- Laying out fails only at labels and unknown words of the lines. -/
theorem traced_layOutFrom {lines : List Line} :
    ∀ {labels : Labels} (address : Nat), labels.Placed P → (∀ line ∈ lines, line.Placed P) →
      Traced P (fun program => program.instructions = written lines)
        (layOutFrom labels address lines) := by
  induction lines with
  | nil => exact fun _ _ _ => .ok rfl
  | cons line rest ih =>
    intro labels address hlabels hlines
    obtain ⟨hline, hrest⟩ := List.forall_mem_cons.1 hlines
    cases hfind : line.find? (·.kind == .unknown) with
    | some token =>
      rw [layOutFrom, hfind]
      exact .error ((hline token (List.mem_of_find?_eq_some hfind)).atToken _)
    | none =>
      rw [layOutFrom_cons (by simpa using hfind)]
      have hdefine := Labels.Placed.defineAll (hline.mono fun _ => Line.mem_of_mem_labels) address
        hlabels
      refine hdefine.bind fun labels' hlabels' => ?_
      refine (ih _ hlabels' hrest).map fun program hprogram => ?_
      rw [hprogram, ← written_append, List.singleton_append]

/-- A token that is replaced keeps its sites, and a reference that means nothing is at fault
itself. -/
theorem traced_resolveToken {t : Token} (h : t.Placed P) (labels : Labels) (index : Nat) :
    Traced P (fun result => result.1.Placed P) (resolveToken labels index t) := by
  rw [resolveToken]
  split
  · exact .ok h
  · split
    · exact .ok ⟨h.site, h.origin⟩
    · split
      · exact .ok h
      · split
        · exact .error (h.atToken _)
        · exact .ok ⟨h.site, h.origin⟩

theorem traced_resolveTokens {tokens : List Token} (h : Line.Placed P tokens) (index : Nat) :
    ∀ labels, Traced P (fun result => Line.Placed P result.1)
      (resolveTokens labels index tokens) := by
  induction tokens with
  | nil => exact fun _ => .ok (List.forall_mem_nil _)
  | cons t rest ih =>
    intro labels
    obtain ⟨ht, hrest⟩ := List.forall_mem_cons.1 h
    rw [resolveTokens_cons]
    refine (traced_resolveToken ht labels index).bind fun result hresult => ?_
    exact (ih hrest result.2).map fun more hmore => List.forall_mem_cons.2 ⟨hresult, hmore⟩

/-- Resolving fails only at an operand, and it moves none of them. -/
theorem traced_resolveFrom {instructions : List Instruction}
    (h : ∀ i ∈ instructions, i.Placed P) :
    ∀ labels index, Traced P (fun program => ∀ i ∈ program.instructions, i.Placed P)
      (resolveFrom labels index instructions) := by
  induction instructions with
  | nil => exact fun _ _ => .ok (List.forall_mem_nil _)
  | cons i rest ih =>
    intro labels index
    obtain ⟨hi, hrest⟩ := List.forall_mem_cons.1 h
    rw [resolveFrom_cons]
    refine (traced_resolveTokens hi.operands index labels).bind fun result hresult => ?_
    refine (ih hrest result.2 (index + 1)).map fun program hprogram => ?_
    exact List.forall_mem_cons.2 ⟨⟨hi.opcode, hresult⟩, hprogram⟩

theorem traced_resolve {lines : List Line} (hlines : ∀ line ∈ lines, line.Placed P) :
    Traced P (fun program => ∀ i ∈ program.instructions, i.Placed P) (resolve lines) := by
  have hempty : Labels.Placed P {} := List.forall_mem_nil _
  rw [resolve_eq]
  refine (traced_layOutFrom 0 hempty hlines).bind fun program hprogram => ?_
  rw [hprogram]
  exact traced_resolveFrom (placed_written hlines) program.labels 0

end Program

/-! ## Encoding -/

namespace Instruction

/-- An instruction that cannot be encoded is at fault at its opcode or one of its operands. -/
theorem Placed.encode {i : Instruction} (h : i.Placed P) : Traced P (fun _ => True) i.encode := by
  refine i.outcome_encode.imp (fun fault hfault => ?_) fun _ => id
  obtain ⟨t, ht, hfault⟩ := hfault
  rw [hfault]
  rcases List.mem_cons.1 ht with rfl | ht
  · exact h.opcode.atToken _
  · exact (h.operands t ht).atToken _

/-- The halt that is added at the end has no operands, and its opcode is a mnemonic. -/
theorem encode_halt : halt.encode.isOk = true := by decide +kernel

end Instruction

/-! ## The whole way -/

/-- The stages in a row: every fault up to here is in the source, and so is every instruction but
the final halt. -/
theorem traced_preprocess (code : String) (options : Options) :
    Traced (Site.IsIn code)
      (fun program => ∀ i ∈ program.instructions,
        i.Placed (Site.IsIn code) ∨ i = Instruction.halt)
      (preprocess code options) := by
  rw [preprocess_eq]
  refine (traced_tokenize code).bind fun source hsource => ?_
  refine (traced_expandMacros hsource).bind fun expanded hexpanded => ?_
  refine (Definition.traced_substituteFrom hexpanded).bind fun substituted hsubstituted => ?_
  refine (Program.traced_resolve hsubstituted).bind fun program hprogram => .ok ?_
  intro i hi
  rw [Program.finish] at hi
  split at hi
  · rcases List.mem_append.1 hi with hi | hi
    · exact .inl (hprogram i hi)
    · exact .inr (List.mem_singleton.1 hi)
  · exact .inl (hprogram i hi)

/-- The final halt has no place, but it cannot be at fault. -/
theorem traced_assemble (code : String) (options : Options) :
    Traced (Site.IsIn code) (fun _ => True) (assemble code options) := by
  refine (traced_preprocess code options).bind fun program hprogram => ?_
  have hencode : ∀ i ∈ program.instructions,
      Traced (Site.IsIn code) (fun _ => True) i.encode := by
    intro i hi
    rcases hprogram i hi with hplaced | rfl
    · exact hplaced.encode
    · obtain ⟨signals, hsignals⟩ := exists_eq_ok Instruction.encode_halt
      rw [hsignals]
      exact .ok trivial
  exact (Outcome.mapM hencode).bind fun _ _ => .ok trivial

theorem Site.IsIn.isNowhere_eq_false {code : String} {s : Site} (h : s.IsIn code) :
    s.isNowhere = false := by
  have hline := h.one_le
  rw [isNowhere, beq_eq_false_iff_ne]
  omega

/-- **Every fault points into the source.**  If a source text cannot be assembled, the site of the
fault and the sites of all its notes are places of that text, so none of them is the site of a
token that nobody wrote. -/
theorem fault_points_into_source {code : String} {options : Options} {fault : Diagnostic}
    (h : assemble code options = .error fault) :
    (fault.site.IsIn code ∧ fault.site.isNowhere = false) ∧
      ∀ note ∈ fault.notes, note.site.IsIn code ∧ note.site.isNowhere = false := by
  have hfault := traced_assemble code options
  rw [h] at hfault
  have hplaced := hfault.of_error
  refine ⟨⟨hplaced.site, hplaced.site.isNowhere_eq_false⟩, fun note hnote => ?_⟩
  have hsite := hplaced.notes note hnote
  exact ⟨hsite, hsite.isNowhere_eq_false⟩

/-- A register that does not exist, in the body of a macro: the fault is at the call, and its note
at the body. -/
theorem fault_of_macro_points_into_source :
    ∃ fault,
      assemble "#macro m 0\n  mov r99, 1\n#endm\n\nm ; call" { appendHalt := true } =
        .error fault ∧
      fault.site = ⟨5, 0, "m ; call"⟩ ∧ fault.notes.map (·.site) = [⟨2, 6, "  mov r99, 1"⟩] ∧
      fault.site.IsIn "#macro m 0\n  mov r99, 1\n#endm\n\nm ; call" := by
  have hsites : (match assemble "#macro m 0\n  mov r99, 1\n#endm\n\nm ; call"
        { appendHalt := true } with
      | .ok _ => none
      | .error fault => some (fault.site, fault.notes.map (·.site))) =
      some (⟨5, 0, "m ; call"⟩, [⟨2, 6, "  mov r99, 1"⟩]) := by decide +kernel
  cases h : assemble "#macro m 0\n  mov r99, 1\n#endm\n\nm ; call" { appendHalt := true } with
  | ok assembly =>
    rw [h] at hsites
    cases hsites
  | error fault =>
    rw [h] at hsites
    obtain ⟨hsite, hnotes⟩ := Prod.mk.inj (Option.some.inj hsites)
    exact ⟨fault, rfl, hsite, hnotes, (fault_points_into_source h).1.1⟩

end CircuitRom
