import CircuitRom.Proofs.LabelSearch
import CircuitRom.Proofs.Relocation

/-!
# Labels without a reference

A symbolic label is used when an operand is its name.  A numeric label is used when it is the one
that a reference means: of the nearest labels with the digit the last when the reference looks back,
and the first when it looks forward.  Resolving a program marks exactly these, operand by operand.
So the labels that are reported as unused are those to which no operand of the program refers.
-/

namespace CircuitRom

/-! ## References -/

namespace Binding

/-- The numeric labels, as digits with their addresses. -/
def declared (bs : List Binding) : List (Char × Nat) :=
  (bs.filter (·.isNumeric)).map fun b => (b.digit, b.address)

/-- The token of the instruction at an index is a reference to the numeric label at a position.
The name of a symbolic label is no such reference. -/
def RefersTo (bs : List Binding) (index : Nat) (t : Token) (position : Nat) : Prop :=
  t.kind = .operand ∧ t.text ∉ names bs ∧ ∃ digit direction address,
    IsNumericReference t.text digit direction ∧
      direction.Means (declared bs) digit index position address

variable {bs : List Binding} {index position address : Nat} {t : Token} {digit : Char}
  {direction : Direction}

theorem addressesOf_declared (bs : List Binding) (digit : Char) :
    addressesOf (declared bs) digit = addresses bs digit := by
  rw [addressesOf, declared, List.filter_map, List.map_map, addresses, List.filter_filter]
  simp only [Function.comp_def, Bool.and_comm]

theorem pairwise_addressesOf (h : bs.Pairwise (·.address ≤ ·.address)) (digit : Char) :
    (addressesOf (declared bs) digit).Pairwise (· ≤ ·) := by
  rw [addressesOf_declared, ← map_snd_occurrences]
  exact pairwise_occurrences h digit

/-- A reference is to one label at most. -/
theorem refersTo_iff_eq (hkind : t.kind = .operand) (hname : t.text ∉ names bs)
    (href : IsNumericReference t.text digit direction)
    (hmeans : direction.Means (declared bs) digit index position address) {p : Nat} :
    RefersTo bs index t p ↔ p = position := by
  constructor
  · rintro ⟨-, -, digit', direction', address', href', hmeans'⟩
    rw [← numericReference?_eq_some_iff] at href href'
    cases href.symm.trans href'
    exact (hmeans'.unique hmeans).1
  · rintro rfl
    exact ⟨hkind, hname, digit, direction, address, href, hmeans⟩

theorem not_refersTo (h : numericReference? t.text = none) (position : Nat) :
    ¬RefersTo bs index t position := by
  rintro ⟨-, -, digit, direction, -, href, -⟩
  rw [numericReference?_eq_some_iff.2 href] at h
  cases h

/-- The position to which the token refers, by computation. -/
def refersTo? (bs : List Binding) (index : Nat) (t : Token) : Option Nat :=
  if t.kind = .operand ∧ t.text ∉ names bs then
    (numericReference? t.text).bind fun reference =>
      (reference.2.nearest? (addressesOf (declared bs) reference.1) index).bind fun address =>
        reference.2.preferred? (positionsOf (declared bs) reference.1 address)
  else none

/-- Referring to a declaration can be computed. -/
theorem refersTo_iff : RefersTo bs index t position ↔ refersTo? bs index t = some position := by
  unfold RefersTo refersTo?
  by_cases hoperand : t.kind = .operand ∧ t.text ∉ names bs
  · rw [if_pos hoperand, ← and_assoc, and_iff_right hoperand]
    simp only [Option.bind_eq_some_iff, Prod.exists, ← numericReference?_eq_some_iff,
      Direction.means_iff, exists_and_left]
  · rw [if_neg hoperand, ← and_assoc]
    exact iff_of_false (fun h => hoperand h.1) nofun

instance : Decidable (RefersTo bs index t position) := decidable_of_iff _ refersTo_iff.symm

end Binding

namespace Program

/-- The operands of instructions, each with the index of its instruction, counted from the given
one. -/
def operandsFrom (index : Nat) (instructions : List Instruction) : List (Nat × Token) :=
  (instructions.zipIdx index).flatMap fun entry => entry.1.operands.map fun t => (entry.2, t)

/-- The operands of lines as they are written, each with the index of its instruction. -/
def operands (lines : List Line) : List (Nat × Token) := operandsFrom 0 (written lines)

/-- Is one of the operands the name? -/
def mentions (operands : List (Nat × Token)) (name : String) : Bool :=
  operands.any fun operand => operand.2.kind == .operand && operand.2.text == name

/-- Is one of the operands a reference to the numeric label at a position? -/
def refers (bs : List Binding) (operands : List (Nat × Token)) (position : Nat) : Bool :=
  operands.any fun operand => Binding.RefersTo bs operand.1 operand.2 position

/-- The labels of lines to which no operand refers, in the order and with the places of their
declaration. -/
def unreferred (lines : List Line) : UnusedLabels where
  symbolic :=
    ((bindings lines).filter fun b => !b.isNumeric && !mentions (operands lines) b.label.text).map
      fun b => (b.label.text, b.label.site)
  numeric :=
    (((bindings lines).filter (·.isNumeric)).zipIdx.filter fun entry =>
        !refers (bindings lines) (operands lines) entry.2).map
      fun entry => (entry.1.digit, entry.1.label.site)

end Program

/-! ## Marks -/

namespace Labels

/-- The labels with all symbolic labels of some names used, and all numeric labels at some
positions. -/
def markAll (l : Labels) (names : String → Bool) (positions : Nat → Bool) : Labels where
  symbols :=
    ⟨l.symbols.entries.map fun entry =>
      (entry.1, { entry.2 with used := entry.2.used || names entry.1 }), by
      simpa [Function.comp_def] using l.symbols.distinct⟩
  locals := l.locals.mapIdx fun p o => { o with used := o.used || positions p }

variable {l : Labels} {bs : List Binding} {names names' : String → Bool}
  {positions positions' : Nat → Bool}

theorem markAll_congr (hnames : ∀ name ∈ l.symbols.keys, names name = names' name)
    (hpositions : ∀ p, positions p = positions' p) :
    l.markAll names positions = l.markAll names' positions' := by
  obtain rfl : positions = positions' := funext hpositions
  rw [markAll, markAll, mk.injEq]
  refine ⟨Dictionary.ext_entries (List.map_congr_left fun entry hentry => ?_), rfl⟩
  rw [hnames _ (List.mem_map_of_mem hentry)]

theorem markAll_none (l : Labels) : l.markAll (fun _ => false) (fun _ => false) = l := by
  obtain ⟨symbols, locals⟩ := l
  rw [markAll, mk.injEq]
  constructor
  · exact Dictionary.ext_entries (by simp)
  · simp [List.mapIdx_eq_zipIdx_map]

theorem markAll_markAll (l : Labels) (names names' : String → Bool)
    (positions positions' : Nat → Bool) :
    (l.markAll names positions).markAll names' positions' =
      l.markAll (fun name => names name || names' name)
        (fun p => positions p || positions' p) := by
  rw [markAll, markAll, markAll, mk.injEq]
  constructor
  · exact Dictionary.ext_entries (by simp [Bool.or_assoc])
  · simp [Function.comp_def, Bool.or_assoc]

theorem mark_eq_markAll (l : Labels) (position : Nat) :
    l.mark position = l.markAll (fun _ => false) (· == position) := by
  rw [mark, markAll, mk.injEq]
  exact ⟨Dictionary.ext_entries (by simp), rfl⟩

theorem modify_eq_markAll (l : Labels) (name : String) :
    { l with symbols := l.symbols.modify name fun s => { s with used := true } } =
      l.markAll (name == ·) (fun _ => false) := by
  rw [markAll, mk.injEq]
  constructor
  · refine Dictionary.ext_entries (List.map_congr_left fun entry _ => ?_)
    by_cases hname : entry.1 = name
    · simp [hname]
    · have hname' : (name == entry.1) = false := beq_eq_false_iff_ne.2 fun h => hname h.symm
      simp [hname, hname']
  · simp [List.mapIdx_eq_zipIdx_map]

theorem Declares.declared_eq (h : l.Declares bs) : l.declared = Binding.declared bs := by
  have hplaces := congrArg (List.map fun place => (place.1, place.2.1)) h.locals
  simpa [declared, Binding.declared, Function.comp_def] using hplaces

theorem Declares.markAll (h : l.Declares bs) (names : String → Bool) (positions : Nat → Bool) :
    (l.markAll names positions).Declares bs := by
  constructor
  · rw [← h.symbols]
    simp [Labels.markAll]
  · rw [← h.locals]
    refine List.ext_getElem? fun p => ?_
    simp [Labels.markAll, Function.comp_def]

/-! ## Labels before any reference -/

/-- No label is used. -/
structure Fresh (l : Labels) : Prop where
  symbols : ∀ entry ∈ l.symbols.entries, entry.2.used = false
  locals : ∀ o ∈ l.locals, o.used = false

theorem fresh_empty : ({} : Labels).Fresh := ⟨List.forall_mem_nil _, List.forall_mem_nil _⟩

/-- A label that has just been declared is unused. -/
theorem Fresh.define {l l' : Labels} {label : Token} {address : Nat} (h : l.Fresh)
    (hdefine : l.define label address = .ok l') : l'.Fresh := by
  rw [Labels.define_eq] at hdefine
  by_cases hkind : label.kind = .numeric
  · rw [if_pos hkind] at hdefine
    cases hdefine
    refine ⟨h.symbols, fun o ho => ?_⟩
    rcases List.mem_append.1 ho with ho | ho
    · exact h.locals o ho
    · rw [List.mem_singleton.1 ho]
  · rw [if_neg hkind] at hdefine
    split at hdefine
    · cases hdefine
    · cases hdefine
      exact ⟨Dictionary.forall_mem_put rfl h.symbols, h.locals⟩

theorem Fresh.defineAll {labels : List Token} {address : Nat} :
    ∀ {l l' : Labels}, l.Fresh → l.defineAll address labels = .ok l' → l'.Fresh := by
  induction labels with
  | nil =>
    intro l l' h hdefine
    cases hdefine
    exact h
  | cons label rest ih =>
    intro l l' h hdefine
    rw [defineAll_cons] at hdefine
    obtain ⟨next, hnext, hrest⟩ := bind_eq_ok.1 hdefine
    exact ih (h.define hnext) hrest

/-- Of labels that are new, those stay unused that are not marked. -/
theorem unusedLabels_markAll (h : l.Declares bs) (hfresh : l.Fresh) (names : String → Bool)
    (positions : Nat → Bool) :
    (l.markAll names positions).unusedLabels =
      ⟨(bs.filter fun b => !b.isNumeric && !names b.label.text).map
          fun b => (b.label.text, b.label.site),
        ((bs.filter (·.isNumeric)).zipIdx.filter fun entry => !positions entry.2).map
          fun entry => (entry.1.digit, entry.1.label.site)⟩ := by
  have hsymbols : ∀ entry ∈ l.symbols.entries,
      (!(entry.2.used || names entry.1)) = !names entry.1 := by
    intro entry hentry
    rw [hfresh.symbols entry hentry, Bool.false_or]
  have hlocals : ∀ entry ∈ l.locals.zipIdx,
      (!(entry.1.used || positions entry.2)) = !positions entry.2 := by
    intro entry hentry
    rw [hfresh.locals _ (List.fst_mem_of_mem_zipIdx hentry), Bool.false_or]
  rw [unusedLabels, UnusedLabels.mk.injEq]
  constructor
  · have hplaces := congrArg
      (fun places => (places.filter fun place => !names place.1).map
        fun place => (place.1, place.2.2)) h.symbols
    simp only [List.filter_map, List.map_map, List.filter_filter, Function.comp_def] at hplaces
    simp only [markAll, List.filter_map, List.map_map, Function.comp_def,
      List.filter_congr hsymbols, hplaces, Bool.and_comm]
  · have hplaces := congrArg
      (fun places => (places.zipIdx.filter fun place => !positions place.2).map
        fun place => (place.1.1, place.1.2.2)) h.locals
    simp only [List.zipIdx_map, List.filter_map, List.map_map, Function.comp_def, Prod.map_fst,
      Prod.map_snd, id] at hplaces
    simp only [markAll, List.mapIdx_eq_zipIdx_map, List.filter_map, List.map_map,
      Function.comp_def, List.filter_congr hlocals, hplaces]

end Labels

/-! ## Marks of a program -/

namespace Program

variable {labels : Labels} {bs : List Binding} {index : Nat}

/-- After laying out, before anything is resolved, no label is used. -/
theorem fresh_layOutFrom (lines : List Line) :
    ∀ {labels : Labels} {address : Nat} {program : Program}, labels.Fresh →
      layOutFrom labels address lines = .ok program → program.labels.Fresh := by
  induction lines with
  | nil =>
    intro labels address program h hlaid
    cases hlaid
    exact h
  | cons line rest ih =>
    intro labels address program h hlaid
    cases hfind : line.find? (·.kind == .unknown) with
    | some token =>
      rw [layOutFrom, hfind] at hlaid
      cases hlaid
    | none =>
      rw [layOutFrom_cons (by simpa using hfind)] at hlaid
      obtain ⟨next, hnext, hlaid⟩ := bind_eq_ok.1 hlaid
      obtain ⟨tail, htail, rfl⟩ := map_eq_ok.1 hlaid
      show tail.labels.Fresh
      exact ih (h.defineAll hnext) htail

/-- A token that is no name of a label marks no symbolic label. -/
theorem mentions_eq_false (hlabels : labels.Declares bs) {t : Token}
    (h : t.kind = .operand → t.text ∉ Binding.names bs) {name : String}
    (hkey : name ∈ labels.symbols.keys) : mentions [(index, t)] name = false := by
  rw [hlabels.keys_eq] at hkey
  by_cases hkind : t.kind = .operand
  · have hne : t.text ≠ name := fun heq => h hkind (heq ▸ hkey)
    simp [mentions, hne]
  · simp [mentions, hkind]

/-- A numeric reference marks the declaration that it refers to and no other. -/
theorem labels_useNumeric (hlabels : labels.Declares bs)
    (hbs : bs.Pairwise (·.address ≤ ·.address)) {t : Token} (hkind : t.kind = .operand)
    (hname : t.text ∉ Binding.names bs) {digit : Char} {direction : Direction}
    (href : IsNumericReference t.text digit direction) {result : Nat × Labels}
    (h : labels.useNumeric digit direction index = .ok result) :
    result.2 = labels.markAll (mentions [(index, t)]) (refers bs [(index, t)]) := by
  have hascend := Binding.pairwise_addressesOf hbs digit
  rw [← hlabels.declared_eq] at hascend
  rcases Labels.useNumeric_cases hascend direction index with
    ⟨position, address, hmeans, hok⟩ | ⟨-, herror⟩
  · cases hok.symm.trans h
    rw [hlabels.declared_eq] at hmeans
    refine (labels.mark_eq_markAll position).trans (Labels.markAll_congr ?_ ?_)
    · intro name hkey
      rw [mentions_eq_false hlabels (fun _ => hname) hkey]
    · intro p
      rw [Bool.eq_iff_iff]
      simp [refers, Binding.refersTo_iff_eq hkind hname href hmeans]
  · cases herror.symm.trans h

/-- What a token does to the labels: as a name it marks the symbolic label, and as a reference the
numeric label to which it refers. -/
theorem labels_resolveToken (hlabels : labels.Declares bs)
    (hbs : bs.Pairwise (·.address ≤ ·.address)) {t : Token} {result : Token × Labels}
    (h : resolveToken labels index t = .ok result) :
    result.2 = labels.markAll (mentions [(index, t)]) (refers bs [(index, t)]) := by
  rw [resolveToken] at h
  by_cases hkind : t.kind = .operand
  · rw [if_neg (not_not.2 hkind), Labels.useSymbol] at h
    cases hfind : labels.symbols.find? t.text with
    | some symbol =>
      have hname : t.text ∈ Binding.names bs := by
        by_contra hname
        rw [← hlabels.keys_eq, ← Dictionary.find?_eq_none_iff, hfind] at hname
        cases hname
      rw [hfind] at h
      cases h
      refine (Labels.modify_eq_markAll labels t.text).trans (Labels.markAll_congr ?_ ?_)
      · intro name _
        simp [mentions, hkind]
      · intro p
        simp [refers, Binding.RefersTo, hname]
    | none =>
      have hname : t.text ∉ Binding.names bs := by
        rw [← hlabels.keys_eq]
        exact Dictionary.find?_eq_none_iff.1 hfind
      rw [hfind, Option.map_none] at h
      cases hreference : numericReference? t.text with
      | none =>
        simp only [hreference] at h
        cases h
        refine labels.markAll_none.symm.trans (Labels.markAll_congr ?_ ?_)
        · intro name hkey
          rw [mentions_eq_false hlabels (fun _ => hname) hkey]
        · intro p
          simp [refers, Binding.not_refersTo hreference]
      | some reference =>
        simp only [hreference] at h
        split at h
        · cases h
        · next hnumeric =>
          cases h
          exact labels_useNumeric hlabels hbs hkind hname
            (numericReference?_eq_some_iff.1 hreference) hnumeric
  · rw [if_pos hkind] at h
    cases h
    refine labels.markAll_none.symm.trans (Labels.markAll_congr ?_ ?_)
    · intro name hkey
      rw [mentions_eq_false hlabels (fun h => absurd h hkind) hkey]
    · intro p
      simp [refers, Binding.RefersTo, hkind]

theorem mentions_append (before after : List (Nat × Token)) :
    mentions (before ++ after) = fun name => mentions before name || mentions after name :=
  funext fun _ => List.any_append

theorem refers_append (bs : List Binding) (before after : List (Nat × Token)) :
    refers bs (before ++ after) = fun p => refers bs before p || refers bs after p :=
  funext fun _ => List.any_append

/-- The operands of an instruction mark what they mention or refer to, in total. -/
theorem labels_resolveTokens (hbs : bs.Pairwise (·.address ≤ ·.address)) (tokens : List Token) :
    ∀ {labels : Labels} {result : List Token × Labels}, labels.Declares bs →
      resolveTokens labels index tokens = .ok result →
      result.2 = labels.markAll (mentions (tokens.map fun t => (index, t)))
        (refers bs (tokens.map fun t => (index, t))) := by
  induction tokens with
  | nil =>
    intro labels result _ h
    cases h
    exact labels.markAll_none.symm
  | cons t rest ih =>
    intro labels result hlabels h
    rw [resolveTokens_cons] at h
    obtain ⟨first, hfirst, h⟩ := bind_eq_ok.1 h
    obtain ⟨more, hmore, rfl⟩ := map_eq_ok.1 h
    have hmarks := labels_resolveToken hlabels hbs hfirst
    rw [hmarks] at hmore
    rw [ih (hlabels.markAll _ _) hmore, Labels.markAll_markAll, ← mentions_append, ← refers_append]
    rfl

/-- Every operand of the instructions leaves its mark, and nothing else does. -/
theorem labels_resolveFrom (hbs : bs.Pairwise (·.address ≤ ·.address))
    (instructions : List Instruction) :
    ∀ {labels : Labels} {index : Nat} {program : Program}, labels.Declares bs →
      resolveFrom labels index instructions = .ok program →
      program.labels = labels.markAll (mentions (operandsFrom index instructions))
        (refers bs (operandsFrom index instructions)) := by
  induction instructions with
  | nil =>
    intro labels index program _ h
    cases h
    exact labels.markAll_none.symm
  | cons i rest ih =>
    intro labels index program hlabels h
    rw [resolveFrom_cons] at h
    obtain ⟨result, hresult, h⟩ := bind_eq_ok.1 h
    obtain ⟨tail, htail, rfl⟩ := map_eq_ok.1 h
    rw [labels_resolveTokens hbs i.operands hlabels hresult] at htail
    have hmarks := ih (hlabels.markAll _ _) htail
    rw [Labels.markAll_markAll, ← mentions_append, ← refers_append] at hmarks
    exact hmarks

/-- **The unused labels are those without a reference.**  When lines can be resolved, the report
lists the symbolic labels that are the text of no operand and the numeric labels to which no
reference is, and there is no report exactly if there are no such labels. -/
theorem unused_eq_unreferred {lines : List Line} {program : Program}
    (h : resolve lines = .ok program) :
    program.labels.unused =
      if (unreferred lines).symbolic = [] ∧ (unreferred lines).numeric = [] then none
      else some (unreferred lines) := by
  rw [resolve_eq] at h
  obtain ⟨laid, hlaid, h⟩ := bind_eq_ok.1 h
  have hdecides := decides_layOut lines
  rw [hlaid] at hdecides
  obtain ⟨-, hwritten, hdeclares⟩ := hdecides.of_ok
  have hfresh : laid.labels.Fresh := fresh_layOutFrom lines Labels.fresh_empty hlaid
  have hmarks := labels_resolveFrom (pairwise_bindings lines) _ hdeclares h
  have hunused : program.labels.unusedLabels = unreferred lines := by
    rw [hmarks, hwritten]
    exact Labels.unusedLabels_markAll hdeclares hfresh _ _
  rw [Labels.unused, hunused, UnusedLabels.isEmpty]
  simp only [Bool.and_eq_true, List.isEmpty_iff]

/-- The operand `1b` is the name of a symbolic label here, so the label `1` stays unused.  Of the two
labels `2` at one address the reference back uses the last. -/
theorem unused_beside_shadowed_reference :
    ∃ program, resolve (linesOf "1b: 1: NOP\n2: 2: idle: B 1b\nB 2b") = .ok program ∧
      program.labels.unused = some
        ⟨[("idle", ⟨2, 6, "2: 2: idle: B 1b"⟩)],
          [('1', ⟨1, 4, "1b: 1: NOP"⟩), ('2', ⟨2, 0, "2: 2: idle: B 1b"⟩)]⟩ := by
  obtain ⟨program, hprogram⟩ :=
    exists_eq_ok (x := resolve (linesOf "1b: 1: NOP\n2: 2: idle: B 1b\nB 2b")) (by decide +kernel)
  refine ⟨program, hprogram, ?_⟩
  rw [unused_eq_unreferred hprogram]
  decide +kernel

end Program
end CircuitRom
