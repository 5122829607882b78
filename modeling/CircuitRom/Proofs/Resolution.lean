import CircuitRom.Proofs.Binding

/-!
# What references mean

An operand that is the name of a symbolic label means the address of that label.  Otherwise `3b`
means the greatest address of a label `3` that is not after the instruction, and `3f` the least one
that is after it.  Resolving a program replaces every operand by what it means in the program as it
is written, all else stays as it is, and it fails exactly if the program cannot be laid out or a
reference to a numeric label means nothing.
-/

namespace CircuitRom

/-! ## Numeric references -/

namespace Direction

/-- The letter of a direction. -/
def letter : Direction → Char
  | back => 'b'
  | forward => 'f'

/-- Does an instruction at an index see a label at an address when it looks this way? -/
def sees (index address : Nat) : Direction → Bool
  | back => address ≤ index
  | forward => index < address

/-- Of the addresses that an instruction sees, the one that is nearest to it. -/
def nearest? (addresses : List Nat) (index : Nat) : Direction → Option Nat
  | back => (addresses.filter fun address => back.sees index address).max?
  | forward => (addresses.filter fun address => forward.sees index address).min?

/-- The nearest address is one that the instruction sees. -/
theorem sees_of_nearest? {addresses : List Nat} {index address : Nat} {direction : Direction}
    (h : direction.nearest? addresses index = some address) :
    address ∈ addresses ∧ direction.sees index address = true := by
  cases direction with
  | back => exact List.mem_filter.1 (List.max?_eq_some_iff.1 h).1
  | forward => exact List.mem_filter.1 (List.min?_eq_some_iff.1 h).1

/-- There is no nearest address exactly if the instruction sees none. -/
theorem nearest?_eq_none_iff {addresses : List Nat} {index : Nat} {direction : Direction} :
    direction.nearest? addresses index = none ↔
      ∀ address ∈ addresses, direction.sees index address = false := by
  cases direction <;> simp [nearest?, List.max?_eq_none_iff, List.min?_eq_none_iff]

end Direction

/-- The text is a digit and the letter of a direction. -/
def IsNumericReference (text : String) (digit : Char) (direction : Direction) : Prop :=
  digit.isDigit = true ∧ text.toList = [digit, direction.letter]

/-- A text is taken for a reference exactly if it is a digit and a letter of direction. -/
theorem numericReference?_eq_some_iff {text : String} {digit : Char} {direction : Direction} :
    numericReference? text = some (digit, direction) ↔
      IsNumericReference text digit direction := by
  rw [numericReference?, IsNumericReference]
  split
  · next c htext => cases direction <;> grind [Direction.letter]
  · next c htext => cases direction <;> grind [Direction.letter]
  · next hback hforward =>
    refine iff_of_false (by simp) fun h => ?_
    cases direction with
    | back => exact hback _ h.2
    | forward => exact hforward _ h.2

/-! ## What an operand means -/

theorem map_filter_zipIdx {α β : Type} (p : α → Bool) (f : α → β) (as : List α) :
    (as.zipIdx.filter fun entry => p entry.1).map (fun entry => f entry.1) =
      (as.filter p).map f := by
  conv_rhs => rw [← List.zipIdx_map_fst 0 as, List.filter_map, List.map_map]
  rfl

namespace Binding

/-- The address that a token of the instruction at an index means under the bindings. -/
def meaning? (bs : List Binding) (index : Nat) (t : Token) : Option Nat :=
  if t.kind ≠ .operand then none
  else
    match address? bs t.text with
    | some address => some address
    | none =>
      (numericReference? t.text).bind fun reference =>
        reference.2.nearest? (addresses bs reference.1) index

/-- If the token is a reference to a numeric label, the instruction sees such a label. -/
def Resolvable (bs : List Binding) (index : Nat) (t : Token) : Prop :=
  t.kind = .operand → t.text ∉ names bs → ∀ digit direction,
    IsNumericReference t.text digit direction →
      ∃ address ∈ addresses bs digit, direction.sees index address = true

/-- The numeric labels with a digit: their positions among all numeric labels, and their
addresses. -/
def occurrences (bs : List Binding) (digit : Char) : List (Nat × Nat) :=
  ((bs.filter (·.isNumeric)).zipIdx.filter (·.1.digit == digit)).map
    fun entry => (entry.2, entry.1.address)

theorem map_snd_occurrences (bs : List Binding) (digit : Char) :
    (occurrences bs digit).map (·.2) = addresses bs digit := by
  rw [occurrences, List.map_map, addresses]
  refine (map_filter_zipIdx (fun b : Binding => b.digit == digit) Binding.address _).trans ?_
  simp only [List.filter_filter, Bool.and_comm]

theorem address?_eq_none_iff {bs : List Binding} {name : String} :
    address? bs name = none ↔ name ∉ names bs := by
  simp [address?, names]

end Binding

/-- The token with the address that it means for its text, if it means one. -/
def Token.rewrite (meaning : Token → Option Nat) (t : Token) : Token :=
  match meaning t with
  | none => t
  | some address => { t with text := toString address }

/-- The instruction with all operands replaced by what they mean. -/
def Instruction.rewrite (meaning : Token → Option Nat) (i : Instruction) : Instruction :=
  { i with operands := i.operands.map (Token.rewrite meaning) }

/-! ## Looking labels up -/

namespace Labels

variable {l : Labels} {bs : List Binding}

/-- Symbolic labels are looked up in the state as in the program. -/
theorem Declares.address?_eq (h : l.Declares bs) (name : String) :
    l.address? name = Binding.address? bs name := by
  have hfind := congrArg (fun places => (places.find? (·.1 == name)).map (·.2.1)) h.symbols
  simp only [List.find?_map, List.find?_filter, Option.map_map, Function.comp_def,
    Bool.decide_and, Bool.decide_eq_true] at hfind
  rw [address?, Dictionary.find?_eq_map_find?, Option.map_map]
  exact hfind

theorem Declares.occurrences_eq (h : l.Declares bs) (digit : Char) :
    l.occurrences digit = Binding.occurrences bs digit := by
  have hzip := congrArg
    (fun places => (places.zipIdx.filter fun entry => entry.1.1 == digit).map
      fun entry => (entry.2, entry.1.2.1)) h.locals
  simpa [occurrences, Binding.occurrences, List.zipIdx_map, List.filter_map,
    Function.comp_def] using hzip

/-! ## The nearest label -/

theorem firstDescent_eq_none {addresses : List Nat} (h : addresses.Pairwise (· ≤ ·)) :
    firstDescent addresses = none := by
  fun_induction firstDescent addresses with
  | case1 a b rest hlt =>
    have hle := (List.pairwise_cons.1 h).1 b List.mem_cons_self
    omega
  | case2 a b rest _ ih => exact ih (List.pairwise_cons.1 h).2
  | case3 => rfl

/-- When addresses ascend, the last is the greatest. -/
theorem getLast?_eq_max? {addresses : List Nat} (h : addresses.Pairwise (· ≤ ·)) :
    addresses.getLast? = addresses.max? := by
  cases hlast : addresses.getLast? with
  | none => rw [List.getLast?_eq_none_iff.1 hlast, List.max?_nil]
  | some address =>
    obtain ⟨before, rfl⟩ := List.getLast?_eq_some_iff.1 hlast
    symm
    rw [List.max?_eq_some_iff]
    refine ⟨by simp, fun other hother => ?_⟩
    rcases List.mem_append.1 hother with hother | hother
    · exact (List.pairwise_append.1 h).2.2 other hother address (List.mem_singleton_self _)
    · exact Nat.le_of_eq (List.mem_singleton.1 hother)

theorem head?_eq_min? {addresses : List Nat} (h : addresses.Pairwise (· ≤ ·)) :
    addresses.head? = addresses.min? := by
  cases addresses with
  | nil => rfl
  | cons address rest =>
    symm
    rw [List.head?_cons, List.min?_eq_some_iff]
    refine ⟨List.mem_cons_self, fun other hother => ?_⟩
    rcases List.mem_cons.1 hother with rfl | hother
    · exact Nat.le_refl _
    · exact (List.pairwise_cons.1 h).1 other hother

/-- When addresses ascend, the last label that is not after an instruction has the greatest of the
addresses that the instruction sees, and the first label after it the least. -/
theorem map_snd_target? {occurrences : List (Nat × Nat)} (index : Nat) (direction : Direction)
    (h : (occurrences.map (·.2)).Pairwise (· ≤ ·)) :
    (target? occurrences index direction).map (·.2) =
      direction.nearest? (occurrences.map (·.2)) index := by
  cases direction with
  | back =>
    rw [target?, Direction.nearest?, ← getLast?_eq_max? (h.filter _), List.filter_map,
      List.getLast?_map]
    rfl
  | forward =>
    rw [target?, Direction.nearest?, ← head?_eq_min? (h.filter _), List.filter_map, List.head?_map,
      List.head?_filter]
    rfl

/-! ## Marks on labels -/

theorem map_modify {α β : Type} {f : α → α} {g : α → β} (h : ∀ a, g (f a) = g a)
    (position : Nat) (as : List α) : (as.modify position f).map g = as.map g := by
  refine List.ext_getElem? fun n => ?_
  simp only [List.getElem?_map, List.getElem?_modify]
  cases as[n]? with
  | none => rfl
  | some a =>
    by_cases hn : position = n
    · simp [hn, h]
    · simp [hn]

theorem Declares.mark_symbol (h : l.Declares bs) (name : String) :
    Declares { l with symbols := l.symbols.modify name fun s => { s with used := true } } bs := by
  refine ⟨?_, h.locals⟩
  rw [← h.symbols, Dictionary.modify, List.map_map]
  refine List.map_congr_left fun entry _ => ?_
  by_cases hname : entry.1 = name <;> simp [hname]

theorem Declares.mark_numeric (h : l.Declares bs) (position : Nat) :
    Declares { l with locals := l.locals.modify position fun o => { o with used := true } } bs := by
  refine ⟨h.symbols, ?_⟩
  rw [← h.locals]
  exact map_modify (by simp) position l.locals

end Labels

namespace Binding

variable {bs : List Binding}

theorem pairwise_occurrences (h : bs.Pairwise (·.address ≤ ·.address)) (digit : Char) :
    ((occurrences bs digit).map (·.2)).Pairwise (· ≤ ·) := by
  rw [map_snd_occurrences, addresses, List.pairwise_map]
  exact h.filter _

theorem nearest?_eq_map_target? (h : bs.Pairwise (·.address ≤ ·.address)) (digit : Char)
    (direction : Direction) (index : Nat) :
    direction.nearest? (addresses bs digit) index =
      (Labels.target? (occurrences bs digit) index direction).map (·.2) := by
  rw [Labels.map_snd_target? index direction (pairwise_occurrences h digit), map_snd_occurrences]

end Binding

namespace Labels

variable {l : Labels} {bs : List Binding}

/-- The addresses of numeric labels ascend in the order of the program.  So their order is never at
fault: a search ends with the nearest label that the instruction sees, unless it sees none. -/
theorem outcome_useNumeric (h : l.Declares bs) (hbs : bs.Pairwise (·.address ≤ ·.address))
    (digit : Char) (direction : Direction) (index : Nat) :
    Outcome
      (fun cause => cause = notFound digit direction ∧
        direction.nearest? (Binding.addresses bs digit) index = none)
      (fun result => direction.nearest? (Binding.addresses bs digit) index = some result.1 ∧
        result.2.Declares bs)
      (l.useNumeric digit direction index) := by
  have hascend := firstDescent_eq_none (Binding.pairwise_occurrences hbs digit)
  have hnearest := Binding.nearest?_eq_map_target? hbs digit direction index
  rw [useNumeric_eq, h.occurrences_eq]
  simp only [hascend]
  cases htarget : target? (Binding.occurrences bs digit) index direction with
  | none =>
    rw [htarget] at hnearest
    exact .error ⟨rfl, hnearest⟩
  | some target =>
    rw [htarget] at hnearest
    exact .ok ⟨hnearest, h.mark_numeric _⟩

end Labels

/-! ## Replacing references -/

namespace Program

variable {labels : Labels} {bs : List Binding}

/-- One operand is resolved exactly if it is no reference or means a label, and it becomes what it
means in the program. -/
theorem decides_resolveToken (hlabels : labels.Declares bs)
    (hbs : bs.Pairwise (·.address ≤ ·.address)) (index : Nat) (t : Token) :
    Decides (Binding.Resolvable bs index t)
      (fun result => result.1 = t.rewrite (Binding.meaning? bs index) ∧ result.2.Declares bs)
      (resolveToken labels index t) := by
  by_cases hkind : t.kind ≠ .operand
  · rw [resolveToken, if_pos hkind, Token.rewrite, Binding.meaning?, if_pos hkind]
    exact .ok (fun h => absurd h hkind) ⟨rfl, hlabels⟩
  have haddress := hlabels.address?_eq t.text
  rw [Labels.address?] at haddress
  rw [resolveToken, if_neg hkind, Token.rewrite, Binding.meaning?, if_neg hkind, ← haddress,
    Labels.useSymbol]
  cases hfind : labels.symbols.find? t.text with
  | some symbol =>
    refine .ok (fun _ hname => ?_) ⟨rfl, hlabels.mark_symbol _⟩
    rw [hfind, Binding.address?_eq_none_iff.2 hname] at haddress
    cases haddress
  | none =>
    rw [hfind, Option.map_none, eq_comm, Binding.address?_eq_none_iff] at haddress
    cases hreference : numericReference? t.text with
    | none =>
      refine .ok (fun _ _ digit direction href => ?_) ⟨rfl, hlabels⟩
      rw [numericReference?_eq_some_iff.2 href] at hreference
      cases hreference
    | some reference =>
      obtain ⟨digit, direction⟩ := reference
      have href := numericReference?_eq_some_iff.1 hreference
      have hrun := Labels.outcome_useNumeric hlabels hbs digit direction index
      simp only [Option.map_none, Option.bind_some]
      cases hnumeric : labels.useNumeric digit direction index with
      | error cause =>
        rw [hnumeric] at hrun
        obtain ⟨rfl, hnone⟩ := hrun.of_error
        refine .error (fun hresolvable => ?_) ?_
        swap
        · cases direction <;> simp [Diagnostic.atToken, Labels.notFound]
        obtain ⟨address, hmem, hsees⟩ :=
          hresolvable (not_not.1 hkind) haddress digit direction href
        rw [Direction.nearest?_eq_none_iff.1 hnone address hmem] at hsees
        cases hsees
      | ok result =>
        rw [hnumeric] at hrun
        obtain ⟨hnearest, hdeclares⟩ := hrun.of_ok
        rw [hnearest]
        refine .ok (fun _ _ digit' direction' href' => ?_) ⟨rfl, hdeclares⟩
        have hsame := (numericReference?_eq_some_iff.2 href').symm.trans hreference
        cases hsame
        exact ⟨_, Direction.sees_of_nearest? hnearest⟩

theorem resolveTokens_cons (labels : Labels) (index : Nat) (t : Token) (rest : List Token) :
    resolveTokens labels index (t :: rest) =
      resolveToken labels index t >>= fun result =>
        (resolveTokens result.2 index rest).map fun more => (result.1 :: more.1, more.2) := by
  rw [resolveTokens]
  cases resolveToken labels index t <;> rfl

/-- The operands of an instruction, one after the other.  Marks are set on the way, but the bindings
stay. -/
theorem decides_resolveTokens (hbs : bs.Pairwise (·.address ≤ ·.address)) (index : Nat)
    (tokens : List Token) :
    ∀ {labels : Labels}, labels.Declares bs →
      Decides (∀ t ∈ tokens, Binding.Resolvable bs index t)
        (fun result => result.1 = tokens.map (Token.rewrite (Binding.meaning? bs index)) ∧
          result.2.Declares bs)
        (resolveTokens labels index tokens) := by
  induction tokens with
  | nil => exact fun hlabels => .ok (List.forall_mem_nil _) ⟨rfl, hlabels⟩
  | cons t rest ih =>
    intro labels hlabels
    rw [resolveTokens_cons]
    refine (decides_resolveToken hlabels hbs index t).bind
      (fun hall => hall t List.mem_cons_self) fun result ht hresult => ?_
    refine Decides.congr ((ih hresult.2).map fun more hmore => ?_) ?_
    · rw [hresult.1, hmore.1]
      exact ⟨rfl, hmore.2⟩
    · rw [List.forall_mem_cons, and_iff_right ht]

theorem resolveFrom_cons (labels : Labels) (index : Nat) (i : Instruction)
    (rest : List Instruction) :
    resolveFrom labels index (i :: rest) =
      resolveTokens labels index i.operands >>= fun result =>
        (resolveFrom result.2 (index + 1) rest).map fun program =>
          { program with instructions := ⟨i.opcode, result.1⟩ :: program.instructions } := by
  rw [resolveFrom]
  cases resolveTokens labels index i.operands <;> rfl

theorem forall_getElem?_cons {α : Type} {P : Nat → α → Prop} {a : α} {as : List α} :
    (∀ n b, (a :: as)[n]? = some b → P n b) ↔ P 0 a ∧ ∀ n b, as[n]? = some b → P (n + 1) b := by
  constructor
  · exact fun h => ⟨h 0 a rfl, fun n b hb => h (n + 1) b hb⟩
  · rintro ⟨hzero, hsucc⟩ n b hb
    cases n with
    | zero =>
      cases hb
      exact hzero
    | succ n => exact hsucc n b hb

/-- The invariant of resolving: the state declares the bindings of the whole program, whatever has
been marked so far, so each instruction is resolved as if it were the first. -/
theorem decides_resolveFrom (hbs : bs.Pairwise (·.address ≤ ·.address))
    (instructions : List Instruction) :
    ∀ {labels : Labels} (index : Nat), labels.Declares bs →
      Decides
        (∀ n i, instructions[n]? = some i →
          ∀ t ∈ i.operands, Binding.Resolvable bs (index + n) t)
        (fun program => program.instructions =
            instructions.mapIdx (fun n i => i.rewrite (Binding.meaning? bs (index + n))) ∧
          program.labels.Declares bs)
        (resolveFrom labels index instructions) := by
  induction instructions with
  | nil => exact fun index hlabels => .ok (by simp) ⟨rfl, hlabels⟩
  | cons i rest ih =>
    intro labels index hlabels
    rw [resolveFrom_cons]
    refine (decides_resolveTokens hbs index i.operands hlabels).bind
      (fun hall => hall 0 i rfl) fun result hi hresult => ?_
    refine Decides.congr ((ih (index + 1) hresult.2).map fun program hprogram => ?_) ?_
    · rw [hprogram.1, hresult.1, List.mapIdx_cons]
      simp only [Nat.add_assoc, Nat.add_comm 1]
      exact ⟨rfl, hprogram.2⟩
    · rw [forall_getElem?_cons]
      simp only [Nat.add_zero, Nat.add_assoc, Nat.add_comm 1]
      exact (and_iff_right hi).symm

theorem resolve_eq (lines : List Line) :
    resolve lines =
      layOut lines >>= fun program => resolveFrom program.labels 0 program.instructions := by
  rw [resolve]
  cases layOut lines <;> rfl

/-- Laying out comes first and records all bindings, and then every instruction is resolved with
them. -/
theorem decides_resolve (lines : List Line) :
    Decides
      ((∀ line ∈ lines, ∀ t ∈ line, t.kind ≠ .unknown) ∧ (Binding.names (bindings lines)).Nodup ∧
        ∀ index i, (written lines)[index]? = some i →
          ∀ t ∈ i.operands, Binding.Resolvable (bindings lines) index t)
      (fun program => program.instructions = (written lines).mapIdx
          (fun index i => i.rewrite (Binding.meaning? (bindings lines) index)) ∧
        program.labels.Declares (bindings lines))
      (resolve lines) := by
  rw [resolve_eq]
  refine (decides_layOut lines).bind (fun h => ⟨h.1, h.2.1⟩) fun program hlaid hprogram => ?_
  rw [hprogram.1]
  have hdecides := decides_resolveFrom (pairwise_bindings lines) (written lines) 0 hprogram.2
  simp only [Nat.zero_add] at hdecides
  refine hdecides.congr ?_
  rw [← and_assoc, and_iff_right hlaid]

/-- **Resolution is correct.**  A program can be resolved exactly if it has no unknown word, no two
symbolic labels of one name, and every reference to a numeric label sees one.  Then its
instructions are those that are written, each operand replaced by what it means, and its labels
have the addresses at which they stand.  No fault is about the order of numeric labels. -/
theorem resolve_replaces_meanings (lines : List Line) :
    ((∃ program, resolve lines = .ok program) ↔
      (∀ line ∈ lines, ∀ t ∈ line, t.kind ≠ .unknown) ∧
      (Binding.names (bindings lines)).Nodup ∧
      ∀ index i, (written lines)[index]? = some i → ∀ t ∈ i.operands, t.kind = .operand →
        t.text ∉ Binding.names (bindings lines) → ∀ digit direction,
          IsNumericReference t.text digit direction →
            ∃ address ∈ Binding.addresses (bindings lines) digit,
              direction.sees index address = true) ∧
    (∀ program, resolve lines = .ok program →
      program.instructions = (written lines).mapIdx
        (fun index i => i.rewrite (Binding.meaning? (bindings lines) index)) ∧
      program.labels.Declares (bindings lines)) ∧
    ∀ fault, resolve lines = .error fault →
      ∀ digit earlier later, fault.cause ≠ .labelOrder digit earlier later := by
  have hdecides := decides_resolve lines
  refine ⟨hdecides.exists_ok_iff, fun program hprogram => ?_, fun fault hfault => ?_⟩
  · rw [hprogram] at hdecides
    exact hdecides.of_ok.2
  · rw [hfault] at hdecides
    exact hdecides.of_error.2

end Program
end CircuitRom
