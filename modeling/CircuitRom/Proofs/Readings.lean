import CircuitRom.Proofs.Agreement
import Mathlib.Data.List.Nodup

/-!
# What an instruction says

An operand is a register, a number, or a register with a number.  `OperandForm.Reads` lists the ways
in which an argument may stand for an operand in the place of each form, and `Instruction.Reads`
says that an instruction is an operation with certain operands.  Names are compared up to the case
of letters, a literal has to fit in a word, and no text is both the name of a register and a
literal.  So an instruction says at most one thing, and encoding accepts it exactly if it says one.
-/

namespace CircuitRom

open Text

/-! ## Names -/

/-- A search that can have only one result finds it. -/
theorem find?_eq_some_iff_of_unique {α : Type} {as : List α} {p : α → Bool} {a : α} (ha : a ∈ as)
    (hunique : ∀ b ∈ as, p b = true → p a = true → b = a) : as.find? p = some a ↔ p a = true := by
  constructor
  · exact fun h => List.find?_some h
  · intro hp
    cases h : as.find? p with
    | none => exact absurd hp (List.find?_eq_none.1 h a ha)
    | some b => rw [hunique b (List.mem_of_find?_eq_some h) (List.find?_some h) hp]

theorem foldCase_eq_of_sameLetters {a b text : String} (ha : sameLetters a text = true)
    (hb : sameLetters b text = true) : foldCase a = foldCase b :=
  (sameLetters_iff.1 ha).trans (sameLetters_iff.1 hb).symm

namespace Opcode

/-- No two mnemonics are the same up to case. -/
theorem nodup_names : (all.map fun op => foldCase op.name).Nodup := by decide

/-- A mnemonic is found exactly if it is written in some case. -/
theorem ofName?_eq_some_iff {text : String} {op : Opcode} :
    ofName? text = some op ↔ sameLetters op.name text = true := by
  refine find?_eq_some_iff_of_unique (mem_all op) fun other hother hletters hop => ?_
  exact List.inj_on_of_nodup_map nodup_names hother (mem_all op)
    (foldCase_eq_of_sameLetters hletters hop)

theorem eq_of_sameLetters {text : String} {op op' : Opcode} (h : sameLetters op.name text = true)
    (h' : sameLetters op'.name text = true) : op = op' :=
  Option.some.inj ((ofName?_eq_some_iff.2 h).symm.trans (ofName?_eq_some_iff.2 h'))

end Opcode

namespace Register

theorem mem_all (r : Register) : r ∈ all :=
  List.mem_map.2 ⟨r.number, List.mem_finRange _, rfl⟩

/-- No name belongs to two registers, in any case. -/
theorem eq_of_mem_names : ∀ r ∈ all, ∀ s ∈ all, ∀ name ∈ r.names, ∀ name' ∈ s.names,
    foldCase name = foldCase name' → r = s := by
  decide

/-- Different registers have different words. -/
theorem word_injective : Function.Injective word := by
  have hall : ∀ r ∈ all, ∀ s ∈ all, r.word = s.word → r = s := by decide
  exact fun r s => hall r (mem_all r) s (mem_all s)

end Register

namespace Token

/-- The token is a name of the register, in letters of either case. -/
def Names (t : Token) (r : Register) : Prop := ∃ name ∈ r.names, sameLetters name t.text = true

/-- The token is a literal whose value is that of the word. -/
def Denotes (t : Token) (value : Int32) : Prop := Literal.value? t.text = some value.toInt

theorem ofName?_eq_some_iff {t : Token} {r : Register} :
    Register.ofName? t.text = some r ↔ t.Names r := by
  rw [Register.ofName?, find?_eq_some_iff_of_unique (Register.mem_all r), List.any_eq_true]
  · rfl
  · intro s hs hletters hr
    obtain ⟨name, hname, hletters⟩ := List.any_eq_true.1 hletters
    obtain ⟨name', hname', hletters'⟩ := List.any_eq_true.1 hr
    exact Register.eq_of_mem_names s hs r (Register.mem_all r) name hname name' hname'
      (foldCase_eq_of_sameLetters hletters hletters')

theorem Names.unique {t : Token} {r s : Register} (hr : t.Names r) (hs : t.Names s) : r = s :=
  Option.some.inj ((ofName?_eq_some_iff.2 hr).symm.trans (ofName?_eq_some_iff.2 hs))

end Token

/-! ## Literals -/

namespace Literal

theorem inRange_toInt (value : Int32) : inRange value.toInt = true := by
  have hlow := Int32.le_toInt value
  have hhigh := Int32.toInt_lt value
  simp only [inRange, Bool.and_eq_true, decide_eq_true_eq]
  omega

/-- A literal is read exactly if it has a value, and the value is in range. -/
theorem parse_eq_ok_iff {text : String} {value : Int32} :
    parse text = .ok value ↔ value? text = some value.toInt := by
  rw [parse]
  cases hvalue : value? text with
  | none => simp
  | some n =>
    by_cases hrange : inRange n = true
    · have hbounds := hrange
      simp only [inRange, Bool.and_eq_true, decide_eq_true_eq] at hbounds
      have hint : (Int32.ofInt n).toInt = n :=
        Int32.toInt_ofInt_of_le (by omega) (by omega)
      simp only [hrange, if_true, Except.ok.injEq, Option.some.injEq]
      constructor
      · rintro rfl
        exact hint.symm
      · rintro rfl
        exact Int32.ofInt_toInt value
    · simp only [hrange, Bool.false_eq_true, if_false, reduceCtorEq, false_iff,
        Option.some.injEq]
      rintro rfl
      exact hrange (inRange_toInt value)

theorem toLower_eq_minus_iff {c : Char} : c.toLower = '-' ↔ c = '-' := by
  constructor
  · intro h
    unfold Char.toLower at h
    split at h
    · next hcapital =>
      -- a capital becomes a letter
      have hcode := congrArg Char.toNat h
      rw [ge_iff_le, UInt32.le_iff_toNat_le, UInt32.le_iff_toNat_le] at hcapital
      simp only [show 'A'.val.toNat = 65 from rfl, show 'Z'.val.toNat = 90 from rfl] at hcapital
      simp only [Char.toNat, UInt32.toNat_add, show ('a'.val - 'A'.val).toNat = 32 from rfl,
        show '-'.val.toNat = 45 from rfl] at hcode
      omega
    · exact h
  · rintro rfl
    rfl

theorem splitSign_map_toLower (cs : List Char) :
    splitSign (cs.map Char.toLower) = ((splitSign cs).1, (splitSign cs).2.map Char.toLower) := by
  cases cs with
  | nil => rfl
  | cons c rest =>
    by_cases hminus : c = '-'
    · rw [hminus]
      rfl
    · have hlower : c.toLower ≠ '-' := mt toLower_eq_minus_iff.1 hminus
      have hplain : ∀ (d : Char) (ds : List Char), d ≠ '-' →
          splitSign (d :: ds) = (false, d :: ds) := by
        intro d ds hd
        rw [splitSign]
        rintro rest' ⟨⟩
        exact hd rfl
      rw [List.map_cons, hplain _ _ hlower, hplain _ _ hminus]
      rfl

/-- The value of a literal does not depend on the case of its letters. -/
theorem value?_congr {a b : String} (h : foldCase a = foldCase b) : value? a = value? b := by
  have hsplit := splitSign_map_toLower a.toList
  rw [← foldCase, h, foldCase, splitSign_map_toLower, Prod.mk.injEq] at hsplit
  simp only [value?, hsplit]

end Literal

namespace Token

/-- A token is read as a number exactly if it denotes it. -/
theorem immediate_eq_ok_iff {t : Token} {value : Int32} :
    t.immediate = .ok value ↔ t.Denotes value := by
  rw [Denotes, ← Literal.parse_eq_ok_iff, immediate]
  cases Literal.parse t.text with
  | ok value' => simp
  | error fault => cases fault <;> simp

/-- A token is read as a register exactly if it names it. -/
theorem register_eq_ok_iff {t : Token} {word : Int32} :
    t.register = .ok word ↔ ∃ r, t.Names r ∧ r.word = word := by
  simp only [← ofName?_eq_some_iff, register]
  cases Register.ofName? t.text <;> simp

/-- The name of a register is no literal. -/
theorem Names.not_denotes {t : Token} {r : Register} (h : t.Names r) (value : Int32) :
    ¬t.Denotes value := by
  have hnames : ∀ r ∈ Register.all, ∀ name ∈ r.names, Literal.value? name = none := by decide
  obtain ⟨name, hname, hletters⟩ := h
  rw [Denotes, ← Literal.value?_congr (sameLetters_iff.1 hletters),
    hnames r (Register.mem_all r) name hname]
  exact nofun

theorem Denotes.unique {t : Token} {v w : Int32} (hv : t.Denotes v) (hw : t.Denotes w) : v = w :=
  Int32.toInt_inj.1 (Option.some.inj (hv.symm.trans hw))

/-- A token is read as a register if it names one, and as a number otherwise.  It cannot be both. -/
theorem registerOrImmediate_eq_ok_iff {t : Token} {reg imm : Template} {signals : Signals} :
    t.registerOrImmediate reg imm = .ok signals ↔
      (∃ r, t.Names r ∧ reg.fill r.word = signals) ∨
        ∃ value, t.Denotes value ∧ imm.fill value = signals := by
  rw [registerOrImmediate]
  cases hname : Register.ofName? t.text with
  | some r =>
    have hr := ofName?_eq_some_iff.1 hname
    simp only [Except.ok.injEq]
    constructor
    · exact fun h => .inl ⟨r, hr, h⟩
    · rintro (⟨s, hs, rfl⟩ | ⟨value, hvalue, -⟩)
      · rw [hr.unique hs]
      · exact absurd hvalue (hr.not_denotes value)
  | none =>
    have hnot : ∀ r, ¬t.Names r := by
      intro r hr
      rw [ofName?_eq_some_iff.2 hr] at hname
      cases hname
    simp only [hnot, false_and, exists_false, false_or, Denotes, ← Literal.parse_eq_ok_iff]
    cases Literal.parse t.text with
    | ok value => simp
    | error fault => cases fault <;> simp

end Token

/-! ## Operands -/

/-- What an argument stands for. -/
inductive Operand
  /-- A register. -/
  | register (r : Register)
  /-- A number. -/
  | number (value : Int32)
  /-- A base register and an offset. -/
  | both (base : Register) (offset : Int32)
deriving DecidableEq, Repr

namespace OperandForm

/-- The argument stands for the operand in the place of an operand of the form. -/
inductive Reads : OperandForm → Argument → Operand → Prop
  | register {reg : Template} {t : Token} {r : Register} :
      t.Names r → Reads (.register reg) (.single t) (.register r)
  | immediate {imm : Template} {t : Token} {value : Int32} :
      t.Denotes value → Reads (.immediate imm) (.single t) (.number value)
  | eitherRegister {reg imm : Template} {t : Token} {r : Register} :
      t.Names r → Reads (.either reg imm) (.single t) (.register r)
  | eitherNumber {reg imm : Template} {t : Token} {value : Int32} :
      t.Denotes value → Reads (.either reg imm) (.single t) (.number value)
  | base {reg imm : Template} {bracket t : Token} {r : Register} :
      t.Names r → Reads (.address reg imm) (.group bracket [t]) (.register r)
  | offset {reg imm : Template} {bracket t : Token} {value : Int32} :
      t.Denotes value → Reads (.address reg imm) (.group bracket [t]) (.number value)
  | baseOffset {reg imm : Template} {bracket t u : Token} {r : Register} {value : Int32} :
      t.Names r → u.Denotes value →
        Reads (.address reg imm) (.group bracket [t, u]) (.both r value)

/-- An argument can be read in one way only. -/
theorem Reads.unique {form : OperandForm} {argument : Argument} {x y : Operand}
    (hx : form.Reads argument x) (hy : form.Reads argument y) : x = y := by
  cases hx with
  | register hr =>
    cases hy with
    | register hs => rw [hr.unique hs]
  | immediate hv =>
    cases hy with
    | immediate hw => rw [hv.unique hw]
  | eitherRegister hr =>
    cases hy with
    | eitherRegister hs => rw [hr.unique hs]
    | eitherNumber hw => exact absurd hw (hr.not_denotes _)
  | eitherNumber hv =>
    cases hy with
    | eitherRegister hs => exact absurd hv (hs.not_denotes _)
    | eitherNumber hw => rw [hv.unique hw]
  | base hr =>
    cases hy with
    | base hs => rw [hr.unique hs]
    | offset hw => exact absurd hw (hr.not_denotes _)
  | offset hv =>
    cases hy with
    | base hs => exact absurd hv (hs.not_denotes _)
    | offset hw => rw [hv.unique hw]
  | baseOffset hr hv =>
    cases hy with
    | baseOffset hs hw => rw [hr.unique hs, hv.unique hw]

/-- The arguments stand for the operands, one for one, in the places of the forms. -/
inductive ReadsAll : List OperandForm → List Argument → List Operand → Prop
  | nil : ReadsAll [] [] []
  | cons {form : OperandForm} {forms : List OperandForm} {argument : Argument}
      {arguments : List Argument} {x : Operand} {xs : List Operand} :
      form.Reads argument x → ReadsAll forms arguments xs →
        ReadsAll (form :: forms) (argument :: arguments) (x :: xs)

theorem ReadsAll.unique {forms : List OperandForm} {arguments : List Argument} {xs : List Operand}
    (hxs : ReadsAll forms arguments xs) :
    ∀ {ys : List Operand}, ReadsAll forms arguments ys → xs = ys := by
  induction hxs with
  | nil =>
    intro ys hys
    cases hys
    rfl
  | cons hx _ ih =>
    intro ys hys
    cases hys with
    | cons hy hrest => rw [hx.unique hy, ih hrest]

theorem ReadsAll.length_eq {forms : List OperandForm} {arguments : List Argument}
    {xs : List Operand} (h : ReadsAll forms arguments xs) : arguments.length = forms.length := by
  induction h with
  | nil => rfl
  | cons _ _ ih => rw [List.length_cons, List.length_cons, ih]

end OperandForm

/-- The instruction is the operation with the operands. -/
structure Instruction.Reads (i : Instruction) (op : Opcode) (operands : List Operand) : Prop where
  opcode : sameLetters op.name i.opcode.text = true
  operands : ∃ arguments, Argument.extract i.operands = .ok arguments ∧
    OperandForm.ReadsAll op.operands arguments operands

/-- An instruction has one reading: its mnemonic and its operands are determined. -/
theorem Instruction.Reads.unique {i : Instruction} {op op' : Opcode} {xs ys : List Operand}
    (hx : i.Reads op xs) (hy : i.Reads op' ys) : op = op' ∧ xs = ys := by
  obtain rfl := Opcode.eq_of_sameLetters hx.opcode hy.opcode
  obtain ⟨arguments, harguments, hxs⟩ := hx.operands
  obtain ⟨arguments', harguments', hys⟩ := hy.operands
  obtain rfl := Except.ok.inj (harguments.symm.trans harguments')
  exact ⟨rfl, hxs.unique hys⟩

end CircuitRom
