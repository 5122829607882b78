import CircuitRom.Macro
import CircuitRom.Proofs.Numerals
import Mathlib.Data.List.Chain
import Mathlib.Data.List.Induction

/-!
# Lines that fence declarations

The lines headed by `#macro` and `#endm` are the fences of declarations.  What a program has to look
like for its declarations to be found is said here of the whole program: its fences alternate, each
declaration has a proper first line and a name of its own, and no symbolic label stands between its
fences.  A search that goes from line to line sees only what stands before a line.  The two views
agree: a program is well declared exactly when each of its lines is admitted after the lines before
it and the last fence closes.
-/

namespace CircuitRom

/-- The two fences of a declaration. -/
inductive Fence
  /-- The first line, headed by `#macro`. -/
  | opening
  /-- The last line, headed by `#endm`. -/
  | closing
deriving DecidableEq, Repr

namespace Line

/-- The fence that a line is. -/
def fence? (line : Line) : Option Fence :=
  if line.isHeadedBy "#macro" then some .opening
  else if line.isHeadedBy "#endm" then some .closing
  else none

/-- The name that a line declares. -/
def declaredName? (l : Line) : Option String :=
  if l.isHeadedBy "#macro" then l[1]?.map (·.text) else none

variable {line : Line}

theorem fence?_eq_opening_iff : line.fence? = some .opening ↔ line.isHeadedBy "#macro" = true := by
  unfold fence?
  split
  · next h => simp [h]
  · next h => split <;> simp [h]

/-- A line that is headed both ways would count as an opening one, so a closing one has to exclude
that. -/
theorem fence?_eq_closing_iff :
    line.fence? = some .closing ↔
      line.isHeadedBy "#macro" = false ∧ line.isHeadedBy "#endm" = true := by
  unfold fence?
  split
  · next h => simp [h]
  · next h =>
    split
    · next h' => simp [h, h']
    · next h' => simp [h']

theorem fence?_eq_none_iff :
    line.fence? = none ↔ line.isHeadedBy "#macro" = false ∧ line.isHeadedBy "#endm" = false := by
  unfold fence?
  split
  · next h => simp [h]
  · next h =>
    split
    · next h' => simp [h']
    · next h' => simp [h, h']

theorem declaredName?_eq_none (h : line.fence? ≠ some .opening) : line.declaredName? = none := by
  rw [declaredName?, if_neg (mt fence?_eq_opening_iff.2 h)]

theorem declaredName?_eq_some {head name count : Token}
    (h : Line.fence? [head, name, count] = some .opening) :
    declaredName? [head, name, count] = some name.text := by
  rw [declaredName?, if_pos (fence?_eq_opening_iff.1 h)]
  rfl

end Line

namespace Declarations

variable {lines before after : List Line} {line : Line}

/-! ## Fences in order and by position -/

/-- The fences among the lines, in order. -/
def fences (lines : List Line) : List Fence := lines.filterMap Line.fence?

/-- The fence at a position. -/
def fenceAt (lines : List Line) (i : Nat) : Option Fence := lines[i]?.bind Line.fence?

/-- The names that the lines declare, in order. -/
def declaredNames (lines : List Line) : List String := lines.filterMap Line.declaredName?

theorem fences_append : fences (before ++ after) = fences before ++ fences after :=
  List.filterMap_append

theorem fences_cons : fences (line :: after) = line.fence?.toList ++ fences after := by
  cases h : line.fence? <;> simp [fences, h]

theorem head?_fences_cons {f : Fence} (h : line.fence? = some f) :
    (fences (line :: after)).head? = some f := by
  rw [fences_cons, h]
  rfl

theorem fences_concat : fences (before ++ [line]) = fences before ++ line.fence?.toList := by
  rw [fences_append, fences_cons]
  exact congrArg _ (List.append_nil _)

theorem declaredNames_concat :
    declaredNames (before ++ [line]) = declaredNames before ++ line.declaredName?.toList := by
  rw [declaredNames, List.filterMap_append]
  cases h : line.declaredName? <;> simp [declaredNames, h]

theorem fenceAt_of_getElem? {i : Nat} (h : lines[i]? = some line) :
    fenceAt lines i = line.fence? := by
  rw [fenceAt, h]
  rfl

theorem lt_length_of_fenceAt {i : Nat} {f : Fence} (h : fenceAt lines i = some f) :
    i < lines.length := by
  obtain ⟨line, hline, -⟩ := Option.bind_eq_some_iff.1 h
  exact (List.getElem?_eq_some_iff.1 hline).1

theorem fenceAt_append_left {i : Nat} (h : i < before.length) (after : List Line) :
    fenceAt (before ++ after) i = fenceAt before i := by
  rw [fenceAt, fenceAt, List.getElem?_append_left h]

theorem fenceAt_append_right (before : List Line) {i : Nat} (h : before.length ≤ i) :
    fenceAt (before ++ after) i = fenceAt after (i - before.length) := by
  rw [fenceAt, fenceAt, List.getElem?_append_right h]

theorem fenceAt_concat_length : fenceAt (before ++ [line]) before.length = line.fence? := by
  rw [fenceAt_append_right before (Nat.le_refl _), Nat.sub_self]
  rfl

theorem fenceAt_of_length_le {i : Nat} (h : lines.length ≤ i) : fenceAt lines i = none := by
  rw [fenceAt, List.getElem?_eq_none h]
  rfl

theorem fenceAt_concat_of_lt {i : Nat} (h : before.length < i) :
    fenceAt (before ++ [line]) i = none :=
  fenceAt_of_length_le (by rw [List.length_append, List.length_singleton]; omega)

/-- A fence of the lines with one more is a fence of the lines or that one. -/
theorem fenceAt_concat_eq_some {i : Nat} {f : Fence} (h : fenceAt (before ++ [line]) i = some f) :
    fenceAt before i = some f ∨ i = before.length ∧ line.fence? = some f := by
  rcases Nat.lt_trichotomy i before.length with hlt | rfl | hgt
  · rw [fenceAt_append_left hlt] at h
    exact .inl h
  · rw [fenceAt_concat_length] at h
    exact .inr ⟨rfl, h⟩
  · rw [fenceAt_concat_of_lt hgt] at h
    cases h

/-- A line that is no fence adds none. -/
theorem fenceAt_concat_of_none (hline : line.fence? = none) (i : Nat) :
    fenceAt (before ++ [line]) i = fenceAt before i := by
  by_cases hlt : i < before.length
  · exact fenceAt_append_left hlt [line]
  · rw [fenceAt_of_length_le (Nat.not_lt.1 hlt), Option.eq_none_iff_forall_ne_some]
    intro f hf
    rcases fenceAt_concat_eq_some hf with hbefore | ⟨-, hf⟩
    · exact hlt (lt_length_of_fenceAt hbefore)
    · rw [hline] at hf
      cases hf

/-- The last fence, by position. -/
theorem getLast?_fences_eq_some_iff {f : Fence} :
    (fences lines).getLast? = some f ↔
      ∃ i, fenceAt lines i = some f ∧ ∀ j, i < j → fenceAt lines j = none := by
  induction lines using List.reverseRecOn with
  | nil => simp [fences, fenceAt]
  | append_singleton before line ih =>
    rw [fences_concat]
    cases hline : line.fence? with
    | none =>
      rw [Option.toList_none, List.append_nil, ih]
      simp only [fenceAt_concat_of_none hline]
    | some g =>
      rw [Option.toList_some, List.getLast?_concat, Option.some.injEq]
      constructor
      · rintro rfl
        exact ⟨before.length, by rw [fenceAt_concat_length, hline], fun j => fenceAt_concat_of_lt⟩
      · rintro ⟨i, hi, hnone⟩
        rcases fenceAt_concat_eq_some hi with hbefore | ⟨-, hi⟩
        · have hlast := hnone before.length (lt_length_of_fenceAt hbefore)
          rw [fenceAt_concat_length, hline] at hlast
          cases hlast
        · rw [hline] at hi
          exact Option.some.inj hi

/-- The first fence, by position. -/
theorem exists_of_head?_fences {f : Fence} (h : (fences lines).head? = some f) :
    ∃ i, fenceAt lines i = some f ∧ ∀ j < i, fenceAt lines j = none := by
  induction lines with
  | nil => cases h
  | cons line lines ih =>
    cases hline : line.fence? with
    | some g =>
      rw [fences_cons, hline] at h
      exact ⟨0, hline.trans h, fun j hj => absurd hj (Nat.not_lt_zero j)⟩
    | none =>
      rw [fences_cons, hline] at h
      obtain ⟨i, hi, hnone⟩ := ih h
      refine ⟨i + 1, hi, fun j hj => ?_⟩
      cases j with
      | zero => exact hline
      | succ j => exact hnone j (by omega)

/-! ## Well-declared programs -/

/-- The lines from `first` to `last` are a declaration: fences at both ends, and none between. -/
structure IsDeclaration (lines : List Line) (first last : Nat) : Prop where
  lt : first < last
  opening : fenceAt lines first = some .opening
  closing : fenceAt lines last = some .closing
  inner : ∀ i, first < i → i < last → fenceAt lines i = none

/-- A declaration ends at the first fence behind its opening, so it has one end. -/
theorem IsDeclaration.last_unique {first last last' : Nat} (h : IsDeclaration lines first last)
    (h' : IsDeclaration lines first last') : last = last' := by
  rcases Nat.lt_trichotomy last last' with hlt | heq | hgt
  · have hnone := h'.inner last h.lt hlt
    rw [h.closing] at hnone
    cases hnone
  · exact heq
  · have hnone := h.inner last' h'.lt hgt
    rw [h'.closing] at hnone
    cases hnone

theorem IsDeclaration.append {first last : Nat} (h : IsDeclaration before first last)
    (after : List Line) : IsDeclaration (before ++ after) first last := by
  have hlast := lt_length_of_fenceAt h.closing
  have hfirst := h.lt
  refine ⟨hfirst, ?_, ?_, fun i hi hi' => ?_⟩
  · rw [fenceAt_append_left (by omega), h.opening]
  · rw [fenceAt_append_left hlast, h.closing]
  · rw [fenceAt_append_left (by omega), h.inner i hi hi']

/-- The fences alternate, from a first that opens to a last that closes.  A line that opens a
declaration consists of the directive, a name that no line before it declares, and a count.  No line
between the fences of a declaration has a symbolic label. -/
structure WellDeclared (lines : List Line) : Prop where
  alternate : (fences lines).IsChain (· ≠ ·)
  start : ∀ f ∈ (fences lines).head?, f = .opening
  stop : ∀ f ∈ (fences lines).getLast?, f = .closing
  header : ∀ line ∈ lines, line.fence? = some .opening →
    ∃ head name count n, line = [head, name, count] ∧ Text.WritesCount count.text n
  fresh : (declaredNames lines).Nodup
  plain : ∀ first last, IsDeclaration lines first last → ∀ i line, first < i → i < last →
    lines[i]? = some line → ∀ token ∈ line, token.kind ≠ .symbolic

/-- The line may stand behind the lines before it.  It opens a declaration only if none is open, it
closes one only if one is, and inside of one it has no symbolic label. -/
structure Admits (before : List Line) (line : Line) : Prop where
  opening : line.fence? = some .opening → (fences before).getLast? ≠ some .opening ∧
    ∃ head name count n, line = [head, name, count] ∧ name.text ∉ declaredNames before ∧
      Text.WritesCount count.text n
  closing : line.fence? = some .closing → (fences before).getLast? = some .opening
  plain : line.fence? = none → (fences before).getLast? = some .opening →
    ∀ token ∈ line, token.kind ≠ .symbolic

/-- Every line may stand behind the lines before it. -/
def AllAdmitted (lines : List Line) : Prop :=
  ∀ i line, lines[i]? = some line → Admits (lines.take i) line

theorem allAdmitted_nil : AllAdmitted [] := by
  intro i line hline
  cases hline

/-- Lines are admitted one at a time, each by those before it. -/
theorem allAdmitted_concat :
    AllAdmitted (before ++ [line]) ↔ AllAdmitted before ∧ Admits before line := by
  constructor
  · intro h
    constructor
    · intro i l hl
      have hlt := (List.getElem?_eq_some_iff.1 hl).1
      have hadmits := h i l (by rw [List.getElem?_append_left hlt, hl])
      rwa [List.take_append_of_le_length (by omega)] at hadmits
    · have hadmits := h before.length line List.getElem?_concat_length
      rwa [List.take_left] at hadmits
  · rintro ⟨hbefore, hline⟩ i l hl
    rcases Nat.lt_trichotomy i before.length with hlt | rfl | hgt
    · rw [List.getElem?_append_left hlt] at hl
      rw [List.take_append_of_le_length (by omega)]
      exact hbefore i l hl
    · rw [List.getElem?_concat_length, Option.some.injEq] at hl
      rw [List.take_left, ← hl]
      exact hline
    · have hlt := (List.getElem?_eq_some_iff.1 hl).1
      rw [List.length_append, List.length_singleton] at hlt
      omega

/-! ## From line to line -/

/-- Fences that are admitted alternate. -/
theorem isChain_fences (h : AllAdmitted lines) : (fences lines).IsChain (· ≠ ·) := by
  induction lines using List.reverseRecOn with
  | nil => exact .nil
  | append_singleton before line ih =>
    obtain ⟨hbefore, hline⟩ := allAdmitted_concat.1 h
    rw [fences_concat, List.isChain_append]
    refine ⟨ih hbefore, ?_, ?_⟩
    · cases line.fence? with
      | none => exact .nil
      | some f => exact .singleton f
    · cases hfence : line.fence? with
      | none => simp
      | some f =>
        rintro g hg f' ⟨⟩ rfl
        cases g with
        | opening => exact (hline.opening hfence).1 hg
        | closing =>
          have hlast := hline.closing hfence
          rw [hlast] at hg
          cases hg

theorem head?_fences (h : AllAdmitted lines) : ∀ f ∈ (fences lines).head?, f = .opening := by
  induction lines using List.reverseRecOn with
  | nil => simp [fences]
  | append_singleton before line ih =>
    obtain ⟨hbefore, hline⟩ := allAdmitted_concat.1 h
    intro f hf
    rw [fences_concat] at hf
    cases hfirst : fences before with
    | cons g rest =>
      rw [hfirst] at hf
      exact ih hbefore f (by rw [hfirst]; exact hf)
    | nil =>
      rw [hfirst, List.nil_append] at hf
      cases hfence : line.fence? with
      | none => rw [hfence] at hf; cases hf
      | some g =>
        rw [hfence] at hf
        cases hf
        cases f with
        | opening => rfl
        | closing =>
          have hlast := hline.closing hfence
          rw [hfirst] at hlast
          cases hlast

/-- No name is declared twice, because a line that repeats one is not admitted. -/
theorem nodup_declaredNames (h : AllAdmitted lines) : (declaredNames lines).Nodup := by
  induction lines using List.reverseRecOn with
  | nil => exact .nil
  | append_singleton before line ih =>
    obtain ⟨hbefore, hline⟩ := allAdmitted_concat.1 h
    rw [declaredNames_concat]
    by_cases hfence : line.fence? = some .opening
    · obtain ⟨-, head, name, count, -, rfl, hfresh, -⟩ := hline.opening hfence
      rw [Line.declaredName?_eq_some hfence, Option.toList_some]
      refine List.nodup_append.2 ⟨ih hbefore, List.pairwise_singleton _ _, fun a ha b hb hab => ?_⟩
      rw [hab, List.mem_singleton.1 hb] at ha
      exact hfresh ha
    · rw [Line.declaredName?_eq_none hfence, Option.toList_none, List.append_nil]
      exact ih hbefore

/-- Between its fences a line of a declaration sees the first of them as the last one before it. -/
theorem IsDeclaration.getLast?_take {first last i : Nat} (h : IsDeclaration lines first last)
    (hfirst : first < i) (hlast : i < last) :
    (fences (lines.take i)).getLast? = some .opening := by
  have htake : ∀ j, fenceAt (lines.take i) j = if j < i then fenceAt lines j else none := by
    intro j
    rw [fenceAt, fenceAt, List.getElem?_take]
    split <;> rfl
  refine getLast?_fences_eq_some_iff.2 ⟨first, ?_, fun j hj => ?_⟩
  · rw [htake, if_pos hfirst, h.opening]
  · rw [htake]
    split
    · exact h.inner j hj (by omega)
    · rfl

/-- If all lines are admitted and the last fence closes, the program is well declared. -/
theorem wellDeclared_of_allAdmitted (h : AllAdmitted lines)
    (hlast : (fences lines).getLast? ≠ some .opening) : WellDeclared lines where
  alternate := isChain_fences h
  start := head?_fences h
  stop := by
    intro f hf
    cases f with
    | opening => exact absurd hf hlast
    | closing => rfl
  header := by
    intro line hline hfence
    obtain ⟨i, hi⟩ := List.mem_iff_getElem?.1 hline
    obtain ⟨-, head, name, count, n, hheader, -, hcount⟩ := (h i line hi).opening hfence
    exact ⟨head, name, count, n, hheader, hcount⟩
  fresh := nodup_declaredNames h
  plain := by
    intro first last hdeclaration i line hfirst hlast' hline
    have hfence := hdeclaration.inner i hfirst hlast'
    rw [fenceAt_of_getElem? hline] at hfence
    exact (h i line hline).plain hfence (hdeclaration.getLast?_take hfirst hlast')

/-! ## And back -/

namespace WellDeclared

theorem getLast?_ne_opening (h : WellDeclared lines) :
    (fences lines).getLast? ≠ some .opening := by
  intro hlast
  cases h.stop .opening hlast

/-- The fences on both sides of a cut are different. -/
theorem ne_of_getLast?_of_head? (h : WellDeclared (before ++ after)) {f g : Fence}
    (hf : (fences before).getLast? = some f) (hg : (fences after).head? = some g) : f ≠ g := by
  have hchain := h.alternate
  rw [fences_append, List.isChain_append] at hchain
  exact hchain.2.2 f hf g hg

/-- A declaration that is open at a line is closed behind it. -/
theorem exists_isDeclaration (h : WellDeclared (before ++ line :: after))
    (hline : line.fence? = none) (hopen : (fences before).getLast? = some .opening) :
    ∃ first last, IsDeclaration (before ++ line :: after) first last ∧ first < before.length ∧
      before.length < last := by
  have hafter : fences (line :: after) = fences after := by
    rw [fences_cons, hline]
    rfl
  obtain ⟨first, hfirst, hnone⟩ := getLast?_fences_eq_some_iff.1 hopen
  have hfirstlt := lt_length_of_fenceAt hfirst
  -- the next fence exists, since the last one closes, and it differs from the one that opens
  have hf : (fences after).head? = some .closing := by
    cases hnext : (fences after).head? with
    | none =>
      have hlast := h.getLast?_ne_opening
      rw [fences_append, hafter, List.head?_eq_none_iff.1 hnext, List.append_nil] at hlast
      exact absurd hopen hlast
    | some f =>
      rw [← hafter] at hnext
      have hne := h.ne_of_getLast?_of_head? hopen hnext
      cases f with
      | opening => exact absurd rfl hne
      | closing => rfl
  obtain ⟨j, hj, hbefore⟩ := exists_of_head?_fences hf
  have hbehind : ∀ k, fenceAt (before ++ line :: after) (before.length + 1 + k) =
      fenceAt after k := by
    intro k
    rw [fenceAt_append_right before (by omega), Nat.add_assoc, Nat.add_sub_cancel_left,
      Nat.add_comm]
    rfl
  refine ⟨first, before.length + 1 + j, ⟨by omega, ?_, ?_, ?_⟩, hfirstlt, by omega⟩
  · rw [fenceAt_append_left hfirstlt, hfirst]
  · rw [hbehind, hj]
  · intro i hi hi'
    rcases Nat.lt_trichotomy i before.length with hlt | rfl | hgt
    · rw [fenceAt_append_left hlt, hnone i hi]
    · rw [fenceAt_append_right before (Nat.le_refl _), Nat.sub_self]
      exact hline
    · obtain ⟨k, rfl⟩ : ∃ k, i = before.length + 1 + k := ⟨i - before.length - 1, by omega⟩
      rw [hbehind, hbefore k (by omega)]

/-- In a program that is well declared each line is admitted by the lines before it. -/
theorem admits (h : WellDeclared (before ++ line :: after)) : Admits before line where
  opening := by
    intro hfence
    obtain ⟨head, name, count, n, rfl, hcount⟩ := h.header line (by simp) hfence
    refine ⟨fun hlast => ?_, head, name, count, n, rfl, fun hmem => ?_, hcount⟩
    · exact h.ne_of_getLast?_of_head? hlast (head?_fences_cons hfence) rfl
    · have hfresh := h.fresh
      rw [declaredNames, List.filterMap_append,
        List.filterMap_cons_some (Line.declaredName?_eq_some hfence), List.nodup_append] at hfresh
      exact hfresh.2.2 _ hmem _ List.mem_cons_self rfl
  closing := by
    intro hfence
    cases hlast : (fences before).getLast? with
    | none =>
      have hstart := h.start .closing
      rw [fences_append, List.getLast?_eq_none_iff.1 hlast] at hstart
      cases hstart (head?_fences_cons hfence)
    | some f =>
      have hne := h.ne_of_getLast?_of_head? hlast (head?_fences_cons hfence)
      cases f with
      | opening => rfl
      | closing => exact absurd rfl hne
  plain := by
    intro hfence hopen
    obtain ⟨first, last, hdeclaration, hfirst, hlast⟩ := h.exists_isDeclaration hfence hopen
    exact h.plain first last hdeclaration before.length line hfirst hlast (by simp)

end WellDeclared

/-- Being well declared, which is said of the whole program, is the same as reading it line by line.
-/
theorem wellDeclared_iff :
    WellDeclared lines ↔ AllAdmitted lines ∧ (fences lines).getLast? ≠ some .opening := by
  constructor
  · intro h
    refine ⟨fun i line hline => ?_, h.getLast?_ne_opening⟩
    obtain ⟨hlt, rfl⟩ := List.getElem?_eq_some_iff.1 hline
    have hsplit : lines.take i ++ lines[i] :: lines.drop (i + 1) = lines := by
      rw [List.getElem_cons_drop, List.take_append_drop]
    rw [← hsplit] at h
    exact h.admits
  · rintro ⟨hall, hlast⟩
    exact wellDeclared_of_allAdmitted hall hlast

end Declarations
end CircuitRom
