import CircuitRom.Proofs.Resolution
import Mathlib.Data.List.Pairwise
import Mathlib.Order.Bounds.Basic

/-!
# Searching for numeric labels

Labels may be declared at any addresses and in any order, with searches in between.  A search for a
digit first looks at the order of its declarations: if an address descends, the first descent is the
fault.  Otherwise looking back finds the greatest address that is not after the index, and uses the
last declaration there; looking forward finds the least address after the index, and uses the first
declaration there.  Nothing else changes.
-/

namespace CircuitRom

/-! ## What a search means -/

/-- The digit's declaration at a position is the one that is meant from an index.  Looking back it
is the last of those with the greatest address that is not after the index, and looking forward the
first of those with the least address after it. -/
def Direction.Means (declared : List (Char × Nat)) (digit : Char) (index position address : Nat) :
    Direction → Prop
  | back =>
    IsGreatest {a | (digit, a) ∈ declared ∧ a ≤ index} address ∧
      IsGreatest {p | declared[p]? = some (digit, address)} position
  | forward =>
    IsLeast {a | (digit, a) ∈ declared ∧ index < a} address ∧
      IsLeast {p | declared[p]? = some (digit, address)} position

/-- The addresses at which a digit is declared, in order. -/
def addressesOf (declared : List (Char × Nat)) (digit : Char) : List Nat :=
  (declared.filter (·.1 == digit)).map (·.2)

theorem mem_addressesOf {declared : List (Char × Nat)} {digit : Char} {a : Nat} :
    a ∈ addressesOf declared digit ↔ (digit, a) ∈ declared := by
  simp only [addressesOf, List.mem_map, List.mem_filter, beq_iff_eq, Prod.exists]
  constructor
  · rintro ⟨_, _, ⟨hmem, rfl⟩, rfl⟩
    exact hmem
  · exact fun hmem => ⟨digit, a, ⟨hmem, rfl⟩, rfl⟩

/-- The positions at which a digit is declared at an address. -/
def positionsOf (declared : List (Char × Nat)) (digit : Char) (address : Nat) : List Nat :=
  (declared.zipIdx.filter (·.1 == (digit, address))).map (·.2)

theorem mem_positionsOf {declared : List (Char × Nat)} {digit : Char} {address p : Nat} :
    p ∈ positionsOf declared digit address ↔ declared[p]? = some (digit, address) := by
  simp only [positionsOf, List.mem_map, List.mem_filter, beq_iff_eq, Prod.exists,
    List.mk_mem_zipIdx_iff_getElem?]
  constructor
  · rintro ⟨_, _, _, ⟨hget, ⟨⟩⟩, rfl⟩
    exact hget
  · exact fun hget => ⟨digit, address, p, ⟨hget, rfl⟩, rfl⟩

theorem isGreatest_iff_max? {P : Nat → Prop} {ns : List Nat} (h : ∀ n, P n ↔ n ∈ ns) {n : Nat} :
    IsGreatest {n | P n} n ↔ ns.max? = some n := by
  rw [List.max?_eq_some_iff]
  simp only [IsGreatest, upperBounds, Set.mem_ofPred_eq, h]

theorem isLeast_iff_min? {P : Nat → Prop} {ns : List Nat} (h : ∀ n, P n ↔ n ∈ ns) {n : Nat} :
    IsLeast {n | P n} n ↔ ns.min? = some n := by
  rw [List.min?_eq_some_iff]
  simp only [IsLeast, lowerBounds, Set.mem_ofPred_eq, h]

namespace Direction

variable {declared : List (Char × Nat)} {digit : Char} {index position address : Nat}
  {direction : Direction}

/-- The last of the positions when looking back, and the first when looking forward. -/
def preferred? (positions : List Nat) : Direction → Option Nat
  | back => positions.max?
  | forward => positions.min?

/-- What a search means can be computed. -/
theorem means_iff :
    direction.Means declared digit index position address ↔
      direction.nearest? (addressesOf declared digit) index = some address ∧
        direction.preferred? (positionsOf declared digit address) = some position := by
  have hseen : ∀ (direction : Direction) (a : Nat),
      (digit, a) ∈ declared ∧ direction.sees index a = true ↔
        a ∈ (addressesOf declared digit).filter fun a => direction.sees index a := by
    intro direction a
    rw [List.mem_filter, mem_addressesOf]
  cases direction with
  | back =>
    have hback := hseen back
    simp only [sees, decide_eq_true_eq] at hback
    exact and_congr (isGreatest_iff_max? hback) (isGreatest_iff_max? fun _ => mem_positionsOf.symm)
  | forward =>
    have hforward := hseen forward
    simp only [sees, decide_eq_true_eq] at hforward
    exact and_congr (isLeast_iff_min? hforward) (isLeast_iff_min? fun _ => mem_positionsOf.symm)

instance : Decidable (direction.Means declared digit index position address) :=
  decidable_of_iff _ means_iff.symm

theorem Means.not_unseen (h : direction.Means declared digit index position address) :
    ¬∀ a ∈ addressesOf declared digit, direction.sees index a = false := by
  intro hunseen
  have hnone := nearest?_eq_none_iff.2 hunseen
  rw [(means_iff.1 h).1] at hnone
  cases hnone

/-- A reference means at most one declaration. -/
theorem Means.unique {position' address' : Nat}
    (h : direction.Means declared digit index position address)
    (h' : direction.Means declared digit index position' address') :
    position = position' ∧ address = address' := by
  rw [means_iff] at h h'
  obtain rfl := Option.some.inj (h.1.symm.trans h'.1)
  exact ⟨Option.some.inj (h.2.symm.trans h'.2), rfl⟩

end Direction

namespace Labels

/-! ## Declarations -/

/-- The numeric labels, as digits with their addresses. -/
def declared (l : Labels) : List (Char × Nat) := l.locals.map fun o => (o.digit, o.address)

variable {l : Labels} {digit : Char} {index : Nat} {direction : Direction}

/-- What the search goes through are the declarations of its digit with their positions. -/
theorem mem_occurrences {o : Nat × Nat} :
    o ∈ l.occurrences digit ↔ l.declared[o.1]? = some (digit, o.2) := by
  obtain ⟨position, address⟩ := o
  simp only [occurrences, declared, List.mem_map, List.mem_filter, beq_iff_eq, Prod.exists,
    List.mk_mem_zipIdx_iff_getElem?, Prod.mk.injEq, List.getElem?_map, Option.map_eq_some_iff]
  constructor
  · rintro ⟨found, _, ⟨hfound, hdigit⟩, rfl, rfl⟩
    exact ⟨found, hfound, hdigit, rfl⟩
  · rintro ⟨found, hfound, hdigit, rfl⟩
    exact ⟨found, position, ⟨hfound, hdigit⟩, rfl, rfl⟩

theorem map_snd_occurrences (l : Labels) (digit : Char) :
    (l.occurrences digit).map (·.2) = addressesOf l.declared digit := by
  rw [occurrences, List.map_map, addressesOf, declared, List.filter_map, List.map_map]
  exact map_filter_zipIdx (·.digit == digit) (·.address) l.locals

/-- Occurrences are listed by position. -/
theorem pairwise_fst_occurrences (l : Labels) (digit : Char) :
    (l.occurrences digit).Pairwise (·.1 < ·.1) := by
  have hpositions : l.locals.zipIdx.Pairwise (·.2 < ·.2) := by
    rw [← List.pairwise_map, List.zipIdx_map_snd]
    exact List.pairwise_lt_range'
  rw [occurrences, List.pairwise_map]
  exact hpositions.filter _

/-! ## Descents -/

/-- Without a descent the addresses ascend. -/
theorem pairwise_of_firstDescent_eq_none {addresses : List Nat}
    (h : firstDescent addresses = none) : addresses.Pairwise (· ≤ ·) := by
  rw [← List.isChain_iff_pairwise]
  fun_induction firstDescent addresses with
  | case1 => cases h
  | case2 a b rest hlt ih => exact .cons_cons (Nat.le_of_not_lt hlt) (ih h)
  | case3 addresses hshort =>
    rcases addresses with _ | ⟨a, _ | ⟨b, rest⟩⟩
    · exact .nil
    · exact .singleton a
    · exact absurd rfl (hshort a b rest)

/-- Up to the first descent the addresses ascend. -/
theorem firstDescent_eq_some {addresses : List Nat} {earlier later : Nat}
    (h : firstDescent addresses = some (earlier, later)) :
    ∃ before after, addresses = before ++ earlier :: later :: after ∧
      (before ++ [earlier]).Pairwise (· ≤ ·) ∧ later < earlier := by
  simp only [← List.isChain_iff_pairwise]
  fun_induction firstDescent addresses with
  | case1 a b rest hlt =>
    cases h
    exact ⟨[], rest, rfl, .singleton _, hlt⟩
  | case2 a b rest hlt ih =>
    obtain ⟨before, after, hsplit, hchain, hdescent⟩ := ih h
    refine ⟨a :: before, after, by rw [hsplit]; rfl, ?_, hdescent⟩
    -- either way the list in front of the descent starts with `b`
    cases before with
    | nil =>
      cases hsplit
      exact .cons_cons (Nat.le_of_not_lt hlt) hchain
    | cons c before =>
      cases hsplit
      exact .cons_cons (Nat.le_of_not_lt hlt) hchain
  | case3 => cases h

/-! ## The declaration that is found -/

/-- The search finds nothing exactly if the instruction sees no declaration. -/
theorem target?_eq_none_iff {os : List (Nat × Nat)} :
    target? os index direction = none ↔ ∀ o ∈ os, direction.sees index o.2 = false := by
  cases direction <;> simp [target?, Direction.sees]

/-- When addresses ascend, a search finds the declaration that is meant. -/
theorem means_of_target? (h : (addressesOf l.declared digit).Pairwise (· ≤ ·)) {target : Nat × Nat}
    (htarget : target? (l.occurrences digit) index direction = some target) :
    direction.Means l.declared digit index target.1 target.2 := by
  rw [← map_snd_occurrences] at h
  have hnearest := map_snd_target? index direction h
  rw [map_snd_occurrences, htarget] at hnearest
  have hordered : (l.occurrences digit).Pairwise (·.1 ≤ ·.1) :=
    (pairwise_fst_occurrences l digit).imp Nat.le_of_lt
  rw [Direction.means_iff]
  refine ⟨hnearest.symm, ?_⟩
  -- all declarations at the address that is found are seen, so their order decides
  cases direction with
  | back =>
    rw [target?] at htarget
    have hmem := List.mem_filter.1 (List.mem_of_getLast? htarget)
    rw [Direction.preferred?, List.max?_eq_some_iff]
    refine ⟨mem_positionsOf.2 (mem_occurrences.1 hmem.1), fun p hp => ?_⟩
    have hother : (p, target.2) ∈ (l.occurrences digit).filter (·.2 ≤ index) :=
      List.mem_filter.2 ⟨mem_occurrences.2 (mem_positionsOf.1 hp), hmem.2⟩
    have hle := (hordered.filter _).rel_getLast_of_rel_getLast_getLast hother le_rfl
    rwa [List.getLast_of_mem_getLast? htarget] at hle
  | forward =>
    rw [target?, ← List.head?_filter] at htarget
    have hmem := List.mem_filter.1 (List.mem_of_head? htarget)
    rw [Direction.preferred?, List.min?_eq_some_iff]
    refine ⟨mem_positionsOf.2 (mem_occurrences.1 hmem.1), fun p hp => ?_⟩
    have hother : (p, target.2) ∈ (l.occurrences digit).filter (index < ·.2) :=
      List.mem_filter.2 ⟨mem_occurrences.2 (mem_positionsOf.1 hp), hmem.2⟩
    have hle := (hordered.filter _).rel_head_of_rel_head_head hother le_rfl
    rwa [List.head_of_mem_head? htarget] at hle

/-! ## Searches -/

/-- The labels with the declaration at a position used. -/
def mark (l : Labels) (position : Nat) : Labels :=
  { l with locals := l.locals.mapIdx fun p o => { o with used := o.used || p == position } }

theorem modify_used (position : Nat) (os : List Occurrence) :
    os.modify position (fun o => { o with used := true }) =
      os.mapIdx fun p o => { o with used := o.used || p == position } := by
  refine List.ext_getElem? fun p => ?_
  rw [List.getElem?_modify, List.getElem?_mapIdx]
  by_cases hp : position = p
  · simp [hp]
  · have hp' : (p == position) = false := beq_eq_false_iff_ne.2 fun h => hp h.symm
    simp [hp, hp']

/-- A search among ascending addresses ends with the declaration that is meant, which is then used,
or with none in sight. -/
theorem useNumeric_cases (h : (addressesOf l.declared digit).Pairwise (· ≤ ·))
    (direction : Direction) (index : Nat) :
    (∃ position address, direction.Means l.declared digit index position address ∧
      l.useNumeric digit direction index = .ok (address, l.mark position)) ∨
    (∀ a ∈ addressesOf l.declared digit, direction.sees index a = false) ∧
      l.useNumeric digit direction index = .error (notFound digit direction) := by
  have hnone : firstDescent ((l.occurrences digit).map (·.2)) = none := by
    rw [map_snd_occurrences]
    exact firstDescent_eq_none h
  rw [useNumeric_eq]
  simp only [hnone]
  cases htarget : target? (l.occurrences digit) index direction with
  | none =>
    refine .inr ⟨fun a ha => ?_, rfl⟩
    rw [← map_snd_occurrences] at ha
    obtain ⟨o, ho, rfl⟩ := List.mem_map.1 ha
    exact target?_eq_none_iff.1 htarget o ho
  | some target =>
    refine .inl ⟨target.1, target.2, means_of_target? h htarget, ?_⟩
    simp only [modify_used]
    rfl

/-- A search among addresses that descend somewhere ends at the first descent. -/
theorem useNumeric_of_descent (h : ¬(addressesOf l.declared digit).Pairwise (· ≤ ·))
    (direction : Direction) (index : Nat) :
    ∃ before earlier later after,
      addressesOf l.declared digit = before ++ earlier :: later :: after ∧
      (before ++ [earlier]).Pairwise (· ≤ ·) ∧ later < earlier ∧
      l.useNumeric digit direction index = .error (.labelOrder digit earlier later) := by
  cases hdescent : firstDescent (addressesOf l.declared digit) with
  | none => exact absurd (pairwise_of_firstDescent_eq_none hdescent) h
  | some pair =>
    obtain ⟨before, after, hsplit, hbefore, hlt⟩ := firstDescent_eq_some hdescent
    refine ⟨before, pair.1, pair.2, after, hsplit, hbefore, hlt, ?_⟩
    rw [← map_snd_occurrences] at hdescent
    rw [useNumeric_eq]
    simp only [hdescent]

end Labels

/-! ## Any history of labels -/

/-- What may be asked of the labels of a program. -/
inductive LabelRequest
  /-- Declare a label at an address. -/
  | define (label : Token) (address : Nat)
  /-- Refer to a symbolic label. -/
  | refer (name : String)
  /-- Search for a numeric label from an index. -/
  | search (digit : Char) (direction : Direction) (index : Nat)
deriving DecidableEq, Repr

namespace LabelRequest

/-- The numeric label that a request declares: its digit, the first character of its text, and its
address. -/
def declaration? : LabelRequest → Option (Char × Nat)
  | define label address =>
    if label.kind = .numeric then some (label.text.toList.head?.getD '0', address) else none
  | refer _ => none
  | search _ _ _ => none

/-- The numeric labels that requests declare, in order. -/
def declarations (requests : List LabelRequest) : List (Char × Nat) :=
  requests.filterMap declaration?

end LabelRequest

namespace Labels

/-- The labels after a request, also after one that fails. -/
def after (l : Labels) : LabelRequest → Labels
  | .define label address => ((declare label address).outcome l).2
  | .refer name => ((l.useSymbol name).map (·.2)).getD l
  | .search digit direction index => ((seek digit direction index).outcome l).2

/-- The labels after requests, from no labels at all. -/
def build (requests : List LabelRequest) : Labels := requests.foldl after {}

theorem declared_mark (l : Labels) (position : Nat) : (l.mark position).declared = l.declared := by
  rw [mark, ← modify_used, declared, declared]
  exact map_modify (by simp) position l.locals

/-- A search marks a declaration and declares nothing. -/
theorem declared_useNumeric {l : Labels} {digit : Char} {direction : Direction} {index : Nat}
    {result : Nat × Labels} (h : l.useNumeric digit direction index = .ok result) :
    result.2.declared = l.declared := by
  by_cases hascend : (addressesOf l.declared digit).Pairwise (· ≤ ·)
  · rcases useNumeric_cases hascend direction index with ⟨position, address, -, hok⟩ | ⟨-, herror⟩
    · cases hok.symm.trans h
      exact declared_mark l position
    · cases herror.symm.trans h
  · obtain ⟨_, _, _, _, -, -, -, herror⟩ := useNumeric_of_descent hascend direction index
    cases herror.symm.trans h

/-- A search looks before it marks anything, so one that fails leaves the labels as they were. -/
theorem seek_unchanged_of_error {l : Labels} {digit : Char} {direction : Direction} {index : Nat}
    {cause : Cause} (h : l.useNumeric digit direction index = .error cause) :
    ((seek digit direction index).outcome l).2 = l := by
  rw [useNumeric_eq] at h
  rw [outcome_seek]
  cases hdescent : firstDescent ((l.occurrences digit).map (·.2)) with
  | some descent => rfl
  | none =>
    cases htarget : target? (l.occurrences digit) index direction with
    | none => rfl
    | some target => simp [hdescent, htarget] at h

/-- A request adds what it declares, and nothing else. -/
theorem declared_after (l : Labels) (request : LabelRequest) :
    (l.after request).declared = l.declared ++ request.declaration?.toList := by
  cases request with
  | define label address =>
    rw [after, outcome_declare, LabelRequest.declaration?]
    by_cases hkind : label.kind = .numeric
    · simp [hkind, declared]
    · rw [if_neg hkind, if_neg hkind]
      cases l.symbols.find? label.text <;> simp [declared]
  | refer name =>
    rw [after, useSymbol]
    cases l.symbols.find? name <;> simp [declared, LabelRequest.declaration?]
  | search digit direction index =>
    rw [after, LabelRequest.declaration?, Option.toList_none, List.append_nil]
    cases hresult : l.useNumeric digit direction index with
    | error cause => rw [seek_unchanged_of_error hresult]
    | ok result =>
      have hdeclared := declared_useNumeric hresult
      rwa [← congrArg Prod.snd (Update.attempt_eq_ok_iff.1 hresult)] at hdeclared

/-- The run lemma: after any requests, what has been declared are their declarations in order. -/
theorem declared_foldl_after (requests : List LabelRequest) (l : Labels) :
    (requests.foldl after l).declared = l.declared ++ LabelRequest.declarations requests := by
  induction requests generalizing l with
  | nil => exact (List.append_nil _).symm
  | cons request rest ih =>
    rw [List.foldl_cons, ih, declared_after, List.append_assoc, LabelRequest.declarations,
      LabelRequest.declarations, List.filterMap_cons]
    cases request.declaration? <;> rfl

/-- After any requests, the numeric labels are those that the requests declare. -/
theorem declared_build (requests : List LabelRequest) :
    (build requests).declared = LabelRequest.declarations requests :=
  declared_foldl_after requests {}

/-- **Numeric labels are searched for as declared.**  After any requests, at any addresses, a
search for a digit whose addresses descend somewhere fails at the first descent.  Otherwise it ends
with an address exactly if a declaration at that address is meant, and of all the labels that one
declaration is then used; and it fails exactly if no address of the digit is in sight.  A search
that fails changes nothing. -/
theorem search_after_requests (requests : List LabelRequest) (digit : Char) (direction : Direction)
    (index : Nat) :
    (¬(addressesOf (LabelRequest.declarations requests) digit).Pairwise (· ≤ ·) →
      ∃ before earlier later rest,
        addressesOf (LabelRequest.declarations requests) digit =
          before ++ earlier :: later :: rest ∧
        (before ++ [earlier]).Pairwise (· ≤ ·) ∧ later < earlier ∧
        (build requests).useNumeric digit direction index =
          .error (.labelOrder digit earlier later)) ∧
    ((addressesOf (LabelRequest.declarations requests) digit).Pairwise (· ≤ ·) →
      (∀ address l, (build requests).useNumeric digit direction index = .ok (address, l) ↔
        ∃ position,
          direction.Means (LabelRequest.declarations requests) digit index position address ∧
          l = (build requests).mark position) ∧
      ∀ cause, (build requests).useNumeric digit direction index = .error cause ↔
        cause = notFound digit direction ∧
        ∀ address ∈ addressesOf (LabelRequest.declarations requests) digit,
          direction.sees index address = false) ∧
    ∀ cause, (build requests).useNumeric digit direction index = .error cause →
      build (requests ++ [.search digit direction index]) = build requests := by
  refine ⟨fun hdescent => ?_, fun hascend => ?_, fun cause hcause => ?_⟩
  · rw [← declared_build] at hdescent ⊢
    exact useNumeric_of_descent hdescent direction index
  · rw [← declared_build] at hascend ⊢
    rcases useNumeric_cases hascend direction index with
      ⟨position, address, hmeans, hok⟩ | ⟨hnone, herror⟩
    · rw [hok]
      refine ⟨fun address' l => ⟨?_, ?_⟩, fun cause => iff_of_false nofun ?_⟩
      · rintro ⟨⟩
        exact ⟨position, hmeans, rfl⟩
      · rintro ⟨position', hmeans', rfl⟩
        obtain ⟨rfl, rfl⟩ := hmeans.unique hmeans'
        rfl
      · rintro ⟨-, hnone⟩
        exact hmeans.not_unseen hnone
    · rw [herror]
      refine ⟨fun address l => iff_of_false nofun ?_, fun cause => ⟨?_, ?_⟩⟩
      · rintro ⟨position, hmeans, -⟩
        exact hmeans.not_unseen hnone
      · rintro ⟨⟩
        exact ⟨rfl, hnone⟩
      · rintro ⟨rfl, -⟩
        rfl
  · rw [build, List.foldl_append]
    exact seek_unchanged_of_error hcause

/-- Of the two declarations at address `2`, the later is found looking back, and the earlier looking
forward. -/
theorem search_among_equal_addresses :
    let one : Token := ⟨"1", .numeric, .nowhere, none⟩
    let labels := build [.define one 2, .define one 2, .define one 7]
    labels.useNumeric '1' .back 4 = .ok (2, labels.mark 1) ∧
      labels.useNumeric '1' .forward 0 = .ok (2, labels.mark 0) :=
  ⟨(((search_after_requests _ '1' .back 4).2.1 (by decide)).1 2 _).2 ⟨1, by decide, rfl⟩,
    (((search_after_requests _ '1' .forward 0).2.1 (by decide)).1 2 _).2 ⟨0, by decide, rfl⟩⟩

end Labels
end CircuitRom
