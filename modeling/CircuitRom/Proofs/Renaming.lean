import CircuitRom.Definition
import CircuitRom.Proofs.Sequencing

/-!
# Definitions in force

Applying definitions goes through a program once and carries the definitions read so far.  The
lines before a line decide which definitions are in force there, and the line is renamed by these
and by no others.
-/

namespace CircuitRom
namespace Definition

variable {defs : Dictionary String} {line : Line} {lines rest out : List Line}

/-- What a line can be: a definition, which is learned and dropped, or a line to keep. -/
theorem substituteFrom_cons_eq_ok (h : substituteFrom defs (line :: rest) = .ok out) :
    (∃ head key value, line.map (rename defs) = [head, key, value] ∧
      head.isDirective "#def" = true ∧ key.isDelimiter = false ∧ value.isDelimiter = false ∧
      substituteFrom (defs.insert key.text value.text) rest = .ok out) ∨
    (Line.isHeadedBy (line.map (rename defs)) "#def" = false ∧
      ∃ tail, substituteFrom defs rest = .ok tail ∧ out = line.map (rename defs) :: tail) := by
  rw [substituteFrom] at h
  split at h
  · next hmap =>
    obtain ⟨tail, htail, rfl⟩ := map_eq_ok.1 h
    exact .inr ⟨by rw [hmap]; rfl, tail, htail, by rw [hmap]⟩
  · next head operands hmap =>
    split at h
    · next hdef =>
      split at h
      · next key value =>
        split at h
        · cases h
        · next hwords =>
          rw [Bool.not_eq_true, Bool.or_eq_false_iff] at hwords
          exact .inl ⟨head, key, value, hmap, hdef, hwords.1, hwords.2, h⟩
      · cases h
    · next hdef =>
      obtain ⟨tail, htail, rfl⟩ := map_eq_ok.1 h
      refine .inr ⟨?_, tail, htail, by rw [hmap]⟩
      rw [hmap]
      exact Bool.eq_false_iff.2 hdef

/-- The definitions in force after one more line. -/
def learn (defs : Dictionary String) (line : Line) : Dictionary String :=
  match line.map (rename defs) with
  | [head, key, value] =>
    if head.isDirective "#def" then defs.insert key.text value.text else defs
  | _ => defs

theorem learn_of_definition {head key value : Token}
    (hline : line.map (rename defs) = [head, key, value]) (hhead : head.isDirective "#def" = true) :
    learn defs line = defs.insert key.text value.text := by
  unfold learn
  rw [hline]
  exact if_pos hhead

theorem learn_of_not_headed (h : Line.isHeadedBy (line.map (rename defs)) "#def" = false) :
    learn defs line = defs := by
  unfold learn
  split
  · next head key value hline =>
    rw [hline] at h
    exact if_neg (Bool.eq_false_iff.1 h)
  · rfl

/-- The definitions in force after some lines. -/
def inForce (lines : List Line) : Dictionary String := lines.foldl learn Dictionary.empty

/-- Every line that is left is a line of the program, renamed by the definitions before it. -/
theorem exists_of_substituteFrom {lines : List Line} :
    ∀ {defs : Dictionary String} {out : List Line}, substituteFrom defs lines = .ok out →
      ∀ line' ∈ out, ∃ before line after, lines = before ++ line :: after ∧
        line' = line.map (rename (before.foldl learn defs)) := by
  induction lines with
  | nil =>
    intro defs out h
    cases h
    exact List.forall_mem_nil _
  | cons line rest ih =>
    intro defs out h
    -- a line of the rest has this one before it
    have hlater : ∀ {tail : List Line}, substituteFrom (learn defs line) rest = .ok tail →
        ∀ line' ∈ tail, ∃ before old after, line :: rest = before ++ old :: after ∧
          line' = old.map (rename (before.foldl learn defs)) := by
      intro tail htail line' hline'
      obtain ⟨before, old, after, rfl, hrenamed⟩ := ih htail line' hline'
      exact ⟨line :: before, old, after, rfl, hrenamed⟩
    rcases substituteFrom_cons_eq_ok h with
      ⟨head, key, value, hline, hhead, -, -, hrest⟩ | ⟨hhead, tail, hrest, rfl⟩
    · rw [← learn_of_definition hline hhead] at hrest
      exact hlater hrest
    · rw [← learn_of_not_headed hhead] at hrest
      exact List.forall_mem_cons.2 ⟨⟨[], line, rest, rfl, rfl⟩, hlater hrest⟩

end Definition
end CircuitRom
