import CircuitRom.Proofs.Construction
import CircuitRom.Proofs.Networks

/-!
# Wires are recorded at both of their ends

Two sorts of wires are recorded at an entity.  Those that the entity had in its template come first
and are copied as they are, wherever they lead.  After them come the wires that were drawn when
rows were added, and of these each is recorded at both ends, equally often: `Reciprocal` is that
property, `build_records_drawn_wires_at_both_ends` states it for any sequence of edits, and the
template `danglingText` shows that the wires of a template need not have it.
-/

namespace CircuitRom
namespace Blueprint

variable {b : Blueprint}

/-- Each of the wires leads to an entity of the blueprint, and at its far end the same wires are
recorded equally often. -/
def Reciprocal (b : Blueprint) (wires : Terminal → Color → List Wire) : Prop :=
  ∀ t color w, w ∈ wires t color → ∃ u : Terminal, u.wire = w ∧
    (∃ entity, b.entities[u.place]? = some entity ∧ entity.number = w.entity) ∧
    (wires u color).count t.wire = (wires t color).count w

/-! ## Drawn wires -/

/-- A wire is recorded as often at one end as at the other. -/
theorem count_recordedAt_comm (drawn : Color × Terminal × Terminal) (color : Color)
    (t u : Terminal) :
    (recordedAt drawn color t).count u.wire = (recordedAt drawn color u).count t.wire := by
  obtain ⟨hue, near, far⟩ := drawn
  unfold recordedAt
  by_cases hcolor : hue = color
  · -- The wire counts at `t` if it leads from `t` to `u`, and if it leads from `u` to `t`.
    have hcount : ∀ s v w x : Terminal,
        (if s = v then [w.wire] else []).count x.wire = if s = v ∧ w = x then 1 else 0 := by
      intro s v w x
      by_cases hs : s = v <;> by_cases hw : w = x <;> simp [hs, hw, Terminal.wire_inj]
    rw [if_pos hcolor, if_pos hcolor, List.count_append, List.count_append, hcount, hcount, hcount,
      hcount, Nat.add_comm]
    simp only [and_comm]
  · rw [if_neg hcolor, if_neg hcolor]
    rfl

/-- A drawn wire is recorded at both of its ends, equally often. -/
theorem count_drawnAt_comm (wires : List (Color × Terminal × Terminal)) (color : Color)
    (t u : Terminal) :
    (drawnAt wires color t).count u.wire = (drawnAt wires color u).count t.wire := by
  induction wires with
  | nil => rfl
  | cons drawn wires ih =>
    simp only [drawnAt, List.flatMap_cons, List.count_append]
    exact congrArg₂ (· + ·) (count_recordedAt_comm drawn color t u) ih

theorem drawnAt_eq_nil {wires : List (Color × Terminal × Terminal)} {t : Terminal}
    (h : ∀ drawn ∈ wires, drawn.2.1.place ≠ t.place ∧ drawn.2.2.place ≠ t.place) (color : Color) :
    drawnAt wires color t = [] := by
  rw [List.eq_nil_iff_forall_not_mem]
  intro w hw
  obtain ⟨drawn, hdrawn, -, hend⟩ := mem_drawnAt.1 hw
  obtain ⟨hnear, hfar⟩ := h drawn hdrawn
  rcases hend with ⟨rfl, -⟩ | ⟨rfl, -⟩
  · exact hnear rfl
  · exact hfar rfl

/-! ## Wires of templates -/

/-- The entities that an edit copies. -/
def Edit.copied : Edit → List Entity
  | .addRows template count => (List.replicate count template.toList).flatten
  | .insertSignals _ => []

/-- The entities of a blueprint as they were before they were placed: those of the frame, and the
entities of the templates as often as they were copied. -/
def originals (edits : List Edit) : List Entity := frame ++ edits.flatMap Edit.copied

/-- The wires that the entity at a terminal had before it was placed. -/
def carriedAt (originals : List Entity) (t : Terminal) (color : Color) : List Wire :=
  ((originals[t.place]?).map fun entity => entity.wires t.side color).getD []

/-- At each entity the wires are recorded that it had before it was placed, and after them those
that were drawn with the rows. -/
structure RecordsDrawn (b : Blueprint) (originals : List Entity) : Prop where
  laid : b.Laid
  length : originals.length = b.entities.size
  wires : ∀ t color, b.wiresAt t color =
    carriedAt originals t color ++ drawnAt (memoryWires b.rows.size) color t

theorem carriedAt_eq_nil {originals : List Entity}
    (h : ∀ entity ∈ originals, ∀ side color, entity.wires side color = []) (t : Terminal)
    (color : Color) : carriedAt originals t color = [] := by
  unfold carriedAt
  cases hentity : originals[t.place]? with
  | none => rfl
  | some entity => exact h entity (List.mem_of_getElem? hentity) _ _

theorem recordsDrawn_new (label : String) : (new label).RecordsDrawn frame where
  laid := laid_new label
  length := (isMemory_new label).size.symm
  wires t color := by
    have hframe : ∀ entity ∈ frame, ∀ side color, entity.wires side color = [] := by
      intro entity hentity side color
      have hplain : entity.connections = {} := by
        revert entity
        simp [frame, walls, Entity.plain]
      cases side <;> cases color <;> simp [Entity.wires, hplain, Connections.get, Bundle.get]
    have hnone : (new label).wiresAt t color = [] := by
      rw [List.eq_nil_iff_forall_not_mem]
      intro w hw
      rw [(isMemory_new label).wires] at hw
      simp [Records, memoryWires] at hw
    rw [hnone, carriedAt_eq_nil hframe, (isMemory_new label).size_rows]
    rfl

/-- The copies of a row bring along the wires of the template, and draw none. -/
theorem RecordsDrawn.wiresAt_withCopies {originals : List Entity} (h : b.RecordsDrawn originals)
    (template : Row Entity) (t : Terminal) (color : Color) :
    (b.withCopies template).wiresAt t color =
      carriedAt (originals ++ template.toList) t color ++
        drawnAt (memoryWires b.rows.size) color t := by
  by_cases ht : t.place < b.entities.size
  · have hold : carriedAt (originals ++ template.toList) t color = carriedAt originals t color := by
      simp [carriedAt, List.getElem?_append_left (h.length ▸ ht)]
    rw [hold, ← h.wires, wiresAt, getElem?_withCopies_left template ht]
    rfl
  · obtain ⟨i, hi⟩ := Nat.exists_eq_add_of_le (Nat.le_of_not_lt ht)
    have hnone : drawnAt (memoryWires b.rows.size) color t = [] := by
      refine drawnAt_eq_nil (fun drawn hdrawn => ?_) color
      have hplaces := place_lt_of_mem_memoryWires hdrawn
      rw [← h.laid.size] at hplaces
      omega
    rw [hnone, List.append_nil, wiresAt, carriedAt, hi, ← h.length,
      List.getElem?_append_right (Nat.le_add_right _ _), Nat.add_sub_cancel_left, h.length]
    cases hentity : template.toList[i]? with
    | none =>
      have hsize : 4 ≤ i := by simpa [Row.toList] using hentity
      simp [size_withCopies, hsize]
    | some entity =>
      rw [h.laid.numbered.getElem?_withCopies_right hentity]
      rfl

/-! ## Sequences of edits -/

/-- The step lemma: a row adds the wires of its template and those that are drawn for it. -/
theorem RecordsDrawn.addRow {originals : List Entity} (h : b.RecordsDrawn originals)
    (template : Row Entity) :
    (b.addRow template).RecordsDrawn (originals ++ template.toList) where
  laid := h.laid.addRow template
  length := by simp [size_addRow, h.length, Row.toList]
  wires t color := by
    have hplaces := h.laid.place_lt_of_mem_wiring template
    have hrows : (b.addRow template).rows.size = b.rows.size + 1 := by simp [rows_addRow]
    rw [hrows, memoryWires_succ, drawnAt_append, ← List.append_assoc, ← h.wiresAt_withCopies,
      ← h.laid.nextRow_eq, ← h.laid.back?_rows, 
      ← (h.laid.numbered.withCopies template).wiresAt_connectAll hplaces, addRow_eq]
    rfl

theorem RecordsDrawn.addRows (template : Row Entity) (count : Nat) :
    ∀ {b : Blueprint} {originals : List Entity}, b.RecordsDrawn originals →
      (b.addRows template count).RecordsDrawn
        (originals ++ (List.replicate count template.toList).flatten) := by
  induction count with
  | zero =>
    intro b originals h
    rw [List.replicate_zero, List.flatten_nil, List.append_nil]
    exact h
  | succ count ih =>
    intro b originals h
    rw [List.replicate_succ, List.flatten_cons, ← List.append_assoc]
    exact ih (h.addRow template)

theorem RecordsDrawn.put {originals : List Entity} (h : b.RecordsDrawn originals)
    (entry : Row Nat × Signals) : (b.put entry).RecordsDrawn originals where
  laid := h.laid.put entry
  length := h.length.trans Array.size_modify.symm
  wires t color := by
    rw [Blueprint.put, wiresAt_modify fun entity => entity.wires_setFilters _]
    exact h.wires t color

theorem RecordsDrawn.foldl_put {originals : List Entity} (entries : List (Row Nat × Signals)) :
    ∀ {b : Blueprint}, b.RecordsDrawn originals →
      (entries.foldl Blueprint.put b).RecordsDrawn originals := by
  induction entries with
  | nil => exact fun h => h
  | cons entry entries ih => exact fun h => ih (h.put entry)

/-- Every edit keeps the account of wires. -/
theorem RecordsDrawn.edit {originals : List Entity} (h : b.RecordsDrawn originals) (e : Edit) :
    (b.edit e).RecordsDrawn (originals ++ e.copied) := by
  cases e with
  | addRows template count => exact h.addRows template count
  | insertSignals signals =>
    rw [Edit.copied, List.append_nil]
    by_cases hlength : signals.length = b.rows.size
    · rw [edit_insertSignals_of_eq hlength]
      exact h.foldl_put _
    · rw [edit_insertSignals_of_ne hlength]
      exact h

theorem RecordsDrawn.foldl_edit (edits : List Edit) :
    ∀ {b : Blueprint} {originals : List Entity}, b.RecordsDrawn originals →
      (edits.foldl Blueprint.edit b).RecordsDrawn (originals ++ edits.flatMap Edit.copied) := by
  induction edits with
  | nil =>
    intro b originals h
    simpa using h
  | cons e edits ih =>
    intro b originals h
    rw [List.flatMap_cons, ← List.append_assoc]
    exact ih (h.edit e)

theorem recordsDrawn_build (label : String) (edits : List Edit) :
    (build label edits).RecordsDrawn (originals edits) :=
  (recordsDrawn_new label).foldl_edit edits

/-- The wires that are drawn, apart from those carried along, are recorded at both ends. -/
theorem Laid.reciprocal_drawnAt (h : b.Laid) :
    b.Reciprocal fun t color => drawnAt (memoryWires b.rows.size) color t := by
  intro t color w hw
  obtain ⟨drawn, hdrawn, -, hend⟩ := mem_drawnAt.1 hw
  have hplaces := place_lt_of_mem_memoryWires hdrawn
  rw [← h.size] at hplaces
  obtain ⟨u, hu, hwire⟩ : ∃ u : Terminal, u.place < b.entities.size ∧ u.wire = w := by
    rcases hend with ⟨-, hfar⟩ | ⟨-, hnear⟩
    · exact ⟨_, hplaces.2, hfar⟩
    · exact ⟨_, hplaces.1, hnear⟩
  subst hwire
  have hentity := Array.getElem?_eq_getElem hu
  exact ⟨u, rfl, ⟨_, hentity, h.numbered.number u.place _ hentity⟩, count_drawnAt_comm _ _ _ _⟩

/-- After any sequence of edits, with any templates, the wires at an entity are those its template
had, unchanged and in front, and then those drawn with the rows.  Each of the drawn wires leads to
an entity and is recorded there equally often, and so is every wire at all if the templates have
none. -/
theorem build_records_drawn_wires_at_both_ends (label : String) (edits : List Edit) :
    (∀ t color, (build label edits).wiresAt t color = carriedAt (originals edits) t color ++
      drawnAt (memoryWires (build label edits).rows.size) color t) ∧
    (build label edits).Reciprocal
      (fun t color => drawnAt (memoryWires (build label edits).rows.size) color t) ∧
    ((∀ entity ∈ originals edits, ∀ side color, entity.wires side color = []) →
      (build label edits).Reciprocal (build label edits).wiresAt) := by
  have hdrawn := recordsDrawn_build label edits
  refine ⟨hdrawn.wires, hdrawn.laid.reciprocal_drawnAt, fun hnone => ?_⟩
  have hwires : (build label edits).wiresAt =
      fun t color => drawnAt (memoryWires (build label edits).rows.size) color t := by
    funext t color
    rw [hdrawn.wires, carriedAt_eq_nil hnone, List.nil_append]
  rw [hwires]
  exact hdrawn.laid.reciprocal_drawnAt

/-- A row template, with each entity as the sequence of its fields, whose counter has a red wire to
an entity with the number 99. -/
def danglingText : String :=
  "\x7b\"entities\":[
  [1,\"arithmetic-combinator\",[0,0],null,null,\x7b\"1\":\x7b\"red\":[[99,1]]\x7d\x7d],
  [2,\"small-lamp\",[0,0],null,null,\x7b\x7d],
  [3,\"constant-combinator\",[0,0],null,null,\x7b\x7d],
  [4,\"decider-combinator\",[0,0],null,null,\x7b\x7d]]\x7d"

/-- The wire of that template is copied although it leads nowhere. -/
theorem danglingText_not_reciprocal :
    ∃ template, Row.ofJson danglingText = .ok template ∧
      ¬ (build "" [.addRows template 1]).Reciprocal (build "" [.addRows template 1]).wiresAt := by
  have hcopied : (Row.ofJson danglingText).toOption.map (fun template =>
      ((build "" [.addRows template 1]).wiresAt ⟨8, .one⟩ .red,
        (build "" [.addRows template 1]).entities.size)) = some ([⟨99, 1⟩, ⟨10, 1⟩], 12) := by
    decide +kernel
  cases htemplate : Row.ofJson danglingText with
  | error fault =>
    rw [htemplate] at hcopied
    cases hcopied
  | ok template =>
    rw [htemplate] at hcopied
    obtain ⟨hwires, hsize⟩ := Prod.mk.inj (Option.some.inj hcopied)
    refine ⟨template, rfl, fun hreciprocal => ?_⟩
    have hmem : (⟨99, 1⟩ : Wire) ∈ (build "" [.addRows template 1]).wiresAt ⟨8, .one⟩ .red := by
      rw [hwires]
      decide
    obtain ⟨u, hu, ⟨entity, hentity, -⟩, -⟩ := hreciprocal _ _ _ hmem
    have hplace : u.place + 1 = 99 := congrArg Wire.entity hu
    have hlt : u.place < (build "" [.addRows template 1]).entities.size :=
      (Array.getElem?_eq_some_iff.1 hentity).1
    rw [hsize] at hlt
    omega

end Blueprint
end CircuitRom
