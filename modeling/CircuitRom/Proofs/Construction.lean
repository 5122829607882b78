import CircuitRom.Proofs.Wiring

/-!
# Building a memory by any sequence of edits

A blueprint grows by two kinds of edits: rows are added below the others, and signals are put into
the rows.  The template of a row is any four entities, with or without settings and with whatever
wires they carry.

* `laid_build`: along any sequence of edits the entities are numbered in their order and the rows
  stand one below the other, four entities each (`Laid`).
* `Laid.grows`: adding rows keeps what stands there as it is, apart from wires that are added to the
  last row or, if there was none, to the two lamps of the frame (`Grows`).
* `Laid.refills`: putting in signals changes the outputs of the storages and nothing else
  (`Refills`).
-/

namespace CircuitRom

/-! ## Entities that get more wires -/

namespace Entity

/-- The second entity is the first with wires added after those it had, for each side and
colour. -/
structure ExtendsBy (old new : Entity) (added : Side → Color → List Wire) : Prop where
  number : new.number = old.number
  name : new.name = old.name
  position : new.position = old.position
  direction : new.direction = old.direction
  control : new.control = old.control
  wires : ∀ side color, new.wires side color = old.wires side color ++ added side color

/-- The second entity is the first, perhaps with more wires. -/
def Extends (old new : Entity) : Prop := ∃ added, old.ExtendsBy new added

theorem ExtendsBy.refl (entity : Entity) : entity.ExtendsBy entity fun _ _ => [] :=
  ⟨rfl, rfl, rfl, rfl, rfl, fun _ _ => (List.append_nil _).symm⟩

/-- Wires that are added later stand behind those that were added before. -/
theorem ExtendsBy.trans {a b c : Entity} {added added' : Side → Color → List Wire}
    (h : a.ExtendsBy b added) (h' : b.ExtendsBy c added') :
    a.ExtendsBy c fun side color => added side color ++ added' side color where
  number := h'.number.trans h.number
  name := h'.name.trans h.name
  position := h'.position.trans h.position
  direction := h'.direction.trans h.direction
  control := h'.control.trans h.control
  wires side color := by rw [h'.wires, h.wires, List.append_assoc]

theorem Extends.refl (entity : Entity) : entity.Extends entity := ⟨_, .refl entity⟩

theorem Extends.trans {a b c : Entity} (h : a.Extends b) (h' : b.Extends c) : a.Extends c := by
  obtain ⟨added, hadded⟩ := h
  obtain ⟨added', hadded'⟩ := h'
  exact ⟨_, hadded.trans hadded'⟩

/-- Attaching a wire adds it at one terminal and in one colour, and changes nothing else. -/
theorem extendsBy_attach (entity : Entity) (side : Side) (color : Color) (wire : Wire) :
    entity.ExtendsBy (entity.attach side color wire) fun other hue =>
      if other = side ∧ hue = color then [wire] else [] where
  number := rfl
  name := rfl
  position := rfl
  direction := rfl
  control := rfl
  wires other hue := by
    rw [wires_attach]
    split
    · rfl
    · exact (List.append_nil _).symm

end Entity

/-! ## Entities that get other outputs -/

/-- The signal that an output names, with its value. -/
def Filter.entry (filter : Filter) : String × Int32 := (filter.signal.name, filter.count)

/-- Filters list the signals in their order. -/
theorem Blueprint.entries_filtersOf (signals : Signals) :
    (filtersOf signals).map Filter.entry = signals.entries := by
  refine List.ext_getElem (by simp [filtersOf]) fun i hi _ => ?_
  simp [filtersOf, Filter.entry, signalId]

/-- The slots are numbered from one, without gaps. -/
theorem Blueprint.slots_filtersOf (signals : Signals) :
    (filtersOf signals).map (·.index) = List.range' 1 signals.size := by
  refine List.ext_getElem (by simp [filtersOf, Dictionary.size]) fun i hi _ => ?_
  simp [filtersOf, Nat.add_comm]

/-- The second entity is the first with other outputs: the given signals in their order, in the
slots from one on. -/
structure Entity.Refilled (old new : Entity) (signals : Signals) : Prop where
  number : new.number = old.number
  name : new.name = old.name
  position : new.position = old.position
  direction : new.direction = old.direction
  connections : new.connections = old.connections
  settings : (new.control.getD {}).settings = (old.control.getD {}).settings
  entries : new.filters.map Filter.entry = signals.entries
  slots : new.filters.map (·.index) = List.range' 1 signals.size

theorem Entity.refilled_setFilters (entity : Entity) (signals : Signals) :
    entity.Refilled (entity.setFilters (Blueprint.filtersOf signals)) signals where
  number := rfl
  name := rfl
  position := rfl
  direction := rfl
  connections := rfl
  settings := rfl
  entries := by rw [filters_setFilters, Blueprint.entries_filtersOf]
  slots := by rw [filters_setFilters, Blueprint.slots_filtersOf]

namespace Blueprint

variable {b : Blueprint}

/-! ## Drawing wires -/

theorem getElem?_attach (t : Terminal) (color : Color) (wire : Wire) {i : Nat} {entity : Entity}
    (h : b.entities[i]? = some entity) :
    ∃ entity', (b.attach t color wire).entities[i]? = some entity' ∧
      entity.ExtendsBy entity' fun side hue =>
        if color = hue then if t = ⟨i, side⟩ then [wire] else [] else [] := by
  rw [attach, modify, Array.getElem?_modify, h]
  obtain ⟨place, near⟩ := t
  by_cases hplace : place = i
  · subst hplace
    refine ⟨_, if_pos rfl, ?_⟩
    convert entity.extendsBy_attach near color wire using 3
    by_cases hcolor : color = ‹Color› <;> simp [hcolor, eq_comm]
  · refine ⟨entity, if_neg hplace, ?_⟩
    simpa [hplace] using Entity.ExtendsBy.refl entity

/-- Drawing one wire adds one record at each end. -/
theorem Numbered.getElem?_connect (h : b.Numbered) {drawn : Color × Terminal × Terminal}
    (hnear : drawn.2.1.place < b.entities.size) (hfar : drawn.2.2.place < b.entities.size) {i : Nat}
    {entity : Entity} (hentity : b.entities[i]? = some entity) :
    ∃ entity', (b.connect drawn.1 drawn.2.1 drawn.2.2).entities[i]? = some entity' ∧
      entity.ExtendsBy entity' fun side color => recordedAt drawn color ⟨i, side⟩ := by
  rw [Blueprint.connect, h.wireTo_eq hnear, h.wireTo_eq hfar]
  obtain ⟨near, hnear, hextends⟩ := getElem?_attach drawn.2.1 drawn.1 drawn.2.2.wire hentity
  obtain ⟨far, hfar, hextends'⟩ := getElem?_attach drawn.2.2 drawn.1 drawn.2.1.wire hnear
  refine ⟨far, hfar, ?_⟩
  convert hextends.trans hextends' using 3
  unfold recordedAt
  split <;> rfl

/-- Drawing wires adds them, in their order, to what the entities record. -/
theorem Numbered.getElem?_connectAll {wires : List (Color × Terminal × Terminal)} {i : Nat} :
    ∀ {b : Blueprint} {entity : Entity}, b.Numbered →
      (∀ drawn ∈ wires, drawn.2.1.place < b.entities.size ∧
        drawn.2.2.place < b.entities.size) → b.entities[i]? = some entity →
      ∃ entity', (b.connectAll wires).entities[i]? = some entity' ∧
        entity.ExtendsBy entity' fun side color => drawnAt wires color ⟨i, side⟩ := by
  induction wires with
  | nil => exact fun _ _ hentity => ⟨_, hentity, .refl _⟩
  | cons drawn wires ih =>
    intro b entity h hplaces hentity
    obtain ⟨hdrawn, hwires⟩ := List.forall_mem_cons.1 hplaces
    obtain ⟨next, hnext, hextends⟩ := h.getElem?_connect hdrawn.1 hdrawn.2 hentity
    obtain ⟨last, hlast, hextends'⟩ := ih (h.connect _ _ _) (by simpa using hwires) hnext
    exact ⟨last, hlast, hextends.trans hextends'⟩

/-- Entities at which no wire ends are left alone. -/
theorem getElem?_connectAll_of_ne {i : Nat} {wires : List (Color × Terminal × Terminal)} :
    ∀ {b : Blueprint}, (∀ drawn ∈ wires, drawn.2.1.place ≠ i ∧ drawn.2.2.place ≠ i) →
      (b.connectAll wires).entities[i]? = b.entities[i]? := by
  induction wires with
  | nil => exact fun _ => rfl
  | cons drawn wires ih =>
    intro b h
    obtain ⟨hdrawn, hwires⟩ := List.forall_mem_cons.1 h
    rw [connectAll_cons, ih hwires, connect, attach, attach]
    simp [modify, Array.getElem?_modify, hdrawn.1, hdrawn.2]

@[simp] theorem size_connectAll (wires : List (Color × Terminal × Terminal)) (b : Blueprint) :
    (b.connectAll wires).entities.size = b.entities.size := by
  rw [← length_stands, stands_connectAll, length_stands]

@[simp] theorem label_connectAll (wires : List (Color × Terminal × Terminal)) (b : Blueprint) :
    (b.connectAll wires).label = b.label := by
  induction wires generalizing b with
  | nil => rfl
  | cons drawn wires ih => rw [connectAll_cons, ih]; rfl

/-! ## Adding a row -/

/-- Entities with numbers from `n` on. -/
def numberFrom (n : Nat) (entities : List Entity) : List Entity :=
  entities.mapIdx fun i entity => { entity with number := n + i }

/-- Entities that are placed get the numbers from the next one on. -/
theorem foldl_place_eq (entities : List Entity) (b : Blueprint) :
    entities.foldl place b =
      { b with
        entities := b.entities ++ (numberFrom b.next entities).toArray
        next := b.next + entities.length } := by
  induction entities generalizing b with
  | nil => simp [numberFrom]
  | cons entity rest ih =>
    have hshift : ∀ i, b.next + 1 + i = b.next + (i + 1) := fun i => by omega
    rw [List.foldl_cons, ih]
    simp [place, numberFrom, hshift]

theorem Numbered.foldl_place (entities : List Entity) :
    ∀ {b : Blueprint}, b.Numbered → (entities.foldl Blueprint.place b).Numbered := by
  induction entities with
  | nil => exact fun h => h
  | cons entity rest ih => exact fun h => ih (h.place entity)

/-- The places of the row that is added next. -/
def nextRow (b : Blueprint) : Row Nat :=
  ⟨b.entities.size, b.entities.size + 1, b.entities.size + 2, b.entities.size + 3⟩

/-- The entities of the row that is added next, before wires are drawn. -/
def copies (b : Blueprint) (template : Row Entity) : List Entity :=
  numberFrom b.next (template.map (moveTo b.rows.size)).toList

/-- The blueprint with the entities of the next row, before wires are drawn. -/
def withCopies (b : Blueprint) (template : Row Entity) : Blueprint :=
  { b with entities := b.entities ++ (b.copies template).toArray, next := b.next + 4 }

theorem Numbered.withCopies (h : b.Numbered) (template : Row Entity) :
    (b.withCopies template).Numbered := by
  have hplaced := h.foldl_place (template.map (moveTo b.rows.size)).toList
  rwa [foldl_place_eq] at hplaced

/-- A new row is copied first and wired then, to itself and to the row before it. -/
theorem addRow_eq (b : Blueprint) (template : Row Entity) :
    b.addRow template =
      { (b.withCopies template).connectAll (wiring b.nextRow b.rows.back?) with
        rows := b.rows.push b.nextRow } := by
  rw [addRow, foldl_place_eq]
  rfl

/-- The places outside a row at which its wires end, given the row before it if there is one. -/
def openPlaces : Option (Row Nat) → List Nat
  | none => [addressLamp, outputLamp]
  | some row => [row.counter, row.lamp, row.decider]

/-- Every wire of a row starts in the row and ends in it or in the row before. -/
theorem place_of_mem_wiring {row : Row Nat} {previous : Option (Row Nat)}
    {drawn : Color × Terminal × Terminal} (h : drawn ∈ wiring row previous) :
    drawn.2.1.place ∈ row.toList ∧
      (drawn.2.2.place ∈ row.toList ∨ drawn.2.2.place ∈ openPlaces previous) := by
  cases previous with
  | none =>
    simp only [wiring, Option.map_none, Option.toList_none, List.nil_append, List.mem_cons,
      List.not_mem_nil, or_false] at h
    rcases h with rfl | rfl | rfl | rfl | rfl | rfl <;> simp [Row.toList, openPlaces]
  | some p =>
    simp only [wiring, Option.map_some, Option.toList_some, List.cons_append, List.nil_append,
      List.mem_cons, List.not_mem_nil, or_false] at h
    rcases h with rfl | rfl | rfl | rfl | rfl | rfl | rfl <;> simp [Row.toList, openPlaces]

theorem size_withCopies (b : Blueprint) (template : Row Entity) :
    (b.withCopies template).entities.size = b.entities.size + 4 := by
  simp [withCopies, copies, numberFrom, Row.toList, Row.map]

theorem size_addRow (b : Blueprint) (template : Row Entity) :
    (b.addRow template).entities.size = b.entities.size + 4 := by
  rw [addRow_eq, size_connectAll, size_withCopies]

theorem getElem?_withCopies_left (template : Row Entity) {i : Nat} (hi : i < b.entities.size) :
    (b.withCopies template).entities[i]? = b.entities[i]? :=
  Array.getElem?_append_left hi

/-- The copies of a row are the entities of the template, moved to the place of the row and numbered
on. -/
theorem Numbered.getElem?_withCopies_right (h : b.Numbered) {template : Row Entity} {i : Nat}
    {entity : Entity} (hentity : template.toList[i]? = some entity) :
    (b.withCopies template).entities[b.entities.size + i]? =
      some { moveTo b.rows.size entity with number := b.entities.size + i + 1 } := by
  have hmap : (template.map (moveTo b.rows.size)).toList =
      template.toList.map (moveTo b.rows.size) := rfl
  have hnumber : b.next + i = b.entities.size + i + 1 := by
    rw [h.next]
    omega
  rw [Blueprint.withCopies, Array.getElem?_append_right (Nat.le_add_right _ _),
    Nat.add_sub_cancel_left]
  simp [copies, numberFrom, hmap, hentity, hnumber]

theorem rows_addRow (b : Blueprint) (template : Row Entity) :
    (b.addRow template).rows = b.rows.push b.nextRow := by
  rw [addRow_eq]

/-! ## The layout -/

/-- The entities are numbered in their order, and the rows stand one below the other after the
frame, four entities each. -/
structure Laid (b : Blueprint) : Prop where
  numbered : b.Numbered
  size : b.entities.size = 8 + 4 * b.rows.size
  rows : b.rows.toList = (List.range b.rows.size).map rowAt

theorem laid_new (label : String) : (new label).Laid := by
  have h := isMemory_new label
  refine ⟨h.numbered, ?_, ?_⟩
  · rw [h.size_rows, h.size]
  · rw [h.size_rows, h.rows]

/-- The places of the next row follow from the number of rows alone. -/
theorem Laid.nextRow_eq (h : b.Laid) : b.nextRow = rowAt b.rows.size := by
  rw [nextRow, h.size, rowAt]

theorem Laid.back?_rows (h : b.Laid) : b.rows.back? = rowBefore b.rows.size := by
  rw [← Array.getLast?_toList, h.rows, rowBefore_eq_getLast?]

/-- The wires of the row that is added next end at entities that are placed by then. -/
theorem Laid.place_lt_of_mem_wiring (h : b.Laid) (template : Row Entity) :
    ∀ drawn ∈ wiring b.nextRow b.rows.back?,
      drawn.2.1.place < (b.withCopies template).entities.size ∧
        drawn.2.2.place < (b.withCopies template).entities.size := by
  intro drawn hdrawn
  rw [h.nextRow_eq, h.back?_rows] at hdrawn
  have hplace := Blueprint.place_lt_of_mem_wiring hdrawn
  rw [size_withCopies, h.size]
  omega

/-- The wires of a row are added to what the entities record, those of the new row included. -/
theorem Laid.getElem?_addRow (h : b.Laid) {template : Row Entity} {i : Nat} {entity : Entity}
    (hentity : (b.withCopies template).entities[i]? = some entity) :
    ∃ entity', (b.addRow template).entities[i]? = some entity' ∧
      entity.ExtendsBy entity' fun side color =>
        drawnAt (wiring b.nextRow b.rows.back?) color ⟨i, side⟩ := by
  rw [addRow_eq]
  exact (h.numbered.withCopies template).getElem?_connectAll (h.place_lt_of_mem_wiring template)
    hentity

/-- The step lemma for one more row. -/
theorem Laid.addRow (h : b.Laid) (template : Row Entity) : (b.addRow template).Laid := by
  have hrows : (b.addRow template).rows.size = b.rows.size + 1 := by simp [rows_addRow]
  have hwired := (h.numbered.withCopies template).connectAll (wiring b.nextRow b.rows.back?)
  refine ⟨?_, ?_, ?_⟩
  · rw [addRow_eq]
    exact ⟨hwired.next, hwired.number⟩
  · rw [size_addRow, hrows, h.size]
    omega
  · rw [hrows, rows_addRow, Array.toList_push, h.rows, h.nextRow_eq, List.range_succ]
    simp

theorem Laid.addRows (template : Row Entity) (count : Nat) :
    ∀ {b : Blueprint}, b.Laid → (b.addRows template count).Laid := by
  induction count with
  | zero => exact fun h => h
  | succ count ih => exact fun h => ih (h.addRow template)

/-! ## Adding rows leaves the rest alone -/

/-- At a place stands a copy of an entity of the template, moved to its row and numbered, with
wires added. -/
def HoldsCopy (b : Blueprint) (row place : Nat) (entity : Entity) : Prop :=
  ∃ entity', b.entities[place]? = some entity' ∧
    Entity.Extends { moveTo row entity with number := place + 1 } entity'

/-- The second blueprint is the first with rows added below. -/
structure Grows (before after : Blueprint) (template : Row Entity) (count : Nat) : Prop where
  label : after.label = before.label
  /-- So many rows are added. -/
  rows : after.rows.size = before.rows.size + count
  /-- What stood there stands there still, at most with more wires. -/
  kept : ∀ (i : Nat) (entity : Entity), before.entities[i]? = some entity →
    ∃ entity', after.entities[i]? = some entity' ∧ entity.Extends entity'
  /-- Only the last row, or the lamps of the frame, got more wires. -/
  untouched : ∀ i < before.entities.size, i ∉ openPlaces before.rows.back? →
    after.entities[i]? = before.entities[i]?
  /-- Each new row is a copy of the template. -/
  added : ∀ row, before.rows.size ≤ row → row < after.rows.size →
    List.Forall₂ (after.HoldsCopy row) (rowAt row).toList template.toList

theorem Grows.refl (b : Blueprint) (template : Row Entity) : b.Grows b template 0 where
  label := rfl
  rows := rfl
  kept i entity h := ⟨entity, h, .refl entity⟩
  untouched _ _ _ := rfl
  added row hrow hrow' := by omega

/-- A copy stays a copy when more rows are added. -/
theorem Grows.holdsCopy {after : Blueprint} {template : Row Entity} {count row place : Nat}
    {entity : Entity} (h : b.Grows after template count) (hcopy : b.HoldsCopy row place entity) :
    after.HoldsCopy row place entity := by
  obtain ⟨old, hold, hextends⟩ := hcopy
  obtain ⟨new, hnew, hextends'⟩ := h.kept place old hold
  exact ⟨new, hnew, hextends.trans hextends'⟩

/-- One more row leaves the entities before it as they were, except for the wires that tie it to
them. -/
theorem Laid.grows_addRow (h : b.Laid) (template : Row Entity) :
    b.Grows (b.addRow template) template 1 where
  label := by
    rw [addRow_eq]
    exact label_connectAll _ _
  rows := by simp [rows_addRow]
  kept i entity hentity := by
    have hi : i < b.entities.size := (Array.getElem?_eq_some_iff.1 hentity).1
    rw [← getElem?_withCopies_left template hi] at hentity
    obtain ⟨entity', hentity', hextends⟩ := h.getElem?_addRow hentity
    exact ⟨entity', hentity', _, hextends⟩
  untouched i hi hopen := by
    rw [addRow_eq]
    have hrow : i ∉ b.nextRow.toList := by
      simp [nextRow, Row.toList]
      omega
    refine (getElem?_connectAll_of_ne fun drawn hdrawn => ?_).trans ?_
    · obtain ⟨hnear, hfar⟩ := place_of_mem_wiring hdrawn
      constructor
      · rintro rfl
        exact hrow hnear
      · rintro rfl
        exact hfar.elim hrow hopen
    · exact getElem?_withCopies_left template hi
  added row hrow hrow' := by
    obtain rfl : row = b.rows.size := by
      simp [rows_addRow] at hrow'
      omega
    have hcopy : ∀ (i : Nat) (entity : Entity), template.toList[i]? = some entity →
        (b.addRow template).HoldsCopy b.rows.size (b.entities.size + i) entity := by
      intro i entity hentity
      obtain ⟨entity', hentity', hextends⟩ :=
        h.getElem?_addRow (h.numbered.getElem?_withCopies_right hentity)
      exact ⟨entity', hentity', _, hextends⟩
    rw [← h.nextRow_eq]
    exact .cons (hcopy 0 _ rfl) (.cons (hcopy 1 _ rfl) (.cons (hcopy 2 _ rfl)
      (.cons (hcopy 3 _ rfl) .nil)))

/-- Adding more rows touches nothing that stood there before the first of them. -/
theorem Grows.trans {b' b'' : Blueprint} {template : Row Entity} {count count' : Nat}
    (h : b.Grows b' template count) (h' : b'.Grows b'' template count')
    (hopen : ∀ i < b.entities.size, i < b'.entities.size ∧ i ∉ openPlaces b'.rows.back?) :
    b.Grows b'' template (count + count') where
  label := h'.label.trans h.label
  rows := by rw [h'.rows, h.rows, Nat.add_assoc]
  kept i entity hentity := by
    obtain ⟨next, hnext, hextends⟩ := h.kept i entity hentity
    obtain ⟨last, hlast, hextends'⟩ := h'.kept i next hnext
    exact ⟨last, hlast, hextends.trans hextends'⟩
  untouched i hi hi' := by
    obtain ⟨hlt, hclosed⟩ := hopen i hi
    rw [h'.untouched i hlt hclosed, h.untouched i hi hi']
  added row hrow hrow' := by
    by_cases hold : row < b'.rows.size
    · exact (h.added row hrow hold).imp fun _ _ => h'.holdsCopy
    · exact h'.added row (Nat.le_of_not_lt hold) hrow'

theorem Laid.grows (template : Row Entity) (count : Nat) :
    ∀ {b : Blueprint}, b.Laid → b.Grows (b.addRows template count) template count := by
  induction count with
  | zero => exact fun _ => .refl _ _
  | succ count ih =>
    intro b h
    rw [Blueprint.addRows, Nat.add_comm count]
    refine (h.grows_addRow template).trans (ih (h.addRow template)) fun i hi => ?_
    rw [size_addRow, rows_addRow, Array.back?_push]
    simp [openPlaces, nextRow]
    omega

/-! ## Putting in signals changes the outputs of the storages only -/

/-- Filling a row changes the filters of its storage and no other entity. -/
theorem getElem?_put (b : Blueprint) (entry : Row Nat × Signals) (i : Nat) :
    (b.put entry).entities[i]? =
      if entry.1.storage = i then (b.entities[i]?).map (·.setFilters (filtersOf entry.2))
      else b.entities[i]? :=
  Array.getElem?_modify

theorem foldl_put_eq (entries : List (Row Nat × Signals)) (b : Blueprint) :
    entries.foldl put b = { b with entities := (entries.foldl put b).entities } := by
  induction entries generalizing b with
  | nil => rfl
  | cons entry entries ih =>
    rw [List.foldl_cons, ih]
    rfl

/-- Entities that store no row are left alone. -/
theorem getElem?_foldl_put_of_ne {i : Nat} {entries : List (Row Nat × Signals)} :
    ∀ {b : Blueprint}, (∀ entry ∈ entries, entry.1.storage ≠ i) →
      (entries.foldl put b).entities[i]? = b.entities[i]? := by
  induction entries with
  | nil => exact fun _ => rfl
  | cons entry entries ih =>
    intro b h
    obtain ⟨hentry, hentries⟩ := List.forall_mem_cons.1 h
    rw [List.foldl_cons, ih hentries, getElem?_put, if_neg hentry]

/-- As the rows have storages of their own, each storage puts out what was meant for its row. -/
theorem getElem?_foldl_put_of_mem {entry : Row Nat × Signals} {entries : List (Row Nat × Signals)} :
    ∀ {b : Blueprint}, entries.Pairwise (fun e e' => e.1.storage ≠ e'.1.storage) →
      entry ∈ entries →
      (entries.foldl put b).entities[entry.1.storage]? =
        (b.entities[entry.1.storage]?).map (·.setFilters (filtersOf entry.2)) := by
  induction entries with
  | nil => simp
  | cons first entries ih =>
    intro b hdistinct hmem
    obtain ⟨hfirst, hdistinct⟩ := List.pairwise_cons.1 hdistinct
    rw [List.foldl_cons]
    rcases List.mem_cons.1 hmem with rfl | hmem
    · rw [getElem?_foldl_put_of_ne fun e he => (hfirst e he).symm, getElem?_put, if_pos rfl]
    · rw [ih hdistinct hmem, getElem?_put, if_neg (hfirst entry hmem)]

/-- The second blueprint is the first with signals put into its rows. -/
structure Refills (before after : Blueprint) (signals : List Signals) : Prop where
  label : after.label = before.label
  rows : after.rows = before.rows
  /-- The storage of each row puts out its signals and is otherwise the same. -/
  storage : ∀ (row : Nat) (dictionary : Signals), signals[row]? = some dictionary →
    ∃ old new, before.entities[(rowAt row).storage]? = some old ∧
      after.entities[(rowAt row).storage]? = some new ∧ old.Refilled new dictionary
  /-- Everything that is not the storage of a row is the same. -/
  untouched : ∀ i, (∀ row < before.rows.size, (rowAt row).storage ≠ i) →
    after.entities[i]? = before.entities[i]?
  /-- Read back, the rows hold the signals that were put in. -/
  readBack : after.rowFilters.map (·.map Filter.entry) = signals.map (·.entries)

/-- No two rows share their storage, so no row is filled twice. -/
theorem Laid.pairwise_storage (h : b.Laid) {signals : List Signals}
    (hlength : signals.length = b.rows.size) :
    (b.rows.toList.zip signals).Pairwise fun e e' => e.1.storage ≠ e'.1.storage := by
  have hrows : b.rows.toList.Pairwise fun row row' => row.storage ≠ row'.storage := by
    rw [h.rows, List.pairwise_map]
    refine List.pairwise_lt_range.imp fun {i j} hij => ?_
    simp [rowAt]
    omega
  have hfst : (b.rows.toList.zip signals).map Prod.fst = b.rows.toList :=
    List.map_fst_zip (by simp [hlength])
  rwa [← hfst, List.pairwise_map] at hrows

/-- As many signals as there are rows can be filled in, and each row gets its own. -/
theorem Laid.refills (h : b.Laid) {signals : List Signals}
    (hlength : signals.length = b.rows.size) :
    ∃ after, b.insertSignals signals = .ok after ∧ b.Refills after signals := by
  rw [insertSignals_eq, if_neg (not_not_intro hlength)]
  refine ⟨_, rfl, ?_⟩
  generalize hafter : (b.rows.toList.zip signals).foldl put b = after
  have hframe : after = { b with entities := after.entities } := by
    rw [← hafter]
    exact foldl_put_eq _ _
  have hstorage : ∀ (row : Nat) (dictionary : Signals), signals[row]? = some dictionary →
      ∃ old new, b.entities[(rowAt row).storage]? = some old ∧
        after.entities[(rowAt row).storage]? = some new ∧ old.Refilled new dictionary := by
    intro row dictionary hdictionary
    have hrow : row < b.rows.size := hlength ▸ (List.getElem?_eq_some_iff.1 hdictionary).1
    have hmem : (rowAt row, dictionary) ∈ b.rows.toList.zip signals := by
      refine List.mem_of_getElem? (i := row) ?_
      simp [List.getElem?_zip_eq_some, h.rows, hrow, hdictionary]
    have hplace : (rowAt row).storage < b.entities.size := by
      simp only [h.size, rowAt]
      omega
    have hput := getElem?_foldl_put_of_mem (b := b) (h.pairwise_storage hlength) hmem
    rw [hafter, Array.getElem?_eq_getElem hplace] at hput
    exact ⟨_, _, Array.getElem?_eq_getElem hplace, hput, Entity.refilled_setFilters _ _⟩
  refine ⟨by rw [hframe], by rw [hframe], hstorage, fun i hi => ?_, ?_⟩
  · rw [← hafter]
    refine getElem?_foldl_put_of_ne fun entry hentry => ?_
    have hrow := (List.of_mem_zip hentry).1
    rw [h.rows] at hrow
    obtain ⟨row, hrow, hrowAt⟩ := List.mem_map.1 hrow
    rw [← hrowAt]
    exact hi row (List.mem_range.1 hrow)
  · have hrows : after.rows.toList = (List.range signals.length).map rowAt := by
      rw [hframe, hlength]
      exact h.rows
    rw [rowFilters, hrows]
    refine List.ext_getElem (by simp) fun row hrow hrow' => ?_
    obtain ⟨old, new, -, hnew, hrefilled⟩ :=
      hstorage row _ (List.getElem?_eq_getElem (by simpa using hrow'))
    simpa [hnew] using hrefilled.entries

theorem Laid.put (h : b.Laid) (entry : Row Nat × Signals) : (b.put entry).Laid where
  numbered := by
    refine h.numbered.modify ?_ entry.1.storage
    intro entity
    rfl
  size := Array.size_modify.trans h.size
  rows := h.rows

theorem Laid.foldl_put (entries : List (Row Nat × Signals)) :
    ∀ {b : Blueprint}, b.Laid → (entries.foldl Blueprint.put b).Laid := by
  induction entries with
  | nil => exact fun h => h
  | cons entry entries ih => exact fun h => ih (h.put entry)

/-- Filling fails exactly if there are more signals than rows or fewer. -/
theorem exists_insertSignals_eq_error_iff {signals : List Signals} :
    (∃ fault, b.insertSignals signals = .error fault) ↔ signals.length ≠ b.rows.size := by
  rw [insertSignals_eq]
  split <;> simp_all

/-! ## Sequences of edits -/

/-- What can be done to a blueprint under construction. -/
inductive Edit where
  /-- Rows are added below the others. -/
  | addRows (template : Row Entity) (count : Nat)
  /-- Signals are put into the rows. -/
  | insertSignals (signals : List Signals)

/-- The blueprint after an edit, also after one that fails. -/
def edit (b : Blueprint) : Edit → Blueprint
  | .addRows template count => b.addRows template count
  | .insertSignals signals => ((fillRows signals).outcome b).2

/-- The blueprint that a sequence of edits makes of one without rows. -/
def build (label : String) (edits : List Edit) : Blueprint := edits.foldl edit (new label)

/-- The number of signals is checked before any of them is put in. -/
theorem edit_insertSignals_of_ne {signals : List Signals} (h : signals.length ≠ b.rows.size) :
    b.edit (.insertSignals signals) = b := by
  rw [edit, outcome_fillRows, if_pos h]

theorem edit_insertSignals_of_eq {signals : List Signals} (h : signals.length = b.rows.size) :
    b.edit (.insertSignals signals) = (b.rows.toList.zip signals).foldl put b := by
  rw [edit, outcome_fillRows, if_neg (not_not_intro h)]

/-- Every edit keeps the layout. -/
theorem Laid.edit (h : b.Laid) (e : Edit) : (b.edit e).Laid := by
  cases e with
  | addRows template count => exact h.addRows template count
  | insertSignals signals =>
    by_cases hlength : signals.length = b.rows.size
    · rw [edit_insertSignals_of_eq hlength]
      exact h.foldl_put _
    · rw [edit_insertSignals_of_ne hlength]
      exact h

theorem Laid.foldl_edit (edits : List Edit) :
    ∀ {b : Blueprint}, b.Laid → (edits.foldl Blueprint.edit b).Laid := by
  induction edits with
  | nil => exact fun h => h
  | cons e edits ih => exact fun h => ih (h.edit e)

/-- Whatever is built from an empty memory is laid out. -/
theorem laid_build (label : String) (edits : List Edit) : (build label edits).Laid :=
  (laid_new label).foldl_edit edits

/-- What any further edit does to a blueprint. -/
structure Framed (b : Blueprint) : Prop where
  laid : b.Laid
  /-- Adding rows keeps what stands there. -/
  grows : ∀ template count, b.Grows (b.addRows template count) template count
  /-- Putting in signals fails exactly if there are not as many of them as rows. -/
  refuses : ∀ signals, (∃ fault, b.insertSignals signals = .error fault) ↔
    signals.length ≠ b.rows.size
  /-- If it fails the blueprint stays as it is. -/
  refused : ∀ signals fault, b.insertSignals signals = .error fault →
    b.edit (.insertSignals signals) = b
  /-- If it does not fail the outputs of the storages change and nothing else. -/
  refills : ∀ signals after, b.insertSignals signals = .ok after →
    b.edit (.insertSignals signals) = after ∧ b.Refills after signals

/-- Along any sequence of edits, with any templates, the entities are numbered and the rows stand
in their places, and every further edit changes only what it is meant to change. -/
theorem edits_change_only_their_own (label : String) (edits : List Edit) :
    (build label edits).Framed := by
  have hlaid := laid_build label edits
  generalize build label edits = b at hlaid
  refine ⟨hlaid, fun template count => hlaid.grows template count,
    fun signals => exists_insertSignals_eq_error_iff, ?_, ?_⟩
  · intro signals fault hfault
    exact edit_insertSignals_of_ne (exists_insertSignals_eq_error_iff.1 ⟨fault, hfault⟩)
  · intro signals after hafter
    have hlength : signals.length = b.rows.size := by
      by_contra hne
      obtain ⟨fault, hfault⟩ := exists_insertSignals_eq_error_iff.2 hne
      rw [hfault] at hafter
      cases hafter
    obtain ⟨after', hafter', hrefills⟩ := hlaid.refills hlength
    obtain rfl : after' = after := Except.ok.inj (hafter'.symm.trans hafter)
    refine ⟨?_, hrefills⟩
    rw [insertSignals_eq, if_neg (not_not_intro hlength)] at hafter
    rw [edit_insertSignals_of_eq hlength]
    exact Except.ok.inj hafter

end Blueprint
end CircuitRom
