import CircuitRom.Blueprint
import Mathlib.Data.List.Range

/-!
# Wires of the memory

A wire is recorded at both of its ends, under the number of the entity at the other end.  Placing
entities and setting their outputs touches no wire, so the wires of the finished memory are exactly
those that were drawn, row by row, and each of them can be followed from either end.  `IsMemory` is
what one more row preserves, and `isMemory_rom` says that the memory for any signals has it.
-/

namespace CircuitRom
namespace Blueprint

variable {b : Blueprint}

/-! ## Recorded wires -/

/-- The wires that are recorded at a terminal. -/
def wiresAt (b : Blueprint) (t : Terminal) (color : Color) : List Wire :=
  ((b.entities[t.place]?).map fun entity => entity.wires t.side color).getD []

theorem mem_wiresAt {t : Terminal} {color : Color} {w : Wire} :
    w ∈ b.wiresAt t color ↔
      ∃ entity, b.entities[t.place]? = some entity ∧ w ∈ entity.wires t.side color := by
  rw [wiresAt]
  cases b.entities[t.place]? <;> simp

/-- Every entity has the number of its place, counted from one, and the next number is the one after
them. -/
structure Numbered (b : Blueprint) : Prop where
  next : b.next = b.entities.size + 1
  number : ∀ i entity, b.entities[i]? = some entity → entity.number = i + 1

/-- A new entity gets the next number. -/
theorem Numbered.place (h : b.Numbered) (entity : Entity) : (b.place entity).Numbered where
  next := by rw [Blueprint.place, Array.size_push, h.next]
  number i e he := by
    rw [Blueprint.place, Array.getElem?_push] at he
    split at he
    · next hi =>
      cases he
      rw [hi]
      exact h.next
    · exact h.number i e he

theorem Numbered.modify (h : b.Numbered) {f : Entity → Entity}
    (hf : ∀ entity, (f entity).number = entity.number) (i : Nat) : (b.modify i f).Numbered where
  next := by rw [Blueprint.modify, Array.size_modify, h.next]
  number j e he := by
    rw [Blueprint.modify, Array.getElem?_modify] at he
    split at he
    · obtain ⟨entity, hentity, rfl⟩ := Option.map_eq_some_iff.1 he
      rw [hf, h.number j entity hentity]
    · exact h.number j e he

/-- A terminal as the other end of a wire records it when entities are numbered by their places. -/
def Terminal.wire (t : Terminal) : Wire := ⟨t.place + 1, t.side.number⟩

/-- The number that is read off an entity is that of its place. -/
theorem Numbered.wireTo_eq (h : b.Numbered) {t : Terminal} (ht : t.place < b.entities.size) :
    b.wireTo t = t.wire := by
  have hentity : b.entities[t.place]? = some b.entities[t.place] := Array.getElem?_eq_getElem ht
  rw [wireTo, numberAt, hentity, Terminal.wire, Option.map_some, Option.getD_some,
    h.number t.place _ hentity]

/-- A new entity without wires adds none. -/
theorem wiresAt_place {entity : Entity} (hentity : entity.connections = {}) (t : Terminal)
    (color : Color) : (b.place entity).wiresAt t color = b.wiresAt t color := by
  rw [wiresAt, wiresAt, place, Array.getElem?_push]
  split
  · next hplace =>
    rw [hplace, Array.getElem?_eq_none (Nat.le_refl _)]
    obtain ⟨place, side⟩ := t
    cases side <;> cases color <;> simp [Entity.wires, hentity, Connections.get, Bundle.get]
  · rfl

theorem wiresAt_modify {f : Entity → Entity} (hf : ∀ entity, (f entity).wires = entity.wires)
    (i : Nat) (t : Terminal) (color : Color) :
    (b.modify i f).wiresAt t color = b.wiresAt t color := by
  rw [wiresAt, wiresAt, modify, Array.getElem?_modify]
  split
  · rw [Option.map_map]
    simp only [Function.comp_def, hf]
  · rfl

/-- A wire is attached at one terminal in one colour. -/
theorem wiresAt_attach {t : Terminal} (ht : t.place < b.entities.size) (color : Color)
    (wire : Wire) (u : Terminal) (hue : Color) :
    (b.attach t color wire).wiresAt u hue =
      if u = t ∧ hue = color then b.wiresAt u hue ++ [wire] else b.wiresAt u hue := by
  obtain ⟨place, side⟩ := t
  obtain ⟨place', side'⟩ := u
  simp only [wiresAt, attach, modify, Array.getElem?_modify, Terminal.mk.injEq]
  by_cases hplace : place = place'
  · subst hplace
    have hentity : b.entities[place]? = some b.entities[place] := Array.getElem?_eq_getElem ht
    rw [hentity]
    simp [Entity.wires_attach]
  · simp [hplace, Ne.symm hplace]

@[simp] theorem size_attach (t : Terminal) (color : Color) (wire : Wire) :
    (b.attach t color wire).entities.size = b.entities.size :=
  Array.size_modify

@[simp] theorem size_connect (color : Color) (s t : Terminal) :
    (b.connect color s t).entities.size = b.entities.size := by
  simp [connect]

theorem Numbered.attach (h : b.Numbered) (t : Terminal) (color : Color) (wire : Wire) :
    (b.attach t color wire).Numbered :=
  h.modify (fun entity => by simp [Entity.attach]) t.place

theorem Numbered.connect (h : b.Numbered) (color : Color) (s t : Terminal) :
    (b.connect color s t).Numbered :=
  (h.attach s color (b.wireTo t)).attach t color (b.wireTo s)

/-! ## Placing entities -/

/-- What stands where, in the order of placing. -/
def stands (b : Blueprint) : List (String × Position) :=
  b.entities.toList.map fun entity => (entity.name, entity.position)

@[simp] theorem length_stands (b : Blueprint) : b.stands.length = b.entities.size := by
  simp [stands]

theorem stands_place (b : Blueprint) (entity : Entity) :
    (b.place entity).stands = b.stands ++ [(entity.name, entity.position)] := by
  simp [stands, place]

/-- Changing wires or filters moves no entity. -/
theorem stands_modify {f : Entity → Entity} (hname : ∀ entity, (f entity).name = entity.name)
    (hposition : ∀ entity, (f entity).position = entity.position) (i : Nat) :
    (b.modify i f).stands = b.stands := by
  refine List.ext_getElem? fun j => ?_
  simp only [stands, modify, List.getElem?_map, Array.getElem?_toList, Array.getElem?_modify]
  split
  · simp only [Option.map_map, Function.comp_def, hname, hposition]
  · rfl

/-- Placing entities without wires numbers them and leaves all wires as they are. -/
theorem foldl_place {entities : List Entity} (h : ∀ entity ∈ entities, entity.connections = {}) :
    ∀ {b : Blueprint}, b.Numbered →
      (entities.foldl place b).stands =
        b.stands ++ entities.map (fun entity => (entity.name, entity.position)) ∧
      (entities.foldl place b).rows = b.rows ∧ (entities.foldl place b).Numbered ∧
      ∀ t color, (entities.foldl place b).wiresAt t color = b.wiresAt t color := by
  induction entities with
  | nil => exact fun hb => ⟨(List.append_nil _).symm, rfl, hb, fun _ _ => rfl⟩
  | cons entity rest ih =>
    intro b hb
    obtain ⟨hentity, hrest⟩ := List.forall_mem_cons.1 h
    obtain ⟨hstands, hrows, hnumbered, hwires⟩ := ih hrest (hb.place entity)
    refine ⟨?_, hrows, hnumbered, fun t color => ?_⟩
    · rw [List.foldl_cons, hstands, stands_place, List.append_assoc, List.map_cons,
        List.singleton_append]
    · rw [List.foldl_cons, hwires, wiresAt_place hentity]

/-! ## Drawing wires -/

/-- One of the wires ends at the terminal and is recorded there as the given one. -/
def Records (wires : List (Color × Terminal × Terminal)) (color : Color) (u : Terminal)
    (w : Wire) : Prop :=
  ∃ drawn ∈ wires, drawn.1 = color ∧
    (drawn.2.1 = u ∧ drawn.2.2.wire = w ∨ drawn.2.2 = u ∧ drawn.2.1.wire = w)

/-- What drawing a wire records at a terminal. -/
def recordedAt (drawn : Color × Terminal × Terminal) (color : Color) (u : Terminal) : List Wire :=
  if drawn.1 = color then
    (if drawn.2.1 = u then [drawn.2.2.wire] else []) ++
      (if drawn.2.2 = u then [drawn.2.1.wire] else [])
  else []

/-- What drawing wires records at a terminal, in the order of drawing. -/
def drawnAt (wires : List (Color × Terminal × Terminal)) (color : Color) (u : Terminal) :
    List Wire :=
  wires.flatMap (recordedAt · color u)

theorem drawnAt_append (wires wires' : List (Color × Terminal × Terminal)) (color : Color)
    (u : Terminal) : drawnAt (wires ++ wires') color u = drawnAt wires color u ++
      drawnAt wires' color u :=
  List.flatMap_append

/-- What is recorded at a terminal are the far ends of the wires drawn there. -/
theorem mem_drawnAt {wires : List (Color × Terminal × Terminal)} {color : Color} {u : Terminal}
    {w : Wire} : w ∈ drawnAt wires color u ↔ Records wires color u w := by
  rw [drawnAt, List.mem_flatMap, Records]
  refine exists_congr fun drawn => and_congr_right fun _ => ?_
  unfold recordedAt
  by_cases hcolor : drawn.1 = color
  · by_cases hnear : drawn.2.1 = u <;> by_cases hfar : drawn.2.2 = u <;>
      simp [hcolor, hnear, hfar, eq_comm]
  · simp [hcolor]

/-- Drawing a wire records each end at the other. -/
theorem Numbered.wiresAt_connect (h : b.Numbered) {drawn : Color × Terminal × Terminal}
    (hnear : drawn.2.1.place < b.entities.size) (hfar : drawn.2.2.place < b.entities.size)
    (color : Color) (u : Terminal) :
    (b.connect drawn.1 drawn.2.1 drawn.2.2).wiresAt u color =
      b.wiresAt u color ++ recordedAt drawn color u := by
  rw [Blueprint.connect, h.wireTo_eq hnear, h.wireTo_eq hfar,
    wiresAt_attach (by simpa using hfar), wiresAt_attach hnear]
  simp only [recordedAt, eq_comm (a := u), eq_comm (a := color)]
  by_cases hcolor : drawn.1 = color
  · by_cases hu : drawn.2.1 = u <;> by_cases hu' : drawn.2.2 = u <;> simp [hcolor, hu, hu']
  · simp [hcolor]

theorem connectAll_cons (b : Blueprint) (drawn : Color × Terminal × Terminal)
    (wires : List (Color × Terminal × Terminal)) :
    b.connectAll (drawn :: wires) = (b.connect drawn.1 drawn.2.1 drawn.2.2).connectAll wires := rfl

theorem stands_attach (t : Terminal) (color : Color) (wire : Wire) :
    (b.attach t color wire).stands = b.stands :=
  stands_modify (by simp [Entity.attach]) (by simp [Entity.attach]) t.place

theorem stands_connectAll (wires : List (Color × Terminal × Terminal)) (b : Blueprint) :
    (b.connectAll wires).stands = b.stands := by
  induction wires generalizing b with
  | nil => rfl
  | cons drawn wires ih => rw [connectAll_cons, ih, connect, stands_attach, stands_attach]

theorem Numbered.connectAll (wires : List (Color × Terminal × Terminal)) :
    ∀ {b : Blueprint}, b.Numbered → (b.connectAll wires).Numbered := by
  induction wires with
  | nil => exact fun h => h
  | cons drawn wires ih =>
    intro b h
    rw [connectAll_cons]
    exact ih (h.connect _ _ _)

/-- Drawing wires adds them, in their order, to what is recorded. -/
theorem Numbered.wiresAt_connectAll {wires : List (Color × Terminal × Terminal)} :
    ∀ {b : Blueprint}, b.Numbered → (∀ drawn ∈ wires, drawn.2.1.place < b.entities.size ∧
      drawn.2.2.place < b.entities.size) → ∀ (color : Color) (u : Terminal),
      (b.connectAll wires).wiresAt u color = b.wiresAt u color ++ drawnAt wires color u := by
  induction wires with
  | nil =>
    intro b _ _ color u
    exact (List.append_nil _).symm
  | cons drawn wires ih =>
    intro b h hplaces color u
    obtain ⟨hdrawn, hwires⟩ := List.forall_mem_cons.1 hplaces
    rw [connectAll_cons, ih (h.connect _ _ _) (by simpa using hwires),
      h.wiresAt_connect hdrawn.1 hdrawn.2, List.append_assoc]
    rfl

/-- Drawing wires records each of them at both of its ends, and nothing else. -/
theorem Numbered.mem_wiresAt_connectAll (h : b.Numbered)
    {wires : List (Color × Terminal × Terminal)}
    (hplaces : ∀ drawn ∈ wires, drawn.2.1.place < b.entities.size ∧
      drawn.2.2.place < b.entities.size) {color : Color} {u : Terminal} {w : Wire} :
    w ∈ (b.connectAll wires).wiresAt u color ↔
      w ∈ b.wiresAt u color ∨ Records wires color u w := by
  rw [h.wiresAt_connectAll hplaces, List.mem_append, mem_drawnAt]

/-! ## Rows -/

/-- The places of the entities of a row. -/
def rowAt (i : Nat) : Row Nat := ⟨8 + 4 * i, 8 + 4 * i + 1, 8 + 4 * i + 2, 8 + 4 * i + 3⟩

/-- The row before a row. -/
def rowBefore : Nat → Option (Row Nat)
  | 0 => none
  | i + 1 => some (rowAt i)

/-- The wires of the first `n` rows. -/
def memoryWires (n : Nat) : List (Color × Terminal × Terminal) :=
  (List.range n).flatMap fun i => wiring (rowAt i) (rowBefore i)

/-- A memory of `n` rows: the parts of each row stand in its line, below the frame, and exactly the
wires of the rows are recorded. -/
structure IsMemory (b : Blueprint) (n : Nat) : Prop where
  size : b.entities.size = 8 + 4 * n
  rows : b.rows.toList = (List.range n).map rowAt
  lamps : b.stands[addressLamp]? = some ("small-lamp", ⟨.ofInt (-1), .ofInt (-2)⟩) ∧
    b.stands[outputLamp]? = some ("small-lamp", ⟨.ofInt 2, .ofInt (-2)⟩)
  parts : ∀ i < n, (rowAt i).map (b.stands[·]?) =
    (Row.standard.map (moveTo i)).map fun entity => some (entity.name, entity.position)
  numbered : b.Numbered
  wires : ∀ color t w, w ∈ b.wiresAt t color ↔ Records (memoryWires n) color t w

theorem isMemory_new (label : String) : (new label).IsMemory 0 := by
  have hframe : ∀ entity ∈ frame, entity.connections = {} := by
    simp [frame, walls, Entity.plain]
  have hempty : Numbered { label } := ⟨rfl, fun i entity h => by simp at h⟩
  obtain ⟨hstands, hrows, hnumbered, hwires⟩ := foldl_place hframe hempty
  change (new label).stands = _ at hstands
  refine ⟨?_, ?_, ?_, ?_, hnumbered, fun color t w => ?_⟩
  · rw [← length_stands, hstands]
    rfl
  · rw [new, hrows]
    rfl
  · rw [hstands]
    exact ⟨rfl, rfl⟩
  · simp
  · rw [new, hwires]
    simp [wiresAt, Records, memoryWires]

theorem rowBefore_eq_getLast? (n : Nat) : ((List.range n).map rowAt).getLast? = rowBefore n := by
  cases n with
  | zero => rfl
  | succ n => simp [List.range_succ, rowBefore]

/-- One more row adds its own wires at the end. -/
theorem memoryWires_succ (n : Nat) :
    memoryWires (n + 1) = memoryWires n ++ wiring (rowAt n) (rowBefore n) := by
  simp [memoryWires, List.range_succ]

/-- The wires of a row end at entities that have been placed. -/
theorem place_lt_of_mem_wiring {n : Nat} {drawn : Color × Terminal × Terminal}
    (h : drawn ∈ wiring (rowAt n) (rowBefore n)) :
    drawn.2.1.place < 8 + 4 * (n + 1) ∧ drawn.2.2.place < 8 + 4 * (n + 1) := by
  cases n with
  | zero =>
    simp only [wiring, rowBefore, rowAt, addressLamp, outputLamp, Option.map_none,
      Option.toList_none, List.nil_append, List.mem_cons, List.not_mem_nil, or_false] at h
    rcases h with rfl | rfl | rfl | rfl | rfl | rfl <;> simp
  | succ n =>
    simp only [wiring, rowBefore, rowAt, Option.map_some, Option.toList_some, List.cons_append,
      List.nil_append, List.mem_cons, List.not_mem_nil, or_false] at h
    rcases h with rfl | rfl | rfl | rfl | rfl | rfl | rfl <;> simp <;> omega

theorem mem_memoryWires {n : Nat} {drawn : Color × Terminal × Terminal} :
    drawn ∈ memoryWires n ↔ ∃ i < n, drawn ∈ wiring (rowAt i) (rowBefore i) := by
  simp only [memoryWires, List.mem_flatMap, List.mem_range]

/-- The wires end at entities of the memory. -/
theorem place_lt_of_mem_memoryWires {n : Nat} {drawn : Color × Terminal × Terminal}
    (h : drawn ∈ memoryWires n) :
    drawn.2.1.place < 8 + 4 * n ∧ drawn.2.2.place < 8 + 4 * n := by
  obtain ⟨i, hi, hdrawn⟩ := mem_memoryWires.1 h
  have hplace := place_lt_of_mem_wiring hdrawn
  omega

theorem records_append {wires wires' : List (Color × Terminal × Terminal)} {color : Color}
    {u : Terminal} {w : Wire} :
    Records (wires ++ wires') color u w ↔ Records wires color u w ∨ Records wires' color u w := by
  simp only [Records, List.mem_append, or_and_right, exists_or]

theorem IsMemory.size_rows {n : Nat} (h : b.IsMemory n) : b.rows.size = n := by
  rw [← Array.length_toList, h.rows, List.length_map, List.length_range]

/-- One more row adds its own parts and wires. -/
theorem IsMemory.addRow {n : Nat} (h : b.IsMemory n) :
    (b.addRow Row.standard).IsMemory (n + 1) := by
  have hback : b.rows.back? = rowBefore n := by
    rw [← Array.getLast?_toList, h.rows, rowBefore_eq_getLast?]
  have hplace : (⟨b.entities.size, b.entities.size + 1, b.entities.size + 2,
      b.entities.size + 3⟩ : Row Nat) = rowAt n := by
    rw [h.size, rowAt]
  have hrow : ∀ entity ∈ (Row.standard.map (moveTo n)).toList, entity.connections = {} := by
    simp [Row.map, Row.toList, Row.standard, moveTo]
  obtain ⟨hstands, -, hnumbered, hwires⟩ := foldl_place hrow h.numbered
  unfold Blueprint.addRow
  simp only [h.size_rows, hback, hplace]
  generalize (Row.standard.map (moveTo n)).toList.foldl place b = placed at *
  have hsize : placed.entities.size = 8 + 4 * (n + 1) := by
    rw [← length_stands, hstands]
    simp [h.size, Row.map, Row.toList]
    omega
  have hwired : Blueprint.stands { placed.connectAll (wiring (rowAt n) (rowBefore n)) with
      rows := b.rows.push (rowAt n) } = placed.stands :=
    stands_connectAll _ _
  have hold : ∀ k < 8 + 4 * n, placed.stands[k]? = b.stands[k]? := by
    intro k hk
    rw [hstands, List.getElem?_append_left (by rwa [length_stands, h.size])]
  have hwiredNumbered := hnumbered.connectAll (wiring (rowAt n) (rowBefore n))
  refine ⟨?_, ?_, ?_, fun i hi => ?_, ⟨hwiredNumbered.next, hwiredNumbered.number⟩,
    fun color t w => ?_⟩
  · rw [← length_stands, hwired, length_stands, hsize]
  · simp [h.rows, List.range_succ]
  · rw [hwired, hold addressLamp (by simp only [addressLamp]; omega),
      hold outputLamp (by simp only [outputLamp]; omega)]
    exact h.lamps
  · rw [hwired]
    by_cases hin : i < n
    · rw [← h.parts i hin]
      simp only [Row.map, rowAt, Row.mk.injEq]
      exact ⟨hold _ (by omega), hold _ (by omega), hold _ (by omega), hold _ (by omega)⟩
    · obtain rfl : i = n := by omega
      rw [hstands]
      simp [Row.map, Row.toList, rowAt, h.size]
  · rw [memoryWires_succ, records_append, ← h.wires, ← hwires]
    refine hnumbered.mem_wiresAt_connectAll fun drawn hdrawn => ?_
    rw [hsize]
    exact place_lt_of_mem_wiring hdrawn

theorem IsMemory.addRows (k : Nat) :
    ∀ {b : Blueprint} {n : Nat}, b.IsMemory n → (b.addRows Row.standard k).IsMemory (n + k) := by
  induction k with
  | zero => exact fun h => h
  | succ k ih =>
    intro b n h
    rw [Blueprint.addRows, Nat.add_comm k, ← Nat.add_assoc]
    exact ih h.addRow

/-! ## The finished memory -/

theorem stands_setFilters (i : Nat) (filters : List Filter) :
    (b.modify i (·.setFilters filters)).stands = b.stands :=
  stands_modify (by simp [Entity.setFilters]) (by simp [Entity.setFilters]) i

/-- The output of an entity can be set without touching its wires. -/
theorem IsMemory.setFilters {n : Nat} (h : b.IsMemory n) (i : Nat) (filters : List Filter) :
    (b.modify i (·.setFilters filters)).IsMemory n where
  size := Array.size_modify.trans h.size
  rows := h.rows
  lamps := by rw [stands_setFilters]; exact h.lamps
  parts := by rw [stands_setFilters]; exact h.parts
  numbered := h.numbered.modify (fun entity => by simp [Entity.setFilters]) i
  wires color t w := by
    rw [wiresAt_modify fun entity => entity.wires_setFilters filters]
    exact h.wires color t w

/-- A memory can be filled with as many signals as it has rows, and stays a memory. -/
theorem IsMemory.insertSignals {n : Nat} (h : b.IsMemory n) {signals : List Signals}
    (hlength : signals.length = n) : ∃ b', b.insertSignals signals = .ok b' ∧ b'.IsMemory n := by
  have hrows : signals.length = b.rows.size := hlength.trans h.size_rows.symm
  rw [insertSignals_eq, if_neg (not_not_intro hrows)]
  refine ⟨_, rfl, ?_⟩
  generalize b.rows.toList.zip signals = puts
  clear hrows
  induction puts generalizing b with
  | nil => exact h
  | cons put puts ih => exact ih (h.setFilters _ _)

/-- The memory for any signals can be built, with a row for each of them. -/
theorem isMemory_rom (label : String) (signals : List Signals) :
    ∃ b, rom label signals = .ok b ∧ b.IsMemory signals.length := by
  have h : ((new label).addRows Row.standard signals.length).IsMemory (0 + signals.length) :=
    (isMemory_new label).addRows signals.length
  rw [Nat.zero_add] at h
  exact h.insertSignals rfl

end Blueprint
end CircuitRom
