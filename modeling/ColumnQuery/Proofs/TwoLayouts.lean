import ColumnQuery.Proofs.CellContents

/-! # The two layouts of a table

Packing rows decides their contents, whatever the layout, and then places them. So both layouts fail
with the same errors, and what either gives back is what was given. -/

namespace ColumnQuery

/-! ## Contents of rows -/

/-- The id of a row and the contents of its fields. -/
abbrev RowContents := Int × List (Field × Contents)

namespace Table

variable {schema : TableSchema} {region : StringRegion} {bytes bytes' : List UInt8}

/-- The contents of the fields of a row; id fields take none. -/
def fieldContents (values : List (String × Value)) :
    List Field → Except Error (List (Field × Contents))
  | [] => .ok []
  | f :: rest =>
    if f.isId then fieldContents values rest
    else do
      let c ← f.contents ((values.lookup f.name).getD .null)
      let others ← fieldContents values rest
      return (f, c) :: others

/-- The contents of a row, which may name known fields only. -/
def rowContents (schema : TableSchema) (row : RowValues) : Except Error RowContents :=
  match row.2.find? fun (name, _) => (schema.field? name).isNone with
  | some (name, _) => .error (.schema (.unknownField schema.name name))
  | none => (fieldContents row.2 schema.fields).map fun contents => (row.1, contents)

/-- The contents of rows in order of id, which may occur once. -/
def rowsContents (schema : TableSchema) :
    Option Int → List RowValues → Except Error (List RowContents)
  | _, [] => .ok []
  | last, row :: rest => do
    if last = some row.1 then throw (.schema (.duplicateRow row.1 schema.name))
    let first ← rowContents schema row
    let others ← rowsContents schema (some row.1) rest
    return first :: others

def placeFields : List (Field × Contents) → List Cell → StringRegion → List Cell × StringRegion
  | [], cells, region => (cells, region)
  | (f, c) :: rest, cells, region =>
    let placed := c.place (region.sparse || f.isVirtual) region
    placeFields rest (cells.set f.column placed.1) placed.2

/-- Places the contents of a row in as many cells as there are columns. -/
def placeRow (columnCount : Nat) (row : RowContents) (region : StringRegion) :
    StoredRow × StringRegion :=
  let placed := placeFields row.2 (List.replicate columnCount .empty) region
  (⟨row.1, placed.1⟩, placed.2)

def placeRows (columnCount : Nat) :
    List RowContents → StringRegion → List StoredRow × StringRegion
  | [], region => ([], region)
  | row :: rest, region =>
    let first := placeRow columnCount row region
    let others := placeRows columnCount rest first.2
    (first.1 :: others.1, others.2)

theorem packFields_eq (values : List (String × Value)) (fields : List Field) (cells : List Cell)
    (region : StringRegion) :
    packFields values fields cells region =
      (fieldContents values fields).map fun contents => placeFields contents cells region := by
  induction fields generalizing cells region with
  | nil => rfl
  | cons f fields ih =>
      rw [packFields, fieldContents]
      split
      · exact ih cells region
      · rw [Field.pack_eq]
        cases f.contents ((values.lookup f.name).getD .null) with
        | error e => rfl
        | ok c =>
            simp only [ok_map, ok_bind, ih]
            cases fieldContents values fields <;> rfl

theorem packRow_eq (schema : TableSchema) (row : RowValues) (region : StringRegion) :
    packRow schema row region = (rowContents schema row).map fun contents =>
      placeRow schema.columnCount contents region := by
  unfold packRow rowContents
  generalize row.2.find? _ = unknown
  cases unknown with
  | some unknown => rfl
  | none =>
      simp only [packFields_eq]
      cases fieldContents row.2 schema.fields <;> rfl

/-- Packing rows decides their contents, whatever the region, and places them in it. -/
theorem packRows_eq (schema : TableSchema) (last : Option Int) (rows : List RowValues)
    (region : StringRegion) :
    packRows schema last rows region = (rowsContents schema last rows).map fun contents =>
      placeRows schema.columnCount contents region := by
  induction rows generalizing last region with
  | nil => rfl
  | cons row rows ih =>
      rw [packRows, rowsContents]
      split
      · rfl
      · rw [packRow_eq]
        cases rowContents schema row with
        | error e => rfl
        | ok first =>
            simp only [ok_map, ok_bind, ih]
            cases rowsContents schema (some row.1) rows <;> rfl

/-! ## Placed rows -/

/-- A stored row has an id and, in the columns of their fields, contents. -/
structure HasContents (bytes : List UInt8) (stored : StoredRow) (row : RowContents) : Prop where
  id : stored.id = row.1
  cell : ∀ f c, (f, c) ∈ row.2 → ∃ cell, stored.cells[f.column]? = some cell ∧ c.In bytes cell

theorem HasContents.mono {stored : StoredRow} {row : RowContents}
    (h : HasContents bytes stored row) (hp : bytes <+: bytes') : HasContents bytes' stored row where
  id := h.id
  cell f c hm := (h.cell f c hm).imp fun _ hcell => ⟨hcell.1, hcell.2.mono hp⟩

/-- The contents can be placed: each fits its field, and no two fields have the same column. -/
structure Placeable (columnCount : Nat) (contents : List (Field × Contents)) : Prop where
  fits : ∀ f c, (f, c) ∈ contents → f.Fits c
  column : ∀ f c, (f, c) ∈ contents → f.column < columnCount
  nodup : (contents.map (·.1.column)).Nodup

theorem Placeable.tail {columnCount : Nat} {f : Field} {c : Contents}
    {contents : List (Field × Contents)} (h : Placeable columnCount ((f, c) :: contents)) :
    Placeable columnCount contents where
  fits f c hm := h.fits f c (List.mem_cons_of_mem _ hm)
  column f c hm := h.column f c (List.mem_cons_of_mem _ hm)
  nodup := (List.nodup_cons.mp h.nodup).2

theorem getElem?_placeFields_of_ne {contents : List (Field × Contents)} {cells : List Cell}
    {column : Nat} (hc : column ∉ contents.map (·.1.column)) :
    (placeFields contents cells region).1[column]? = cells[column]? := by
  induction contents generalizing cells region with
  | nil => rfl
  | cons first contents ih =>
      obtain ⟨f, c⟩ := first
      obtain ⟨hne, hc⟩ := not_or.mp (fun hm => hc (List.mem_cons.mpr hm))
      rw [placeFields, ih hc, List.getElem?_set_ne (Ne.symm hne)]

theorem placeFields_spec {contents : List (Field × Contents)} {cells : List Cell}
    (hr : region.Valid) (h : Placeable cells.length contents) :
    (placeFields contents cells region).2.Valid ∧
      region.bytes <+: (placeFields contents cells region).2.bytes ∧
      ∀ f c, (f, c) ∈ contents → ∃ cell,
        (placeFields contents cells region).1[f.column]? = some cell ∧
          c.In (placeFields contents cells region).2.bytes cell := by
  induction contents generalizing cells region with
  | nil => exact ⟨hr, List.prefix_rfl, fun f c hm => (List.not_mem_nil hm).elim⟩
  | cons first contents ih =>
      obtain ⟨f, c⟩ := first
      obtain ⟨hv, hp, hin⟩ := Contents.place_spec hr (h.fits f c List.mem_cons_self).endless
        (region.sparse || f.isVirtual)
      rw [placeFields]
      set placed := c.place (region.sparse || f.isVirtual) region
      have htail : Placeable (cells.set f.column placed.1).length contents := by
        simpa using h.tail
      obtain ⟨hv', hp', hcells⟩ := ih hv htail
      refine ⟨hv', hp.trans hp', fun g d hm => ?_⟩
      rcases List.mem_cons.mp hm with hfirst | hm
      · obtain ⟨rfl, rfl⟩ := Prod.mk.inj hfirst
        -- No later field has this column, and the bytes behind its offsets stay where they are.
        refine ⟨placed.1, ?_, hin.mono hp'⟩
        rw [getElem?_placeFields_of_ne (List.nodup_cons.mp h.nodup).1,
          List.getElem?_set_self (h.column g d List.mem_cons_self)]
      · exact hcells g d hm

theorem placeRows_spec {columnCount : Nat} {rows : List RowContents} (hr : region.Valid)
    (h : ∀ row ∈ rows, Placeable columnCount row.2) :
    (placeRows columnCount rows region).2.Valid ∧
      region.bytes <+: (placeRows columnCount rows region).2.bytes ∧
      List.Forall₂ (HasContents (placeRows columnCount rows region).2.bytes)
        (placeRows columnCount rows region).1 rows := by
  induction rows generalizing region with
  | nil => exact ⟨hr, List.prefix_rfl, .nil⟩
  | cons row rows ih =>
      obtain ⟨hrow, hrows⟩ := List.forall_mem_cons.mp h
      have hlength : Placeable (List.replicate columnCount Cell.empty).length row.2 := by
        simpa using hrow
      obtain ⟨hv, hp, hcells⟩ := placeFields_spec hr hlength
      obtain ⟨hv', hp', hothers⟩ := ih hv hrows
      exact ⟨hv', hp.trans hp', .cons (HasContents.mono ⟨rfl, hcells⟩ hp') hothers⟩

/-! ## Rows that can be stored -/

/-- The schema can store the rows: no id is given twice, every name that is given is known, and each
field stores something for the first value of its name. -/
structure Storable (schema : TableSchema) (rows : List RowValues) : Prop where
  ids : (rows.map (·.1)).Nodup
  known : ∀ row ∈ rows, ∀ given ∈ row.2, (schema.field? given.1).isSome
  stores : ∀ row ∈ rows, ∀ f ∈ schema.fields, f.isId = false →
    ∃ v, f.Stores ((row.2.lookup f.name).getD .null) v

section

variable {values : List (String × Value)} {fields : List Field} {row : RowValues}
  {rows : List RowValues} {last : Option Int}

theorem fieldContents_spec {contents : List (Field × Contents)}
    (h : fieldContents values fields = .ok contents) :
    contents.map (·.1) = fields.filter (!·.isId) ∧
      ∀ f c, (f, c) ∈ contents → f.contents ((values.lookup f.name).getD .null) = .ok c := by
  induction fields generalizing contents with
  | nil =>
      obtain rfl := Except.ok.inj h
      exact ⟨rfl, fun f c hm => (List.not_mem_nil hm).elim⟩
  | cons g fields ih =>
      rw [fieldContents] at h
      split at h
      · rw [List.filter_cons_of_neg (by simpa using ‹g.isId = true›)]
        exact ih h
      · obtain ⟨d, hd, h⟩ := bind_eq_ok_iff.mp h
        obtain ⟨others, hothers, h⟩ := bind_eq_ok_iff.mp h
        obtain rfl := Except.ok.inj h
        obtain ⟨hfields, hcontents⟩ := ih hothers
        refine ⟨?_, fun f c hm => ?_⟩
        · rw [List.filter_cons_of_pos (by simpa using ‹¬ g.isId = true›), List.map_cons, hfields]
        · rcases List.mem_cons.mp hm with hfirst | hm
          · obtain ⟨rfl, rfl⟩ := Prod.mk.inj hfirst
            exact hd
          · exact hcontents f c hm

/-- Each field but an id has contents. -/
theorem exists_mem_of_fieldContents {contents : List (Field × Contents)}
    (h : fieldContents values fields = .ok contents) {f : Field} (hf : f ∈ fields)
    (hid : f.isId = false) : ∃ c, (f, c) ∈ contents := by
  have hin : f ∈ contents.map (·.1) := by
    rw [(fieldContents_spec h).1]
    exact List.mem_filter.mpr ⟨hf, by simpa using hid⟩
  obtain ⟨⟨_, c⟩, hc, rfl⟩ := List.mem_map.mp hin
  exact ⟨c, hc⟩

theorem exists_fieldContents (h : ∀ f ∈ fields, f.isId = false →
    ∃ v, f.Stores ((values.lookup f.name).getD .null) v) :
    ∃ contents, fieldContents values fields = .ok contents := by
  induction fields with
  | nil => exact ⟨[], rfl⟩
  | cons f fields ih =>
      obtain ⟨hf, hfields⟩ := List.forall_mem_cons.mp h
      obtain ⟨others, hothers⟩ := ih hfields
      rw [fieldContents]
      cases hid : f.isId with
      | true => exact ⟨others, by simpa using hothers⟩
      | false =>
          obtain ⟨v, hv⟩ := hf hid
          obtain ⟨c, hc⟩ := f.exists_contents hv
          exact ⟨(f, c) :: others, by simp [hc, hothers]⟩

theorem rowContents_eq_ok_iff {contents : RowContents} :
    rowContents schema row = .ok contents ↔
      (∀ given ∈ row.2, (schema.field? given.1).isSome) ∧
        fieldContents row.2 schema.fields = .ok contents.2 ∧ contents.1 = row.1 := by
  unfold rowContents
  split
  · rename_i name v hfind
    obtain ⟨hm, hnone⟩ : (name, v) ∈ row.2 ∧ (schema.field? name).isNone = true :=
      ⟨List.mem_of_find?_eq_some hfind, by simpa using List.find?_some hfind⟩
    refine ⟨fun h => (by cases h), fun h => ?_⟩
    have hsome := h.1 _ hm
    simp [Option.isNone_iff_eq_none.mp hnone] at hsome
  · rename_i hfind
    have hknown : ∀ given ∈ row.2, (schema.field? given.1).isSome = true := by
      intro given hm
      have hnot := List.find?_eq_none.mp hfind given hm
      simpa [Option.isSome_iff_ne_none] using hnot
    rw [map_eq_ok_iff, and_iff_right hknown]
    constructor
    · rintro ⟨fields, hfields, rfl⟩
      exact ⟨hfields, rfl⟩
    · rintro ⟨hfields, hid⟩
      exact ⟨contents.2, hfields, by rw [← hid]⟩

/-- With distinct columns what a row contains can be placed. -/
theorem placeable_of_rowContents {contents : RowContents}
    (hn : (schema.fields.map (·.column)).Nodup) (h : rowContents schema row = .ok contents) :
    Placeable schema.columnCount contents.2 := by
  obtain ⟨-, hfields, -⟩ := rowContents_eq_ok_iff.mp h
  obtain ⟨hmap, hcontents⟩ := fieldContents_spec hfields
  refine ⟨fun f c hm => (Field.contents_spec (hcontents f c hm)).1, fun f c hm => ?_, ?_⟩
  · have hf : f ∈ contents.2.map (·.1) := List.mem_map_of_mem hm
    rw [hmap] at hf
    exact column_lt_columnCount (List.mem_of_mem_filter hf)
  · have hcolumns : contents.2.map (·.1.column) = (contents.2.map (·.1)).map (·.column) := by
      simp
    rw [hcolumns, hmap]
    exact hn.sublist (List.filter_sublist.map _)

theorem rowsContents_spec {contents : List RowContents}
    (h : rowsContents schema last rows = .ok contents) :
    List.Forall₂ (fun row c => rowContents schema row = .ok c) rows contents := by
  induction rows generalizing last contents with
  | nil =>
      obtain rfl := Except.ok.inj h
      exact .nil
  | cons row rows ih =>
      rw [rowsContents] at h
      split at h
      · cases h
      · obtain ⟨first, hfirst, h⟩ := bind_eq_ok_iff.mp h
        obtain ⟨others, hothers, h⟩ := bind_eq_ok_iff.mp h
        obtain rfl := Except.ok.inj h
        exact .cons hfirst (ih hothers)

/-- Rows with ids that ascend strictly have contents if each of them has. -/
theorem exists_rowsContents (h : ∀ row ∈ rows, ∃ c, rowContents schema row = .ok c)
    (hlast : ∀ row ∈ rows, last ≠ some row.1) (hids : rows.Pairwise fun a b => a.1 < b.1) :
    ∃ contents, rowsContents schema last rows = .ok contents := by
  induction rows generalizing last with
  | nil => exact ⟨[], rfl⟩
  | cons row rows ih =>
      obtain ⟨⟨first, hfirst⟩, hrows⟩ := List.forall_mem_cons.mp h
      obtain ⟨hlt, hids⟩ := List.pairwise_cons.mp hids
      have hnew : ∀ row' ∈ rows, some row.1 ≠ some row'.1 := fun row' hrow' he =>
        Int.ne_of_lt (hlt row' hrow') (Option.some.inj he)
      obtain ⟨others, hothers⟩ := ih hrows hnew hids
      exact ⟨first :: others, by
        rw [rowsContents, if_neg (hlast row List.mem_cons_self), hfirst, ok_bind, hothers]; rfl⟩

end

/-! ## Packed tables -/

def inOrder (rows : List RowValues) : List RowValues :=
  rows.mergeSort fun a b => a.1 ≤ b.1

/-- The table with contents placed in one of the layouts. -/
def placed (schema : TableSchema) (sparse : Bool) (contents : List RowContents) : Table where
  name := schema.name
  flags := if sparse then .sparse else .none
  columns := layout schema
  rows := (placeRows schema.columnCount contents (.start sparse)).1
  strings := (placeRows schema.columnCount contents (.start sparse)).2.bytes

theorem pack_eq (schema : TableSchema) (sparse : Bool) (rows : List RowValues) :
    pack schema sparse rows =
      (rowsContents schema none (inOrder rows)).map (placed schema sparse) := by
  unfold pack
  simp only [packRows_eq]
  rw [inOrder]
  cases rowsContents schema none (rows.mergeSort fun a b => a.1 ≤ b.1) <;> rfl

section

variable {rows : List RowValues} {contents : List RowContents} {t : Table}

theorem mem_inOrder {row : RowValues} : row ∈ inOrder rows ↔ row ∈ rows :=
  List.mem_mergeSort

theorem inOrder_sorted (rows : List RowValues) : (inOrder rows).Pairwise fun a b => a.1 ≤ b.1 := by
  refine (List.pairwise_mergeSort ?_ ?_ rows).imp (by simp)
  · intro a b c
    simpa using Int.le_trans
  · intro a b
    simpa using Int.le_total a.1 b.1

theorem inOrder_strict (h : rowsContents schema none (inOrder rows) = .ok contents) :
    (inOrder rows).Pairwise fun a b => a.1 < b.1 := by
  have hpack := packRows_eq schema none (inOrder rows) (.start false)
  rw [h, ok_map] at hpack
  exact (packRows_lt (inOrder_sorted rows) hpack).2

/-- Rows have contents exactly if the schema can store them. -/
theorem exists_rowsContents_iff :
    (∃ contents, rowsContents schema none (inOrder rows) = .ok contents) ↔
      Storable schema rows := by
  constructor
  · rintro ⟨contents, h⟩
    have hrows : ∀ row ∈ rows, ∃ c, rowContents schema row = .ok c := by
      intro row hm
      obtain ⟨c, -, hc⟩ := forall₂_mem_right (rowsContents_spec h).flip (mem_inOrder.mpr hm)
      exact ⟨c, hc⟩
    refine ⟨?_, fun row hm => ?_, fun row hm f hf hid => ?_⟩
    · have hperm : ((inOrder rows).map (·.1)).Perm (rows.map (·.1)) :=
        (List.mergeSort_perm rows _).map _
      exact hperm.nodup (List.pairwise_map.mpr ((inOrder_strict h).imp Int.ne_of_lt))
    · obtain ⟨c, hc⟩ := hrows row hm
      exact (rowContents_eq_ok_iff.mp hc).1
    · obtain ⟨c, hc⟩ := hrows row hm
      have hfields := (rowContents_eq_ok_iff.mp hc).2.1
      obtain ⟨d, hd⟩ := exists_mem_of_fieldContents hfields hf hid
      exact ⟨_, (Field.contents_spec ((fieldContents_spec hfields).2 f d hd)).2⟩
  · intro h
    refine exists_rowsContents (fun row hm => ?_) (by simp) ?_
    · rw [mem_inOrder] at hm
      obtain ⟨fields, hfields⟩ := exists_fieldContents (h.stores row hm)
      exact ⟨(row.1, fields), rowContents_eq_ok_iff.mpr ⟨h.known row hm, hfields, rfl⟩⟩
    · have hperm : (rows.map (·.1)).Perm ((inOrder rows).map (·.1)) :=
        ((List.mergeSort_perm rows _).map _).symm
      have hne := List.pairwise_map.mp (hperm.nodup h.ids)
      exact (inOrder_sorted rows).imp₂ (fun _ _ hle hne => Int.lt_iff_le_and_ne.mpr ⟨hle, hne⟩) hne

/-! ## Tables that give back their rows -/

/-- The table has one row for each of the ids, in ascending order, and finds a row by its id. -/
structure Lists (t : Table) (ids : List Int) : Prop where
  ascending : (t.handles.map (·.id)).Pairwise (· < ·)
  exact : ∀ id, id ∈ t.handles.map (·.id) ↔ id ∈ ids
  found : ∀ id, IntKind.Holds .i32 id →
    ∃ found, t.find? id = .ok found ∧ ∀ h, found = some h ↔ h ∈ t.handles ∧ h.id = id
  outside : ∀ id, ¬ IntKind.Holds .i32 id → t.find? id = .error (.idOutOfRange id)

theorem handles_eq (t : Table) :
    t.handles = (t.rows.map (·.id)).zipIdx.map fun (id, i) => ⟨0, i, id⟩ := by
  rw [handles, List.zipIdx_map, List.map_map]
  rfl

theorem map_id_handles (t : Table) : t.handles.map (·.id) = t.rows.map (·.id) := by
  rw [handles_eq, List.map_map]
  exact List.zipIdx_map_fst 0 _

/-- Where an id has at most one row, it is found in that row or nowhere. -/
theorem find?_spec (hn : (t.rows.map (·.id)).Nodup) {id : Int} (hid : IntKind.Holds .i32 id) :
    ∃ found, t.find? id = .ok found ∧ ∀ h, found = some h ↔ h ∈ t.handles ∧ h.id = id := by
  refine ⟨_, if_pos hid, fun h => ?_⟩
  rw [Option.map_eq_some_iff, mem_handles_iff]
  constructor
  · rintro ⟨i, hi, rfl⟩
    obtain ⟨hlt, hat, -⟩ := List.findIdx?_eq_some_iff_getElem.mp hi
    have hat : t.rows[i].id = id := by simpa using hat
    exact ⟨⟨rfl, t.rows[i], stored_eq_ok_iff.mpr ⟨List.getElem?_eq_getElem hlt, hat⟩⟩, rfl⟩
  · rintro ⟨⟨hsegment, row, hrow⟩, rfl⟩
    obtain ⟨hat, hrid⟩ := stored_eq_ok_iff.mp hrow
    obtain ⟨hlt, hget⟩ := List.getElem?_eq_some_iff.mp hat
    refine ⟨h.position, List.findIdx?_eq_some_iff_getElem.mpr ⟨hlt, ?_, fun j hj => ?_⟩, ?_⟩
    · simpa [hget] using hrid
    · have hne := (List.pairwise_iff_getElem.mp hn) j h.position (by simp; omega) (by simpa) hj
      simpa [hget, hrid] using hne
    · cases h
      simp_all

theorem placed_spec (hn : (schema.fields.map (·.column)).Nodup) (sparse : Bool)
    (h : rowsContents schema none (inOrder rows) = .ok contents) :
    List.Forall₂ (HasContents (placed schema sparse contents).strings)
      (placed schema sparse contents).rows contents := by
  refine (placeRows_spec (StringRegion.start_valid sparse) fun row hm => ?_).2.2
  obtain ⟨given, -, hgiven⟩ := forall₂_mem_right (rowsContents_spec h) hm
  exact placeable_of_rowContents hn hgiven

theorem map_id_placed (hn : (schema.fields.map (·.column)).Nodup) (sparse : Bool)
    (h : rowsContents schema none (inOrder rows) = .ok contents) :
    (placed schema sparse contents).rows.map (·.id) = (inOrder rows).map (·.1) := by
  have hgiven : (inOrder rows).map (·.1) = contents.map (·.1) := by
    rw [← List.forall₂_eq_eq_eq, List.forall₂_map_left_iff, List.forall₂_map_right_iff]
    exact (rowsContents_spec h).imp fun _ _ hc => (rowContents_eq_ok_iff.mp hc).2.2.symm
  rw [hgiven, ← List.forall₂_eq_eq_eq, List.forall₂_map_left_iff, List.forall₂_map_right_iff]
  exact (placed_spec hn sparse h).imp fun _ _ hc => hc.id

theorem lists_placed (hn : (schema.fields.map (·.column)).Nodup) (sparse : Bool)
    (h : rowsContents schema none (inOrder rows) = .ok contents) :
    (placed schema sparse contents).Lists (rows.map (·.1)) := by
  have hids := map_id_placed hn sparse h
  have hstrict : ((inOrder rows).map (·.1)).Pairwise (· < ·) :=
    List.pairwise_map.mpr (inOrder_strict h)
  refine ⟨?_, fun id => ?_, fun id hid => find?_spec ?_ hid, fun id hid => if_neg hid⟩
  · rwa [map_id_handles, hids]
  · rw [map_id_handles, hids, List.mem_map, List.mem_map]
    simp only [mem_inOrder]
  · rw [hids]
    exact hstrict.imp Int.ne_of_lt

/-- What a field of a row gives back is read from every table that has the contents of the row. -/
theorem exists_givesBack (hn : (schema.fields.map (·.column)).Nodup) {row : RowValues}
    {c : RowContents} (hrow : rowContents schema row = .ok c) {f : Field} (hf : f ∈ schema.fields)
    (hsingle : f.isId = true → f.isArray = false ∧ ∃ k, f.kind = .scalar (.int k)) :
    ∃ v, f.GivesBack row v ∧ ∀ (t : Table) (h : RowHandle) (stored : StoredRow),
      t.columns = layout schema → t.stored h = .ok stored → HasContents t.strings stored c →
        t.read h f.column (.ofField f) = .ok v := by
  obtain ⟨-, hfields, hid⟩ := rowContents_eq_ok_iff.mp hrow
  cases hf_id : f.isId with
  | true =>
      obtain ⟨hs, k, hk⟩ := hsingle hf_id
      refine ⟨_, .id (.int k) (.ofInt k (IntKind.wrap .i32 row.1)) hf_id hk rfl,
        fun t h stored ht hstored hhas => read_eq_ok_iff.mpr ⟨stored, f, hstored, ?_, ?_⟩⟩
      · rw [ht, layout_at hn hf]
      · simp only [answer?, hf_id, if_true, ReadKind.ofField, hk, hs, hhas.id, hid]
        rfl
  | false =>
      obtain ⟨d, hd⟩ := exists_mem_of_fieldContents hfields hf hf_id
      obtain ⟨hfits, hstores⟩ := Field.contents_spec ((fieldContents_spec hfields).2 f d hd)
      refine ⟨d.value, .stored _ hf_id hstores,
        fun t h stored ht hstored hhas => read_eq_ok_iff.mpr ⟨stored, f, hstored, ?_, ?_⟩⟩
      · rw [ht, layout_at hn hf]
      · obtain ⟨cell, hcell, hcin⟩ := hhas.cell f d hd
        simp only [answer?, hf_id, Bool.false_eq_true, if_false, hcell, Option.getD_some]
        exact hfits.read? hcin

/-- The row that is behind a given row in a packed table. -/
theorem stored_placed (hn : (schema.fields.map (·.column)).Nodup) (sparse : Bool)
    (h : rowsContents schema none (inOrder rows) = .ok contents) {i : Nat} {row : RowValues}
    {c : RowContents} (hrow : (inOrder rows)[i]? = some row) (hc : contents[i]? = some c) :
    ∃ stored, (placed schema sparse contents).stored ⟨0, i, row.1⟩ = .ok stored ∧
      HasContents (placed schema sparse contents).strings stored c := by
  have hall := placed_spec hn sparse h
  obtain ⟨hlt, hget⟩ := List.getElem?_eq_some_iff.mp hc
  have hlt' : i < (placed schema sparse contents).rows.length := hall.length_eq ▸ hlt
  have hhas := hall.get hlt' hlt
  rw [List.get_eq_getElem, List.get_eq_getElem, hget] at hhas
  refine ⟨_, stored_eq_ok_iff.mpr ⟨List.getElem?_eq_getElem hlt', ?_⟩, hhas⟩
  have hgiven := (rowsContents_spec h).get (List.getElem?_eq_some_iff.mp hrow).1 hlt
  rw [List.get_eq_getElem, List.get_eq_getElem, (List.getElem?_eq_some_iff.mp hrow).2, hget]
    at hgiven
  rw [hhas.id, (rowContents_eq_ok_iff.mp hgiven).2.2]

end

end Table

/-! ## A table of notes -/

namespace Notes

def idField : Field := { name := "Id", kind := .scalar (.int .u8), column := 2, isId := true }

def textField : Field := { name := "Text", kind := .string, column := 0 }

def tagsField : Field := { name := "Tags", kind := .string, column := 1, elementCount := 3 }

def ratingsField : Field :=
  { name := "Ratings", kind := .scalar (.int .i16), column := 4, elementCount := 2 }

def draftField : Field := { name := "Draft", kind := .scalar .bool, column := 3, isVirtual := true }

/-- Notes under ids that their column cannot hold, with arrays of texts and of numbers. -/
def schema : TableSchema := ⟨"Notes", [textField, idField, tagsField, ratingsField, draftField]⟩

/-- Two notes with a text in common, the later id first. -/
def rows : List RowValues :=
  [(7, [("Text", .string "péché"), ("Text", .null),
      ("Tags", .array [.string "péché", .string ""])]),
    (-1, [("Ratings", .collection [.scalar (.ofInt .i32 70000)]), ("Draft", .scalar (.bool true))])]

theorem inOrder_rows : Table.inOrder rows = rows.reverse := by
  simp [Table.inOrder, rows, List.mergeSort]

/-- What the cells of the notes contain. -/
def contents : List RowContents :=
  [(-1, [(textField, .text ""), (tagsField, .texts ["", "", ""]),
      (ratingsField, .scalars [.ofInt .i16 4464, .ofInt .i16 0]),
      (draftField, .scalar (.bool true))]),
    (7, [(textField, .text "péché"), (tagsField, .texts ["péché", "", ""]),
      (ratingsField, .scalars [.ofInt .i16 0, .ofInt .i16 0]),
      (draftField, .scalar (.bool false))])]

theorem storable : Table.Storable schema rows := by
  refine Table.exists_rowsContents_iff.mp ⟨contents, ?_⟩
  rw [inOrder_rows]
  rfl

end Notes

/-! ## Both layouts -/

namespace Table

/-- Both layouts fail with the same error or both give back the rows: the same row for each given
id, and the same value for each field of a given row. -/
theorem layouts_give_back_rows {schema : TableSchema} {rows : List RowValues}
    (hcolumns : (schema.fields.map (·.column)).Nodup)
    (hid : ∀ f ∈ schema.fields, f.isId = true →
      f.isArray = false ∧ ∃ k, f.kind = .scalar (.int k)) :
    (¬ Storable schema rows ∧
        ∃ e, pack schema false rows = .error e ∧ pack schema true rows = .error e) ∨
      Storable schema rows ∧ ∃ dense sparse,
        pack schema false rows = .ok dense ∧ pack schema true rows = .ok sparse ∧
          dense.handles = sparse.handles ∧ dense.Lists (rows.map (·.1)) ∧
          sparse.Lists (rows.map (·.1)) ∧
          ∀ row ∈ rows, ∃ h ∈ dense.handles, h.id = row.1 ∧
            ∀ f ∈ schema.fields, ∃ v, dense.read h f.column (.ofField f) = .ok v ∧
              sparse.read h f.column (.ofField f) = .ok v ∧ f.GivesBack row v := by
  rw [pack_eq, pack_eq, ← exists_rowsContents_iff]
  cases hcontents : rowsContents schema none (inOrder rows) with
  | error e => exact .inl ⟨by simp, e, rfl, rfl⟩
  | ok contents =>
      refine .inr ⟨⟨contents, rfl⟩, _, _, rfl, rfl, ?_, lists_placed hcolumns false hcontents,
        lists_placed hcolumns true hcontents, fun row hm => ?_⟩
      · rw [handles_eq, handles_eq, map_id_placed hcolumns false hcontents,
          map_id_placed hcolumns true hcontents]
      · obtain ⟨i, hi⟩ := List.mem_iff_getElem?.mp (mem_inOrder.mpr hm)
        have hall := rowsContents_spec hcontents
        obtain ⟨hlt, hget⟩ := List.getElem?_eq_some_iff.mp hi
        have hlt' : i < contents.length := hall.length_eq ▸ hlt
        have hc : contents[i]? = some contents[i] := List.getElem?_eq_getElem hlt'
        have hrow := hall.get hlt hlt'
        rw [List.get_eq_getElem, List.get_eq_getElem, hget] at hrow
        -- Both tables have this row at the place that it has in the order of ids.
        obtain ⟨stored, hstored, hhas⟩ := stored_placed hcolumns false hcontents hi hc
        obtain ⟨stored', hstored', hhas'⟩ := stored_placed hcolumns true hcontents hi hc
        refine ⟨⟨0, i, row.1⟩, mem_handles_iff.mpr ⟨rfl, stored, hstored⟩, rfl, fun f hf => ?_⟩
        obtain ⟨v, hv, hread⟩ := exists_givesBack hcolumns hrow hf (hid f hf)
        exact ⟨v, hread _ _ stored rfl hstored hhas, hread _ _ stored' rfl hstored' hhas', hv⟩

/-- Both layouts give back the notes: the id -1 in its unsigned byte, and the text of note 7. -/
theorem layouts_give_back_notes : ∃ dense sparse : Table, ∃ h ∈ dense.handles, ∃ k ∈ dense.handles,
    pack Notes.schema false Notes.rows = .ok dense ∧
      pack Notes.schema true Notes.rows = .ok sparse ∧
      (h.id = -1 ∧ ∀ t ∈ [dense, sparse],
        t.read h 2 (.scalar (.int .u8)) = .ok (.scalar (.ofInt .u8 255))) ∧
      k.id = 7 ∧ ∀ t ∈ [dense, sparse], t.read k 0 .string = .ok (.string "péché") := by
  have hid : ∀ f ∈ Notes.schema.fields, f.isId = true →
      f.isArray = false ∧ ∃ k, f.kind = .scalar (.int k) := by
    simp [Notes.schema, Notes.textField, Notes.tagsField, Notes.ratingsField, Notes.draftField,
      Notes.idField, Field.isArray]
  have hcolumns : (Notes.schema.fields.map (·.column)).Nodup := by decide
  obtain ⟨hnot, -⟩ | ⟨-, dense, sparse, hdense, hsparse, -, -, -, hrows⟩ :=
    @layouts_give_back_rows _ Notes.rows hcolumns hid
  · exact absurd Notes.storable hnot
  · obtain ⟨⟨k, hk, hkid, hkfields⟩, ⟨h, hh, hhid, hhfields⟩, -⟩ :=
      (List.forall_mem_cons.trans (and_congr_right' List.forall_mem_cons)).mp hrows
    obtain ⟨_, hread, hread', hgives⟩ := hhfields Notes.idField (by simp [Notes.schema])
    obtain ⟨_, htext, htext', hgives'⟩ := hkfields Notes.textField (by simp [Notes.schema])
    refine ⟨dense, sparse, h, hh, k, hk, hdense, hsparse, ⟨hhid, ?_⟩, hkid, ?_⟩
    · cases hgives with
      | stored _ hstored => cases hstored
      | id _ s _ hkind hs =>
          cases hkind
          cases hs
          exact List.forall_mem_cons.mpr ⟨hread, List.forall_mem_cons.mpr ⟨hread', by simp⟩⟩
    · cases hgives' with
      | id _ _ h => cases h
      | stored _ _ hs =>
          cases hs with
          | scalars _ _ _ _ harray => cases harray
          | texts _ _ harray => cases harray
          | text =>
              exact List.forall_mem_cons.mpr ⟨htext, List.forall_mem_cons.mpr ⟨htext', by simp⟩⟩

end Table

end ColumnQuery
