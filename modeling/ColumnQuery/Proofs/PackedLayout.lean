import ColumnQuery.Proofs.Reading

/-! # Layout of packed tables

Where packing puts things. A column belongs to the last field that the schema has there, a text has
one offset in the region of a dense table, and an id has one row. -/

namespace ColumnQuery

/-! ## Growing regions -/

namespace StringRegion

/-- A region that goes on from another keeps its layout, its bytes and its offsets. -/
structure Extends (r r' : StringRegion) : Prop where
  sparse : r'.sparse = r.sparse
  bytes : r.bytes <+: r'.bytes
  offset : ∀ s o, r.offsets.lookup s = some o → r'.offsets.lookup s = some o

theorem Extends.refl (r : StringRegion) : r.Extends r :=
  ⟨rfl, List.prefix_rfl, fun _ _ h => h⟩

theorem Extends.trans {r r' r'' : StringRegion} (h : r.Extends r') (h' : r'.Extends r'') :
    r.Extends r'' :=
  ⟨h'.sparse.trans h.sparse, h.bytes.trans h'.bytes, fun s o ho => h'.offset s o (h.offset s o ho)⟩

theorem intern_extends (r : StringRegion) (s : String) : r.Extends (r.intern s).2 := by
  rw [intern]
  cases hs : r.offsets.lookup s with
  | some o => exact .refl r
  | none =>
      refine ⟨rfl, ⟨Text.bytes s ++ [0], by simp⟩, fun s' o ho => ?_⟩
      have hne : (s' == s) = false := by
        rw [beq_eq_false_iff_ne]
        rintro rfl
        simp [hs] at ho
      simpa [List.lookup_cons, hne] using ho

theorem lookup_intern (r : StringRegion) (s : String) :
    (r.intern s).2.offsets.lookup s = some (r.intern s).1 := by
  rw [intern]
  split
  · assumption
  · exact List.lookup_cons_self

theorem internAll_extends (r : StringRegion) (strings : List String) :
    r.Extends (r.internAll strings).2 := by
  induction strings generalizing r with
  | nil => exact .refl r
  | cons s strings ih =>
      rw [internAll]
      exact (r.intern_extends s).trans (ih _)

/-- What a field leaves in a cell of a row beside a region: a single text is inside the row, or has
been interned and is behind its offset. -/
structure CellIn (r : StringRegion) (f : Field) (cell : Cell) : Prop where
  contents : CellOf r.bytes f cell
  text : f.kind = .string → f.isArray = false → ∃ s,
    if r.sparse || f.isVirtual then cell = .inline s
    else ∃ o, cell = .offset o ∧ r.offsets.lookup s = some o

theorem CellIn.mono {r r' : StringRegion} {f : Field} {cell : Cell} (h : r.CellIn f cell)
    (he : r.Extends r') : r'.CellIn f cell where
  contents := h.contents.mono he.bytes
  text hk hs := by
    obtain ⟨s, hcell⟩ := h.text hk hs
    refine ⟨s, ?_⟩
    rw [he.sparse]
    split at hcell
    · rwa [if_pos ‹_›]
    · obtain ⟨o, rfl, ho⟩ := hcell
      rw [if_neg ‹_›]
      exact ⟨o, rfl, he.offset s o ho⟩

end StringRegion

/-! ## Packed fields -/

namespace Field

variable {f : Field} {v : Option Value} {region region' : StringRegion} {cell : Cell}

/-- A single text is stored inside the row, or interned in the region of a dense table. -/
theorem pack_text (hk : f.kind = .string) (hs : f.isArray = false)
    (h : f.pack v region = .ok (cell, region')) :
    ∃ text, (cell, region') = if region.sparse || f.isVirtual then (.inline text, region)
      else (.offset (region.intern text).1, (region.intern text).2) := by
  have hstore : ∀ text,
      (if region.sparse || f.isVirtual then pure (Cell.inline text, region)
      else pure (Cell.offset (region.intern text).1, (region.intern text).2) :
        Except Error (Cell × StringRegion)) = .ok (cell, region') →
      (cell, region') = if region.sparse || f.isVirtual then (.inline text, region)
        else (.offset (region.intern text).1, (region.intern text).2) := by
    intro text htext
    split at htext
    · rename_i hinline
      rw [if_pos hinline]
      exact (Except.ok.inj htext).symm
    · rename_i hinline
      rw [if_neg hinline]
      exact (Except.ok.inj htext).symm
  unfold pack at h
  rw [hk, hs] at h
  dsimp only at h
  split at h
  · exact ⟨"", hstore "" h⟩
  · exact ⟨"", hstore "" h⟩
  · obtain ⟨text, -, h⟩ := bind_eq_ok_iff.mp h
    exact ⟨text, hstore text h⟩

/-- Packing a value goes on with the region. -/
theorem pack_extends (h : f.pack v region = .ok (cell, region')) : region.Extends region' := by
  cases hk : f.kind with
  | scalar kind =>
      obtain ⟨cell', hcell⟩ : ∃ cell', (cell', region) = (cell, region') := by
        unfold pack at h
        rw [hk] at h
        cases hs : f.isArray with
        | false =>
            simp only [hs] at h
            split at h
            · exact ⟨_, Except.ok.inj h⟩
            · exact ⟨_, Except.ok.inj h⟩
            · obtain ⟨s, -, h⟩ := bind_eq_ok_iff.mp h
              exact ⟨_, Except.ok.inj h⟩
        | true =>
            simp only [hs] at h
            obtain ⟨given, -, h⟩ := bind_eq_ok_iff.mp h
            obtain ⟨items, -, h⟩ := bind_eq_ok_iff.mp h
            exact ⟨_, Except.ok.inj h⟩
      rw [(Prod.mk.inj hcell).2]
      exact .refl _
  | string =>
      cases hs : f.isArray with
      | false =>
          obtain ⟨text, htext⟩ := pack_text hk hs h
          split at htext <;> obtain ⟨-, rfl⟩ := Prod.mk.inj htext
          · exact .refl _
          · exact region.intern_extends text
      | true =>
          unfold pack at h
          rw [hk, hs] at h
          obtain ⟨given, -, h⟩ := bind_eq_ok_iff.mp h
          obtain ⟨texts, -, h⟩ := bind_eq_ok_iff.mp h
          dsimp only at h
          split at h <;> obtain ⟨-, rfl⟩ := Prod.mk.inj (Except.ok.inj h)
          · exact .refl _
          · exact region.internAll_extends _

theorem pack_cellIn (hr : region.Valid) (h : f.pack v region = .ok (cell, region')) :
    region'.CellIn f cell where
  contents := (pack_spec hr h).2.2
  text hk hs := by
    obtain ⟨text, htext⟩ := pack_text hk hs h
    refine ⟨text, ?_⟩
    rw [(pack_extends h).sparse]
    split at htext
    · rw [if_pos ‹_›]
      exact (Prod.mk.inj htext).1
    · obtain ⟨rfl, rfl⟩ := Prod.mk.inj htext
      rw [if_neg ‹_›]
      exact ⟨_, rfl, region.lookup_intern text⟩

end Field

/-! ## Packed rows -/

namespace Table

variable {schema : TableSchema} {f : Field} {region region' : StringRegion}

theorem packFields_extends {values : List (String × Value)} {fields : List Field}
    {cells cells' : List Cell} (h : packFields values fields cells region = .ok (cells', region')) :
    region.Extends region' := by
  induction fields generalizing cells region with
  | nil =>
      obtain ⟨-, rfl⟩ := Prod.mk.inj (Except.ok.inj h)
      exact .refl _
  | cons g fields ih =>
      rw [packFields] at h
      split at h
      · exact ih h
      · obtain ⟨⟨cell, packed⟩, hpack, h⟩ := bind_eq_ok_iff.mp h
        exact (Field.pack_extends hpack).trans (ih h)

/-- The cell of a column comes from packing the last field there, unless that is an id. -/
theorem packFields_cellIn {values : List (String × Value)} {fields : List Field}
    {cells cells' : List Cell} (hr : region.Valid) (hf : f.LastIn fields) (hid : f.isId = false)
    (hlt : f.column < cells.length)
    (h : packFields values fields cells region = .ok (cells', region')) :
    ∃ cell, cells'[f.column]? = some cell ∧ region'.CellIn f cell := by
  obtain ⟨front, back, rfl, hlast⟩ := hf
  induction front generalizing cells region with
  | nil =>
      rw [List.nil_append, packFields, if_neg (by simp [hid])] at h
      obtain ⟨⟨cell, packed⟩, hpack, h⟩ := bind_eq_ok_iff.mp h
      refine ⟨cell, ?_, (Field.pack_cellIn hr hpack).mono (packFields_extends h)⟩
      rw [packFields_of_ne hlast h, List.getElem?_set_self hlt]
  | cons g front ih =>
      rw [List.cons_append, packFields] at h
      split at h
      · exact ih hr hlt h
      · obtain ⟨⟨cell, packed⟩, hpack, h⟩ := bind_eq_ok_iff.mp h
        exact ih (Field.pack_spec hr hpack).1 (by simpa using hlt) h

theorem packRow_eq_ok {given : RowValues} {row : StoredRow}
    (h : packRow schema given region = .ok (row, region')) :
    row.id = given.1 ∧ packFields given.2 schema.fields
      (List.replicate schema.columnCount .empty) region = .ok (row.cells, region') := by
  unfold packRow at h
  split at h
  · cases h
  · obtain ⟨⟨cells, packed⟩, hcells, h⟩ := bind_eq_ok_iff.mp h
    obtain ⟨rfl, rfl⟩ := Prod.mk.inj (Except.ok.inj h)
    exact ⟨rfl, hcells⟩

section

variable {given : List RowValues} {last : Option Int} {rows : List StoredRow}

/-- Packing rows packs the first, whose id is new, and goes on behind it. -/
theorem packRows_cons {row : RowValues}
    (h : packRows schema last (row :: given) region = .ok (rows, region')) :
    last ≠ some row.1 ∧ ∃ stored packed others, rows = stored :: others ∧
      packRow schema row region = .ok (stored, packed) ∧
        packRows schema (some row.1) given packed = .ok (others, region') := by
  rw [packRows] at h
  split at h
  · cases h
  · rename_i hlast
    obtain ⟨⟨stored, packed⟩, hrow, h⟩ := bind_eq_ok_iff.mp h
    obtain ⟨⟨others, packed'⟩, hothers, h⟩ := bind_eq_ok_iff.mp h
    obtain ⟨rfl, rfl⟩ := Prod.mk.inj (Except.ok.inj h)
    exact ⟨hlast, stored, packed, others, rfl, hrow, hothers⟩

theorem packRows_extends (h : packRows schema last given region = .ok (rows, region')) :
    region.Extends region' := by
  induction given generalizing last region rows with
  | nil =>
      obtain ⟨-, rfl⟩ := Prod.mk.inj (Except.ok.inj h)
      exact .refl _
  | cons row given ih =>
      obtain ⟨-, _, _, _, -, hrow, hothers⟩ := packRows_cons h
      exact (packFields_extends (packRow_eq_ok hrow).2).trans (ih hothers)

theorem packRows_cellIn (hr : region.Valid) (hf : f.LastIn schema.fields) (hid : f.isId = false)
    (h : packRows schema last given region = .ok (rows, region')) {row : StoredRow}
    (hm : row ∈ rows) : ∃ cell, row.cells[f.column]? = some cell ∧ region'.CellIn f cell := by
  induction given generalizing last region rows with
  | nil =>
      obtain ⟨rfl, -⟩ := Prod.mk.inj (Except.ok.inj h)
      cases hm
  | cons values given ih =>
      obtain ⟨-, _, _, _, rfl, hrow, hothers⟩ := packRows_cons h
      rcases List.mem_cons.mp hm with rfl | hm
      · obtain ⟨cell, hcell, hin⟩ := packFields_cellIn hr hf hid
          (by simpa using column_lt_columnCount hf.mem) (packRow_eq_ok hrow).2
        exact ⟨cell, hcell, hin.mono (packRows_extends hothers)⟩
      · exact ih (packRow_spec hr hrow).1 hothers hm

/-- Rows that come in order of id are packed only if each id is greater than the one before. -/
theorem packRows_lt (hsorted : given.Pairwise fun a b => a.1 ≤ b.1)
    (h : packRows schema last given region = .ok (rows, region')) :
    (∀ id, last = some id → (∀ row ∈ given, id ≤ row.1) → ∀ row ∈ given, id < row.1) ∧
      given.Pairwise fun a b => a.1 < b.1 := by
  induction given generalizing last region region' rows with
  | nil => simp
  | cons row given ih =>
      obtain ⟨hle, hsorted⟩ := List.pairwise_cons.mp hsorted
      obtain ⟨hlast, _, _, _, -, -, hothers⟩ := packRows_cons h
      obtain ⟨hlt, hpairwise⟩ := ih hsorted hothers
      have hrest := hlt row.1 rfl hle
      refine ⟨fun id hid hall => ?_, List.pairwise_cons.mpr ⟨hrest, hpairwise⟩⟩
      have hne : id ≠ row.1 := by
        rintro rfl
        exact hlast hid
      have hfirst : id < row.1 :=
        Int.lt_iff_le_and_ne.mpr ⟨hall row List.mem_cons_self, hne⟩
      rw [List.forall_mem_cons]
      exact ⟨hfirst, fun row' hrow' => Int.lt_trans hfirst (hrest row' hrow')⟩

end

/-! ## Built tables -/

variable {t : Table} {h k : RowHandle}

/-- The strings and cells of a built table are those of one region. -/
theorem BuiltFrom.exists_region (hb : t.BuiltFrom schema) :
    ∃ r : StringRegion, r.Valid ∧ t.strings = r.bytes ∧
      ∀ f : Field, f.LastIn schema.fields → f.isId = false → ∀ row ∈ t.rows,
        ∃ cell, row.cells[f.column]? = some cell ∧ r.CellIn f cell := by
  obtain ⟨sparse, rows, packed, hpack, -, ht⟩ := hb
  obtain ⟨⟨stored, region⟩, hrows, h⟩ := bind_eq_ok_iff.mp hpack
  obtain rfl := Except.ok.inj h
  rw [ht]
  exact ⟨region, (packRows_spec (StringRegion.start_valid sparse) hrows).1, rfl,
    fun f hf hid row hm => packRows_cellIn (StringRegion.start_valid sparse) hf hid hrows hm⟩

theorem BuiltFrom.nodup_ids (hb : t.BuiltFrom schema) : (t.rows.map (·.id)).Nodup := by
  obtain ⟨sparse, rows, packed, hpack, -, ht⟩ := hb
  obtain ⟨⟨stored, region⟩, hrows, h⟩ := bind_eq_ok_iff.mp hpack
  obtain rfl := Except.ok.inj h
  have hsorted : (rows.mergeSort fun a b => a.1 ≤ b.1).Pairwise fun a b => a.1 ≤ b.1 := by
    refine (List.pairwise_mergeSort ?_ ?_ rows).imp (by simp)
    · intro a b c
      simpa using Int.le_trans
    · intro a b
      simpa using Int.le_total a.1 b.1
  rw [ht]
  dsimp only
  rw [(packRows_spec (StringRegion.start_valid sparse) hrows).2.2.1]
  exact List.pairwise_map.mpr ((packRows_lt hsorted hrows).2.imp Int.ne_of_lt)

/-- An id has one row. -/
theorem BuiltFrom.eq_of_id_eq (hb : t.BuiltFrom schema) (hh : h ∈ t.handles) (hk : k ∈ t.handles)
    (hid : h.id = k.id) : h = k := by
  obtain ⟨hsegment, row, hrow⟩ := mem_handles_iff.mp hh
  obtain ⟨hsegment', row', hrow'⟩ := mem_handles_iff.mp hk
  obtain ⟨hat, hrid⟩ := stored_eq_ok_iff.mp hrow
  obtain ⟨hat', hrid'⟩ := stored_eq_ok_iff.mp hrow'
  have hposition : h.position = k.position := by
    have hlt : h.position < (t.rows.map (·.id)).length := by
      rw [List.length_map]
      exact (List.getElem?_eq_some_iff.mp hat).1
    refine (List.getElem?_inj hlt hb.nodup_ids).mp ?_
    rw [List.getElem?_map, List.getElem?_map, hat, hat', Option.map_some, Option.map_some, hrid,
      hrid', hid]
  cases h
  cases k
  simp_all

end Table

end ColumnQuery
