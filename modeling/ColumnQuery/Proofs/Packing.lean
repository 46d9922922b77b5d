import ColumnQuery.Proofs.Outcome
import ColumnQuery.Proofs.StringIndex
import ColumnQuery.Table.Pack
import Mathlib.Data.List.Forall2

/-! # Contents of packed tables

What packing leaves behind in the cells of a table: scalars of the stored kind, strings inside the
row, and offsets at which the region of strings holds a string. -/

namespace ColumnQuery

/-! ## Strings of a region -/

/-- The region holds a string at an offset, ended by the next zero byte. -/
def HoldsString (bytes : List UInt8) (offset : Nat) (s : String) : Prop :=
  StartsString bytes offset ∧ 0 ∉ Text.bytes s ∧
    ∃ before rest, bytes = before ++ (Text.bytes s ++ 0 :: rest) ∧ before.length = offset

theorem HoldsString.append {bytes : List UInt8} {offset : Nat} {s : String}
    (h : HoldsString bytes offset s) (more : List UInt8) :
    HoldsString (bytes ++ more) offset s := by
  obtain ⟨hstart, hz, before, rest, rfl, hlen⟩ := h
  refine ⟨?_, hz, before, rest ++ more, by simp, hlen⟩
  rcases hstart with h | ⟨front, back, he, ho⟩
  · exact .inl h
  · exact .inr ⟨front, back ++ more, by rw [he]; simp, ho⟩

theorem HoldsString.mono {bytes bytes' : List UInt8} {offset : Nat} {s : String}
    (h : HoldsString bytes offset s) (hp : bytes <+: bytes') : HoldsString bytes' offset s := by
  obtain ⟨more, rfl⟩ := hp
  exact h.append more

theorem HoldsString.stringBytes_eq {bytes : List UInt8} {offset : Nat} {s : String}
    (h : HoldsString bytes offset s) : stringBytes bytes offset = Text.bytes s := by
  obtain ⟨-, hz, before, rest, rfl, rfl⟩ := h
  rw [stringBytes, List.drop_left]
  exact takeWhile_segment hz (.zero rest)

theorem HoldsString.stringAt_eq {t : Table} {offset : Nat} {s : String}
    (h : HoldsString t.strings offset s) : t.stringAt offset = s := by
  have hbytes : (t.strings.drop offset).takeWhile (· ≠ 0) = Text.bytes s := h.stringBytes_eq
  rw [Table.stringAt, hbytes, Text.fromUTF8?_bytes, Option.getD_some]

/-- Offsets of held strings read as the strings. -/
theorem map_stringAt_eq {t : Table} {os : List Nat} {items : List String}
    (h : List.Forall₂ (HoldsString t.strings) os items) :
    (os.map fun o => Value.string (t.stringAt o)) = items.map .string := by
  rw [← List.forall₂_eq_eq_eq, List.forall₂_map_left_iff, List.forall₂_map_right_iff]
  exact h.imp fun _ _ ho => congrArg Value.string ho.stringAt_eq

/-- A looked up offset answers for the string that the region holds there. -/
theorem HoldsString.mem_findOffsets {bytes needle : List UInt8} {offset : Nat} {s : String}
    {kind : MatchKind} (h : HoldsString bytes offset s) (hi : isIndexable needle = true) :
    offset ∈ findOffsets bytes needle kind ↔ kind.holds (Text.bytes s) needle = true := by
  have hne : needle ≠ [] := by
    rintro rfl
    simp [isIndexable] at hi
  have hz : 0 ∉ needle := by
    intro hm
    simp [isIndexable, hm] at hi
  rw [mem_findOffsets_iff hne hz, h.stringBytes_eq]
  exact and_iff_right h.1

/-! ## Regions under construction -/

namespace StringRegion

/-- Every string put into the region is held at its offset, and the last one is ended. -/
structure Valid (r : StringRegion) : Prop where
  ended : r.bytes = [] ∨ ∃ before, r.bytes = before ++ [0]
  held : ∀ s offset, r.offsets.lookup s = some offset → HoldsString r.bytes offset s

theorem start_valid (sparse : Bool) : (start sparse).Valid := by
  cases sparse with
  | true => exact ⟨.inl rfl, by simp [start]⟩
  | false =>
      refine ⟨.inr ⟨[], rfl⟩, ?_⟩
      intro s offset h
      have hs : (s == "") = true ∧ offset = 0 := by
        cases hb : s == "" with
        | true => simpa [start, List.lookup_cons, hb, eq_comm] using h
        | false => simp [start, List.lookup_cons, hb] at h
      obtain ⟨hs, rfl⟩ := hs
      obtain rfl : s = "" := by simpa using hs
      exact ⟨.inl rfl, by decide, [], [], rfl, rfl⟩

/-- Putting a string into a region keeps what is there. -/
theorem intern_spec {r : StringRegion} (h : r.Valid) {s : String} (hz : 0 ∉ Text.bytes s) :
    (r.intern s).2.Valid ∧ r.bytes <+: (r.intern s).2.bytes ∧
      HoldsString (r.intern s).2.bytes (r.intern s).1 s := by
  rw [intern]
  cases hl : r.offsets.lookup s with
  | some o => exact ⟨h, List.prefix_rfl, h.held s o hl⟩
  | none =>
      have hstart : StartsString (r.bytes ++ Text.bytes s ++ [0]) r.bytes.length := by
        rcases h.ended with he | ⟨before, he⟩
        · exact .inl (by simp [he])
        · exact .inr ⟨before, Text.bytes s ++ [0], by simp [he], by simp [he]⟩
      have hnew : HoldsString (r.bytes ++ Text.bytes s ++ [0]) r.bytes.length s :=
        ⟨hstart, hz, r.bytes, [], by simp, rfl⟩
      refine ⟨⟨.inr ⟨r.bytes ++ Text.bytes s, rfl⟩, ?_⟩, ⟨Text.bytes s ++ [0], by simp⟩, hnew⟩
      intro s' offset' h'
      simp only [List.lookup_cons] at h'
      cases hs : s' == s with
      | true =>
          obtain rfl : s' = s := by simpa using hs
          obtain rfl : r.bytes.length = offset' := by simpa using h'
          exact hnew
      | false =>
          rw [hs] at h'
          exact (h.held s' offset' h').mono ⟨Text.bytes s ++ [0], by simp⟩

theorem internAll_spec {strings : List String} (hz : ∀ s ∈ strings, 0 ∉ Text.bytes s)
    {r : StringRegion} (h : r.Valid) :
    (r.internAll strings).2.Valid ∧ r.bytes <+: (r.internAll strings).2.bytes ∧
      List.Forall₂ (HoldsString (r.internAll strings).2.bytes) (r.internAll strings).1 strings := by
  induction strings generalizing r with
  | nil => exact ⟨h, List.prefix_rfl, .nil⟩
  | cons s strings ih =>
      obtain ⟨hv, hp, hs⟩ := intern_spec h (hz s (by simp))
      obtain ⟨hv', hp', hs'⟩ := ih (fun s' hs' => hz s' (List.mem_cons_of_mem s hs')) hv
      exact ⟨hv', hp.trans hp', .cons (hs.mono hp') hs'⟩

end StringRegion

/-! ## Cells -/

/-- What packing puts into the cell of a field: scalars of the stored kind, and strings inside the
row or by their offsets; arrays have as many elements as the field. -/
inductive CellOf (bytes : List UInt8) (f : Field) : Cell → Prop where
  | scalar (s : Scalar) (single : f.isArray = false) (kind : f.kind = .scalar s.kind) :
      CellOf bytes f (.scalar s)
  | scalars (items : List Scalar) (kind : ScalarKind) (array : f.isArray = true)
      (stored : f.kind = .scalar kind) (length : items.length = f.elementCount)
      (kinds : ∀ s ∈ items, s.kind = kind) : CellOf bytes f (.scalars items)
  | inline (s : String) (single : f.isArray = false) (stored : f.kind = .string) :
      CellOf bytes f (.inline s)
  | inlines (items : List String) (array : f.isArray = true) (stored : f.kind = .string)
      (length : items.length = f.elementCount) : CellOf bytes f (.inlines items)
  | offset (o : Nat) (s : String) (single : f.isArray = false) (stored : f.kind = .string)
      (held : HoldsString bytes o s) : CellOf bytes f (.offset o)
  | offsets (os : List Nat) (items : List String) (array : f.isArray = true)
      (stored : f.kind = .string) (length : items.length = f.elementCount)
      (held : List.Forall₂ (HoldsString bytes) os items) : CellOf bytes f (.offsets os)

theorem CellOf.mono {bytes bytes' : List UInt8} {f : Field} {cell : Cell} (h : CellOf bytes f cell)
    (hp : bytes <+: bytes') : CellOf bytes' f cell := by
  cases h with
  | scalar s single kind => exact .scalar s single kind
  | scalars items kind array stored length kinds =>
      exact .scalars items kind array stored length kinds
  | inline s single stored => exact .inline s single stored
  | inlines items array stored length => exact .inlines items array stored length
  | offset o s single stored held => exact .offset o s single stored (held.mono hp)
  | offsets os items array stored length held =>
      exact .offsets os items array stored length (held.imp fun _ _ h => h.mono hp)

namespace Field

theorem pad_length {α : Type} {items : List α} {count : Nat} (h : items.length ≤ count) (item : α) :
    (pad items count item).length = count := by
  simp only [pad, List.length_append, List.length_replicate]
  omega

theorem mem_pad {α : Type} {items : List α} {count : Nat} {item a : α}
    (h : a ∈ pad items count item) : a ∈ items ∨ a = item := by
  rcases List.mem_append.mp h with h | h
  · exact .inl h
  · exact .inr (List.eq_of_mem_replicate h)

theorem packScalar_kind {f : Field} {kind : ScalarKind} {v : Value} {s : Scalar}
    (h : f.packScalar kind v = .ok s) : s.kind = kind := by
  unfold packScalar at h
  split at h
  · obtain ⟨t, -, ht⟩ := Option.bind_eq_some_iff.mp ‹_›
    obtain rfl := Except.ok.inj h
    exact Scalar.kind_of_convert ht
  · cases h

theorem packText_no_zero {f : Field} {v : Value} {s : String} (h : f.packText v = .ok s) :
    0 ∉ Text.bytes s := by
  cases v with
  | string t =>
      by_cases hz : (Text.bytes t).contains 0
      · simp only [packText, hz, if_true] at h
        cases h
      · simp only [packText, hz] at h
        obtain rfl : t = s := Except.ok.inj h
        simpa using hz
  | _ => cases h

theorem elementsOf_length {f : Field} {v : Option Value} {items : List Value}
    (h : f.elementsOf v = .ok items) : items.length ≤ f.elementCount := by
  have hgiven : ∀ given : List Value,
      (if f.elementCount < given.length then
        (throw (.schema (.tooManyElements f.name f.elementCount given.length)) >>= fun _ : PUnit =>
          pure given : Except Error (List Value))
      else pure given) = .ok items → items.length ≤ f.elementCount := by
    intro given hg
    by_cases hlen : f.elementCount < given.length
    · rw [if_pos hlen] at hg
      cases hg
    · rw [if_neg hlen] at hg
      obtain rfl : given = items := Except.ok.inj hg
      omega
  unfold elementsOf at h
  split at h
  · exact hgiven [] h
  · exact hgiven [] h
  · split at h
    · exact hgiven _ h
    · cases h

/-- Packing a value fills the cell of the field and keeps what the region holds. -/
theorem pack_spec {f : Field} {v : Option Value} {region region' : StringRegion} {cell : Cell}
    (hr : region.Valid) (h : f.pack v region = .ok (cell, region')) :
    region'.Valid ∧ region.bytes <+: region'.bytes ∧ CellOf region'.bytes f cell := by
  unfold pack at h
  split at h
  case h_1 kind hk hs =>
    have hcell : ∃ s : Scalar, s.kind = kind ∧ (cell, region') = (.scalar s, region) := by
      split at h
      · exact ⟨.zero kind, Scalar.kind_zero kind, (Except.ok.inj h).symm⟩
      · exact ⟨.zero kind, Scalar.kind_zero kind, (Except.ok.inj h).symm⟩
      · obtain ⟨s, hps, h⟩ := bind_eq_ok_iff.mp h
        exact ⟨s, packScalar_kind hps, (Except.ok.inj h).symm⟩
    obtain ⟨s, rfl, he⟩ := hcell
    obtain ⟨rfl, rfl⟩ := Prod.mk.inj he
    exact ⟨hr, List.prefix_rfl, .scalar s hs hk⟩
  case h_2 kind hk hs =>
    obtain ⟨given, hg, h⟩ := bind_eq_ok_iff.mp h
    obtain ⟨items, hi, h⟩ := bind_eq_ok_iff.mp h
    obtain ⟨rfl, rfl⟩ := Prod.mk.inj (Except.ok.inj h)
    have hi := mapM_eq_ok_iff.mp hi
    refine ⟨hr, List.prefix_rfl, .scalars _ kind hs hk ?_ ?_⟩
    · exact pad_length (hi.length_eq ▸ elementsOf_length hg) _
    · intro s hm
      rcases mem_pad hm with hm | rfl
      · obtain ⟨a, -, ha⟩ := forall₂_mem_right hi hm
        exact packScalar_kind ha
      · exact Scalar.kind_zero kind
  case h_3 hk hs =>
    -- The text is stored inside the row or put into the region.
    have hstore : ∀ text, 0 ∉ Text.bytes text →
        (if region.sparse || f.isVirtual then pure (Cell.inline text, region)
        else pure (Cell.offset (region.intern text).1, (region.intern text).2) :
          Except Error (Cell × StringRegion)) = .ok (cell, region') →
        region'.Valid ∧ region.bytes <+: region'.bytes ∧ CellOf region'.bytes f cell := by
      intro text hz hc
      split at hc
      · obtain ⟨rfl, rfl⟩ := Prod.mk.inj (Except.ok.inj hc)
        exact ⟨hr, List.prefix_rfl, .inline text hs hk⟩
      · obtain ⟨rfl, rfl⟩ := Prod.mk.inj (Except.ok.inj hc)
        obtain ⟨hv, hp, hh⟩ := StringRegion.intern_spec hr hz
        exact ⟨hv, hp, .offset _ text hs hk hh⟩
    have hempty : 0 ∉ Text.bytes "" := by decide
    split at h
    · exact hstore "" hempty h
    · exact hstore "" hempty h
    · obtain ⟨text, ht, h⟩ := bind_eq_ok_iff.mp h
      exact hstore text (packText_no_zero ht) h
  case h_4 hk hs =>
    obtain ⟨given, hg, h⟩ := bind_eq_ok_iff.mp h
    obtain ⟨texts, hts, h⟩ := bind_eq_ok_iff.mp h
    have hts := mapM_eq_ok_iff.mp hts
    have hlen : (pad texts f.elementCount "").length = f.elementCount :=
      pad_length (hts.length_eq ▸ elementsOf_length hg) _
    have hz : ∀ s ∈ pad texts f.elementCount "", 0 ∉ Text.bytes s := by
      intro s hm
      rcases mem_pad hm with hm | rfl
      · obtain ⟨a, -, ha⟩ := forall₂_mem_right hts hm
        exact packText_no_zero ha
      · decide
    dsimp only at h
    split at h
    · obtain ⟨rfl, rfl⟩ := Prod.mk.inj (Except.ok.inj h)
      exact ⟨hr, List.prefix_rfl, .inlines _ hs hk hlen⟩
    · obtain ⟨rfl, rfl⟩ := Prod.mk.inj (Except.ok.inj h)
      obtain ⟨hv, hp, hh⟩ := StringRegion.internAll_spec hz hr
      exact ⟨hv, hp, .offsets _ _ hs hk hlen hh⟩

variable {f : Field}

/-- No later field of the list has the column of this one. -/
def LastIn (f : Field) (fields : List Field) : Prop :=
  ∃ front back, fields = front ++ f :: back ∧ f.column ∉ back.map (·.column)

theorem lastIn_of_nodup {fields : List Field} (hn : (fields.map (·.column)).Nodup)
    (hf : f ∈ fields) : f.LastIn fields := by
  obtain ⟨front, back, rfl⟩ := List.append_of_mem hf
  rw [List.map_append, List.map_cons] at hn
  exact ⟨front, back, rfl, (List.nodup_cons.mp (List.nodup_append.mp hn).2.1).1⟩

theorem exists_lastIn {fields : List Field} (hf : f ∈ fields) :
    ∃ g : Field, g.LastIn fields ∧ g.column = f.column := by
  induction fields generalizing f with
  | nil => cases hf
  | cons first fields ih =>
      by_cases hlater : f.column ∈ fields.map (·.column)
      · obtain ⟨f', hf', hcolumn⟩ := List.mem_map.mp hlater
        obtain ⟨g, ⟨front, back, rfl, hlast⟩, hg⟩ := ih hf'
        exact ⟨g, ⟨first :: front, back, rfl, hlast⟩, hg.trans hcolumn⟩
      · rcases List.mem_cons.mp hf with rfl | hf
        · exact ⟨f, ⟨[], fields, rfl, hlater⟩, rfl⟩
        · exact absurd (List.mem_map_of_mem hf) hlater

theorem LastIn.mem {fields : List Field} (h : f.LastIn fields) : f ∈ fields := by
  obtain ⟨front, back, rfl, -⟩ := h
  exact List.mem_append_right _ List.mem_cons_self

end Field

/-! ## Rows -/

namespace Table

/-- Packing fields fills cells with what the fields hold and leaves the others alone. -/
theorem packFields_spec {values : List (String × Value)} {fields : List Field}
    {cells cells' : List Cell} {region region' : StringRegion} (hr : region.Valid)
    (h : packFields values fields cells region = .ok (cells', region')) :
    region'.Valid ∧ region.bytes <+: region'.bytes ∧
      ∀ cell ∈ cells', cell ∈ cells ∨ ∃ f ∈ fields, CellOf region'.bytes f cell := by
  induction fields generalizing cells region with
  | nil =>
      obtain ⟨rfl, rfl⟩ := Prod.mk.inj (Except.ok.inj h)
      exact ⟨hr, List.prefix_rfl, fun cell hc => .inl hc⟩
  | cons f fields ih =>
      rw [packFields] at h
      cases hid : f.isId with
      | true =>
          rw [hid, if_pos rfl] at h
          obtain ⟨hv, hp, hcells⟩ := ih hr h
          refine ⟨hv, hp, fun cell hc => (hcells cell hc).imp_right ?_⟩
          rintro ⟨g, hg, hcell⟩
          exact ⟨g, List.mem_cons_of_mem f hg, hcell⟩
      | false =>
          rw [hid, if_neg Bool.false_ne_true] at h
          obtain ⟨⟨cell, packed⟩, hpack, h⟩ := bind_eq_ok_iff.mp h
          obtain ⟨hv₁, hp₁, hcell⟩ := Field.pack_spec hr hpack
          obtain ⟨hv, hp, hcells⟩ := ih hv₁ h
          refine ⟨hv, hp₁.trans hp, fun c hc => ?_⟩
          rcases hcells c hc with hc | ⟨g, hg, hgc⟩
          · rcases List.mem_or_eq_of_mem_set hc with hc | rfl
            · exact .inl hc
            · exact .inr ⟨f, List.mem_cons_self, hcell.mono hp⟩
          · exact .inr ⟨g, List.mem_cons_of_mem f hg, hgc⟩

theorem packFields_of_ne {values : List (String × Value)} {fields : List Field}
    {cells cells' : List Cell} {region region' : StringRegion} {column : Nat}
    (hc : column ∉ fields.map (·.column))
    (h : packFields values fields cells region = .ok (cells', region')) :
    cells'[column]? = cells[column]? := by
  induction fields generalizing cells region with
  | nil =>
      obtain ⟨rfl, rfl⟩ := Prod.mk.inj (Except.ok.inj h)
      rfl
  | cons f fields ih =>
      obtain ⟨hne, hc⟩ := not_or.mp (fun hm => hc (List.mem_cons.mpr hm))
      rw [packFields] at h
      split at h
      · exact ih hc h
      · obtain ⟨⟨cell, packed⟩, -, h⟩ := bind_eq_ok_iff.mp h
        rw [ih hc h, List.getElem?_set_ne (Ne.symm hne)]

/-- With distinct columns the cell of each field is what packing the field put there. -/
theorem packFields_at {values : List (String × Value)} {fields : List Field}
    {cells cells' : List Cell} {region region' : StringRegion} (hr : region.Valid)
    (hn : (fields.map (·.column)).Nodup)
    (h : packFields values fields cells region = .ok (cells', region')) {f : Field}
    (hf : f ∈ fields) (hid : f.isId = false) (hlt : f.column < cells.length) :
    ∃ cell, cells'[f.column]? = some cell ∧ CellOf region'.bytes f cell := by
  induction fields generalizing cells region with
  | nil => cases hf
  | cons g fields ih =>
      obtain ⟨hg, hn⟩ := List.nodup_cons.mp hn
      rw [packFields] at h
      split at h
      · rename_i hgid
        rcases List.mem_cons.mp hf with rfl | hf
        · simp [hid] at hgid
        · exact ih hr hn h hf hlt
      · obtain ⟨⟨cell, packed⟩, hpack, h⟩ := bind_eq_ok_iff.mp h
        obtain ⟨hv, hp, hcell⟩ := Field.pack_spec hr hpack
        rcases List.mem_cons.mp hf with rfl | hf
        · refine ⟨cell, ?_, hcell.mono (packFields_spec hv h).2.1⟩
          rw [packFields_of_ne hg h, List.getElem?_set_self hlt]
        · exact ih hv hn h hf (by simpa using hlt)

/-- With distinct columns the cell of an id field is left alone. -/
theorem packFields_id {values : List (String × Value)} {fields : List Field}
    {cells cells' : List Cell} {region region' : StringRegion}
    (hn : (fields.map (·.column)).Nodup)
    (h : packFields values fields cells region = .ok (cells', region')) {f : Field}
    (hf : f ∈ fields) (hid : f.isId = true) : cells'[f.column]? = cells[f.column]? := by
  induction fields generalizing cells region with
  | nil => cases hf
  | cons g fields ih =>
      obtain ⟨hg, hn⟩ := List.nodup_cons.mp hn
      rw [packFields] at h
      rcases List.mem_cons.mp hf with rfl | hf
      · rw [if_pos hid] at h
        exact packFields_of_ne hg h
      · split at h
        · exact ih hn h hf
        · obtain ⟨⟨cell, packed⟩, -, h⟩ := bind_eq_ok_iff.mp h
          have hne : g.column ≠ f.column := fun he => hg (List.mem_map.mpr ⟨f, hf, he.symm⟩)
          rw [ih hn h hf, List.getElem?_set_ne hne]

/-- What packing a row of a schema gives: the id of the row, and the fields in their cells. -/
structure RowOf (schema : TableSchema) (bytes : List UInt8) (row : StoredRow) : Prop where
  cells : ∀ cell ∈ row.cells, cell = .empty ∨ ∃ f ∈ schema.fields, CellOf bytes f cell
  cellAt : (schema.fields.map (·.column)).Nodup → ∀ f ∈ schema.fields, f.isId = false →
    ∃ cell, row.cells[f.column]? = some cell ∧ CellOf bytes f cell
  idCell : (schema.fields.map (·.column)).Nodup → ∀ f ∈ schema.fields, f.isId = true →
    row.cells[f.column]? = some .empty

theorem RowOf.mono {schema : TableSchema} {bytes bytes' : List UInt8} {row : StoredRow}
    (h : RowOf schema bytes row) (hp : bytes <+: bytes') : RowOf schema bytes' row where
  cells cell hc := by
    rcases h.cells cell hc with hempty | ⟨f, hf, hcell⟩
    · exact .inl hempty
    · exact .inr ⟨f, hf, hcell.mono hp⟩
  cellAt hn f hf hid := (h.cellAt hn f hf hid).imp fun _ hcell => ⟨hcell.1, hcell.2.mono hp⟩
  idCell := h.idCell

theorem column_lt_columnCount {schema : TableSchema} {f : Field} (hf : f ∈ schema.fields) :
    f.column < schema.columnCount := by
  have hmono : ∀ (fields : List Field) (n : Nat),
      n ≤ fields.foldl (fun n f => max n (f.column + 1)) n ∧
        ∀ f ∈ fields, f.column < fields.foldl (fun n f => max n (f.column + 1)) n := by
    intro fields
    induction fields with
    | nil => simp
    | cons g fields ih =>
        intro n
        obtain ⟨hle, hlt⟩ := ih (max n (g.column + 1))
        refine ⟨by simp only [List.foldl_cons]; omega, fun f hf => ?_⟩
        rcases List.mem_cons.mp hf with rfl | hf
        · simp only [List.foldl_cons]
          omega
        · exact hlt f hf
  exact (hmono schema.fields 0).2 f hf

theorem packRow_spec {schema : TableSchema} {given : RowValues} {region region' : StringRegion}
    {row : StoredRow} (hr : region.Valid)
    (h : packRow schema given region = .ok (row, region')) :
    region'.Valid ∧ region.bytes <+: region'.bytes ∧ row.id = given.1 ∧
      RowOf schema region'.bytes row := by
  unfold packRow at h
  split at h
  · cases h
  · obtain ⟨⟨cells, packed⟩, hpack, h⟩ := bind_eq_ok_iff.mp h
    obtain ⟨rfl, rfl⟩ := Prod.mk.inj (Except.ok.inj h)
    obtain ⟨hv, hp, hcells⟩ := packFields_spec hr hpack
    refine ⟨hv, hp, rfl, ?_, ?_, ?_⟩
    · intro cell hc
      exact (hcells cell hc).imp_left List.eq_of_mem_replicate
    · intro hn f hf hid
      exact packFields_at hr hn hpack hf hid (by simpa using column_lt_columnCount hf)
    · intro hn f hf hid
      rw [packFields_id hn hpack hf hid]
      simp [column_lt_columnCount hf]

/-- Packing rows in their order keeps the ids and packs each row. -/
theorem packRows_spec {schema : TableSchema} {given : List RowValues} {last : Option Int}
    {region region' : StringRegion} {rows : List StoredRow} (hr : region.Valid)
    (h : packRows schema last given region = .ok (rows, region')) :
    region'.Valid ∧ region.bytes <+: region'.bytes ∧ rows.map (·.id) = given.map (·.1) ∧
      ∀ row ∈ rows, RowOf schema region'.bytes row := by
  induction given generalizing last region rows with
  | nil =>
      obtain ⟨rfl, rfl⟩ := Prod.mk.inj (Except.ok.inj h)
      exact ⟨hr, List.prefix_rfl, rfl, by simp⟩
  | cons row given ih =>
      rw [packRows] at h
      split at h
      · cases h
      · obtain ⟨⟨stored, packed⟩, hrow, h⟩ := bind_eq_ok_iff.mp h
        obtain ⟨⟨others, packed'⟩, hothers, h⟩ := bind_eq_ok_iff.mp h
        obtain ⟨rfl, rfl⟩ := Prod.mk.inj (Except.ok.inj h)
        obtain ⟨hv₁, hp₁, hid, hof⟩ := packRow_spec hr hrow
        obtain ⟨hv, hp, hids, hofs⟩ := ih hv₁ hothers
        refine ⟨hv, hp₁.trans hp, by simp [hid, hids], fun r hm => ?_⟩
        rcases List.mem_cons.mp hm with rfl | hm
        · exact hof.mono hp
        · exact hofs r hm

/-! ## Built tables -/

/-- The table is what packing rows of the schema gives, in either layout, under any number and with
any access to the offsets of its strings. -/
def BuiltFrom (t : Table) (schema : TableSchema) : Prop :=
  ∃ (sparse : Bool) (rows : List RowValues) (packed : Table),
    pack schema sparse rows = .ok packed ∧ (∀ row ∈ rows, IntKind.Holds .i32 row.1) ∧
      t = { packed with number := t.number, offsetAccess := t.offsetAccess }

variable {t : Table} {schema : TableSchema}

theorem BuiltFrom.columns_eq (hb : t.BuiltFrom schema) : t.columns = layout schema := by
  obtain ⟨sparse, rows, packed, hpack, -, ht⟩ := hb
  obtain ⟨⟨stored, region⟩, -, h⟩ := bind_eq_ok_iff.mp hpack
  rw [ht, ← Except.ok.inj h]

theorem BuiltFrom.row_spec (hb : t.BuiltFrom schema) {row : StoredRow} (hm : row ∈ t.rows) :
    RowOf schema t.strings row ∧ IntKind.Holds .i32 row.id := by
  obtain ⟨sparse, rows, packed, hpack, hids, ht⟩ := hb
  obtain ⟨⟨stored, region⟩, hrows, h⟩ := bind_eq_ok_iff.mp hpack
  obtain rfl := Except.ok.inj h
  rw [ht] at hm ⊢
  obtain ⟨-, -, hmap, hof⟩ := packRows_spec (StringRegion.start_valid sparse) hrows
  refine ⟨hof row hm, ?_⟩
  have hid : row.id ∈ (rows.mergeSort fun a b => a.1 ≤ b.1).map (·.1) :=
    hmap ▸ List.mem_map_of_mem hm
  obtain ⟨given, hg, he⟩ := List.mem_map.mp hid
  exact he ▸ hids given (List.mem_mergeSort.mp hg)

theorem getElem?_foldl_set {fields : List Field} {columns : List (Option Field)} {column : Nat}
    (hc : column ∉ fields.map (·.column)) :
    (fields.foldl (fun columns f => columns.set f.column (some f)) columns)[column]? =
      columns[column]? := by
  induction fields generalizing columns with
  | nil => rfl
  | cons g fields ih =>
      obtain ⟨hne, hc⟩ := not_or.mp (fun hm => hc (List.mem_cons.mpr hm))
      rw [List.foldl_cons, ih hc, List.getElem?_set_ne (Ne.symm hne)]

/-- Each column holds the last field that the schema has there. -/
theorem layout_of_lastIn {f : Field} (hf : f.LastIn schema.fields) :
    (layout schema)[f.column]? = some (some f) := by
  have hlt := column_lt_columnCount hf.mem
  obtain ⟨front, back, hfields, hlast⟩ := hf
  have hlength : ∀ (fields : List Field) (columns : List (Option Field)),
      (fields.foldl (fun columns f => columns.set f.column (some f)) columns).length =
        columns.length := by
    intro fields
    induction fields with
    | nil => exact fun _ => rfl
    | cons g fields ih => exact fun columns => (ih _).trans List.length_set
  rw [layout, hfields, List.foldl_append, List.foldl_cons, getElem?_foldl_set hlast]
  exact List.getElem?_set_self (by simpa [hlength] using hlt)

/-- With distinct columns each column holds its field. -/
theorem layout_at (hn : (schema.fields.map (·.column)).Nodup) {f : Field}
    (hf : f ∈ schema.fields) : (layout schema)[f.column]? = some (some f) :=
  layout_of_lastIn (Field.lastIn_of_nodup hn hf)

/-! ## Handles and offsets -/

theorem stored_eq_ok_iff {h : RowHandle} {row : StoredRow} :
    t.stored h = .ok row ↔ t.rows[h.position]? = some row ∧ row.id = h.id := by
  unfold stored
  cases t.rows[h.position]? with
  | none => simp
  | some r =>
      simp only [Option.some.injEq]
      split
      · rename_i hid
        rw [Except.ok.injEq]
        exact ⟨fun he => ⟨he, he ▸ hid⟩, fun he => he.1⟩
      · rename_i hid
        constructor
        · intro he
          cases he
        · rintro ⟨rfl, he⟩
          exact absurd he hid

theorem mem_rows_of_stored {h : RowHandle} {row : StoredRow} (hs : t.stored h = .ok row) :
    row ∈ t.rows :=
  List.mem_of_getElem? (stored_eq_ok_iff.mp hs).1

theorem mem_handles_iff {h : RowHandle} :
    h ∈ t.handles ↔ h.segment = 0 ∧ ∃ row, t.stored h = .ok row := by
  simp only [handles, List.mem_map, Prod.exists, List.mem_zipIdx_iff_getElem?, stored_eq_ok_iff]
  constructor
  · rintro ⟨row, i, hi, rfl⟩
    exact ⟨rfl, row, hi, rfl⟩
  · rintro ⟨hseg, row, hi, hid⟩
    refine ⟨row, h.position, hi, ?_⟩
    cases h
    simp_all

theorem offset?_eq_some {h : RowHandle} {column o : Nat} (ho : t.offset? h column = some o) :
    ∃ row, t.stored h = .ok row ∧ row.cells[column]? = some (.offset o) := by
  unfold offset? at ho
  split at ho
  · split at ho
    · split at ho
      · obtain rfl := Option.some.inj ho
        exact ⟨_, ‹_›, ‹_›⟩
      · cases ho
    · cases ho
  · cases ho

/-- Where an offset is known, the string behind it is held by the region. -/
theorem BuiltFrom.offset_holds (hb : t.BuiltFrom schema) {h : RowHandle} {column o : Nat}
    (ho : t.offset? h column = some o) : ∃ s, HoldsString t.strings o s := by
  obtain ⟨row, hs, hcell⟩ := offset?_eq_some ho
  have hrow := (hb.row_spec (mem_rows_of_stored hs)).1
  rcases hrow.cells _ (List.mem_of_getElem? hcell) with he | ⟨f, -, hof⟩
  · cases he
  · cases hof with
    | offset o s single stored held => exact ⟨s, held⟩

end Table

/-! ## A table of staff -/

namespace Staff

def idField : Field := { name := "Id", kind := .scalar (.int .i32), column := 0, isId := true }

def nameField : Field := { name := "Name", kind := .string, column := 1 }

def managerField : Field := { name := "ManagerId", kind := .scalar (.int .i32), column := 2 }

def schema : TableSchema := ⟨"Staff", [idField, nameField, managerField]⟩

/-- Ann, who has no manager, and Bob, whose manager is Ann. -/
def table : Table where
  name := "Staff"
  flags := .none
  columns := [some idField, some nameField, some managerField]
  rows := [⟨1, [.empty, .offset 1, .scalar (.ofInt .i32 0)]⟩,
    ⟨2, [.empty, .offset 5, .scalar (.ofInt .i32 1)]⟩]
  strings := [0, 65, 110, 110, 0, 66, 111, 98, 0]

theorem builtFrom : table.BuiltFrom schema := by
  refine ⟨false, [(1, [("Name", .string "Ann")]),
    (2, [("Name", .string "Bob"), ("ManagerId", .scalar (.ofInt .i32 1))])], table, ?_,
      by decide, rfl⟩
  rw [Table.pack, List.mergeSort_of_pairwise (by decide)]
  rfl

end Staff

end ColumnQuery
