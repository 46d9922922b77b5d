import ColumnQuery.Proofs.PackedLayout

/-! # Matches through the string index

Whether the text of a row matches a needle can be asked of the text itself or of the offset at which
the region of its table holds the text. Both give the same answer, and it is the answer for
characters: in UTF-8 the bytes of a text sit inside those of another exactly where its characters
do. -/

namespace ColumnQuery

/-! ## Characters and bytes -/

/-- The characters of a needle sit in those of a text as the kind asks. -/
def MatchKind.SitsIn (kind : MatchKind) (needle text : List Char) : Prop :=
  match kind with
  | .contains => needle <:+: text
  | .startsWith => needle <+: text
  | .endsWith => needle <:+ text

namespace Text

variable {s text needle : String} {front back : List UInt8}

theorem bytes_append (s s' : String) : bytes (s ++ s') = bytes s ++ bytes s' := by
  simp [bytes]

theorem bytes_injective : Function.Injective bytes := by
  intro s s' h
  rw [← String.toByteArray_inj]
  exact ByteArray.ext (Array.toList_inj.mp h)

theorem bytes_length (s : String) : (bytes s).length = s.utf8ByteSize := by
  simp [bytes]

/-- A text can be cut where a character begins. -/
theorem exists_append_of_isValid (h : bytes text = front ++ back)
    (hvalid : String.Pos.Raw.IsValid text ⟨front.length⟩) :
    ∃ s s', text = s ++ s' ∧ bytes s = front ∧ bytes s' = back := by
  obtain ⟨s, s', rfl, hsize⟩ := String.Pos.Raw.isValid_iff_exists_append.mp hvalid
  have hlength : (bytes s).length = front.length := by
    rw [bytes_length]
    exact (congrArg String.Pos.Raw.byteIdx hsize).symm
  rw [bytes_append] at h
  obtain ⟨hfront, hback⟩ := List.append_inj h hlength
  exact ⟨s, s', rfl, hfront, hback⟩

/-- The first byte of a text begins a character, so a text can be cut where another occurs. -/
theorem exists_append_of_occurs (hn : needle ≠ "")
    (h : bytes text = front ++ (bytes needle ++ back)) :
    ∃ s s', text = s ++ s' ∧ bytes s' = bytes needle ++ back := by
  have hsize : 0 < needle.toByteArray.size := by
    rw [String.size_toByteArray, Nat.pos_iff_ne_zero, Ne, String.utf8ByteSize_eq_zero_iff]
    exact hn
  have hlt : front.length < text.toByteArray.size := by
    have hlength := congrArg List.length h
    simp only [bytes, List.length_append, Array.length_toList, ByteArray.size_data] at hlength
    omega
  have hbyte : text.toByteArray[front.length] = needle.toByteArray[0] := by
    have hget : (bytes text)[front.length]? = (bytes needle)[0]? := by
      rw [h, List.getElem?_append_right (Nat.le_refl _), Nat.sub_self, List.getElem?_append_left]
      simpa [bytes] using hsize
    rw [List.getElem?_eq_getElem (by simpa [bytes] using hlt),
      List.getElem?_eq_getElem (by simpa [bytes] using hsize)] at hget
    exact Option.some.inj hget
  obtain ⟨s, s', htext, -, hs'⟩ := exists_append_of_isValid h
    (String.Pos.Raw.isValid_iff_isUTF8FirstByte.mpr (.inr ⟨by
      simpa [String.Pos.Raw.lt_iff] using hlt, by
      rw [String.getUTF8Byte, hbyte]
      exact needle.isValidUTF8.isUTF8FirstByte_getElem_zero hsize⟩))
  exact ⟨s, s', htext, hs'⟩

theorem bytes_prefix_iff : bytes needle <+: bytes text ↔ needle.toList <+: text.toList := by
  constructor
  · rintro ⟨back, h⟩
    have hvalid : String.Pos.Raw.IsValid text ⟨(bytes needle).length⟩ := by
      have hfront : text.toByteArray.extract 0 (bytes needle).length = needle.toByteArray := by
        refine ByteArray.ext (Array.toList_inj.mp ?_)
        have hdata : text.toByteArray.data.toList = bytes needle ++ back := h.symm
        simp [hdata, bytes]
      rw [String.Pos.Raw.isValid_iff_isValidUTF8_extract_zero, hfront]
      refine ⟨?_, needle.isValidUTF8⟩
      have hlength := congrArg List.length h
      simp only [List.length_append, bytes_length] at hlength
      simp only [String.Pos.Raw.le_iff, String.byteIdx_rawEndPos, bytes_length]
      omega
    obtain ⟨s, s', rfl, hs, -⟩ := exists_append_of_isValid h.symm hvalid
    obtain rfl := bytes_injective hs
    exact ⟨s'.toList, (String.toList_append).symm⟩
  · rintro ⟨rest, h⟩
    have htext : text = needle ++ String.ofList rest := String.toList_inj.mp (by simpa using h.symm)
    rw [htext, bytes_append]
    exact List.prefix_append _ _

theorem bytes_suffix_iff (hn : needle ≠ "") :
    bytes needle <:+ bytes text ↔ needle.toList <:+ text.toList := by
  constructor
  · rintro ⟨front, h⟩
    have hend : bytes text = front ++ (bytes needle ++ []) := by simpa using h.symm
    obtain ⟨s, s', rfl, hs'⟩ := exists_append_of_occurs hn hend
    obtain rfl := bytes_injective (hs'.trans (List.append_nil _))
    exact ⟨s.toList, (String.toList_append).symm⟩
  · rintro ⟨rest, h⟩
    have htext : text = String.ofList rest ++ needle := String.toList_inj.mp (by simpa using h.symm)
    rw [htext, bytes_append]
    exact List.suffix_append _ _

theorem bytes_infix_iff (hn : needle ≠ "") :
    bytes needle <:+: bytes text ↔ needle.toList <:+: text.toList := by
  constructor
  · rintro ⟨front, back, h⟩
    obtain ⟨s, s', rfl, hs'⟩ := exists_append_of_occurs hn (by simpa using h.symm)
    rw [String.toList_append]
    exact (bytes_prefix_iff.mp ⟨back, hs'.symm⟩).isInfix.trans (List.suffix_append _ _).isInfix
  · rintro ⟨before, rest, h⟩
    have htext : text = String.ofList before ++ needle ++ String.ofList rest :=
      String.toList_inj.mp (by simpa using h.symm)
    rw [htext, bytes_append, bytes_append]
    exact List.infix_append _ _ _

end Text

/-- A match of bytes is a match of characters. -/
theorem MatchKind.matches_iff (kind : MatchKind) (text needle : String) :
    kind.matches text needle = true ↔ kind.SitsIn needle.toList text.toList := by
  rw [MatchKind.matches]
  by_cases hn : needle = ""
  · subst hn
    cases kind <;> simp [holds, SitsIn, Text.bytes, Text.occursIn_iff]
  · cases kind with
    | contains => exact (Text.occursIn_iff _ _).trans (Text.bytes_infix_iff hn)
    | startsWith => exact List.isPrefixOf_iff_prefix.trans Text.bytes_prefix_iff
    | endsWith => exact List.isSuffixOf_iff_suffix.trans (Text.bytes_suffix_iff hn)

/-! ## Offsets of rows -/

/-- The needle is not empty and holds no zero byte exactly if the index takes it. -/
theorem isIndexable_bytes_iff (needle : String) :
    isIndexable (Text.bytes needle) = true ↔ needle ≠ "" ∧ 0 ∉ Text.bytes needle := by
  have hempty : Text.bytes needle = [] ↔ needle = "" :=
    ⟨fun h => Text.bytes_injective h, fun h => h ▸ rfl⟩
  simp [isIndexable, ← hempty]

namespace Table

variable {schema : TableSchema} {t : Table} {h : RowHandle} {f : Field}

/-- Each row of a dense table has an offset for a stored text, and the region holds there the text
that is read from the row. -/
theorem exists_held {rows : List RowValues} (hpack : pack schema false rows = .ok t)
    (hn : (schema.fields.map (·.column)).Nodup) (hf : f ∈ schema.fields) (hk : f.kind = .string)
    (hs : f.isArray = false) (hv : f.isVirtual = false) (hid : f.isId = false)
    (hm : h ∈ t.handles) :
    ∃ o text, t.offset? h f.column = some o ∧ HoldsString t.strings o text ∧
      t.read h f.column .string = .ok (.string text) := by
  obtain ⟨-, row, hrow⟩ := mem_handles_iff.mp hm
  obtain ⟨⟨stored, region⟩, hrows, htable⟩ := bind_eq_ok_iff.mp hpack
  obtain rfl := Except.ok.inj htable
  obtain ⟨cell, hat, hin⟩ := packRows_cellIn (StringRegion.start_valid false)
    (Field.lastIn_of_nodup hn hf) hid hrows (mem_rows_of_stored hrow)
  have hvalid := (packRows_spec (StringRegion.start_valid false) hrows).1
  have hdense : region.sparse = false := (packRows_extends hrows).sparse
  obtain ⟨text, htext⟩ := hin.text hk hs
  rw [hdense, hv, Bool.or_self, if_neg Bool.false_ne_true] at htext
  obtain ⟨o, rfl, ho⟩ := htext
  have held : HoldsString region.bytes o text := hvalid.held text o ho
  refine ⟨o, text, ?_, held, ?_⟩
  · rw [offset?, hrow]
    simp [hasOffsets, TableFlags.isSparse, TableFlags.contains, TableFlags.none,
      TableFlags.sparse, hat]
  · rw [read_eq_ok_iff]
    refine ⟨row, f, hrow, layout_at hn hf, ?_⟩
    simp only [answer?, hid, Bool.false_eq_true, if_false, hat, Option.getD_some, Cell.read?]
    exact congrArg (some ∘ Value.string) held.stringAt_eq

end Table

/-- The offset that a dense table reports for the text of a row is among the offsets found for a
needle exactly if the text matches the needle, which is to say that the characters of the needle sit
in those of the text as the kind asks. -/
theorem Table.offset_mem_findOffsets_iff (schema : TableSchema) (rows : List RowValues) (t : Table)
    (hpack : Table.pack schema false rows = .ok t) (hn : (schema.fields.map (·.column)).Nodup)
    (f : Field) (hf : f ∈ schema.fields) (hk : f.kind = .string) (hs : f.isArray = false)
    (hv : f.isVirtual = false) (hid : f.isId = false) (h : RowHandle) (hm : h ∈ t.handles)
    (kind : MatchKind) (needle : String) (hne : needle ≠ "") (hz : 0 ∉ Text.bytes needle) :
    ∃ o text, t.offset? h f.column = some o ∧
      t.read h f.column .string = .ok (.string text) ∧
        (o ∈ findOffsets t.strings (Text.bytes needle) kind ↔
          kind.matches text needle = true) ∧
          (kind.matches text needle = true ↔ kind.SitsIn needle.toList text.toList) := by
  obtain ⟨o, text, hoffset, hheld, hread⟩ := exists_held hpack hn hf hk hs hv hid hm
  exact ⟨o, text, hoffset, hread,
    hheld.mem_findOffsets ((isIndexable_bytes_iff needle).mpr ⟨hne, hz⟩),
    kind.matches_iff text needle⟩

/-- Bob is found behind the offset of his row by the end of his name. -/
theorem Table.offset_mem_findOffsets_iff_of_bob :
    ∃ o text, Staff.table.offset? ⟨0, 1, 2⟩ Staff.nameField.column = some o ∧
      Staff.table.read ⟨0, 1, 2⟩ Staff.nameField.column .string = .ok (.string text) ∧
        o ∈ findOffsets Staff.table.strings (Text.bytes "ob") .endsWith ∧
          MatchKind.endsWith.matches text "ob" = true ∧
            MatchKind.endsWith.SitsIn "ob".toList text.toList := by
  have hpack : Table.pack Staff.schema false [(1, [("Name", .string "Ann")]),
      (2, [("Name", .string "Bob"), ("ManagerId", .scalar (.ofInt .i32 1))])] =
        .ok Staff.table := by
    rw [Table.pack, List.mergeSort_of_pairwise (by decide)]
    rfl
  obtain ⟨o, text, hoffset, hread, hfound, hsits⟩ := offset_mem_findOffsets_iff Staff.schema _
    Staff.table hpack (by decide) Staff.nameField (by decide) rfl rfl rfl rfl ⟨0, 1, 2⟩ (by decide)
    .endsWith "ob" (by decide) (by decide)
  obtain rfl : 5 = o := Option.some.inj hoffset
  have hmem : 5 ∈ findOffsets Staff.table.strings (Text.bytes "ob") .endsWith := by decide
  exact ⟨5, text, hoffset, hread, hmem, hfound.mp hmem, hsits.mp (hfound.mp hmem)⟩

end ColumnQuery
