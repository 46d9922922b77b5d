import ColumnQuery.Proofs.RecordedReads

/-! # Contents of cells

Packing a value is two things in one. What its cell contains is decided by the field and the value:
that may fail, and it is the same in both layouts of a table. Where the contents are put depends on
the layout, and cannot fail. Contents that fit their field are read back from the cell. -/

namespace ColumnQuery

/-! ## Contents of a cell -/

/-- What a cell contains, wherever its texts are kept. -/
inductive Contents where
  | scalar (s : Scalar)
  | scalars (items : List Scalar)
  | text (s : String)
  | texts (items : List String)

namespace Contents

def value : Contents → Value
  | scalar s => .scalar s
  | scalars items => .array (items.map .scalar)
  | text s => .string s
  | texts items => .array (items.map .string)

/-- The texts that a dense table keeps in its region. -/
def strings : Contents → List String
  | text s => [s]
  | texts items => items
  | _ => []

/-- Puts contents into a cell, with texts inside the row or in the region. -/
def place (c : Contents) (inline : Bool) (region : StringRegion) : Cell × StringRegion :=
  match c with
  | scalar s => (.scalar s, region)
  | scalars items => (.scalars items, region)
  | text s =>
    if inline then (.inline s, region)
    else (.offset (region.intern s).1, (region.intern s).2)
  | texts items =>
    if inline then (.inlines items, region)
    else (.offsets (region.internAll items).1, (region.internAll items).2)

/-- A cell has the contents, where texts may be behind offsets into the bytes of a region. -/
inductive In (bytes : List UInt8) : Contents → Cell → Prop where
  | scalar (s : Scalar) : In bytes (.scalar s) (.scalar s)
  | scalars (items : List Scalar) : In bytes (.scalars items) (.scalars items)
  | inline (s : String) : In bytes (.text s) (.inline s)
  | inlines (items : List String) : In bytes (.texts items) (.inlines items)
  | offset (o : Nat) (s : String) (held : HoldsString bytes o s) : In bytes (.text s) (.offset o)
  | offsets (os : List Nat) (items : List String)
      (held : List.Forall₂ (HoldsString bytes) os items) : In bytes (.texts items) (.offsets os)

variable {c : Contents} {region : StringRegion} {bytes bytes' : List UInt8} {cell : Cell}

theorem In.mono (h : c.In bytes cell) (hp : bytes <+: bytes') : c.In bytes' cell := by
  cases h with
  | scalar s => exact .scalar s
  | scalars items => exact .scalars items
  | inline s => exact .inline s
  | inlines items => exact .inlines items
  | offset o s held => exact .offset o s (held.mono hp)
  | offsets os items held => exact .offsets os items (held.imp fun _ _ h => h.mono hp)

/-- Placed contents are in their cell, and the region keeps what it had. -/
theorem place_spec (hr : region.Valid) (hz : ∀ s ∈ c.strings, 0 ∉ Text.bytes s) (inline : Bool) :
    (c.place inline region).2.Valid ∧ region.bytes <+: (c.place inline region).2.bytes ∧
      c.In (c.place inline region).2.bytes (c.place inline region).1 := by
  cases c with
  | scalar s => exact ⟨hr, List.prefix_rfl, .scalar s⟩
  | scalars items => exact ⟨hr, List.prefix_rfl, .scalars items⟩
  | text s =>
      cases inline with
      | true => exact ⟨hr, List.prefix_rfl, .inline s⟩
      | false =>
          obtain ⟨hv, hp, hs⟩ := StringRegion.intern_spec hr (hz s List.mem_cons_self)
          exact ⟨hv, hp, .offset _ s hs⟩
  | texts items =>
      cases inline with
      | true => exact ⟨hr, List.prefix_rfl, .inlines items⟩
      | false =>
          obtain ⟨hv, hp, hs⟩ := StringRegion.internAll_spec hz hr
          exact ⟨hv, hp, .offsets _ items hs⟩

end Contents

/-! ## Contents of a field -/

/-- Items of a value for an array; null stands for none. -/
def Value.given? : Value → Option (List Value)
  | .null => some []
  | v => v.items?

namespace Field

/-- What a field gives back for a given value, which is null if there is none. -/
inductive Stores (f : Field) : Value → Value → Prop where
  | zero (kind : ScalarKind) (single : f.isArray = false) (stored : f.kind = .scalar kind) :
      f.Stores .null (.scalar (.zero kind))
  | scalar (kind : ScalarKind) (s s' : Scalar) (single : f.isArray = false)
      (stored : f.kind = .scalar kind) (converted : s.convert kind = some s') :
      f.Stores (.scalar s) (.scalar s')
  | scalars (kind : ScalarKind) (v : Value) (items items' : List Scalar) (array : f.isArray = true)
      (stored : f.kind = .scalar kind) (given : v.given? = some (items.map .scalar))
      (fits : items.length ≤ f.elementCount)
      (converted : List.Forall₂ (fun s s' => s.convert kind = some s') items items') :
      f.Stores v (.array ((items' ++
        List.replicate (f.elementCount - items.length) (Scalar.zero kind)).map .scalar))
  | empty (single : f.isArray = false) (stored : f.kind = .string) : f.Stores .null (.string "")
  | text (s : String) (single : f.isArray = false) (stored : f.kind = .string)
      (endless : 0 ∉ Text.bytes s) : f.Stores (.string s) (.string s)
  | texts (v : Value) (items : List String) (array : f.isArray = true) (stored : f.kind = .string)
      (given : v.given? = some (items.map .string)) (fits : items.length ≤ f.elementCount)
      (endless : ∀ s ∈ items, 0 ∉ Text.bytes s) :
      f.Stores v (.array ((items ++
        List.replicate (f.elementCount - items.length) "").map .string))

/-- What a field of a packed row gives back: an id field the id of the row, any other field what it
stores for the first given value of its name. -/
inductive GivesBack (f : Field) (row : RowValues) : Value → Prop where
  | id (kind : ScalarKind) (s : Scalar) (isId : f.isId = true) (stored : f.kind = .scalar kind)
      (converted : (Scalar.ofInt .i32 row.1).convert kind = some s) : f.GivesBack row (.scalar s)
  | stored (v : Value) (isStored : f.isId = false)
      (stores : f.Stores ((row.2.lookup f.name).getD .null) v) : f.GivesBack row v

/-- The contents of a field for a given value, which is null if there is none. -/
def contents (f : Field) (v : Value) : Except Error Contents :=
  match f.kind, f.isArray, v with
  | .scalar kind, false, .null => .ok (.scalar (.zero kind))
  | .scalar kind, false, v => (f.packScalar kind v).map .scalar
  | .scalar kind, true, v =>
    (f.elementsOf (some v) >>= List.mapM (f.packScalar kind)).map fun items =>
      .scalars (pad items f.elementCount (.zero kind))
  | .string, false, .null => .ok (.text "")
  | .string, false, v => (f.packText v).map .text
  | .string, true, v =>
    (f.elementsOf (some v) >>= List.mapM f.packText).map fun texts =>
      .texts (pad texts f.elementCount "")

variable {f : Field} {v : Value} {c : Contents}

/-- Nothing given is packed as null is. -/
theorem pack_none (f : Field) (region : StringRegion) :
    f.pack none region = f.pack (some .null) region := by
  unfold pack
  cases f.kind <;> cases f.isArray <;> rfl

/-- Packing a value decides the contents and places them. -/
theorem pack_some (f : Field) (v : Value) (region : StringRegion) :
    f.pack (some v) region =
      (f.contents v).map fun c => c.place (region.sparse || f.isVirtual) region := by
  unfold pack contents
  cases f.kind with
  | scalar kind =>
      cases f.isArray with
      | false =>
          cases v
          case null => rfl
          all_goals
            dsimp only
            cases f.packScalar kind _ <;> rfl
      | true =>
          dsimp only
          cases f.elementsOf (some v) with
          | error e => rfl
          | ok given =>
              simp only [ok_bind]
              cases given.mapM (f.packScalar kind) <;> rfl
  | string =>
      cases f.isArray with
      | false =>
          cases v
          case null =>
            simp only [ok_bind, pure_eq_ok, ok_map, Contents.place]
            split <;> rfl
          all_goals
            dsimp only
            cases f.packText _ with
            | error e => rfl
            | ok text =>
                simp only [ok_bind, pure_eq_ok, ok_map, Contents.place]
                split <;> rfl
      | true =>
          dsimp only
          cases f.elementsOf (some v) with
          | error e => rfl
          | ok given =>
              simp only [ok_bind]
              cases given.mapM f.packText with
              | error e => rfl
              | ok texts =>
                  simp only [ok_bind, pure_eq_ok, ok_map, Contents.place]
                  split <;> rfl

theorem pack_eq (f : Field) (v : Option Value) (region : StringRegion) :
    f.pack v region =
      (f.contents (v.getD .null)).map fun c =>
        c.place (region.sparse || f.isVirtual) region := by
  cases v with
  | none => rw [pack_none, pack_some, Option.getD_none]
  | some v => rw [pack_some, Option.getD_some]

/-- Contents that the column of a field can have. -/
inductive Fits (f : Field) : Contents → Prop where
  | scalar (s : Scalar) (single : f.isArray = false) (stored : f.kind = .scalar s.kind) :
      f.Fits (.scalar s)
  | scalars (kind : ScalarKind) (items : List Scalar) (array : f.isArray = true)
      (stored : f.kind = .scalar kind) (length : items.length = f.elementCount)
      (kinds : ∀ s ∈ items, s.kind = kind) : f.Fits (.scalars items)
  | text (s : String) (single : f.isArray = false) (stored : f.kind = .string)
      (endless : 0 ∉ Text.bytes s) : f.Fits (.text s)
  | texts (items : List String) (array : f.isArray = true) (stored : f.kind = .string)
      (length : items.length = f.elementCount) (endless : ∀ s ∈ items, 0 ∉ Text.bytes s) :
      f.Fits (.texts items)

theorem Fits.endless (h : f.Fits c) : ∀ s ∈ c.strings, 0 ∉ Text.bytes s := by
  cases h with
  | scalar s => simp [Contents.strings]
  | scalars kind items => simp [Contents.strings]
  | text s single stored endless => simpa [Contents.strings] using endless
  | texts items array stored length endless => exact endless

/-- Contents that fit a field are read back from the cell that has them. -/
theorem Fits.read? {t : Table} {cell : Cell} (h : f.Fits c) (hcell : c.In t.strings cell) :
    cell.read? t (.ofField f) = some c.value := by
  cases h with
  | scalar s single stored =>
      cases hcell
      simp [ReadKind.ofField, single, stored, Cell.read?, s.convert_kind, Contents.value]
  | scalars kind items array stored length kinds =>
      cases hcell
      simp [ReadKind.ofField, array, stored, Cell.read?, length, CellOf.mapM_convert_kind kinds,
        Contents.value]
  | text s single stored =>
      cases hcell with
      | inline => simp [ReadKind.ofField, single, stored, Cell.read?, Contents.value]
      | offset o _ held =>
          simp [ReadKind.ofField, single, stored, Cell.read?, Contents.value, held.stringAt_eq]
  | texts items array stored length =>
      cases hcell with
      | inlines => simp [ReadKind.ofField, array, stored, Cell.read?, length, Contents.value]
      | offsets os _ held =>
          simp [ReadKind.ofField, array, stored, Cell.read?, held.length_eq, length,
            map_stringAt_eq held, Contents.value]

theorem packScalar_eq_ok_iff {kind : ScalarKind} {s' : Scalar} :
    f.packScalar kind v = .ok s' ↔ ∃ s, v = .scalar s ∧ s.convert kind = some s' := by
  unfold packScalar
  cases v with
  | scalar s =>
      simp only [Value.scalar?, Option.bind_some]
      cases hs : s.convert kind <;> simp [hs]
  | _ => simp [Value.scalar?]

theorem packText_eq_ok_iff {s : String} :
    f.packText v = .ok s ↔ v = .string s ∧ 0 ∉ Text.bytes s := by
  cases v with
  | string s' =>
      simp only [packText, List.contains_iff_mem]
      by_cases hz : 0 ∈ Text.bytes s'
      · simp only [hz, if_true, reduceCtorEq, Value.string.injEq, false_iff, not_and, not_not]
        rintro rfl
        exact hz
      · simp only [hz, if_false, Except.ok.injEq, Value.string.injEq, iff_self_and]
        rintro rfl
        exact hz
  | _ => simp [packText]

theorem elementsOf_eq_ok_iff {given : List Value} :
    f.elementsOf (some v) = .ok given ↔
      v.given? = some given ∧ given.length ≤ f.elementCount := by
  have hfit : ∀ items : List Value,
      (if f.elementCount < items.length then
        (throw (.schema (.tooManyElements f.name f.elementCount items.length)) >>= fun _ : PUnit =>
          pure items : Except Error (List Value))
      else pure items) = .ok given ↔ items = given ∧ given.length ≤ f.elementCount := by
    intro items
    split
    · refine ⟨fun h => (by cases h), ?_⟩
      rintro ⟨rfl, hle⟩
      omega
    · simp only [pure_eq_ok, Except.ok.injEq, iff_self_and]
      rintro rfl
      omega
  unfold elementsOf
  cases v with
  | null => simpa [Value.given?] using hfit []
  | array items => simpa [Value.given?, Value.items?] using hfit items
  | collection items => simpa [Value.given?, Value.items?] using hfit items
  | _ =>
      simp only [Value.given?, Value.items?, reduceCtorEq, false_and, iff_false]
      intro h
      cases h

/-- Scalars to pack are scalars that convert. -/
theorem mapM_packScalar_eq_ok_iff {kind : ScalarKind} {given : List Value} {items' : List Scalar} :
    given.mapM (f.packScalar kind) = .ok items' ↔
      ∃ items : List Scalar, given = items.map .scalar ∧
        List.Forall₂ (fun s s' => s.convert kind = some s') items items' := by
  rw [mapM_eq_ok_iff]
  constructor
  · intro h
    induction h with
    | nil => exact ⟨[], rfl, .nil⟩
    | cons hv _ ih =>
        obtain ⟨s, rfl, hs⟩ := packScalar_eq_ok_iff.mp hv
        obtain ⟨items, rfl, hitems⟩ := ih
        exact ⟨s :: items, rfl, .cons hs hitems⟩
  · rintro ⟨items, rfl, h⟩
    rw [List.forall₂_map_left_iff]
    exact h.imp fun s s' hs => packScalar_eq_ok_iff.mpr ⟨s, rfl, hs⟩

/-- Texts to pack are strings without zero bytes. -/
theorem mapM_packText_eq_ok_iff {given : List Value} {texts : List String} :
    given.mapM f.packText = .ok texts ↔
      given = texts.map .string ∧ ∀ s ∈ texts, 0 ∉ Text.bytes s := by
  rw [mapM_eq_ok_iff]
  constructor
  · intro h
    induction h with
    | nil => simp
    | cons hv _ ih =>
        obtain ⟨rfl, hz⟩ := packText_eq_ok_iff.mp hv
        obtain ⟨rfl, htexts⟩ := ih
        exact ⟨rfl, List.forall_mem_cons.mpr ⟨hz, htexts⟩⟩
  · rintro ⟨rfl, h⟩
    rw [List.forall₂_map_left_iff, List.forall₂_same]
    exact fun s hs => packText_eq_ok_iff.mpr ⟨rfl, h s hs⟩

/-- What packing decides fits the field, and is what the field stores. -/
theorem contents_spec (h : f.contents v = .ok c) : f.Fits c ∧ f.Stores v c.value := by
  unfold contents at h
  split at h
  case h_1 kind hk hs =>
    obtain rfl := Except.ok.inj h
    exact ⟨.scalar _ hs (by rw [Scalar.kind_zero, hk]), .zero kind hs hk⟩
  case h_2 kind hk hs _ =>
    obtain ⟨s', hpack, rfl⟩ := map_eq_ok_iff.mp h
    obtain ⟨s, rfl, hconvert⟩ := packScalar_eq_ok_iff.mp hpack
    exact ⟨.scalar s' hs (by rw [Scalar.kind_of_convert hconvert, hk]),
      .scalar kind s s' hs hk hconvert⟩
  case h_3 kind hk hs =>
    obtain ⟨items', hpack, rfl⟩ := map_eq_ok_iff.mp h
    obtain ⟨given, hgiven, hpack⟩ := bind_eq_ok_iff.mp hpack
    obtain ⟨hv, hle⟩ := elementsOf_eq_ok_iff.mp hgiven
    obtain ⟨items, rfl, hconvert⟩ := mapM_packScalar_eq_ok_iff.mp hpack
    rw [List.length_map] at hle
    have hlength := hconvert.length_eq
    refine ⟨.scalars kind _ hs hk (pad_length (hlength ▸ hle) _) fun s hm => ?_, ?_⟩
    · rcases mem_pad hm with hm | rfl
      · obtain ⟨s₀, -, hs₀⟩ := forall₂_mem_right hconvert hm
        exact Scalar.kind_of_convert hs₀
      · exact Scalar.kind_zero kind
    · rw [Contents.value, pad, ← hlength]
      exact .scalars kind _ items items' hs hk hv hle hconvert
  case h_4 hk hs =>
    obtain rfl := Except.ok.inj h
    exact ⟨.text "" hs hk (by decide), .empty hs hk⟩
  case h_5 hk hs _ =>
    obtain ⟨s, hpack, rfl⟩ := map_eq_ok_iff.mp h
    obtain ⟨rfl, hz⟩ := packText_eq_ok_iff.mp hpack
    exact ⟨.text s hs hk hz, .text s hs hk hz⟩
  case h_6 hk hs =>
    obtain ⟨texts, hpack, rfl⟩ := map_eq_ok_iff.mp h
    obtain ⟨given, hgiven, hpack⟩ := bind_eq_ok_iff.mp hpack
    obtain ⟨hv, hle⟩ := elementsOf_eq_ok_iff.mp hgiven
    obtain ⟨rfl, hz⟩ := mapM_packText_eq_ok_iff.mp hpack
    rw [List.length_map] at hle
    refine ⟨.texts _ hs hk (pad_length hle _) fun s hm => ?_, .texts _ texts hs hk hv hle hz⟩
    rcases mem_pad hm with hm | rfl
    · exact hz s hm
    · decide

/-- Packing decides on contents wherever the field stores something. -/
theorem exists_contents {w : Value} (h : f.Stores v w) : ∃ c, f.contents v = .ok c := by
  cases h with
  | zero kind single stored => exact ⟨.scalar (.zero kind), by simp [contents, stored, single]⟩
  | scalar kind s s' single stored converted =>
      refine ⟨.scalar s', ?_⟩
      simp only [contents, stored, single, packScalar_eq_ok_iff.mpr ⟨s, rfl, converted⟩, ok_map]
  | scalars kind _ items items' array stored given fits converted =>
      have hgiven := elementsOf_eq_ok_iff.mpr ⟨given, by simpa using fits⟩
      have hpack := mapM_packScalar_eq_ok_iff (f := f).mpr ⟨items, rfl, converted⟩
      exact ⟨_, by simp only [contents, stored, array, hgiven, ok_bind, hpack, ok_map]; rfl⟩
  | empty single stored => exact ⟨.text "", by simp [contents, stored, single]⟩
  | text s single stored endless =>
      refine ⟨.text s, ?_⟩
      simp only [contents, stored, single, packText_eq_ok_iff.mpr ⟨rfl, endless⟩, ok_map]
  | texts _ items array stored given fits endless =>
      have hgiven := elementsOf_eq_ok_iff.mpr ⟨given, by simpa using fits⟩
      have hpack := mapM_packText_eq_ok_iff (f := f).mpr ⟨rfl, endless⟩
      exact ⟨_, by simp only [contents, stored, array, hgiven, ok_bind, hpack, ok_map]; rfl⟩

end Field

end ColumnQuery
