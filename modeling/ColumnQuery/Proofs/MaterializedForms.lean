import ColumnQuery.Proofs.Database
import ColumnQuery.Proofs.TwoLayouts

/-! # Forms of materialized members

Columns that a catalog accepts behind a member can be read for it. A row of a table that is built
from the schema of an entity always materializes, and each member has its declared form. -/

namespace ColumnQuery

/-! ## Declared forms -/

/-- The value is an element of the declared type. -/
def ElementType.HasForm : ElementType → Value → Prop
  | .scalar kind, v | .enum kind, v => ∃ s : Scalar, v = .scalar s ∧ s.kind = kind
  | .string, v => ∃ s, v = .string s

def CollectionShape.sequence : CollectionShape → List Value → Value
  | .array, items => .array items
  | .readOnly, items | .list, items => .collection items

/-- The value is of the declared type, with the given number of elements in an array. -/
def MemberType.HasForm : MemberType → Nat → Value → Prop
  | .scalar kind, _, v | .enum kind, _, v => ∃ s : Scalar, v = .scalar s ∧ s.kind = kind
  | .string, _, v => ∃ s, v = .string s
  | .array element shape, count, v => ∃ items : List Value,
      items.length = count ∧ (∀ item ∈ items, element.HasForm item) ∧ v = shape.sequence items

/-! ## Accepted columns -/

namespace MemberType

variable {type : MemberType} {kind : ScalarKind} {count : Nat}

def readKind : MemberType → Nat → ReadKind
  | .scalar kind, _ | .enum kind, _ => .scalar kind
  | .string, _ => .string
  | .array (.scalar kind) _, count | .array (.enum kind) _, count => .array kind count
  | .array .string _, count => .stringArray count

def shaped : MemberType → Value → Value
  | .array _ shape, v => shape.wrap v
  | _, v => v

/-- A column of strings stands behind strings or behind arrays of strings, by its element count. -/
theorem of_accepts_string (ha : type.accepts .string count = true) :
    (type = .string ∧ count ≤ 1) ∨ ∃ shape, type = .array .string shape ∧ 1 < count := by
  cases type with
  | scalar k | enum k => cases ha
  | string => exact .inl ⟨rfl, by simpa [accepts] using ha⟩
  | array element shape =>
      cases element with
      | scalar k | enum k => cases ha
      | string => exact .inr ⟨shape, rfl, by simpa [accepts] using ha⟩

theorem hasForm_scalar {s : Scalar} (hk : type.scalarKind? = some s.kind) :
    type.HasForm count (.scalar s) := by
  rcases scalar_of_scalarKind? hk with rfl | rfl
  · exact ⟨s, rfl, rfl⟩
  · exact ⟨s, rfl, rfl⟩

theorem hasForm_array {element : ElementType} {shape : CollectionShape} {items : List Value}
    (h : ∀ item ∈ items, element.HasForm item) :
    (MemberType.array element shape).HasForm items.length (shape.wrap (.array items)) :=
  ⟨items, rfl, h, by cases shape <;> rfl⟩

end MemberType

theorem Scalar.kinds_of_mapM {items items' : List Scalar} {kind : ScalarKind}
    (h : items.mapM (Scalar.convert · kind) = some items') :
    items'.length = items.length ∧ ∀ s ∈ items', s.kind = kind := by
  induction items generalizing items' with
  | nil =>
      obtain rfl := Option.some.inj h
      simp
  | cons s items ih =>
      rw [List.mapM_cons] at h
      obtain ⟨s', hs, h⟩ := Option.bind_eq_some_iff.mp h
      obtain ⟨rest, hrest, h⟩ := Option.bind_eq_some_iff.mp h
      obtain rfl := Option.some.inj h
      obtain ⟨hlength, hkinds⟩ := ih hrest
      exact ⟨by simp [hlength], List.forall_mem_cons.mpr ⟨kind_of_convert hs, hkinds⟩⟩

namespace Table

variable {t : Table} {schema : TableSchema} {h : RowHandle} {f : Field} {m : MemberDef}
  {cell : Cell} {type : MemberType}

/-- What is packed for a field can be read for every member that the field is accepted behind. -/
theorem exists_form_of_cellOf (hcell : CellOf t.strings f cell)
    (ha : type.accepts f.kind f.elementCount = true) :
    ∃ v, cell.read? t (type.readKind f.elementCount) = some v ∧
      type.HasForm f.elementCount (type.shaped v) := by
  have hsingle : f.isArray = false → ¬ 1 < f.elementCount := fun h => of_decide_eq_false h
  have harray : f.isArray = true → 1 < f.elementCount := of_decide_eq_true
  cases hcell with
  | scalar s single stored =>
      rw [stored] at ha
      rcases MemberType.of_accepts_scalar ha with ⟨k, hk, hnumeric, -⟩ | ⟨_, _, -, -, hcount⟩
      · obtain ⟨s', hs'⟩ := Scalar.exists_convert k hnumeric.symm
        have hform : type.HasForm f.elementCount (.scalar s') :=
          MemberType.hasForm_scalar (by rw [hk, Scalar.kind_of_convert hs'])
        rcases MemberType.scalar_of_scalarKind? hk with rfl | rfl
        · exact ⟨.scalar s', by simp [MemberType.readKind, Cell.read?, hs'], hform⟩
        · exact ⟨.scalar s', by simp [MemberType.readKind, Cell.read?, hs'], hform⟩
      · exact absurd hcount (hsingle single)
  | scalars items kind array stored length kinds =>
      rw [stored] at ha
      rcases MemberType.of_accepts_scalar ha with ⟨_, -, -, hcount⟩ | ⟨k, shape, htype, hnumeric, -⟩
      · exact absurd (harray array) (by omega)
      · obtain ⟨items', hitems'⟩ := Scalar.exists_mapM k fun s hs => by rw [kinds s hs, hnumeric]
        obtain ⟨hlength, hkinds⟩ := Scalar.kinds_of_mapM hitems'
        have hcount : (items'.map Value.scalar).length = f.elementCount := by simp [hlength, length]
        have hread : (Cell.scalars items).read? t (.array k f.elementCount) =
            some (.array (items'.map .scalar)) := by simp [Cell.read?, length, hitems']
        have hform (item : Value) (hitem : item ∈ items'.map Value.scalar) :
            ∃ s : Scalar, item = .scalar s ∧ s.kind = k := by
          obtain ⟨s, hs, rfl⟩ := List.mem_map.mp hitem
          exact ⟨s, rfl, hkinds s hs⟩
        rcases htype with rfl | rfl
        · exact ⟨_, hread, hcount ▸ MemberType.hasForm_array hform⟩
        · exact ⟨_, hread, hcount ▸ MemberType.hasForm_array hform⟩
  | inline s single stored | offset o s single stored =>
      rw [stored] at ha
      rcases MemberType.of_accepts_string ha with ⟨rfl, -⟩ | ⟨_, -, hcount⟩
      · exact ⟨_, rfl, _, rfl⟩
      · exact absurd hcount (hsingle single)
  | inlines items array stored length =>
      rw [stored] at ha
      rcases MemberType.of_accepts_string ha with ⟨-, hcount⟩ | ⟨shape, rfl, -⟩
      · exact absurd (harray array) (by omega)
      · have hcount : (items.map Value.string).length = f.elementCount := by simp [length]
        refine ⟨.array (items.map .string), by simp [MemberType.readKind, Cell.read?, length], ?_⟩
        exact hcount ▸ MemberType.hasForm_array (by simp [ElementType.HasForm])
  | offsets os items array stored length held =>
      rw [stored] at ha
      rcases MemberType.of_accepts_string ha with ⟨-, hcount⟩ | ⟨shape, rfl, -⟩
      · exact absurd (harray array) (by omega)
      · have hlength : f.elementCount = os.length := by rw [held.length_eq, length]
        have hcount : (os.map fun o => Value.string (t.stringAt o)).length = f.elementCount := by
          simp [hlength]
        refine ⟨.array (os.map fun o => .string (t.stringAt o)),
          by simp [MemberType.readKind, Cell.read?, hlength], ?_⟩
        exact hcount ▸ MemberType.hasForm_array (by simp [ElementType.HasForm])

theorem readMember_eq (hid : f.isId = false) : t.readMember h m f =
    (t.read h f.column (m.type.readKind f.elementCount)).map m.type.shaped := by
  have hsame (x : Except Error Value) : x = x.map (fun v => v) := by cases x <;> rfl
  obtain ⟨name, type⟩ := m
  cases type with
  | scalar k | enum k =>
      simp only [readMember, hid, Bool.false_eq_true, if_false]
      exact hsame _
  | string => exact hsame _
  | array element shape => cases element <;> rfl

/-- An id that is a single number can be read for every member that it is accepted behind. -/
theorem exists_form_of_id (hid : f.isId = true) (harray : f.isArray = false) {p : ScalarKind}
    (hkind : f.kind = .scalar p) (hnumeric : p.isNumeric = true)
    (ha : m.type.accepts f.kind f.elementCount = true) :
    ∃ v, t.readMember h m f = .ok v ∧ m.type.HasForm f.elementCount v := by
  rw [hkind] at ha
  rcases MemberType.of_accepts_scalar ha with ⟨k, hk, hsame, -⟩ | ⟨_, _, -, -, hcount⟩
  · obtain ⟨s, hs⟩ := Scalar.exists_convert (s := .ofInt .i32 h.id) k (hsame.trans hnumeric).symm
    refine ⟨.scalar s, ?_, MemberType.hasForm_scalar (by rw [hk, Scalar.kind_of_convert hs])⟩
    have hconvert : (Value.scalar (.ofInt .i32 h.id)).convert k = .ok (.scalar s) := by
      simp [Value.convert, hs]
    rcases MemberType.scalar_of_scalarKind? hk with hm | hm
    · simp [readMember, hm, hid, hconvert]
    · simp [readMember, hm, hid, hconvert]
  · exact absurd hcount (of_decide_eq_false harray)

/-- A row of a built table can be read for every member that a field is accepted behind. -/
theorem BuiltFrom.exists_form (hb : t.BuiltFrom schema)
    (hc : (schema.fields.map (·.column)).Nodup)
    (hids : ∀ f ∈ schema.fields, f.isId = true →
      f.isArray = false ∧ ∃ k : ScalarKind, f.kind = .scalar k ∧ k.isNumeric = true)
    (hf : f ∈ schema.fields) (hm : h ∈ t.handles)
    (ha : m.type.accepts f.kind f.elementCount = true) :
    ∃ v, t.readMember h m f = .ok v ∧ m.type.HasForm f.elementCount v := by
  obtain ⟨-, row, hs⟩ := mem_handles_iff.mp hm
  cases hid : f.isId with
  | true =>
      obtain ⟨harray, k, hkind, hnumeric⟩ := hids f hf hid
      exact exists_form_of_id hid harray hkind hnumeric ha
  | false =>
      obtain ⟨cell, hcell, hof⟩ := (hb.row_spec (mem_rows_of_stored hs)).1.cellAt hc f hf hid
      obtain ⟨v, hv, hform⟩ := exists_form_of_cellOf hof ha
      have hread : t.read h f.column (m.type.readKind f.elementCount) = .ok v :=
        (hb.read_field_iff hc hf).mpr ⟨row, hs, by simp [answer?, hid, hcell, hv]⟩
      exact ⟨_, by rw [readMember_eq hid, hread, ok_map], hform⟩

end Table

/-! ## Materialized entities -/

namespace EntityType

variable {e : EntityType} {t : Table} {h : RowHandle}

/-- Members that can be read can be read together. -/
theorem exists_readMembers {members : List MemberDef}
    (hread : ∀ m ∈ members, ∃ f v, e.schema.field? m.name = some f ∧ t.readMember h m f = .ok v)
    (start : Entity) : ∃ entity, e.readMembers t h members start = .ok entity := by
  induction members generalizing start with
  | nil => exact ⟨start, rfl⟩
  | cons m members ih =>
      obtain ⟨⟨f, v, hf, hv⟩, hrest⟩ := List.forall_mem_cons.mp hread
      obtain ⟨entity, hentity⟩ := ih hrest (start.set m.name v)
      exact ⟨entity, by rw [readMembers, hf]; simp [hv, hentity]⟩

/-- A readable entity has its members in the order of their declaration, if all can be read. -/
theorem map_fst_readable
    (hread : ∀ m ∈ e.members, ∃ f v, e.schema.field? m.name = some f ∧
      t.readMember h m f = .ok v) :
    (e.readable t h).fields.map (·.1) = e.members.map (·.name) := by
  rw [readable]
  generalize e.members = members at hread
  induction members with
  | nil => rfl
  | cons m members ih =>
      obtain ⟨⟨f, v, hf, hv⟩, hrest⟩ := List.forall_mem_cons.mp hread
      have hm : e.readable? t h m = some (m.name, v) := by
        simp [readable?, hf, hv, Except.toOption]
      rw [List.filterMap_cons, hm, List.map_cons, List.map_cons, ih hrest]

/-- Over a table that is built from the schema that the catalog found for an accepted entity, with
distinct columns and members and with ids that are single numbers, every row materializes. Exactly
the declared members are set, each to a value of its declared form; whatever else the factory began
with stays. -/
theorem materialize_forms {bundle : SchemaBundle} {resolve : String → Option TableSchema}
    {c : Catalog} (hbuild : Catalog.build bundle resolve = .ok c) (he : e ∈ c.entities)
    {schema : TableSchema} (hschema : resolve e.table = some schema) (ht : t.BuiltFrom schema)
    (hcolumns : (schema.fields.map (·.column)).Nodup) (hmembers : (e.members.map (·.name)).Nodup)
    (hids : ∀ f ∈ schema.fields, f.isId = true →
      f.isArray = false ∧ ∃ k : ScalarKind, f.kind = .scalar k ∧ k.isNumeric = true)
    (factory : EntityFactory) (hm : h ∈ t.handles) :
    ∃ entity, (e.materialize factory t h).result = .ok entity ∧
      entity.type = (factory e).type ∧
      (∀ m ∈ e.members, ∃ f v, schema.field? m.name = some f ∧
        entity.get? m.name = some v ∧ m.type.HasForm f.elementCount v) ∧
      (∀ name, name ∉ e.members.map (·.name) → entity.get? name = (factory e).get? name) ∧
      (factory e = EntityFactory.default e →
        entity.fields.map (·.1) = e.members.map (·.name)) := by
  obtain ⟨hsound, hresolved⟩ := Catalog.build_spec hbuild
  obtain rfl : e.schema = schema := Option.some.inj ((hresolved e he).symm.trans hschema)
  have hforms (m : MemberDef) (hmem : m ∈ e.members) : ∃ f v, e.schema.field? m.name = some f ∧
      t.readMember h m f = .ok v ∧ m.type.HasForm f.elementCount v := by
    obtain ⟨f, hf, ha⟩ := (hsound.bound e he).member m hmem
    obtain ⟨v, hv, hform⟩ :=
      ht.exists_form hcolumns hids (List.mem_of_find?_eq_some hf) hm ha
    exact ⟨f, v, hf, hv, hform⟩
  have hread (m : MemberDef) (hmem : m ∈ e.members) :
      ∃ f v, e.schema.field? m.name = some f ∧ t.readMember h m f = .ok v := by
    obtain ⟨f, v, hf, hv, -⟩ := hforms m hmem
    exact ⟨f, v, hf, hv⟩
  obtain ⟨entity, hentity⟩ := exists_readMembers hread (factory e)
  obtain ⟨htype, hothers⟩ := readMembers_others hentity
  refine ⟨entity, hentity, htype, fun m hmem => ?_, hothers, fun hdefault => ?_⟩
  · obtain ⟨f, v, hf, hv, hget⟩ := readMembers_spec hmembers hentity hmem
    obtain ⟨f', v', hf', hv', hform⟩ := hforms m hmem
    obtain rfl : f = f' := Option.some.inj (hf.symm.trans hf')
    obtain rfl : v = v' := Except.ok.inj (hv.symm.trans hv')
    exact ⟨f, v, hf, hget, hform⟩
  · rw [hdefault] at hentity
    rw [materialize_default hmembers hentity, map_fst_readable hread]

end EntityType

namespace Notes

def members : List MemberDef :=
  [⟨"Id", .enum (.int .i64)⟩, ⟨"Text", .string⟩, ⟨"Tags", .array .string .list⟩,
    ⟨"Ratings", .array (.scalar .f64) .array⟩, ⟨"Draft", .scalar .bool⟩]

/-- The entity of the table of notes, which reads the ratings as floats. -/
def entity : EntityType := ⟨"Note", "Notes", schema, "Id", members, []⟩

theorem build : Catalog.build ⟨1, [⟨"Note", "Notes", "Id", members, []⟩]⟩
    (fun _ => some schema) = .ok ⟨1, [entity], []⟩ := rfl

/-- A note of the sparse table materializes with its five members, among them a list of three tags
and an array of two ratings. -/
theorem materialize_forms_of_note : ∃ t h note, Table.pack schema true rows = .ok t ∧
    h ∈ t.handles ∧ (entity.materialize .default t h).result = .ok note ∧
      note.fields.map (·.1) = ["Id", "Text", "Tags", "Ratings", "Draft"] ∧
      (∃ tags, note.get? "Tags" = some (.collection tags) ∧ tags.length = 3) ∧
      ∃ ratings, note.get? "Ratings" = some (.array ratings) ∧ ratings.length = 2 ∧
        ∀ r ∈ ratings, ∃ s : Scalar, r = .scalar s ∧ s.kind = .f64 := by
  have hcontents : Table.rowsContents schema none (Table.inOrder rows) = .ok contents := by
    rw [inOrder_rows]
    rfl
  have hcolumns : (schema.fields.map (·.column)).Nodup := by decide
  obtain ⟨t, hpack, hids⟩ : ∃ t, Table.pack schema true rows = .ok t ∧
      t.rows.map (·.id) = [-1, 7] := by
    refine ⟨_, by rw [Table.pack_eq, hcontents, ok_map], ?_⟩
    rw [Table.map_id_placed hcolumns true hcontents, inOrder_rows]
    rfl
  obtain ⟨h, hm⟩ : ∃ h, h ∈ t.handles := by
    refine List.exists_mem_of_ne_nil _ fun hnil => ?_
    rw [← Table.map_id_handles, hnil] at hids
    cases hids
  obtain ⟨note, hnote, -, hforms, -, hfields⟩ := EntityType.materialize_forms (h := h) build
    List.mem_cons_self rfl ⟨true, rows, t, hpack, by decide, rfl⟩ hcolumns (by decide)
    (by simp [schema, textField, tagsField, ratingsField, draftField, idField, Field.isArray,
      ScalarKind.isNumeric]) .default hm
  refine ⟨t, h, note, hpack, hm, hnote, hfields rfl, ?_, ?_⟩
  · obtain ⟨f, v, hf, hv, tags, hlength, -, rfl⟩ :=
      hforms ⟨"Tags", .array .string .list⟩ (by simp [entity, members])
    obtain rfl : tagsField = f := Option.some.inj hf
    exact ⟨tags, hv, hlength⟩
  · obtain ⟨f, v, hf, hv, ratings, hlength, hratings, rfl⟩ :=
      hforms ⟨"Ratings", .array (.scalar .f64) .array⟩ (by simp [entity, members])
    obtain rfl : ratingsField = f := Option.some.inj hf
    exact ⟨ratings, hv, hlength, hratings⟩

end Notes

end ColumnQuery
