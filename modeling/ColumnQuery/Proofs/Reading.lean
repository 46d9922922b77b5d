import ColumnQuery.Proofs.Packing
import ColumnQuery.Related.Materialize
import Mathlib.Data.List.Nodup

/-! # Reads of rows

What reading a column, a key or a member of a row yields, and the entity that the reads of all
members make. -/

namespace ColumnQuery

/-! ## Columns -/

/-- What a cell answers to a read, if it can be read so. -/
def Cell.read? (t : Table) : Cell → ReadKind → Option Value
  | .scalar s, .scalar k => (s.convert k).map .scalar
  | .offset o, .string => some (.string (t.stringAt o))
  | .inline s, .string => some (.string s)
  | .scalars items, .array element count =>
    if count = items.length then
      (items.mapM (Scalar.convert · element)).map fun items => .array (items.map .scalar)
    else none
  | .offsets items, .stringArray count =>
    if count = items.length then some (.array (items.map fun o => .string (t.stringAt o))) else none
  | .inlines items, .stringArray count =>
    if count = items.length then some (.array (items.map .string)) else none
  | _, _ => none

namespace Table

/-- What a row answers to a read of the column behind a field: an id field reads as the row id. -/
def answer? (t : Table) (row : StoredRow) (f : Field) (column : Nat) (kind : ReadKind) :
    Option Value :=
  if f.isId then
    match kind with
    | .scalar k => ((Scalar.ofInt .i32 row.id).convert k).map .scalar
    | _ => none
  else (row.cells[column]?.getD .empty).read? t kind

variable {t : Table} {h : RowHandle} {column : Nat} {kind : ReadKind} {v : Value}

theorem read_eq (t : Table) (h : RowHandle) (column : Nat) (kind : ReadKind) :
    t.read h column kind = t.stored h >>= fun row =>
      match t.columns[column]?.join with
      | none => .error (.columnOutOfRange column)
      | some f =>
        match t.answer? row f column kind with
        | some v => .ok v
        | none => .error (.fieldType column kind) := by
  unfold read
  cases hs : t.stored h with
  | error e => rfl
  | ok row =>
      have hid : row.id = h.id := (stored_eq_ok_iff.mp hs).2
      cases t.columns[column]?.join with
      | none => rfl
      | some f =>
          simp only [ok_bind, answer?, hid]
          cases f.isId with
          | true =>
              simp only [if_true]
              cases kind with
              | scalar k =>
                  dsimp only
                  cases (Scalar.ofInt .i32 h.id).convert k <;> rfl
              | _ => rfl
          | false =>
              simp only [Bool.false_eq_true, if_false]
              generalize row.cells[column]?.getD .empty = cell
              cases cell <;> cases kind <;> try rfl
              case scalar.scalar s k =>
                simp only [Cell.read?]
                cases s.convert k <;> rfl
              case scalars.array items element count =>
                simp only [Cell.read?]
                split
                · cases items.mapM (Scalar.convert · element) <;> rfl
                · rfl
              case offsets.stringArray items count =>
                simp only [Cell.read?]
                split <;> rfl
              case inlines.stringArray items count =>
                simp only [Cell.read?]
                split <;> rfl

/-- A read succeeds where there is a row and a field behind the column, and the row answers. -/
theorem read_eq_ok_iff :
    t.read h column kind = .ok v ↔
      ∃ row f, t.stored h = .ok row ∧ t.columns[column]? = some (some f) ∧
        t.answer? row f column kind = some v := by
  rw [read_eq, bind_eq_ok_iff]
  constructor
  · rintro ⟨row, hs, hr⟩
    split at hr
    · cases hr
    · rename_i f hf
      split at hr
      · obtain rfl := Except.ok.inj hr
        exact ⟨row, f, hs, Option.join_eq_some_iff.mp hf, ‹_›⟩
      · cases hr
  · rintro ⟨row, f, hs, hf, ha⟩
    refine ⟨row, hs, ?_⟩
    simp only [Option.join_eq_some_iff.mpr hf, ha]

theorem stored_grounded (t : Table) (h : RowHandle) : Grounded (t.stored h) := by
  unfold stored
  split
  · split
    · exact .ok _
    · exact .error rfl
  · exact .error rfl

theorem read_grounded (t : Table) (h : RowHandle) (column : Nat) (kind : ReadKind) :
    Grounded (t.read h column kind) := by
  rw [read_eq]
  refine (stored_grounded t h).bind fun row _ => ?_
  split
  · exact .error rfl
  · split
    · exact .ok _
    · exact .error rfl

theorem answer?_ne_null {row : StoredRow} {f : Field} (ha : t.answer? row f column kind = some v) :
    v ≠ .null := by
  rintro rfl
  unfold answer? at ha
  split at ha
  · split at ha <;> simp at ha
  · unfold Cell.read? at ha
    split at ha <;> simp at ha

theorem read_ne_null (hr : t.read h column kind = .ok v) : v ≠ .null := by
  obtain ⟨row, f, -, -, ha⟩ := read_eq_ok_iff.mp hr
  exact answer?_ne_null ha

theorem read_string_eq (hr : t.read h column .string = .ok v) : ∃ s, v = .string s := by
  obtain ⟨row, f, -, -, ha⟩ := read_eq_ok_iff.mp hr
  unfold answer? at ha
  split at ha
  · cases ha
  · generalize row.cells[column]?.getD .empty = cell at ha
    cases cell <;> cases ha <;> exact ⟨_, rfl⟩

/-- Where the offset of a row is known, a string read from the row is the one behind it. -/
theorem read_string_of_offset {o : Nat} (ho : t.offset? h column = some o)
    (hr : t.read h column .string = .ok v) : v = .string (t.stringAt o) := by
  obtain ⟨row, hs, hcell⟩ := offset?_eq_some ho
  obtain ⟨row', f, hs', -, ha⟩ := read_eq_ok_iff.mp hr
  obtain rfl : row = row' := Except.ok.inj (hs.symm.trans hs')
  unfold answer? at ha
  split at ha
  · cases ha
  · rw [hcell] at ha
    exact (Option.some.inj ha).symm

/-! ## Members -/

end Table

theorem Value.convert_grounded (v : Value) (kind : ScalarKind) : Grounded (v.convert kind) := by
  cases v with
  | null => exact .ok _
  | scalar s =>
      simp only [convert]
      split
      · exact .ok _
      · exact .error rfl
  | char c =>
      simp only [convert]
      split
      · exact .ok _
      · exact .error rfl
  | _ => exact .error rfl

theorem Value.convert_ne_null {v w : Value} {kind : ScalarKind} (hv : v ≠ .null)
    (h : v.convert kind = .ok w) : w ≠ .null := by
  rintro rfl
  cases v with
  | null => exact hv rfl
  | scalar s =>
      simp only [convert] at h
      split at h <;> cases h
  | char c =>
      simp only [convert] at h
      split at h <;> cases h
  | _ => cases h

theorem CollectionShape.wrap_ne_null {shape : CollectionShape} {v : Value} (hv : v ≠ .null) :
    shape.wrap v ≠ .null := by
  cases shape <;> cases v <;> simp_all [wrap]

theorem MemberType.scalar_of_scalarKind? {type : MemberType} {kind : ScalarKind}
    (h : type.scalarKind? = some kind) : type = .scalar kind ∨ type = .enum kind := by
  cases type <;> simp_all [scalarKind?]

namespace Table

theorem readMember_string {t : Table} {h : RowHandle} {m : MemberDef} {f : Field}
    (hm : m.type = .string) : t.readMember h m f = t.read h f.column .string := by
  rw [readMember, hm]

theorem readMember_grounded (t : Table) (h : RowHandle) (m : MemberDef) (f : Field) :
    Grounded (t.readMember h m f) := by
  unfold readMember
  split
  · split
    · exact Value.convert_grounded _ _
    · exact read_grounded t h _ _
  · split
    · exact Value.convert_grounded _ _
    · exact read_grounded t h _ _
  · exact read_grounded t h _ _
  · exact (read_grounded t h _ _).map _
  · exact (read_grounded t h _ _).map _
  · exact (read_grounded t h _ _).map _

end Table

namespace EntityType

variable {e : EntityType} {t : Table} {h : RowHandle}

theorem mem_members_of_member? {name : String} {m : MemberDef} (hm : e.member? name = some m) :
    m ∈ e.members ∧ m.name = name :=
  ⟨List.mem_of_find?_eq_some hm, by simpa using List.find?_some hm⟩

theorem memberField?_eq_some {name : String} {m : MemberDef} {f : Field} :
    e.memberField? name = some (m, f) ↔
      e.member? name = some m ∧ e.schema.field? name = some f := by
  unfold memberField?
  cases e.member? name <;> cases e.schema.field? name <;> simp

/-! ## Entities -/

/-- Reading members leaves the type and the other fields alone. -/
theorem readMembers_others {members : List MemberDef} {start entity : Entity}
    (hr : e.readMembers t h members start = .ok entity) :
    entity.type = start.type ∧
      ∀ name, name ∉ members.map (·.name) → entity.get? name = start.get? name := by
  induction members generalizing start with
  | nil =>
      obtain rfl := Except.ok.inj hr
      exact ⟨rfl, fun _ _ => rfl⟩
  | cons m members ih =>
      rw [readMembers] at hr
      split at hr
      · cases hr
      · obtain ⟨v, -, hr⟩ := bind_eq_ok_iff.mp hr
        obtain ⟨htype, hothers⟩ := ih hr
        refine ⟨htype, fun name hname => ?_⟩
        rw [List.map_cons, List.mem_cons, not_or] at hname
        rw [hothers name hname.2]
        exact Fields.get?_set_of_ne hname.1

/-- A member that is read holds what the row holds for the last member of its name. -/
theorem readMembers_get? {members : List MemberDef} {start entity : Entity} {name : String}
    (hr : e.readMembers t h members start = .ok entity) (hname : name ∈ members.map (·.name)) :
    ∃ m, members.reverse.find? (·.name == name) = some m ∧ ∃ f v,
      e.schema.field? name = some f ∧ t.readMember h m f = .ok v ∧ entity.get? name = some v := by
  induction members generalizing start with
  | nil => cases hname
  | cons m members ih =>
      rw [readMembers] at hr
      split at hr
      · cases hr
      · rename_i f hf
        obtain ⟨v, hv, hr⟩ := bind_eq_ok_iff.mp hr
        rw [List.reverse_cons, List.find?_append]
        by_cases hlater : name ∈ members.map (·.name)
        · obtain ⟨m', hm', hread⟩ := ih hr hlater
          exact ⟨m', by rw [hm', Option.some_or], hread⟩
        · have hnone : members.reverse.find? (·.name == name) = none := by
            rw [List.find?_eq_none]
            intro m' hm' he
            exact hlater (List.mem_map.mpr ⟨m', List.mem_reverse.mp hm', by simpa using he⟩)
          rw [List.map_cons, List.mem_cons] at hname
          obtain rfl := hname.resolve_right hlater
          refine ⟨m, by simp [hnone], f, v, hf, hv, ?_⟩
          rw [(readMembers_others hr).2 m.name hlater]
          exact Fields.get?_set_self start.fields m.name v

/-- Reading members of distinct names sets each of them to what the row holds. -/
theorem readMembers_spec {members : List MemberDef} {start entity : Entity}
    (hn : (members.map (·.name)).Nodup)
    (hr : e.readMembers t h members start = .ok entity) {m : MemberDef} (hm : m ∈ members) :
    ∃ f v, e.schema.field? m.name = some f ∧ t.readMember h m f = .ok v ∧
      entity.get? m.name = some v := by
  obtain ⟨m', hfound, hread⟩ := readMembers_get? hr (List.mem_map_of_mem hm)
  have hm' : m' ∈ members := List.mem_reverse.mp (List.mem_of_find?_eq_some hfound)
  obtain rfl := List.inj_on_of_nodup_map hn hm' hm (by simpa using List.find?_some hfound)
  exact hread

/-- An entity of a row has each declared member, whatever its factory began with. -/
theorem materialize_get? (hn : (e.members.map (·.name)).Nodup) {factory : EntityFactory}
    {entity : Entity} (hm : (e.materialize factory t h).result = .ok entity) {name : String}
    {m : MemberDef} {f : Field} (hmf : e.memberField? name = some (m, f)) :
    ∃ v, t.readMember h m f = .ok v ∧ entity.get? name = some v := by
  have hr : e.readMembers t h e.members (factory e) = .ok entity := hm
  obtain ⟨hmember, hf⟩ := memberField?_eq_some.mp hmf
  obtain ⟨hmem, rfl⟩ := mem_members_of_member? hmember
  obtain ⟨f', v, hf', hv, hget⟩ := readMembers_spec hn hr hmem
  obtain rfl : f = f' := Option.some.inj (hf.symm.trans hf')
  exact ⟨v, hv, hget⟩

/-- A declared member of a row under its name, if it can be read. -/
def readable? (e : EntityType) (t : Table) (h : RowHandle) (m : MemberDef) :
    Option (String × Value) :=
  (e.schema.field? m.name).bind fun f => (t.readMember h m f).toOption.map (m.name, ·)

/-- The entity of those members of a row that can be read. -/
def readable (e : EntityType) (t : Table) (h : RowHandle) : Entity :=
  ⟨e.name, e.members.filterMap (e.readable? t h)⟩

theorem set_of_not_mem {fields : Fields} {name : String} {v : Value}
    (hn : name ∉ fields.map (·.1)) : fields.set name v = fields ++ [(name, v)] := by
  induction fields with
  | nil => rfl
  | cons field fields ih =>
      obtain ⟨n, old⟩ := field
      rw [List.map_cons, List.mem_cons, not_or] at hn
      have hne : (n == name) = false := by simpa using Ne.symm hn.1
      simp [Fields.set, hne, ih hn.2]

theorem name_of_readable? {m : MemberDef} {field : String × Value}
    (hm : e.readable? t h m = some field) : field.1 = m.name := by
  obtain ⟨f, -, hv⟩ := Option.bind_eq_some_iff.mp hm
  obtain ⟨v, -, rfl⟩ := Option.map_eq_some_iff.mp hv
  rfl

theorem readMembers_fields {members : List MemberDef} {start entity : Entity}
    (hn : (start.fields.map (·.1) ++ members.map (·.name)).Nodup)
    (hr : e.readMembers t h members start = .ok entity) :
    entity.fields = start.fields ++ members.filterMap (e.readable? t h) := by
  induction members generalizing start with
  | nil =>
      obtain rfl := Except.ok.inj hr
      simp
  | cons m members ih =>
      rw [readMembers] at hr
      split at hr
      · cases hr
      · rename_i f hf
        obtain ⟨v, hv, hr⟩ := bind_eq_ok_iff.mp hr
        have hm : m.name ∉ start.fields.map (·.1) := fun hmem =>
          (List.nodup_append.mp hn).2.2 m.name hmem m.name (by simp) rfl
        have hset : (start.set m.name v).fields = start.fields ++ [(m.name, v)] := set_of_not_mem hm
        have hread : e.readable? t h m = some (m.name, v) := by
          simp [readable?, hf, hv, Except.toOption]
        rw [ih (by simpa [hset] using hn) hr, hset, List.filterMap_cons, hread, List.append_assoc]
        rfl

/-- The default entity of a row that materializes is its readable entity. -/
theorem materialize_default (hn : (e.members.map (·.name)).Nodup) {entity : Entity}
    (hm : (e.materialize .default t h).result = .ok entity) : entity = e.readable t h := by
  have hr : e.readMembers t h e.members { type := e.name } = .ok entity := hm
  have hfields := readMembers_fields (by simpa using hn) hr
  have htype := (readMembers_others hr).1
  cases entity
  simp_all [readable]

theorem lookup_filterMap_readable? {members : List MemberDef}
    (hn : (members.map (·.name)).Nodup) {m : MemberDef} (hm : m ∈ members) :
    (members.filterMap (e.readable? t h)).lookup m.name = (e.readable? t h m).map (·.2) := by
  induction members with
  | nil => cases hm
  | cons m' members ih =>
      obtain ⟨hm', hn⟩ := List.nodup_cons.mp hn
      have hothers : m.name ∉ members.map (·.name) →
          (members.filterMap (e.readable? t h)).lookup m.name = none := by
        intro hnot
        rw [List.lookup_eq_none_iff]
        intro field hfield
        obtain ⟨m'', hm'', hf⟩ := List.mem_filterMap.mp hfield
        have hne : m.name ≠ m''.name := fun he => hnot (he ▸ List.mem_map_of_mem hm'')
        simpa [name_of_readable? hf] using hne
      rcases List.mem_cons.mp hm with rfl | hm
      · cases hr : e.readable? t h m with
        | none => simpa [hr] using hothers hm'
        | some field =>
            obtain ⟨name, v⟩ := field
            obtain rfl : name = m.name := name_of_readable? hr
            simp [hr]
      · have hne : m.name ≠ m'.name := fun he => hm' (List.mem_map.mpr ⟨m, hm, he⟩)
        have hne : (m.name == m'.name) = false := by simpa using hne
        cases hr : e.readable? t h m' with
        | none => simpa [hr] using ih hn hm
        | some field =>
            obtain ⟨name, v⟩ := field
            obtain rfl : name = m'.name := name_of_readable? hr
            simpa [hr, List.lookup_cons, hne] using ih hn hm

/-- A readable entity has each declared member that can be read. -/
theorem readable_get? (hn : (e.members.map (·.name)).Nodup) {name : String} {m : MemberDef}
    {f : Field} (hmf : e.memberField? name = some (m, f)) :
    (e.readable t h).get? name = (t.readMember h m f).toOption := by
  obtain ⟨hmember, hf⟩ := memberField?_eq_some.mp hmf
  obtain ⟨hm, rfl⟩ := mem_members_of_member? hmember
  rw [Entity.get?, readable, Fields.get?, lookup_filterMap_readable? hn hm, readable?, hf]
  simp [Function.comp_def]

/-- A readable entity has nothing but declared members. -/
theorem readable_get?_eq_none {name : String} (hname : name ∉ e.members.map (·.name)) :
    (e.readable t h).get? name = none := by
  rw [Entity.get?, readable, Fields.get?, List.lookup_eq_none_iff]
  intro field hfield
  obtain ⟨m, hm, hf⟩ := List.mem_filterMap.mp hfield
  have hne : name ≠ m.name := fun he => hname (he ▸ List.mem_map_of_mem hm)
  simpa [name_of_readable? hf] using hne

end EntityType

namespace Staff

def members : List MemberDef :=
  [⟨"Id", .scalar (.int .i32)⟩, ⟨"Name", .string⟩, ⟨"ManagerId", .scalar (.int .i32)⟩]

def navigations : List NavigationDef := [⟨"Manager", "Staff", .foreignKey "ManagerId"⟩]

/-- The entity of the table of staff, with a reference from a row to its manager. -/
def entity : EntityType := ⟨"Staff", "Staff", schema, "Id", members, navigations⟩

end Staff

end ColumnQuery
