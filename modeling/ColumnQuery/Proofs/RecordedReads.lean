import ColumnQuery.Proofs.FilterPushdown
import ColumnQuery.Proofs.PackedLayout
import ColumnQuery.Proofs.RowAgreement

/-! # Recorded reads

A compiled predicate or projection records the columns that it reads, and it reads no others: two
rows of a table that hold the same in the recorded columns give it the same result. Every leaf of a
compiled form has been recorded, conjunctions keep what their parts have recorded, and what a column
holds decides every way to read it. -/

namespace ColumnQuery

/-! ## Cells that read the same -/

namespace CellOf

variable {t : Table} {f : Field} {a b : Cell}

theorem mapM_convert_kind {items : List Scalar} {kind : ScalarKind}
    (h : ∀ s ∈ items, s.kind = kind) : items.mapM (Scalar.convert · kind) = some items := by
  induction items with
  | nil => rfl
  | cons s items ih =>
      obtain ⟨rfl, hrest⟩ := List.forall_mem_cons.mp h
      rw [List.mapM_cons, s.convert_kind, ih hrest]
      rfl

/-- The cell of a field of several strings answers with its texts. -/
theorem exists_texts (h : CellOf t.strings f a) (hk : f.kind = .string) (hs : f.isArray = true) :
    ∃ texts : List String, ∀ kind, a.read? t kind = match kind with
      | .stringArray count =>
        if count = f.elementCount then some (.array (texts.map .string)) else none
      | _ => none := by
  cases h with
  | scalar _ _ kind => simp [hk] at kind
  | scalars _ _ _ stored => simp [hk] at stored
  | inline _ single | offset _ _ single => simp [hs] at single
  | inlines items array stored length =>
      refine ⟨items, fun kind => ?_⟩
      cases kind <;> simp [Cell.read?, length]
  | offsets os items array stored length held =>
      refine ⟨items, fun kind => ?_⟩
      cases kind <;> simp [Cell.read?, held.length_eq, length, map_stringAt_eq held]

/-- The cell of a field of one string answers with its text. -/
theorem exists_text (h : CellOf t.strings f a) (hk : f.kind = .string) (hs : f.isArray = false) :
    ∃ text : String, ∀ kind, a.read? t kind = match kind with
      | .string => some (.string text)
      | _ => none := by
  cases h with
  | scalar _ _ kind => simp [hk] at kind
  | scalars _ _ array | inlines _ array | offsets _ _ array => simp [hs] at array
  | inline text => exact ⟨text, fun kind => by cases kind <;> rfl⟩
  | offset o text single stored held =>
      refine ⟨text, fun kind => ?_⟩
      cases kind <;> simp [Cell.read?, held.stringAt_eq]

theorem exists_scalar (h : CellOf t.strings f a) {kind : ScalarKind} (hk : f.kind = .scalar kind)
    (hs : f.isArray = false) : ∃ s : Scalar, a = .scalar s ∧ s.kind = kind := by
  cases h with
  | scalar s single stored => exact ⟨s, rfl, StoredKind.scalar.inj (stored.symm.trans hk)⟩
  | scalars _ _ array | inlines _ array | offsets _ _ array => simp [hs] at array
  | inline _ _ stored | offset _ _ _ stored => simp [hk] at stored

theorem exists_scalars (h : CellOf t.strings f a) {kind : ScalarKind} (hk : f.kind = .scalar kind)
    (hs : f.isArray = true) : ∃ items : List Scalar, a = .scalars items ∧
      items.length = f.elementCount ∧ ∀ s ∈ items, s.kind = kind := by
  cases h with
  | scalars items kind' array stored length kinds =>
      obtain rfl := StoredKind.scalar.inj (stored.symm.trans hk)
      exact ⟨items, rfl, length, kinds⟩
  | scalar _ single | inline _ single | offset _ _ single => simp [hs] at single
  | inlines _ _ stored | offsets _ _ _ stored => simp [hk] at stored

/-- Cells of a field that read the same as they are stored read the same in any way. -/
theorem read?_congr (ha : CellOf t.strings f a) (hb : CellOf t.strings f b)
    (h : a.read? t (.ofField f) = b.read? t (.ofField f)) (kind : ReadKind) :
    a.read? t kind = b.read? t kind := by
  cases hk : f.kind with
  | string =>
      cases hs : f.isArray with
      | false =>
          obtain ⟨text, htext⟩ := ha.exists_text hk hs
          obtain ⟨text', htext'⟩ := hb.exists_text hk hs
          simp only [ReadKind.ofField, hk, hs, htext, htext', Option.some.injEq,
            Value.string.injEq] at h
          rw [htext, htext', h]
      | true =>
          obtain ⟨texts, htexts⟩ := ha.exists_texts hk hs
          obtain ⟨texts', htexts'⟩ := hb.exists_texts hk hs
          simp only [ReadKind.ofField, hk, hs, htexts, htexts', if_true, Option.some.injEq,
            Value.array.injEq] at h
          rw [htexts, htexts', h]
  | scalar stored =>
      cases hs : f.isArray with
      | false =>
          obtain ⟨s, rfl, rfl⟩ := ha.exists_scalar hk hs
          obtain ⟨s', rfl, hkind⟩ := hb.exists_scalar hk hs
          have hread := s'.convert_kind
          rw [hkind] at hread
          simp only [ReadKind.ofField, hk, hs, Cell.read?, s.convert_kind, hread, Option.map_some,
            Option.some.injEq, Value.scalar.injEq] at h
          rw [h]
      | true =>
          obtain ⟨items, rfl, hlength, hkinds⟩ := ha.exists_scalars hk hs
          obtain ⟨items', rfl, hlength', hkinds'⟩ := hb.exists_scalars hk hs
          simp only [ReadKind.ofField, hk, hs, Cell.read?, hlength, hlength', if_true,
            mapM_convert_kind hkinds, mapM_convert_kind hkinds', Option.map_some,
            Option.some.injEq, Value.array.injEq] at h
          rw [(List.map_inj_right fun _ _ => Value.scalar.inj).mp h]

end CellOf

namespace StringRegion.CellIn

variable {r : StringRegion} {t : Table} {f : Field} {a b : Cell}

/-- Texts that read the same are behind the same offset. -/
theorem offset_of_read?_eq (hr : r.Valid) (ht : t.strings = r.bytes) (ha : r.CellIn f a)
    (hb : r.CellIn f b) (h : a.read? t (.ofField f) = b.read? t (.ofField f)) {o : Nat}
    (ho : a = .offset o) : b = .offset o := by
  subst ho
  cases ha.contents with
  | offset _ _ single stored _ =>
      obtain ⟨s, hs⟩ := ha.text stored single
      obtain ⟨s', hs'⟩ := hb.text stored single
      split at hs
      · cases hs
      · rename_i hdense
        rw [if_neg hdense] at hs'
        obtain ⟨_, ho, hlookup⟩ := hs
        obtain rfl := Cell.offset.inj ho
        obtain ⟨o', rfl, hlookup'⟩ := hs'
        have hheld : HoldsString t.strings o s := ht ▸ hr.held s o hlookup
        have hheld' : HoldsString t.strings o' s' := ht ▸ hr.held s' o' hlookup'
        simp only [ReadKind.ofField, stored, single, Cell.read?, hheld.stringAt_eq,
          hheld'.stringAt_eq, Option.some.injEq, Value.string.injEq] at h
        subst h
        rw [Option.some.inj (hlookup'.symm.trans hlookup)]

end StringRegion.CellIn

/-! ## Rows that hold the same -/

namespace Table

variable {t : Table} {schema : TableSchema} {f : Field} {h k : RowHandle} {columns : List Nat}

/-- Two rows hold the same in some columns: the row id in the column of an id, and elsewhere what is
read as it is stored. -/
def HoldSame (t : Table) (schema : TableSchema) (columns : List Nat) (h k : RowHandle) : Prop :=
  ∀ f ∈ schema.fields, f.column ∈ columns →
    if f.isId then h.id = k.id
    else t.read h f.column (.ofField f) = t.read k f.column (.ofField f)

theorem BuiltFrom.read_lastIn (hb : t.BuiltFrom schema) (hf : f.LastIn schema.fields)
    (hid : f.isId = false) {row : StoredRow} (hrow : t.stored h = .ok row) {cell : Cell}
    (hcell : row.cells[f.column]? = some cell) (kind : ReadKind) :
    t.read h f.column kind = match cell.read? t kind with
      | some v => .ok v
      | none => .error (.fieldType f.column kind) := by
  have ha : t.answer? row f f.column kind = cell.read? t kind := by
    unfold answer?
    rw [hid, if_neg Bool.false_ne_true, hcell, Option.getD_some]
  have hcolumn : t.columns[f.column]? = some (some f) := by
    rw [hb.columns_eq, layout_of_lastIn hf]
  cases hread : cell.read? t kind with
  | some v => exact read_eq_ok_iff.mpr ⟨row, f, hrow, hcolumn, ha.trans hread⟩
  | none => simp [read_eq, hrow, hcolumn, ha, hread]

theorem offset?_eq_some_iff {row : StoredRow} (hrow : t.stored h = .ok row) {column : Nat}
    {cell : Cell} (hcell : row.cells[column]? = some cell) {o : Nat} :
    t.offset? h column = some o ↔
      (t.hasOffsets && t.offsetAccess ≠ .blank) = true ∧ cell = .offset o := by
  rw [offset?, hrow]
  dsimp only
  rw [hcell]
  split
  · rename_i hknown
    rw [and_iff_right hknown]
    cases cell <;> simp
  · rename_i hunknown
    exact iff_of_false nofun fun ho => hunknown ho.1

/-- What different rows hold in a column decides every way to read it. -/
theorem BuiltFrom.sameField (hb : t.BuiltFrom schema) (hh : h ∈ t.handles) (hk : k ∈ t.handles)
    (hne : h.id ≠ k.id) (hsame : t.HoldSame schema columns h k) (hf : f ∈ schema.fields)
    (hc : f.column ∈ columns) : SameField t t h k f := by
  have hnoId : ∀ g ∈ schema.fields, g.column ∈ columns → g.isId = false := by
    intro g hg hgc
    have hg := hsame g hg hgc
    cases hid : g.isId with
    | false => rfl
    | true =>
        rw [hid, if_pos rfl] at hg
        exact absurd hg hne
  -- The column belongs to the last field that is there.
  obtain ⟨g, hlast, hcolumn⟩ := Field.exists_lastIn hf
  have hgc : g.column ∈ columns := hcolumn ▸ hc
  have hid := hnoId g hlast.mem hgc
  have hread := hsame g hlast.mem hgc
  rw [hid, if_neg Bool.false_ne_true] at hread
  obtain ⟨r, hvalid, hstrings, hcells⟩ := hb.exists_region
  obtain ⟨-, row, hrow⟩ := mem_handles_iff.mp hh
  obtain ⟨-, row', hrow'⟩ := mem_handles_iff.mp hk
  obtain ⟨a, hat, ha⟩ := hcells g hlast hid row (mem_rows_of_stored hrow)
  obtain ⟨b, hbt, hb'⟩ := hcells g hlast hid row' (mem_rows_of_stored hrow')
  have hstored : a.read? t (.ofField g) = b.read? t (.ofField g) := by
    rw [hb.read_lastIn hlast hid hrow hat, hb.read_lastIn hlast hid hrow' hbt] at hread
    cases ha? : a.read? t (.ofField g) <;> cases hb? : b.read? t (.ofField g) <;>
      simp_all
  constructor
  case id =>
    intro hfid
    simp [hnoId f hf hc] at hfid
  case read =>
    intro kind
    have ha' : CellOf t.strings g a := hstrings ▸ ha.contents
    rw [← hcolumn, hb.read_lastIn hlast hid hrow hat, hb.read_lastIn hlast hid hrow' hbt,
      ha'.read?_congr (hstrings ▸ hb'.contents) hstored]
  case offset =>
    rw [← hcolumn]
    refine Option.ext fun o => ?_
    rw [offset?_eq_some_iff hrow hat, offset?_eq_some_iff hrow' hbt]
    exact and_congr_right fun _ =>
      ⟨ha.offset_of_read?_eq hvalid hstrings hb' hstored,
        hb'.offset_of_read?_eq hvalid hstrings ha hstored.symm⟩

end Table

/-! ## Complete records -/

namespace Reads

variable {reads others : Reads} {leaves : List (Field × Usage)}

theorem mem_columns {column : Nat} :
    column ∈ reads.columns ↔ ∃ r ∈ reads, r.column = column := by
  rw [columns, mem_eraseReps, List.mem_mergeSort, List.mem_map]

/-- Merging loses no read. -/
theorem mem_merge {r : Read} : r ∈ reads.merge others ↔ r ∈ reads ∨ r ∈ others := by
  unfold merge
  induction others generalizing reads with
  | nil => simp
  | cons other others ih =>
      rw [List.foldl_cons, ih, List.mem_cons]
      split
      · rename_i hm
        constructor
        · rintro (h | h)
          · exact .inl h
          · exact .inr (.inr h)
        · rintro (h | rfl | h)
          · exact .inl h
          · exact .inl hm
          · exact .inr h
      · rw [List.mem_append, List.mem_singleton, or_assoc]

/-- Fields of a schema are read, each as it has been recorded, and ids are those of id fields. -/
structure Cover (reads : Reads) (schema : TableSchema) (leaves : List (Field × Usage))
    (ids : List Field) : Prop where
  declared : ∀ l ∈ leaves, l.1 ∈ schema.fields
  recorded : ∀ l ∈ leaves, ⟨l.1.name, l.1.column, l.2, l.1.isVirtual⟩ ∈ reads
  ids : ∀ f ∈ ids, f.isId = true ∧ (f, .scalar) ∈ leaves

theorem Cover.column {schema : TableSchema} {ids : List Field}
    (h : reads.Cover schema leaves ids) {l : Field × Usage} (hl : l ∈ leaves) :
    l.1.column ∈ reads.columns :=
  mem_columns.mpr ⟨_, h.recorded l hl, rfl⟩

/-- Leaves whose names stand for fields of a schema are recorded with their columns. -/
theorem recorded_ofLeaves {schema : TableSchema}
    (h : ∀ l ∈ leaves, schema.field? l.1.name = some l.1) {l : Field × Usage} (hl : l ∈ leaves) :
    ⟨l.1.name, l.1.column, l.2, l.1.isVirtual⟩ ∈ ofLeaves leaves := by
  obtain ⟨hall, honly⟩ := ofLeaves_spec leaves
  obtain ⟨r, hr, hname, husage⟩ := hall l hl
  obtain ⟨l', hl', rfl⟩ := honly r hr
  have hname : l'.1.name = l.1.name := hname
  have hfield : l'.1 = l.1 := Option.some.inj ((h l' hl').symm.trans (hname ▸ h l hl))
  rwa [← hfield, ← show l'.2 = l.2 from husage]

theorem cover_ofLeaves {schema : TableSchema} {ids : List Field}
    (h : ∀ l ∈ leaves, schema.field? l.1.name = some l.1)
    (hids : ∀ f ∈ ids, f.isId = true ∧ (f, .scalar) ∈ leaves) :
    (ofLeaves leaves).Cover schema leaves ids where
  declared l hl := List.mem_of_find?_eq_some (h l hl)
  recorded _ := recorded_ofLeaves h
  ids := hids

/-- Rows that hold the same in the recorded columns are one row, or differ in nothing that is
read. -/
theorem Cover.agree {schema : TableSchema} {ids : List Field} (hc : reads.Cover schema leaves ids)
    {t : Table} (hb : t.BuiltFrom schema) {h k : RowHandle} (hh : h ∈ t.handles)
    (hk : k ∈ t.handles) (hsame : t.HoldSame schema reads.columns h k) :
    h = k ∨ (∀ f ∈ ids, h.id = k.id) ∧ ∀ l ∈ leaves, SameField t t h k l.1 := by
  by_cases hid : h.id = k.id
  · exact .inl (hb.eq_of_id_eq hh hk hid)
  · refine .inr ⟨fun f hf => ?_, fun l hl => ?_⟩
    · obtain ⟨hfid, hl⟩ := hc.ids f hf
      have hf := hsame f (hc.declared _ hl) (hc.column hl)
      rwa [if_pos hfid] at hf
    · exact hb.sameField hh hk hid hsame (hc.declared l hl) (hc.column hl)

end Reads

/-! ## Ids -/

mutual

theorem RowRead.mem_leaves_of_mem_idFields (r : RowRead) {f : Field} (hf : f ∈ r.idFields) :
    (f, .scalar) ∈ r.leaves := by
  cases r with
  | id g kind =>
      rw [RowRead.idFields, List.mem_singleton] at hf
      rw [RowRead.leaves, hf]
      exact List.mem_cons_self
  | convert operand kind =>
      rw [RowRead.idFields] at hf
      rw [RowRead.leaves]
      exact operand.mem_leaves_of_mem_idFields hf
  | test r =>
      rw [RowRead.idFields] at hf
      rw [RowRead.leaves]
      exact r.mem_leaves_of_mem_idFields hf
  | _ => simp [RowRead.idFields] at hf

theorem RowTest.mem_leaves_of_mem_idFields (r : RowTest) {f : Field} (hf : f ∈ r.idFields) :
    (f, .scalar) ∈ r.leaves := by
  cases r with
  | compare op left right =>
      rw [RowTest.idFields, List.mem_append] at hf
      rw [RowTest.leaves, List.mem_append]
      exact hf.imp left.mem_leaves_of_mem_idFields right.mem_leaves_of_mem_idFields
  | connect op left right =>
      rw [RowTest.idFields, List.mem_append] at hf
      rw [RowTest.leaves, List.mem_append]
      exact hf.imp left.mem_leaves_of_mem_idFields right.mem_leaves_of_mem_idFields
  | not r =>
      rw [RowTest.idFields] at hf
      rw [RowTest.leaves]
      exact r.mem_leaves_of_mem_idFields hf
  | truth r =>
      rw [RowTest.idFields] at hf
      rw [RowTest.leaves]
      exact r.mem_leaves_of_mem_idFields hf
  | _ => simp [RowTest.idFields] at hf

end

theorem RowForm.asTest_idFields (form : RowForm) :
    form.asTest.idFields = form.asRead.idFields := by
  cases form <;> simp [asTest, asRead, RowTest.idFields, RowRead.idFields]

namespace Compiled

variable {c : RowCompiler} {parameter : String} {mode : RowMode} {e : Expr} {form : RowForm}

/-- The id of a row is read through a field that holds it. -/
theorem idFields_isId (hc : Compiled c parameter mode e form) :
    ∀ f ∈ form.asRead.idFields, f.isId = true := by
  induction hc with
  | constant hfold => simp [RowForm.asRead, RowRead.idFields]
  | member hread =>
      obtain ⟨m, f, -, hr⟩ := memberRead?_eq_some hread
      rcases hr with ⟨kind, -, rfl⟩ | ⟨-, rfl⟩ | ⟨kind, shape, -, rfl⟩
      · cases hid : f.isId <;> simp [RowForm.asRead, RowRead.idFields, hid]
      · simp [RowForm.asRead, RowRead.idFields]
      · simp [RowForm.asRead, RowRead.idFields]
  | convert hfold hc ih =>
      rw [RowForm.asRead, RowRead.idFields]
      exact ih
  | compare hl hr ihl ihr =>
      rw [RowForm.asRead, RowRead.idFields, RowTest.idFields]
      exact List.forall_mem_append.mpr ⟨ihl, ihr⟩
  | connect hl hr ihl ihr =>
      rw [RowForm.asRead, RowRead.idFields, RowTest.idFields, RowForm.asTest_idFields,
        RowForm.asTest_idFields]
      exact List.forall_mem_append.mpr ⟨ihl, ihr⟩
  | not hc ih =>
      rw [RowForm.asRead, RowRead.idFields, RowTest.idFields, RowForm.asTest_idFields]
      exact ih
  | «match» hkind hfield htype hvirtual hfold htext htest =>
      rcases htest with rfl | ⟨-, rfl⟩ <;>
        simp [RowForm.asRead, RowRead.idFields, RowTest.idFields]

theorem cover (hc : Compiled c parameter mode e form) :
    (Reads.ofLeaves form.asRead.leaves).Cover c.entity.schema form.asRead.leaves
      form.asRead.idFields :=
  Reads.cover_ofLeaves hc.leaves_declared fun f hf =>
    ⟨hc.idFields_isId f hf, form.asRead.mem_leaves_of_mem_idFields hf⟩

end Compiled

/-! ## What is obtained by compilation -/

/-- The predicate has recorded every field that it reads. -/
def CompiledPredicate.Recorded (p : CompiledPredicate) (schema : TableSchema) : Prop :=
  p.reads.Cover schema p.test.leaves p.test.idFields

namespace CompiledPredicate.Recorded

variable {schema : TableSchema} {p q : CompiledPredicate}

theorem and (hp : p.Recorded schema) (hq : q.Recorded schema) : (p.and q).Recorded schema := by
  have hleaves : (p.and q).test.leaves = p.test.leaves ++ q.test.leaves := by
    rw [CompiledPredicate.and, RowTest.leaves]
  have hids : (p.and q).test.idFields = p.test.idFields ++ q.test.idFields := by
    rw [CompiledPredicate.and, RowTest.idFields]
  constructor
  case declared =>
    rw [hleaves]
    exact List.forall_mem_append.mpr ⟨hp.declared, hq.declared⟩
  case recorded =>
    rw [hleaves]
    exact List.forall_mem_append.mpr
      ⟨fun l hl => Reads.mem_merge.mpr (.inl (hp.recorded l hl)),
        fun l hl => Reads.mem_merge.mpr (.inr (hq.recorded l hl))⟩
  case ids =>
    rw [hids, hleaves]
    exact List.forall_mem_append.mpr
      ⟨fun f hf => (hp.ids f hf).imp_right (List.mem_append_left _),
        fun f hf => (hq.ids f hf).imp_right (List.mem_append_right _)⟩

theorem conjunction {ps : List CompiledPredicate} (h : conjunction? ps = some p)
    (hps : ∀ q ∈ ps, q.Recorded schema) : p.Recorded schema := by
  have hfold : ∀ (ps : List CompiledPredicate) (p : CompiledPredicate), p.Recorded schema →
      (∀ q ∈ ps, q.Recorded schema) → (ps.foldl CompiledPredicate.and p).Recorded schema := by
    intro ps
    induction ps with
    | nil => exact fun _ hp _ => hp
    | cons q ps ih =>
        intro p hp hps
        obtain ⟨hq, hps⟩ := List.forall_mem_cons.mp hps
        exact ih (p.and q) (hp.and hq) hps
  cases ps with
  | nil => cases h
  | cons q ps =>
      obtain rfl := Option.some.inj h
      obtain ⟨hq, hps⟩ := List.forall_mem_cons.mp hps
      exact hfold ps q hq hps

/-- Rows that hold the same in the recorded columns give the same result. -/
theorem eval_eq (hp : p.Recorded schema) {t : Table} (hb : t.BuiltFrom schema) {h k : RowHandle}
    (hh : h ∈ t.handles) (hk : k ∈ t.handles) (hsame : t.HoldSame schema p.reads.columns h k) :
    p.eval t h = p.eval t k := by
  rcases Reads.Cover.agree hp hb hh hk hsame with rfl | ⟨hids, hfields⟩
  · rfl
  · exact p.test.eval_congr hids hfields

end CompiledPredicate.Recorded

namespace RowCompiler

variable {c : RowCompiler} {parameter : String} {body lambda : Expr}

theorem predicateBody?_recorded {p : CompiledPredicate}
    (hp : (c.predicateBody? parameter body).result = .ok (some p)) :
    p.Recorded c.entity.schema := by
  obtain ⟨form, hc, -, rfl⟩ := predicateBody?_spec hp
  have hcover := hc.cover
  rw [← RowForm.asTest_leaves, ← RowForm.asTest_idFields] at hcover
  exact hcover

theorem predicate?_recorded {p : CompiledPredicate}
    (hp : (c.predicate? lambda).result = .ok (some p)) : p.Recorded c.entity.schema := by
  cases lambda with
  | lambda parameter body => exact predicateBody?_recorded hp
  | _ => cases hp

theorem projector?_cover {p : CompiledProjector}
    (hp : (c.projector? lambda).result = .ok (some p)) :
    p.reads.Cover c.entity.schema p.read.leaves p.read.idFields := by
  obtain ⟨_, _, form, -, hc, -, rfl⟩ := projector?_spec hp
  exact hc.cover

end RowCompiler

namespace SemiJoinCompiler

variable {c : SemiJoinCompiler} {p : CompiledPredicate}

/-- The conditions of one navigation read the key of the root. -/
theorem group?_recorded {g : NavigationGroup} (hp : (c.group? g).result = .ok (some p))
    {schema : TableSchema}
    (hkey : schema.field? g.join.rootKey.field.name = some g.join.rootKey.field) :
    p.Recorded schema := by
  rw [group?, Traced.result_bind] at hp
  obtain ⟨_, -, hp⟩ := bind_eq_ok_iff.mp hp
  dsimp only at hp
  split at hp
  · cases hp
  · rw [Traced.result_bind] at hp
    obtain ⟨target, -, hp⟩ := bind_eq_ok_iff.mp hp
    rw [Traced.result_bind] at hp
    obtain ⟨tests?, -, hp⟩ := bind_eq_ok_iff.mp hp
    cases tests? with
    | none => cases hp
    | some tests =>
        dsimp only at hp
        rw [Traced.result_bind] at hp
        obtain ⟨tested, -, hp⟩ := bind_eq_ok_iff.mp hp
        obtain rfl := Option.some.inj (Except.ok.inj hp)
        refine Reads.cover_ofLeaves ?_ (by simp [CompiledPredicate.ofTest, RowTest.idFields])
        simpa [CompiledPredicate.ofTest, RowTest.leaves] using hkey

theorem predicate?_recorded {e : EntityType} {ns : List NavigationPredicate}
    (hp : (c.predicate? e ns).result = .ok (some p)) {schema : TableSchema}
    (hkeys : ∀ n ∈ ns, schema.field? n.join.rootKey.field.name = some n.join.rootKey.field) :
    p.Recorded schema := by
  obtain ⟨ps, hps, hconjunction⟩ := predicate?_spec hp
  refine CompiledPredicate.Recorded.conjunction hconjunction fun q hq => ?_
  obtain ⟨g, hg, hgq⟩ := forall₂_mem_right hps hq
  obtain ⟨first, rest, hover, rfl⟩ := (NavigationGroup.gathered_ofPredicates ns).group g hg
  have hfirst : first ∈ NavigationPredicate.over ns first.join.navigation :=
    hover ▸ List.mem_cons_self
  exact group?_recorded hgq (hkeys first (List.mem_filter.mp hfirst).1)

end SemiJoinCompiler

/-- The key of the root of a join is a field of the root. -/
theorem JoinPlan.Planned.rootKey_declared {entities : List EntityType} {j : JoinPlan}
    (hj : j.Planned entities) :
    j.root.schema.field? j.rootKey.field.name = some j.rootKey.field := by
  obtain ⟨m, hm⟩ := hj.rootKey_field
  have hf := (EntityType.memberField?_eq_some.mp hm).2
  have hname : j.rootKey.field.name = j.rootKey.member := by simpa using List.find?_some hf
  rwa [hname]

/-- The predicates over rows of an entity that compilation can give: those of lambdas, of
predicates over the navigations of the entity and of filters, and their conjunctions. -/
inductive CompiledPredicate.Obtained (catalog : Catalog) (e : EntityType) :
    CompiledPredicate → Prop where
  | lambda {rows : RowCompiler} {lambda : Expr} {p : CompiledPredicate} (hrows : rows.entity = e)
      (hp : (rows.predicate? lambda).result = .ok (some p)) : Obtained catalog e p
  | navigations {c : SemiJoinCompiler} {ns : List NavigationPredicate} {p : CompiledPredicate}
      (hjoins : ∀ n ∈ ns, n.join ∈ catalog.joins ∧ n.join.root = e)
      (hp : (c.predicate? e ns).result = .ok (some p)) : Obtained catalog e p
  | filter {engine : Engine} {rows : RowCompiler} {lambda : Expr} {p : CompiledPredicate}
      (hcatalog : engine.db.catalog = catalog) (hrows : rows.entity = e)
      (hp : (engine.filter? rows lambda).result = .ok (some p)) : Obtained catalog e p
  | and {p q : CompiledPredicate} (hp : Obtained catalog e p) (hq : Obtained catalog e q) :
      Obtained catalog e (p.and q)

namespace CompiledPredicate.Obtained

variable {catalog : Catalog} {e : EntityType} {p : CompiledPredicate}

theorem recorded (hp : Obtained catalog e p) (hc : catalog.Sound) (he : e ∈ catalog.entities) :
    p.Recorded e.schema := by
  have hkey : ∀ j : JoinPlan, j ∈ catalog.joins → j.root = e →
      e.schema.field? j.rootKey.field.name = some j.rootKey.field := by
    rintro j hj rfl
    exact (hc.planned j hj).rootKey_declared
  induction hp with
  | lambda hrows hp => exact hrows ▸ RowCompiler.predicate?_recorded hp
  | navigations hjoins hp =>
      exact SemiJoinCompiler.predicate?_recorded hp fun n hn =>
        hkey n.join (hjoins n hn).1 (hjoins n hn).2
  | @filter engine rows lambda p hcatalog hrows hp =>
      subst hcatalog hrows
      cases Engine.filter?_spec hp with
      | whole hp => exact RowCompiler.predicate?_recorded hp
      | mixed hsorted hrelated hconjunction =>
          refine Recorded.conjunction hconjunction (List.forall_mem_append.mpr ⟨?_, ?_⟩)
          · intro q hq
            obtain ⟨_, conjunct, _, -, hq⟩ := hsorted.mem_row hq
            exact RowCompiler.predicateBody?_recorded hq
          · refine List.forall_mem_singleton.mpr
              (SemiJoinCompiler.predicate?_recorded hrelated fun n hn => ?_)
            obtain ⟨_, hstands⟩ := hsorted.stands hn
            exact hkey n.join (Catalog.join?_spec hstands.join).1 (hc.join_root he hstands.join)
  | and _ _ ihp ihq => exact ihp.and ihq

end CompiledPredicate.Obtained

/-- Two rows of a table that hold the same in every column that a predicate or a projector has
recorded give it the same result, be it a value or an error. -/
theorem EntityType.recorded_columns_decide (catalog : Catalog)
    (hcatalog : ∃ bundle resolve, Catalog.build bundle resolve = .ok catalog) (e : EntityType)
    (he : e ∈ catalog.entities) (t : Table) (hb : t.BuiltFrom e.schema) (h k : RowHandle)
    (hh : h ∈ t.handles) (hk : k ∈ t.handles) :
    (∀ p, CompiledPredicate.Obtained catalog e p → t.HoldSame e.schema p.reads.columns h k →
      p.eval t h = p.eval t k) ∧
    ∀ (rows : RowCompiler) lambda p, rows.entity = e →
      (rows.projector? lambda).result = .ok (some p) → t.HoldSame e.schema p.reads.columns h k →
        p.eval t h = p.eval t k := by
  obtain ⟨_, _, hbuild⟩ := hcatalog
  refine ⟨fun p hp hsame => ?_, fun rows lambda p hrows hp hsame => ?_⟩
  · exact (hp.recorded (Catalog.build_spec hbuild).1 he).eval_eq hb hh hk hsame
  · subst hrows
    rcases (RowCompiler.projector?_cover hp).agree hb hh hk hsame with rfl | ⟨hids, hfields⟩
    · rfl
    · exact p.read.eval_congr hids hfields

namespace Staff

/-- Two of the staff with one name; the first is the manager of the second. -/
def twins : Table where
  name := "Staff"
  flags := .none
  columns := [some idField, some nameField, some managerField]
  rows := [⟨1, [.empty, .offset 1, .scalar (.ofInt .i32 0)]⟩,
    ⟨2, [.empty, .offset 1, .scalar (.ofInt .i32 1)]⟩]
  strings := [0, 65, 110, 110, 0]

theorem twins_builtFrom : twins.BuiltFrom schema := by
  refine ⟨false, [(1, [("Name", .string "Ann")]),
    (2, [("Name", .string "Ann"), ("ManagerId", .scalar (.ofInt .i32 1))])], twins, ?_,
      by decide, rfl⟩
  rw [Table.pack, List.mergeSort_of_pairwise (by decide)]
  rfl

def twinRows : RowCompiler := ⟨entity, twins, {}⟩

/-- The twins hold the same in the column of the name. -/
theorem twins_holdSame :
    twins.HoldSame schema (Reads.columns [⟨"Name", 1, .string, false⟩]) ⟨0, 0, 1⟩ ⟨0, 1, 2⟩ := by
  intro f hf hc
  obtain ⟨r, hr, hcolumn⟩ := Reads.mem_columns.mp hc
  obtain rfl := List.mem_singleton.mp hr
  have hname : f = nameField := by
    simp only [schema, List.mem_cons, List.not_mem_nil, or_false] at hf
    rcases hf with rfl | rfl | rfl
    · cases hcolumn
    · rfl
    · cases hcolumn
  subst hname
  rfl

end Staff

/-- The twins pass the same test of their name, which is found by its offset, and have the same
name. -/
theorem EntityType.recorded_columns_decide_twins :
    ∃ p q, (Staff.twinRows.predicate? (Staff.nameHolds "nn")).result = .ok (some p) ∧
      (Staff.twinRows.projector? Staff.name).result = .ok (some q) ∧
        p.eval Staff.twins ⟨0, 0, 1⟩ = .ok true ∧
          p.eval Staff.twins ⟨0, 0, 1⟩ = p.eval Staff.twins ⟨0, 1, 2⟩ ∧
            q.eval Staff.twins ⟨0, 0, 1⟩ = q.eval Staff.twins ⟨0, 1, 2⟩ := by
  obtain ⟨p, hp, hreads, heval⟩ : ∃ p : CompiledPredicate,
      (Staff.twinRows.predicate? (Staff.nameHolds "nn")).result = .ok (some p) ∧
        p.reads = [⟨"Name", 1, .string, false⟩] ∧ p.eval Staff.twins ⟨0, 0, 1⟩ = .ok true :=
    ⟨_, rfl, rfl, rfl⟩
  obtain ⟨q, hq, hread⟩ : ∃ q : CompiledProjector,
      (Staff.twinRows.projector? Staff.name).result = .ok (some q) ∧
        q.reads = [⟨"Name", 1, .string, false⟩] := ⟨_, rfl, rfl⟩
  obtain ⟨hpredicate, hprojector⟩ := recorded_columns_decide Staff.catalog ⟨_, _, Staff.build⟩
    Staff.entity (by decide) Staff.twins Staff.twins_builtFrom ⟨0, 0, 1⟩ ⟨0, 1, 2⟩ (by decide)
    (by decide)
  exact ⟨p, q, hp, hq, heval, hpredicate p (.lambda rfl hp) (hreads ▸ Staff.twins_holdSame),
    hprojector Staff.twinRows Staff.name q rfl hq (hread ▸ Staff.twins_holdSame)⟩

end ColumnQuery
