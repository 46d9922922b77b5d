import ColumnQuery.Related.Materialize
import ColumnQuery.Row.Compiled

/-! # Rows that hold the same

The result of a test depends on a row through the columns of its leaves only. Two rows, each of a
table of its own, that hold the same in these columns give the test the same result, and two that
hold the same in every column have the same entity. -/

namespace ColumnQuery

/-- Two rows, each of a table, hold the same in the column of a field. -/
structure SameField (t u : Table) (h k : RowHandle) (f : Field) : Prop where
  id : f.isId = true → h.id = k.id
  read : ∀ kind, t.read h f.column kind = u.read k f.column kind
  offset : t.offset? h f.column = u.offset? k f.column

namespace SameField

variable {t u : Table} {h k : RowHandle} {f : Field}

theorem readString_eq (hf : SameField t u h k f) : t.readString h f = u.readString k f := by
  rw [Table.readString, Table.readString, hf.read]

theorem matchString_eq (hf : SameField t u h k f) (kind : MatchKind) (needle : String) :
    t.matchString h f kind needle = u.matchString k f kind needle := by
  rw [Table.matchString, Table.matchString, hf.readString_eq]

theorem readKey_eq (hf : SameField t u h k f) : t.readKey h f = u.readKey k f := by
  unfold Table.readKey
  by_cases hid : f.isId = true
  · rw [if_pos hid, if_pos hid, hf.id hid]
  · rw [if_neg hid, if_neg hid]
    simp only [hf.read]

theorem readKeyArray_eq (hf : SameField t u h k f) : t.readKeyArray h f = u.readKeyArray k f := by
  unfold Table.readKeyArray
  simp only [hf.read]

theorem hasRelated_eq (hf : SameField t u h k f) (kind : JoinKind) (sets : List (List Int)) :
    t.hasRelated h kind f sets = u.hasRelated k kind f sets := by
  unfold Table.hasRelated
  rw [hf.readKey_eq, hf.readKeyArray_eq]

theorem readMember_eq (hf : SameField t u h k f) (m : MemberDef) :
    t.readMember h m f = u.readMember k m f := by
  unfold Table.readMember
  by_cases hid : f.isId = true
  · simp only [hf.read, hf.id hid]
  · simp only [hf.read, if_neg hid]

end SameField

namespace EntityType

variable {t u : Table} {h k : RowHandle} (e : EntityType)

theorem readMembers_congr (hf : ∀ f, SameField t u h k f) (ms : List MemberDef) (entity : Entity) :
    e.readMembers t h ms entity = e.readMembers u k ms entity := by
  induction ms generalizing entity with
  | nil => rfl
  | cons m ms ih =>
      rw [readMembers, readMembers]
      cases e.schema.field? m.name with
      | none => rfl
      | some f => simp only [(hf f).readMember_eq, ih]

/-- Rows that hold the same in every column have the same entity. -/
theorem materialize_congr (hf : ∀ f, SameField t u h k f) (factory : EntityFactory) :
    e.materialize factory t h = e.materialize factory u k := by
  rw [materialize, materialize, e.readMembers_congr hf]

end EntityType

/-! ## Reads of ids -/

mutual

/-- Fields whose row id a read uses. -/
def RowRead.idFields : RowRead → List Field
  | .id f _ => [f]
  | .convert operand _ => operand.idFields
  | .test t => t.idFields
  | .constant _ | .scalar .. | .string _ | .array .. => []

/-- Fields whose row id a test uses. -/
def RowTest.idFields : RowTest → List Field
  | .compare _ left right => left.idFields ++ right.idFields
  | .connect _ left right => left.idFields ++ right.idFields
  | .not t => t.idFields
  | .truth r => r.idFields
  | .match .. | .indexedMatch .. | .related .. => []

end

/-! ## Results -/

section

variable {t u : Table} {h k : RowHandle}

mutual

/-- A read yields the same on rows that hold the same in its fields. -/
theorem RowRead.eval_congr (r : RowRead) (hid : ∀ f ∈ r.idFields, h.id = k.id)
    (hf : ∀ l ∈ r.leaves, SameField t u h k l.1) : r.eval t h = r.eval u k := by
  cases r with
  | constant v => rfl
  | id f kind =>
      rw [RowRead.eval, RowRead.eval, hid f List.mem_cons_self]
  | scalar f kind =>
      rw [RowRead.eval, RowRead.eval, (hf _ List.mem_cons_self).read]
  | string f =>
      rw [RowRead.eval, RowRead.eval, (hf _ List.mem_cons_self).readString_eq]
  | array f element shape =>
      rw [RowRead.eval, RowRead.eval, (hf _ List.mem_cons_self).read]
  | convert operand kind =>
      rw [RowRead.idFields] at hid
      rw [RowRead.leaves] at hf
      rw [RowRead.eval, RowRead.eval, operand.eval_congr hid hf]
  | test r =>
      rw [RowRead.idFields] at hid
      rw [RowRead.leaves] at hf
      rw [RowRead.eval, RowRead.eval, r.eval_congr hid hf]

/-- A test yields the same on rows that hold the same in its fields. -/
theorem RowTest.eval_congr (r : RowTest) (hid : ∀ f ∈ r.idFields, h.id = k.id)
    (hf : ∀ l ∈ r.leaves, SameField t u h k l.1) : r.eval t h = r.eval u k := by
  cases r with
  | compare op left right =>
      simp only [RowTest.idFields, RowTest.leaves, List.forall_mem_append] at hid hf
      rw [RowTest.eval, RowTest.eval, left.eval_congr hid.1 hf.1, right.eval_congr hid.2 hf.2]
  | connect op left right =>
      simp only [RowTest.idFields, RowTest.leaves, List.forall_mem_append] at hid hf
      cases op with
      | and | or =>
          rw [RowTest.eval, RowTest.eval, left.eval_congr hid.1 hf.1,
            right.eval_congr hid.2 hf.2]
  | not r =>
      rw [RowTest.idFields] at hid
      rw [RowTest.leaves] at hf
      rw [RowTest.eval, RowTest.eval, r.eval_congr hid hf]
  | truth r =>
      rw [RowTest.idFields] at hid
      rw [RowTest.leaves] at hf
      rw [RowTest.eval, RowTest.eval, r.eval_congr hid hf]
  | «match» f kind needle =>
      rw [RowTest.eval, RowTest.eval, (hf _ List.mem_cons_self).matchString_eq]
  | indexedMatch f kind needle offsets =>
      have hsame : SameField t u h k f := hf _ List.mem_cons_self
      rw [RowTest.eval, RowTest.eval, hsame.offset, hsame.matchString_eq]
  | related kind key sets negated =>
      rw [RowTest.eval, RowTest.eval, (hf _ List.mem_cons_self).hasRelated_eq]

end

end

end ColumnQuery
