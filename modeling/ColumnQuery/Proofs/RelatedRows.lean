import ColumnQuery.Proofs.NavigationTranslation
import ColumnQuery.Proofs.Resolver

/-! # Conditions on related rows

A condition of a navigation, evaluated on the value that the readable target rows give, asks what
its semi-join asks of the target rows, wherever the scan of the semi-join has succeeded. -/

namespace ColumnQuery

/-! ## Related entities -/

namespace JoinPlan

variable {j : JoinPlan} {t : Table} {rows : LoadedRows} {keys : List Int}

/-- Entities that some keys lead to: the first row with the key or, among dependents, all of
them. -/
def items (j : JoinPlan) (rows : LoadedRows) (keys : List Int) : List Value :=
  match j.kind with
  | .dependents =>
    match keys.head? with
    | some key => (rows.filter (·.1 == key)).map (·.2)
    | none => []
  | _ => keys.filterMap fun key => rows.lookup key

/-- A target row is related through one of the keys. -/
def RelatedBy (j : JoinPlan) (t : Table) (keys : List Int) (h : RowHandle) : Prop :=
  h ∈ t.handles ∧ ∃ key ∈ keys, t.readKey h j.targetKey.field = .ok (some key)

/-- At most one key leads to at most one row, where rows have distinct keys. -/
theorem RelatedBy.unique {h h' : RowHandle} (hr : j.RelatedBy t keys h)
    (hunique : t.UniqueKeys j.targetKey.field) (hone : keys.length ≤ 1)
    (hr' : j.RelatedBy t keys h') : h = h' := by
  obtain ⟨hm, key, hkey, hread⟩ := hr
  obtain ⟨hm', key', hkey', hread'⟩ := hr'
  obtain rfl : key = key' := by
    cases keys with
    | nil => cases hkey
    | cons first rest =>
        obtain rfl : rest = [] := by simpa using hone
        rw [List.mem_singleton.mp hkey, List.mem_singleton.mp hkey']
  exact hunique h hm h' hm' key hread hread'

theorem related_of_collection (hj : j.kind = .keyArray ∨ j.kind = .dependents) :
    j.related rows keys = j.wrap (j.items rows keys) := by
  rcases hj with hj | hj
  · simp only [related, items, hj]
  · simp only [related, items, hj]
    cases keys.head? <;> rfl

theorem related_of_reference (hj : j.kind = .foreignKey ∨ j.kind = .sharedPrimaryKey)
    (hkeys : keys.length ≤ 1) : j.related rows keys = (j.items rows keys).head?.getD .null := by
  have hhead : (keys.head?.bind fun key => rows.lookup key) =
      (keys.filterMap fun key => rows.lookup key).head? := by
    cases keys with
    | nil => rfl
    | cons key keys =>
        obtain rfl : keys = [] := by simpa using hkeys
        simp [List.head?_filterMap]
  rcases hj with hj | hj <;> simp only [related, items, hj, hhead]

theorem mem_readableRows {key : Int} {v : Value} : (key, v) ∈ j.readableRows t ↔
    ∃ h ∈ t.handles, t.readKey h j.targetKey.field = .ok (some key) ∧
      v = (j.target.readable t h).toValue := by
  rw [readableRows, List.mem_filterMap]
  refine exists_congr fun h => and_congr_right fun _ => ?_
  cases t.readKey h j.targetKey.field with
  | error e => simp [Except.toOption]
  | ok key? => cases key? <;> simp [Except.toOption, eq_comm]

/-- The related entities are those of the related rows. -/
theorem mem_items_iff (hone : j.kind = .dependents → keys.length ≤ 1)
    (hunique : j.kind ≠ .dependents → t.UniqueKeys j.targetKey.field) {v : Value} :
    v ∈ j.items (j.readableRows t) keys ↔
      ∃ h, j.RelatedBy t keys h ∧ v = (j.target.readable t h).toValue := by
  have hrow : (∃ h, j.RelatedBy t keys h ∧ v = (j.target.readable t h).toValue) ↔
      ∃ key ∈ keys, (key, v) ∈ j.readableRows t := by
    simp only [mem_readableRows, RelatedBy]
    constructor
    · rintro ⟨h, ⟨hm, key, hkey, hread⟩, hv⟩
      exact ⟨key, hkey, h, hm, hread, hv⟩
    · rintro ⟨key, hkey, h, hm, hread, hv⟩
      exact ⟨h, ⟨hm, key, hkey, hread⟩, hv⟩
  rw [hrow, items]
  split
  · rename_i hj
    cases keys with
    | nil => simp
    | cons key keys =>
        obtain rfl : keys = [] := by simpa using hone hj
        simp [List.mem_map, List.mem_filter]
  · rename_i hj
    rw [List.mem_filterMap]
    refine exists_congr fun key => and_congr_right fun _ => ⟨fun hv => ?_, fun hv => ?_⟩
    · obtain ⟨before, after, he, -⟩ := List.lookup_eq_some_iff.mp hv
      simp [he]
    · -- The first row with the key is the only one.
      obtain ⟨v', hv'⟩ : ∃ v', (j.readableRows t).lookup key = some v' := by
        rw [← Option.isSome_iff_exists, List.lookup_isSome_iff]
        exact ⟨_, hv, by simp⟩
      obtain ⟨before, after, he, -⟩ := List.lookup_eq_some_iff.mp hv'
      have hmem : (key, v') ∈ j.readableRows t := by simp [he]
      obtain ⟨h, hm, hread, rfl⟩ := mem_readableRows.mp hv
      obtain ⟨h', hm', hread', rfl⟩ := mem_readableRows.mp hmem
      rw [hv', hunique hj h hm h' hm' key hread hread']

end JoinPlan

/-! ## Conditions on one entity -/

open SemiJoinCompiler in
/-- What a condition asks of one related entity. -/
def NavigationCondition.onItem (source : Option NavigationSource) (scope : Scope) (item : Value) :
    NavigationCondition → Except Error Bool
  | .any (some (.lambda name body)) => (body.eval source ((name, item) :: scope)).asTest.result
  | condition =>
    match condition.targetPredicate targetParameter with
    | some predicate => (predicate.test source item).result
    | none => .ok true

/-- A condition on a reference asks for a related entity that meets it, or that there is none. -/
theorem NavigationCondition.meaning_reference {condition : NavigationCondition}
    {source : Option NavigationSource} {scope : Scope} (hany : condition.isAny = false)
    (item? : Option Value) (hitem : ∀ item, item? = some item → item.isNull = false) :
    condition.meaning source scope (item?.getD .null) =
      if condition.isNullTest then .ok item?.isNone
      else item?.elim (.ok false) fun item => condition.onItem source scope item := by
  cases item? with
  | none => cases condition <;> first | rfl | cases hany
  | some item =>
      have hnull := hitem item rfl
      cases condition with
      | any predicate => cases hany
      | isNull | isNotNull => simp [NavigationCondition.meaning, NavigationCondition.isNullTest,
          NavigationCondition.onItem, NavigationCondition.targetPredicate, hnull]
      | _ => simp [NavigationCondition.meaning, NavigationCondition.isNullTest,
          NavigationCondition.onItem, NavigationCondition.targetPredicate, hnull]

namespace SemiJoinCompiler

variable {compiler : RowCompiler} {condition : NavigationCondition} {test : Option RowTest}
  {source : Option NavigationSource} {scope : Scope} {h : RowHandle} {item v : Value}

/-- The result of a test on a target row is what the condition asks of the entity of the row. -/
theorem TestOf.onItem (ht : TestOf compiler condition test)
    (hrep : compiler.Represents False source h item) {b : Bool}
    (hpass : passes compiler.table h test = .ok b) :
    condition.onItem source scope item = .ok b := by
  cases ht with
  | all hnone =>
      obtain rfl := Except.ok.inj hpass
      cases condition with
      | any predicate =>
          obtain rfl : predicate = none := hnone
          rfl
      | isNull | isNotNull => rfl
      | _ => cases hnone
  | @predicate lambda p hsome hp =>
      have hpass : p.eval compiler.table h = .ok b := hpass
      unfold NavigationCondition.onItem
      split
      · rename_i name body
        obtain rfl := Option.some.inj hsome
        have hs : List.lookup name ((name, item) :: scope) = some item := by simp
        have hfollows := RowCompiler.predicateBody?_follows hrep hp hs not_false.elim
        exact (hpass ▸ hfollows).eq_of_ok
      · rw [hsome]
        have hfollows := RowCompiler.predicate?_follows hrep hp not_false.elim
        exact (hpass ▸ hfollows).eq_of_ok

/-- A condition on a collection asks for some item that meets it. -/
theorem TestOf.meaning_collection (ht : TestOf compiler condition test)
    (hany : condition.isAny = true) :
    condition.meaning source scope v =
      (v.items?.getD []).anyM fun item => condition.onItem source scope item := by
  cases condition with
  | any predicate =>
      cases predicate with
      | none =>
          rw [NavigationCondition.meaning]
          cases v.items?.getD [] <;> rfl
      | some lambda =>
          cases ht with
          | all hnone => cases hnone
          | predicate hsome hp =>
              obtain rfl := Option.some.inj hsome
              cases lambda with
              | lambda name body => rfl
              | _ => cases hp
  | _ => cases hany

/-! ## Groups of conditions -/

theorem wrap_items? (j : JoinPlan) (items : List Value) : (j.wrap items).items? = some items := by
  unfold JoinPlan.wrap
  cases j.shape with
  | none => rfl
  | some shape => cases shape <;> rfl

variable {c : SemiJoinCompiler} {g : NavigationGroup} {p : CompiledPredicate} {target : Table}
  {tests : List (Option RowTest)} {tested : List TestedKey} {keys : List Int} {db : Database}

/-- On a row that the scan has tested a condition has a result, true where the row satisfies it. -/
theorem GroupOf.onItem (source : Option NavigationSource) (scope : Scope) (hdb : db.WellFormed)
    (hg : GroupOf c g p target tests tested) (htables : c.tables = db.tables)
    (hj : g.join ∈ db.catalog.joins)
    (hzero : g.join.kind = .dependents → 0 ∉ keys) (hc : condition ∈ g.conditions)
    (hrelated : g.join.RelatedBy target keys h) :
    ∃ test b, TestOf ⟨g.join.target, target, c.settings⟩ condition test ∧
      condition.onItem source scope (g.join.target.readable target h).toValue = .ok b ∧
        (b = true ↔ Satisfies ⟨g.join.target, target, c.settings⟩ h condition) := by
  obtain ⟨hm, key, hkey, hread⟩ := hrelated
  have hkey? : g.join.targetKeyOf? target h = .ok (some key) := by
    refine JoinPlan.targetKeyOf?_eq_some.mpr ⟨hread, fun hkind h0 => hzero hkind (h0 ▸ hkey)⟩
  obtain ⟨key?, hkey', hpassed⟩ := (JoinPlan.testKeys_spec hg.scan).1 h hm
  obtain rfl := Except.ok.inj (hkey'.symm.trans hkey?)
  obtain ⟨passed, hpassed, -⟩ := hpassed key rfl
  obtain ⟨test, htest, hof⟩ := forall₂_mem_right hg.compiled.flip hc
  obtain ⟨b, -, hb⟩ := forall₂_mem_right (mapM_eq_ok_iff.mp hpassed).flip htest
  have hrep := hdb.represents (hdb.sound.planned _ hj).target (htables ▸ hg.table) c.settings
    source h
  refine ⟨test, b, hof, hof.onItem hrep hb, ?_⟩
  rw [← hof.passes_iff, hb, Except.ok.injEq]

/-- The values related by keys are those of the target rows that the keys relate. -/
theorem GroupOf.mem_items_iff (hdb : db.WellFormed) (hg : GroupOf c g p target tests tested)
    (htables : c.tables = db.tables) (hj : g.join ∈ db.catalog.joins)
    (hone : g.join.kind ≠ .keyArray → keys.length ≤ 1) {v : Value} :
    v ∈ g.join.items (db.readableRows g.join) keys ↔
      ∃ h, g.join.RelatedBy target keys h ∧ v = (g.join.target.readable target h).toValue := by
  have htarget : db.tables.find? g.join.target.table = some target := htables ▸ hg.table
  rw [Database.readableRows, htarget]
  exact g.join.mem_items_iff (fun hk => hone (by simp [hk]))
    fun hk => (hdb.targetKeys_unique hj hk).2 target htarget

theorem GroupOf.meaning_collection (source : Option NavigationSource) (scope : Scope)
    (hdb : db.WellFormed) (hg : GroupOf c g p target tests tested) (htables : c.tables = db.tables)
    (hj : g.join ∈ db.catalog.joins) (hone : g.join.kind ≠ .keyArray → keys.length ≤ 1)
    (hzero : g.join.kind = .dependents → 0 ∉ keys) (hc : condition ∈ g.conditions)
    (hkind : g.join.kind = .keyArray ∨ g.join.kind = .dependents)
    (hany : condition.isAny = true) :
    ∃ b, condition.meaning source scope (g.join.related (db.readableRows g.join) keys) = .ok b ∧
      (b = true ↔ ∃ h, g.join.RelatedBy target keys h ∧
        Satisfies ⟨g.join.target, target, c.settings⟩ h condition) := by
  have hmem := fun v => hg.mem_items_iff hdb htables hj hone (v := v)
  have hitem := fun h => hg.onItem (h := h) source scope hdb htables hj hzero hc
  obtain ⟨test, -, hof⟩ := forall₂_mem_right hg.compiled.flip hc
  rw [JoinPlan.related_of_collection hkind, hof.meaning_collection hany, wrap_items?,
    Option.getD_some]
  have htotal : ∀ v ∈ g.join.items (db.readableRows g.join) keys,
      ∃ b, condition.onItem source scope v = .ok b := by
    intro v hv
    obtain ⟨h, hrelated, rfl⟩ := (hmem v).mp hv
    obtain ⟨-, b, -, hb, -⟩ := hitem h hrelated
    exact ⟨b, hb⟩
  obtain ⟨b, hb, hiff⟩ := anyM_eq_ok htotal
  refine ⟨b, hb, hiff.trans ⟨?_, ?_⟩⟩
  · rintro ⟨v, hv, htrue⟩
    obtain ⟨h, hrelated, rfl⟩ := (hmem v).mp hv
    obtain ⟨-, b, -, hb, hsat⟩ := hitem h hrelated
    exact ⟨h, hrelated, hsat.mp (Except.ok.inj (hb.symm.trans htrue))⟩
  · rintro ⟨h, hrelated, hsat⟩
    obtain ⟨-, b, -, hb, hsat'⟩ := hitem h hrelated
    exact ⟨_, (hmem _).mpr ⟨h, hrelated, rfl⟩, hb.trans (by rw [hsat'.mpr hsat])⟩

theorem GroupOf.meaning_reference (source : Option NavigationSource) (scope : Scope)
    (hdb : db.WellFormed) (hg : GroupOf c g p target tests tested) (htables : c.tables = db.tables)
    (hj : g.join ∈ db.catalog.joins) (hlength : keys.length ≤ 1) (hc : condition ∈ g.conditions)
    (hkind : g.join.kind = .foreignKey ∨ g.join.kind = .sharedPrimaryKey)
    (hany : condition.isAny = false) :
    ∃ b, condition.meaning source scope (g.join.related (db.readableRows g.join) keys) = .ok b ∧
      (b = true ↔ if condition.isNullTest then ¬ ∃ h, g.join.RelatedBy target keys h
        else ∃ h, g.join.RelatedBy target keys h ∧
          Satisfies ⟨g.join.target, target, c.settings⟩ h condition) := by
  have hdependents : g.join.kind ≠ .dependents := by rcases hkind with hk | hk <;> simp [hk]
  have hmem := fun v => hg.mem_items_iff hdb htables hj (fun _ => hlength) (v := v)
  have hzero : g.join.kind = .dependents → 0 ∉ keys := fun hk => absurd hk hdependents
  have hitem := fun h => hg.onItem (h := h) source scope hdb htables hj hzero hc
  rw [JoinPlan.related_of_reference hkind hlength, NavigationCondition.meaning_reference hany]
  · cases hhead : (g.join.items (db.readableRows g.join) keys).head? with
    | none =>
        have hnone : ∀ h, ¬ g.join.RelatedBy target keys h := by
          intro h hrelated
          have hin := (hmem _).mpr ⟨h, hrelated, rfl⟩
          rw [List.head?_eq_none_iff.mp hhead] at hin
          cases hin
        cases condition.isNullTest with
        | true => exact ⟨true, rfl, by simpa using hnone⟩
        | false => exact ⟨false, rfl, by simpa using fun h hr => absurd hr (hnone h)⟩
    | some item =>
        obtain ⟨h, hrelated, rfl⟩ := (hmem _).mp (List.mem_of_head? hhead)
        cases condition.isNullTest with
        | true => exact ⟨false, rfl, by simpa using ⟨h, hrelated⟩⟩
        | false =>
            obtain ⟨-, b, -, hb, hsat⟩ := hitem h hrelated
            refine ⟨b, hb, hsat.trans ⟨fun hs => ⟨h, hrelated, hs⟩, ?_⟩⟩
            rintro ⟨h', hrelated', hs⟩
            have htarget : db.tables.find? g.join.target.table = some target := htables ▸ hg.table
            have hunique := (hdb.targetKeys_unique hj hdependents).2 target htarget
            rwa [hrelated.unique hunique hlength hrelated']
  · intro item hitem?
    obtain ⟨h, -, rfl⟩ := (hmem _).mp (List.mem_of_head? hitem?)
    rfl

/-- A condition that has been scanned for has a meaning on the value of its navigation: some related
row satisfies it or, for a null check, there is none. -/
theorem GroupOf.meaning (source : Option NavigationSource) (scope : Scope) (hdb : db.WellFormed)
    (hg : GroupOf c g p target tests tested) (htables : c.tables = db.tables)
    (hj : g.join ∈ db.catalog.joins) (hone : g.join.kind ≠ .keyArray → keys.length ≤ 1)
    (hzero : g.join.kind = .dependents → 0 ∉ keys) (hc : condition ∈ g.conditions)
    (hshape : g.join.isCollection = condition.isAny) :
    ∃ b, condition.meaning source scope (g.join.related (db.readableRows g.join) keys) = .ok b ∧
      (b = true ↔ if condition.isNullTest then ¬ ∃ h, g.join.RelatedBy target keys h
        else ∃ h, g.join.RelatedBy target keys h ∧
          Satisfies ⟨g.join.target, target, c.settings⟩ h condition) := by
  have hplan := hdb.sound.planned _ hj
  cases hany : condition.isAny with
  | true =>
      have hnull : condition.isNullTest = false := by
        cases condition <;> first | rfl | cases hany
      rw [hnull, if_neg Bool.false_ne_true]
      exact hg.meaning_collection source scope hdb htables hj hone hzero hc
        (hplan.shape.mp (hshape.trans hany)) hany
  | false =>
      have hkind : g.join.kind = .foreignKey ∨ g.join.kind = .sharedPrimaryKey := by
        have hnot : ¬ (g.join.kind = .keyArray ∨ g.join.kind = .dependents) := by
          rw [← hplan.shape, hshape, hany]
          exact Bool.false_ne_true
        cases hk : g.join.kind <;> simp_all
      have hlength : keys.length ≤ 1 := hone (by rcases hkind with hk | hk <;> simp [hk])
      exact hg.meaning_reference source scope hdb htables hj hlength hc hkind hany

theorem keysOf_of_hasRelated {root : Table} {r : RowHandle} {j : JoinPlan} {sets : List (List Int)}
    {b : Bool} (h : root.hasRelated r j.kind j.rootKey.field sets = .ok b) :
    ∃ keys, j.keysOf root r = .ok keys := by
  unfold JoinPlan.keysOf
  cases hk : j.kind with
  | keyArray =>
      rw [hk, Table.hasRelated] at h
      obtain ⟨keys, hkeys, -⟩ := bind_eq_ok_iff.mp h
      exact ⟨_, by rw [hkeys]; rfl⟩
  | _ =>
      rw [hk, Table.hasRelated] at h
      obtain ⟨key, hkey, -⟩ := bind_eq_ok_iff.mp h
      exact ⟨_, by rw [hkey]; rfl⟩

/-- The test of a group is true on the root rows of which each condition is true: some row that the
keys relate satisfies it or, for a null check, there is none. -/
theorem GroupOf.eval_each (hg : GroupOf c g p target tests tested) (hne : g.conditions ≠ [])
    {root : Table} {r : RowHandle} (hk : g.join.keysOf root r = .ok keys) :
    ∃ b, p.eval root r = .ok b ∧ (b = true ↔ ∀ condition ∈ g.conditions,
      if condition.isNullTest then ¬ ∃ h, g.join.RelatedBy target keys h
      else ∃ h, g.join.RelatedBy target keys h ∧
        Satisfies ⟨g.join.target, target, c.settings⟩ h condition) := by
  obtain ⟨found, heval, hfound⟩ := hg.eval hne hk
  -- Over any join each condition is met by a key, and no key but one has to meet several.
  have hkeys : found = true ↔
      ∀ i < g.conditions.length, ∃ k ∈ keys, k ∈ JoinPlan.keysPassing tested i := by
    rw [hfound]
    split
    · rfl
    · rename_i hj
      exact exists_forall_of_single hk hj (List.length_pos_of_ne_nil hne)
  have hsome : found = true ↔ ∀ condition ∈ g.conditions,
      ∃ h, g.join.RelatedBy target keys h ∧
        Satisfies ⟨g.join.target, target, c.settings⟩ h condition := by
    rw [hkeys]
    refine forall_lt_iff_forall_mem fun i condition hi => ?_
    simp only [hg.exists_key_iff hk hi, related_iff hk, JoinPlan.RelatedBy]
  refine ⟨_, heval, ?_⟩
  by_cases hnull : g.conditions.any (·.isNullTest) = true
  · obtain ⟨condition, hcondition⟩ : ∃ condition, g.conditions = [condition] :=
      List.length_eq_one_iff.mp (by
        have := hg.nullCheck hnull
        have := List.length_pos_of_ne_nil hne
        omega)
    obtain rfl : condition = .isNull := by
      cases condition <;> simp_all [NavigationCondition.isNullTest]
    rw [hcondition] at hsome ⊢
    simp only [List.forall_mem_singleton, satisfies_isNull, and_true] at hsome
    simp [NavigationCondition.isNullTest, ← hsome]
  · have hnone : ∀ condition ∈ g.conditions, ¬ condition.isNullTest = true := by
      simpa using hnull
    rw [Bool.not_eq_true] at hnull
    rw [hnull, Bool.bne_false, hsome]
    exact forall₂_congr fun condition hc => by rw [if_neg (hnone condition hc)]

/-- Where the test of a group gives a result on a root row, it is true if all conditions of the
group are, on the value that the navigation of the row's entity leads to. -/
theorem GroupOf.eval_meaning (hdb : db.WellFormed) (hg : GroupOf c g p target tests tested)
    (htables : c.tables = db.tables) (hj : g.join ∈ db.catalog.joins) (hne : g.conditions ≠ [])
    (hshape : ∀ condition ∈ g.conditions, g.join.isCollection = condition.isAny)
    {root : Table} (hroot : db.tables.find? g.join.root.table = some root) {r : RowHandle}
    (hr : r ∈ root.handles) {b : Bool} (heval : p.eval root r = .ok b) :
    b = true ↔ ∀ condition ∈ g.conditions, condition.meaning source scope
      (g.join.related (db.readableRows g.join) ((g.join.root.readable root r).joinKeys g.join)) =
        .ok true := by
  obtain ⟨keys, hk⟩ : ∃ keys, g.join.keysOf root r = .ok keys := by
    rw [CompiledPredicate.eval, hg.test, RowTest.eval] at heval
    obtain ⟨_, hrelated, -⟩ := bind_eq_ok_iff.mp heval
    exact keysOf_of_hasRelated hrelated
  have hkeys := hdb.joinKeys_eq hj hroot hr hk
  have hone := fun hkind => hkeys ▸ (g.join.root.readable root r).joinKeys_length hkind
  have hzero := hkeys ▸ (g.join.root.readable root r).zero_not_mem_joinKeys g.join
  obtain ⟨b', heval', hiff⟩ := hg.eval_each hne hk
  obtain rfl := Except.ok.inj (heval.symm.trans heval')
  rw [hiff, hkeys]
  refine forall₂_congr fun condition hc => ?_
  obtain ⟨b, hb, hmeaning⟩ := hg.meaning source scope hdb htables hj hone (fun _ => hzero) hc
    (hshape condition hc)
  rw [hb, Except.ok.injEq, hmeaning]

end SemiJoinCompiler

end ColumnQuery
