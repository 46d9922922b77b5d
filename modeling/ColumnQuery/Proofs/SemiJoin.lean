import ColumnQuery.Navigation.SemiJoin
import ColumnQuery.Proofs.RowCompilation

/-! # Semi-joins

The test that a semi-join makes of a root row is the relational meaning of its conditions: target
rows are related to a root row by their keys, and the conditions of a navigation ask for related
rows that satisfy them. -/

namespace ColumnQuery

/-! ## Conjunctions -/

theorem CompiledPredicate.and_eval (p q : CompiledPredicate) (t : Table) (h : RowHandle) :
    (p.and q).eval t h = p.eval t h >>= fun b => if b then q.eval t h else .ok false := by
  rw [eval, CompiledPredicate.and, RowTest.eval]
  rfl

/-- A conjunction passes the rows that every part passes, and stops at the first that does not. -/
theorem CompiledPredicate.conjunction?_eval {ps : List CompiledPredicate} {p : CompiledPredicate}
    (hp : conjunction? ps = some p) (t : Table) (h : RowHandle) :
    p.eval t h = ps.allM fun q => q.eval t h := by
  have hfold : ∀ (qs : List CompiledPredicate) (p : CompiledPredicate),
      (qs.foldl CompiledPredicate.and p).eval t h =
        p.eval t h >>= fun b => if b then qs.allM fun q => q.eval t h else .ok false := by
    intro qs
    induction qs with
    | nil =>
        intro p
        cases hp : p.eval t h with
        | ok b => cases b <;> simp [hp, List.allM]
        | error e => simp [hp]
    | cons q qs ih =>
        intro p
        rw [List.foldl_cons, ih, and_eval]
        cases p.eval t h with
        | error e => rfl
        | ok b =>
            cases b with
            | false => rfl
            | true =>
                rw [ok_bind, ok_bind, if_pos rfl, if_pos rfl, List.allM]
                cases q.eval t h with
                | error e => rfl
                | ok b => cases b <;> rfl
  cases ps with
  | nil => cases hp
  | cons q qs =>
      obtain rfl := Option.some.inj hp
      rw [hfold, List.allM]
      cases q.eval t h with
      | error e => rfl
      | ok b => cases b <;> rfl

/-! ## Groups of conditions -/

/-- The predicates over the navigation of a name. -/
def NavigationPredicate.over (predicates : List NavigationPredicate) (navigation : String) :
    List NavigationPredicate :=
  predicates.filter fun p => p.join.navigation = navigation

/-- The groups hold the predicates, one group for each navigation; the first predicate over a
navigation gives the join. -/
structure NavigationGroup.Gathered (predicates : List NavigationPredicate)
    (groups : List NavigationGroup) : Prop where
  distinct : (groups.map (·.join.navigation)).Nodup
  group : ∀ g ∈ groups, ∃ first rest,
    NavigationPredicate.over predicates g.join.navigation = first :: rest ∧
      g = ⟨first.join, (first :: rest).map (·.condition)⟩
  covered : ∀ p ∈ predicates, p.join.navigation ∈ groups.map (·.join.navigation)

namespace NavigationGroup

open ofPredicates

theorem gather_navigations (groups : List NavigationGroup) (p : NavigationPredicate) :
    (gather groups p).map (·.join.navigation) =
      if p.join.navigation ∈ groups.map (·.join.navigation) then groups.map (·.join.navigation)
      else groups.map (·.join.navigation) ++ [p.join.navigation] := by
  induction groups with
  | nil => simp [gather]
  | cons g groups ih =>
      rw [gather]
      by_cases hg : g.join.navigation = p.join.navigation
      · simp [hg]
      · rw [if_neg hg, List.map_cons, ih]
        by_cases hm : p.join.navigation ∈ groups.map (·.join.navigation)
        · simp [hm]
        · simp [hm, Ne.symm hg]

/-- A gathered group is an old one of another navigation, or that of the predicate's navigation
with the condition added. -/
theorem mem_gather {groups : List NavigationGroup} {p : NavigationPredicate}
    (hn : (groups.map (·.join.navigation)).Nodup) {g : NavigationGroup}
    (hg : g ∈ gather groups p) :
    (g ∈ groups ∧ g.join.navigation ≠ p.join.navigation) ∨
      (∃ old ∈ groups, old.join.navigation = p.join.navigation ∧
        g = ⟨old.join, old.conditions ++ [p.condition]⟩) ∨
      (p.join.navigation ∉ groups.map (·.join.navigation) ∧ g = ⟨p.join, [p.condition]⟩) := by
  induction groups with
  | nil =>
      rw [gather, List.mem_singleton] at hg
      exact .inr (.inr ⟨by simp, hg⟩)
  | cons first groups ih =>
      obtain ⟨hfirst, hn⟩ := List.nodup_cons.mp hn
      rw [gather] at hg
      split at hg
      · rename_i hsame
        rcases List.mem_cons.mp hg with rfl | hg
        · exact .inr (.inl ⟨first, List.mem_cons_self, hsame, rfl⟩)
        · refine .inl ⟨List.mem_cons_of_mem _ hg, fun he => hfirst ?_⟩
          exact List.mem_map.mpr ⟨g, hg, he.trans hsame.symm⟩
      · rename_i hother
        rcases List.mem_cons.mp hg with rfl | hg
        · exact .inl ⟨List.mem_cons_self, hother⟩
        · rcases ih hn hg with ⟨hg, hne⟩ | ⟨old, hold, hsame, rfl⟩ | ⟨hnew, rfl⟩
          · exact .inl ⟨List.mem_cons_of_mem _ hg, hne⟩
          · exact .inr (.inl ⟨old, List.mem_cons_of_mem _ hold, hsame, rfl⟩)
          · refine .inr (.inr ⟨?_, rfl⟩)
            simp only [List.map_cons, List.mem_cons, not_or]
            exact ⟨fun he => hother he.symm, hnew⟩

theorem Gathered.gather {predicates : List NavigationPredicate} {groups : List NavigationGroup}
    (h : Gathered predicates groups) (p : NavigationPredicate) :
    Gathered (predicates ++ [p]) (gather groups p) where
  distinct := by
    rw [gather_navigations]
    split
    · exact h.distinct
    · rename_i hnew
      refine List.nodup_append.mpr ⟨h.distinct, by simp, fun n hn n' hn' => ?_⟩
      rw [List.mem_singleton] at hn'
      exact fun he => hnew (hn' ▸ he ▸ hn)
  group g hg := by
    rw [NavigationPredicate.over, List.filter_append]
    rcases mem_gather h.distinct hg with ⟨hg, hne⟩ | ⟨old, hold, hsame, rfl⟩ | ⟨hnew, rfl⟩
    · obtain ⟨first, rest, hover, he⟩ := h.group g hg
      refine ⟨first, rest, ?_, he⟩
      rw [NavigationPredicate.over] at hover
      simp [hover, Ne.symm hne]
    · obtain ⟨first, rest, hover, rfl⟩ := h.group old hold
      refine ⟨first, rest ++ [p], ?_, by simp⟩
      rw [NavigationPredicate.over] at hover
      simpa [hover] using hsame.symm
    · refine ⟨p, [], ?_, rfl⟩
      have hnone : predicates.filter (fun q => q.join.navigation = p.join.navigation) = [] := by
        rw [List.filter_eq_nil_iff]
        intro q hq
        simpa using fun he : q.join.navigation = p.join.navigation => hnew (he ▸ h.covered q hq)
      simp [hnone]
  covered q hq := by
    rw [gather_navigations]
    rcases List.mem_append.mp hq with hq | hq
    · split
      · exact h.covered q hq
      · exact List.mem_append_left _ (h.covered q hq)
    · obtain rfl := List.mem_singleton.mp hq
      split
      · assumption
      · exact List.mem_append_right _ List.mem_cons_self

theorem gathered_ofPredicates (predicates : List NavigationPredicate) :
    Gathered predicates (ofPredicates predicates) := by
  have hfold : ∀ (ps before : List NavigationPredicate) (groups : List NavigationGroup),
      Gathered before groups →
        Gathered (before ++ ps) (ps.foldl ofPredicates.gather groups) := by
    intro ps
    induction ps with
    | nil => simp
    | cons p ps ih =>
        intro before groups h
        simpa using ih (before ++ [p]) _ (h.gather p)
  exact hfold predicates [] [] ⟨by simp, by simp, by simp⟩

end NavigationGroup

/-! ## Tests of target rows -/

namespace SemiJoinCompiler

/-- The test that a condition compiles to; a condition that every row satisfies has none. -/
inductive TestOf (compiler : RowCompiler) (condition : NavigationCondition) :
    Option RowTest → Prop where
  | all (hnone : condition.targetPredicate targetParameter = none) : TestOf compiler condition none
  | predicate {lambda : Expr} {p : CompiledPredicate}
      (hsome : condition.targetPredicate targetParameter = some lambda)
      (hp : (compiler.predicate? lambda).result = .ok (some p)) :
      TestOf compiler condition (some p.test)

theorem targetTests?_spec {compiler : RowCompiler} {conditions : List NavigationCondition}
    {tests : List (Option RowTest)}
    (h : (targetTests? compiler conditions).result = .ok (some tests)) :
    List.Forall₂ (TestOf compiler) conditions tests := by
  induction conditions generalizing tests with
  | nil =>
      obtain rfl := Option.some.inj (Except.ok.inj h)
      exact .nil
  | cons condition conditions ih =>
      rw [targetTests?] at h
      split at h
      · rename_i hnone
        simp only [Traced.result_bind, Traced.result_pure] at h
        obtain ⟨rest, hrest, rfl⟩ := RowCompiler.map_eq_ok_some_iff.mp h
        exact .cons (.all hnone) (ih hrest)
      · rename_i lambda hsome
        rw [Traced.result_bind] at h
        obtain ⟨p?, hp, h⟩ := bind_eq_ok_iff.mp h
        cases p? with
        | none => cases h
        | some p =>
            simp only [Traced.result_bind, Traced.result_pure] at h
            obtain ⟨rest, hrest, rfl⟩ := RowCompiler.map_eq_ok_some_iff.mp h
            exact .cons (.predicate hsome hp) (ih hrest)

/-- Result of a test on a target row; a missing test passes. -/
def passes (t : Table) (h : RowHandle) : Option RowTest → Except Error Bool
  | some test => test.eval t h
  | none => .ok true

/-- A target row satisfies a condition: the predicate that the condition makes of target rows, if
it makes one, is true on the row. -/
def Satisfies (compiler : RowCompiler) (h : RowHandle) (condition : NavigationCondition) : Prop :=
  ∀ lambda, condition.targetPredicate targetParameter = some lambda →
    ∃ p, (compiler.predicate? lambda).result = .ok (some p) ∧
      p.eval compiler.table h = .ok true

theorem TestOf.passes_iff {compiler : RowCompiler} {condition : NavigationCondition}
    {test : Option RowTest} (ht : TestOf compiler condition test) (h : RowHandle) :
    passes compiler.table h test = .ok true ↔ Satisfies compiler h condition := by
  cases ht with
  | all hnone => simp [passes, Satisfies, hnone]
  | predicate hsome hp =>
      constructor
      · intro hpass lambda hlambda
        obtain rfl := Option.some.inj (hsome.symm.trans hlambda)
        exact ⟨_, hp, hpass⟩
      · intro hsat
        obtain ⟨p, hp', hpass⟩ := hsat _ hsome
        obtain rfl := Option.some.inj (Except.ok.inj (hp.symm.trans hp'))
        exact hpass

end SemiJoinCompiler

/-! ## Keys -/

namespace JoinPlan

open SemiJoinCompiler

variable {j : JoinPlan} {t root : Table} {tests : List (Option RowTest)}

/-- A scan that succeeds reads the key of every row and tests the rows that have one. -/
theorem testKeys_spec {rows : List RowHandle} {tested : List TestedKey}
    (h : (j.testKeys t tests rows).result = .ok tested) :
    (∀ row ∈ rows, ∃ key?, j.targetKeyOf? t row = .ok key? ∧
      ∀ key, key? = some key → ∃ passed, tests.mapM (passes t row) = .ok passed ∧
        ⟨key, passed⟩ ∈ tested) ∧
      ∀ k ∈ tested, ∃ row ∈ rows, j.targetKeyOf? t row = .ok (some k.key) ∧
        tests.mapM (passes t row) = .ok k.passed := by
  induction rows generalizing tested with
  | nil =>
      obtain rfl := Except.ok.inj h
      exact ⟨by simp, by simp⟩
  | cons row rows ih =>
      rw [testKeys] at h
      simp only [Traced.result_bind, Traced.result_ofResult, Traced.result_pure] at h
      obtain ⟨_, -, h⟩ := bind_eq_ok_iff.mp h
      obtain ⟨here, hhere, h⟩ := bind_eq_ok_iff.mp h
      obtain ⟨others, hothers, h⟩ := bind_eq_ok_iff.mp h
      obtain rfl := Except.ok.inj h
      obtain ⟨key?, hkey, hhere⟩ := bind_eq_ok_iff.mp hhere
      obtain ⟨hall, honly⟩ := ih hothers
      have hmore : ∀ row ∈ rows, ∃ key?, j.targetKeyOf? t row = .ok key? ∧
          ∀ key, key? = some key → ∃ passed, tests.mapM (passes t row) = .ok passed ∧
            ⟨key, passed⟩ ∈ here ++ others := by
        intro row hrow
        obtain ⟨key?, hkey, hpassed⟩ := hall row hrow
        refine ⟨key?, hkey, fun key he => ?_⟩
        obtain ⟨passed, hp, hm⟩ := hpassed key he
        exact ⟨passed, hp, List.mem_append_right _ hm⟩
      cases key? with
      | none =>
          obtain rfl := Except.ok.inj hhere
          refine ⟨fun row' hrow' => ?_, fun k hk => ?_⟩
          · rcases List.mem_cons.mp hrow' with rfl | hrow'
            · exact ⟨none, hkey, by simp⟩
            · exact hmore row' hrow'
          · obtain ⟨row', hrow', hk⟩ := honly k hk
            exact ⟨row', List.mem_cons_of_mem _ hrow', hk⟩
      | some key =>
          obtain ⟨passed, hpassed, hhere⟩ := bind_eq_ok_iff.mp hhere
          obtain rfl := Except.ok.inj hhere
          have hpassed : tests.mapM (passes t row) = .ok passed := hpassed
          refine ⟨fun row' hrow' => ?_, fun k hk => ?_⟩
          · rcases List.mem_cons.mp hrow' with rfl | hrow'
            · refine ⟨some key, hkey, fun key' he => ⟨passed, hpassed, ?_⟩⟩
              obtain rfl := Option.some.inj he
              exact List.mem_append_left _ List.mem_cons_self
            · exact hmore row' hrow'
          · rcases List.mem_append.mp hk with hk | hk
            · obtain rfl := List.mem_singleton.mp hk
              exact ⟨row, List.mem_cons_self, hkey, hpassed⟩
            · obtain ⟨row', hrow', hk⟩ := honly k hk
              exact ⟨row', List.mem_cons_of_mem _ hrow', hk⟩

theorem passed_iff {row : RowHandle} {passed : List Bool}
    (h : tests.mapM (passes t row) = .ok passed) (i : Nat) :
    passed[i]?.getD false = true ↔
      ∃ test, tests[i]? = some test ∧ passes t row test = .ok true := by
  rw [mapM_eq_ok_iff] at h
  induction h generalizing i with
  | nil => simp
  | @cons test b tests passed hb _ ih =>
      cases i with
      | zero => simp [hb]
      | succ i => simpa using ih i

/-- A key passes a test if a target row with the key does. -/
theorem mem_keysPassing {rows : List RowHandle} {tested : List TestedKey}
    (h : (j.testKeys t tests rows).result = .ok tested) (key : Int) (i : Nat) :
    key ∈ keysPassing tested i ↔ ∃ row ∈ rows, j.targetKeyOf? t row = .ok (some key) ∧
      ∃ test, tests[i]? = some test ∧ passes t row test = .ok true := by
  obtain ⟨hall, honly⟩ := testKeys_spec h
  simp only [keysPassing, List.mem_map, List.mem_filter]
  constructor
  · rintro ⟨k, ⟨hk, hpass⟩, rfl⟩
    obtain ⟨row, hrow, hkey, hpassed⟩ := honly k hk
    exact ⟨row, hrow, hkey, (passed_iff hpassed i).mp hpass⟩
  · rintro ⟨row, hrow, hkey, htest⟩
    obtain ⟨key?, hkey', hpassed⟩ := hall row hrow
    obtain rfl := Except.ok.inj (hkey'.symm.trans hkey)
    obtain ⟨passed, hpassed, hm⟩ := hpassed key rfl
    exact ⟨⟨key, passed⟩, ⟨hm, (passed_iff hpassed i).mpr htest⟩, rfl⟩

/-- Some key is in every set: for a key array each set may have its own key, for any other join one
key is in all of them. -/
theorem keySets_all {tested : List TestedKey} {n : Nat} (hn : 0 < n) (keys : List Int) :
    ((j.keySets tested n).all fun s => keys.any fun k => s.contains k) = true ↔
      if j.kind = .keyArray then ∀ i < n, ∃ k ∈ keys, k ∈ keysPassing tested i
      else ∃ k ∈ keys, ∀ i < n, k ∈ keysPassing tested i := by
  obtain ⟨n, rfl⟩ : ∃ m, n = m + 1 := ⟨n - 1, by omega⟩
  unfold keySets
  by_cases hj : j.kind = .keyArray
  · simp [hj]
  · have hsets : (List.range (n + 1)).map (keysPassing tested) =
        keysPassing tested 0 :: (List.range n).map fun i => keysPassing tested (i + 1) := by
      rw [List.range_succ_eq_map, List.map_cons, List.map_map]
      rfl
    have hall : ∀ k, (∀ i < n + 1, k ∈ keysPassing tested i) ↔
        k ∈ keysPassing tested 0 ∧ ∀ i < n, k ∈ keysPassing tested (i + 1) := by
      intro k
      constructor
      · exact fun h => ⟨h 0 (by omega), fun i hi => h (i + 1) (by omega)⟩
      · rintro ⟨h0, h⟩ i hi
        cases i with
        | zero => exact h0
        | succ i => exact h i (by omega)
    simp only [hsets, if_neg hj, hall]
    simp

theorem mem_keySets {tested : List TestedKey} {n : Nat} {s : List Int} {key : Int}
    (hs : s ∈ j.keySets tested n) (hk : key ∈ s) : ∃ i, key ∈ keysPassing tested i := by
  unfold keySets at hs
  dsimp only at hs
  split at hs
  · obtain ⟨i, -, rfl⟩ := List.mem_map.mp hs
    exact ⟨i, hk⟩
  · obtain rfl := List.mem_singleton.mp hs
    cases hk
  · rename_i first others hsets _
    obtain rfl := List.mem_singleton.mp hs
    have hfirst : first ∈ (List.range n).map (keysPassing tested) := hsets ▸ List.mem_cons_self
    obtain ⟨i, -, rfl⟩ := List.mem_map.mp hfirst
    exact ⟨i, (List.mem_filter.mp hk).1⟩

end JoinPlan

/-! ## Relational meaning -/

/-- No two rows hold the same key. -/
def Table.UniqueKeys (t : Table) (f : Field) : Prop :=
  ∀ h ∈ t.handles, ∀ h' ∈ t.handles, ∀ key,
    t.readKey h f = .ok (some key) → t.readKey h' f = .ok (some key) → h = h'

namespace Staff

/-- The reference from a row of staff to its manager. -/
def manager : JoinPlan :=
  ⟨.foreignKey, "Manager", entity, entity, ⟨"ManagerId", managerField⟩, ⟨"Id", idField⟩, none⟩

theorem uniqueKeys : table.UniqueKeys idField := by
  intro h hm h' hm' key hk hk'
  obtain rfl := Option.some.inj (Except.ok.inj hk)
  have hid : h'.id = h.id := Option.some.inj (Except.ok.inj hk')
  revert h h'
  decide

end Staff

namespace JoinPlan

open SemiJoinCompiler

/-- Keys through which a root row is related: zero is no key, except as a shared primary key. -/
def keysOf (j : JoinPlan) (root : Table) (r : RowHandle) : Except Error (List Int) :=
  match j.kind with
  | .foreignKey | .dependents =>
    (root.readKey r j.rootKey.field).map fun key => key.toList.filter (· ≠ 0)
  | .sharedPrimaryKey => (root.readKey r j.rootKey.field).map Option.toList
  | .keyArray => (root.readKeyArray r j.rootKey.field).map fun keys => keys.filter (· ≠ 0)

/-- A target row is related to a root row: it holds one of the root's keys. -/
def Related (j : JoinPlan) (root : Table) (r : RowHandle) (target : Table) (h : RowHandle) : Prop :=
  h ∈ target.handles ∧ ∃ keys, j.keysOf root r = .ok keys ∧
    ∃ key ∈ keys, target.readKey h j.targetKey.field = .ok (some key)

/-- What the conditions of one navigation ask of a root row. A null check asks that nothing is
related. The conditions of a reference are about one related row, and each condition of a collection
is about a related row of its own. -/
def Holds (j : JoinPlan) (compiler : RowCompiler) (root : Table) (r : RowHandle)
    (conditions : List NavigationCondition) : Prop :=
  match conditions, j.kind with
  | [.isNull], _ => ¬ ∃ h, j.Related root r compiler.table h
  | conditions, .foreignKey | conditions, .sharedPrimaryKey =>
    ∃ h, j.Related root r compiler.table h ∧ ∀ c ∈ conditions, Satisfies compiler h c
  | conditions, .keyArray | conditions, .dependents =>
    ∀ c ∈ conditions, ∃ h, j.Related root r compiler.table h ∧ Satisfies compiler h c

variable {j : JoinPlan} {t root : Table} {r : RowHandle} {tests : List (Option RowTest)}
  {compiler : RowCompiler} {conditions : List NavigationCondition}

theorem holds_isNull :
    j.Holds compiler root r [.isNull] ↔ ¬ ∃ h, j.Related root r compiler.table h := by
  rw [Holds.eq_def]

theorem holds_reference (hn : conditions.any (·.isNullTest) = false)
    (hj : j.kind = .foreignKey ∨ j.kind = .sharedPrimaryKey) :
    j.Holds compiler root r conditions ↔
      ∃ h, j.Related root r compiler.table h ∧ ∀ c ∈ conditions, Satisfies compiler h c := by
  unfold Holds
  split
  · cases hn
  · rfl
  · rfl
  · simp_all
  · simp_all

theorem holds_collection (hn : conditions.any (·.isNullTest) = false)
    (hj : j.kind = .keyArray ∨ j.kind = .dependents) :
    j.Holds compiler root r conditions ↔
      ∀ c ∈ conditions, ∃ h, j.Related root r compiler.table h ∧ Satisfies compiler h c := by
  unfold Holds
  split
  · cases hn
  · simp_all
  · simp_all
  · rfl
  · rfl

theorem targetKeyOf?_eq_some {h : RowHandle} {key : Int} :
    j.targetKeyOf? t h = .ok (some key) ↔
      t.readKey h j.targetKey.field = .ok (some key) ∧ (j.kind = .dependents → key ≠ 0) := by
  rw [targetKeyOf?, bind_eq_ok_iff]
  constructor
  · rintro ⟨key?, hkey, hf⟩
    obtain ⟨rfl, hz⟩ := Option.filter_eq_some_iff.mp (Except.ok.inj hf)
    refine ⟨hkey, fun hj => ?_⟩
    simpa [hj] using hz
  · rintro ⟨hkey, hz⟩
    refine ⟨some key, hkey, congrArg Except.ok (Option.filter_eq_some_iff.mpr ⟨rfl, ?_⟩)⟩
    by_cases hj : j.kind = .dependents
    · simpa [hj] using hz hj
    · simp [hj]

/-- A root row passes if one of its keys is in every set, where dependents have no zero keys. -/
theorem hasRelated_eq {keys : List Int} (hk : j.keysOf root r = .ok keys) {sets : List (List Int)}
    (hz : j.kind = .dependents → ∀ s ∈ sets, 0 ∉ s) :
    root.hasRelated r j.kind j.rootKey.field sets =
      .ok (sets.all fun s => keys.any fun k => s.contains k) := by
  unfold keysOf at hk
  cases hj : j.kind with
  | foreignKey =>
      simp only [hj] at hk
      obtain ⟨key, hkey, rfl⟩ := map_eq_ok_iff.mp hk
      rw [Table.hasRelated, hkey]
      cases key with
      | none => rfl
      | some k => by_cases h0 : k = 0 <;> simp [h0]
  | sharedPrimaryKey =>
      simp only [hj] at hk
      obtain ⟨key, hkey, rfl⟩ := map_eq_ok_iff.mp hk
      rw [Table.hasRelated, hkey]
      cases key <;> simp
  | keyArray =>
      simp only [hj] at hk
      obtain ⟨keys, hkeys, rfl⟩ := map_eq_ok_iff.mp hk
      rw [Table.hasRelated, hkeys]
      simp [List.any_filter]
  | dependents =>
      simp only [hj] at hk
      obtain ⟨key, hkey, rfl⟩ := map_eq_ok_iff.mp hk
      rw [Table.hasRelated, hkey]
      cases key with
      | none => simp
      | some k =>
          by_cases h0 : k = 0
          · subst h0
            simp only [ok_bind, Option.any_some, pure_eq_ok, Except.ok.injEq]
            rw [Bool.eq_iff_iff, List.all_eq_true, List.all_eq_true]
            refine forall₂_congr fun s hs => ?_
            simpa using hz hj s hs
          · simp [h0]

end JoinPlan

namespace SemiJoinCompiler

variable {c : SemiJoinCompiler} {g : NavigationGroup} {p : CompiledPredicate}

/-- What compiling the conditions of one navigation has done: the keys are stored, a null check is
alone, the conditions have become tests, and the target has been scanned with them. -/
structure GroupOf (c : SemiJoinCompiler) (g : NavigationGroup) (p : CompiledPredicate)
    (target : Table) (tests : List (Option RowTest)) (tested : List TestedKey) : Prop where
  table : c.tables.find? g.join.target.table = some target
  compiled : List.Forall₂ (TestOf ⟨g.join.target, target, c.settings⟩) g.conditions tests
  scan : (g.join.testKeys target tests target.handles).result = .ok tested
  nullCheck : g.conditions.any (·.isNullTest) = true → g.conditions.length ≤ 1
  test : p.test = .related g.join.kind g.join.rootKey.field (g.join.keySets tested tests.length)
    (g.conditions.any (·.isNullTest))

theorem table_eq_ok_iff {s : TableSet} {name : String} {t : Table} :
    s.table name = .ok t ↔ s.find? name = some t := by
  unfold TableSet.table
  cases s.find? name <;> simp

theorem group?_spec (hp : (c.group? g).result = .ok (some p)) :
    ∃ target tests tested, GroupOf c g p target tests tested := by
  rw [group?, Traced.result_bind] at hp
  obtain ⟨_, -, hp⟩ := bind_eq_ok_iff.mp hp
  dsimp only at hp
  split at hp
  · cases hp
  · rename_i hnull
    rw [Traced.result_bind] at hp
    obtain ⟨target, htable, hp⟩ := bind_eq_ok_iff.mp hp
    rw [Traced.result_bind] at hp
    obtain ⟨tests?, htests, hp⟩ := bind_eq_ok_iff.mp hp
    cases tests? with
    | none => cases hp
    | some tests =>
        dsimp only at hp
        rw [Traced.result_bind] at hp
        obtain ⟨tested, htested, hp⟩ := bind_eq_ok_iff.mp hp
        obtain rfl := Option.some.inj (Except.ok.inj hp)
        refine ⟨target, tests, tested, table_eq_ok_iff.mp htable, targetTests?_spec htests,
          htested, fun hany => ?_, rfl⟩
        simp only [Bool.and_eq_true, decide_eq_true_eq, not_and] at hnull
        exact Nat.le_of_not_lt (hnull hany)

variable {target root : Table} {tests : List (Option RowTest)} {tested : List TestedKey}
  {r : RowHandle}

/-- A key passes the test of a condition if a target row with the key satisfies the condition. -/
theorem GroupOf.mem_keysPassing (hg : GroupOf c g p target tests tested) {key : Int} {i : Nat}
    {condition : NavigationCondition} (hi : g.conditions[i]? = some condition) :
    key ∈ JoinPlan.keysPassing tested i ↔ ∃ h ∈ target.handles,
      target.readKey h g.join.targetKey.field = .ok (some key) ∧
        (g.join.kind = .dependents → key ≠ 0) ∧
          Satisfies ⟨g.join.target, target, c.settings⟩ h condition := by
  obtain ⟨test, htest, hof⟩ : ∃ test, tests[i]? = some test ∧
      TestOf ⟨g.join.target, target, c.settings⟩ condition test := by
    obtain ⟨hlt, rfl⟩ := List.getElem?_eq_some_iff.mp hi
    have hlt' : i < tests.length := hg.compiled.length_eq ▸ hlt
    exact ⟨tests[i], List.getElem?_eq_getElem hlt', hg.compiled.get hlt hlt'⟩
  rw [JoinPlan.mem_keysPassing hg.scan]
  have hpass : ∀ h, passes target h test = .ok true ↔
      Satisfies ⟨g.join.target, target, c.settings⟩ h condition := hof.passes_iff
  simp only [htest, Option.some.injEq, exists_eq_left', hpass, JoinPlan.targetKeyOf?_eq_some,
    and_assoc]

theorem keysOf_unique_key {j : JoinPlan} {keys : List Int} (hk : j.keysOf root r = .ok keys)
    (hj : j.kind ≠ .keyArray) {k k' : Int} (h : k ∈ keys) (h' : k' ∈ keys) : k = k' := by
  have hsingle : ∃ key : Option Int, ∀ k ∈ keys, key = some k := by
    unfold JoinPlan.keysOf at hk
    split at hk
    · obtain ⟨key, -, rfl⟩ := map_eq_ok_iff.mp hk
      exact ⟨key, fun k hk => by simpa using (List.mem_filter.mp hk).1⟩
    · obtain ⟨key, -, rfl⟩ := map_eq_ok_iff.mp hk
      exact ⟨key, fun k hk => by simpa using (List.mem_filter.mp hk).1⟩
    · obtain ⟨key, -, rfl⟩ := map_eq_ok_iff.mp hk
      exact ⟨key, fun k hk => by simpa using hk⟩
    · contradiction
  obtain ⟨key, hkey⟩ := hsingle
  exact Option.some.inj ((hkey k h).symm.trans (hkey k' h'))

theorem zero_not_mem_of_dependents {j : JoinPlan} {keys : List Int}
    (hk : j.keysOf root r = .ok keys) (hj : j.kind = .dependents) {k : Int} (h : k ∈ keys) :
    k ≠ 0 := by
  simp only [JoinPlan.keysOf, hj] at hk
  obtain ⟨key, -, rfl⟩ := map_eq_ok_iff.mp hk
  simpa using (List.mem_filter.mp h).2

/-- The test of a group asks for a key of the root that passes: over a key array one for each
condition, over any other join one for all of them. -/
theorem GroupOf.eval (hg : GroupOf c g p target tests tested) (hne : g.conditions ≠ [])
    {keys : List Int} (hk : g.join.keysOf root r = .ok keys) :
    ∃ found, p.eval root r = .ok (found != g.conditions.any (·.isNullTest)) ∧
      (found = true ↔
        if g.join.kind = .keyArray then
          ∀ i < g.conditions.length, ∃ k ∈ keys, k ∈ JoinPlan.keysPassing tested i
        else ∃ k ∈ keys, ∀ i < g.conditions.length, k ∈ JoinPlan.keysPassing tested i) := by
  have hlen : tests.length = g.conditions.length := hg.compiled.length_eq.symm
  have hpos : 0 < tests.length := hlen ▸ List.length_pos_of_ne_nil hne
  have hzero : g.join.kind = .dependents →
      ∀ s ∈ g.join.keySets tested tests.length, 0 ∉ s := by
    intro hj s hs h0
    obtain ⟨i, hi⟩ := JoinPlan.mem_keySets hs h0
    obtain ⟨h, -, hkey, -⟩ := (JoinPlan.mem_keysPassing hg.scan 0 i).mp hi
    exact (JoinPlan.targetKeyOf?_eq_some.mp hkey).2 hj rfl
  refine ⟨_, ?_, (JoinPlan.keySets_all hpos keys).trans (by rw [hlen])⟩
  rw [CompiledPredicate.eval, hg.test, RowTest.eval, JoinPlan.hasRelated_eq hk hzero]
  rfl

theorem GroupOf.key_iff (hg : GroupOf c g p target tests tested) {keys : List Int}
    (hk : g.join.keysOf root r = .ok keys) {key : Int} (hkey : key ∈ keys) {i : Nat}
    {condition : NavigationCondition} (hi : g.conditions[i]? = some condition) :
    key ∈ JoinPlan.keysPassing tested i ↔ ∃ h ∈ target.handles,
      target.readKey h g.join.targetKey.field = .ok (some key) ∧
        Satisfies ⟨g.join.target, target, c.settings⟩ h condition := by
  rw [hg.mem_keysPassing hi]
  refine exists_congr fun h => and_congr_right fun _ => and_congr_right fun _ => ?_
  exact and_iff_right fun hj => zero_not_mem_of_dependents hk hj hkey

theorem satisfies_isNull {compiler : RowCompiler} {h : RowHandle} :
    Satisfies compiler h .isNull := by
  intro lambda hlambda
  cases hlambda

theorem related_iff {j : JoinPlan} {keys : List Int} (hk : j.keysOf root r = .ok keys)
    {h : RowHandle} : j.Related root r target h ↔
      h ∈ target.handles ∧ ∃ key ∈ keys, target.readKey h j.targetKey.field = .ok (some key) := by
  simp [JoinPlan.Related, hk]

theorem forall_lt_iff_forall_mem {conditions : List NavigationCondition}
    {P : NavigationCondition → Prop} {Q : Nat → Prop}
    (h : ∀ i condition, conditions[i]? = some condition → (Q i ↔ P condition)) :
    (∀ i < conditions.length, Q i) ↔ ∀ condition ∈ conditions, P condition := by
  constructor
  · intro hq condition hm
    obtain ⟨i, hi⟩ := List.mem_iff_getElem?.mp hm
    exact (h i condition hi).mp (hq i (List.getElem?_eq_some_iff.mp hi).1)
  · intro hp i hlt
    exact (h i _ (List.getElem?_eq_getElem hlt)).mpr (hp _ (List.getElem_mem hlt))

/-- Where target keys are unique, a key that passes every test names one row that does. Of one test
the row that passes it is enough, whatever other rows have the key. -/
theorem GroupOf.reference_iff (hg : GroupOf c g p target tests tested) (hne : g.conditions ≠ [])
    {keys : List Int} (hk : g.join.keysOf root r = .ok keys)
    (hu : 1 < g.conditions.length → target.UniqueKeys g.join.targetKey.field) :
    (∃ k ∈ keys, ∀ i < g.conditions.length, k ∈ JoinPlan.keysPassing tested i) ↔
      ∃ h, g.join.Related root r target h ∧
        ∀ condition ∈ g.conditions, Satisfies ⟨g.join.target, target, c.settings⟩ h condition := by
  constructor
  · rintro ⟨key, hkey, hall⟩
    have hall := (forall_lt_iff_forall_mem fun i _ hi => hg.key_iff hk hkey hi).mp hall
    obtain ⟨first, hfirst⟩ := List.exists_mem_of_ne_nil _ hne
    obtain ⟨h, hm, hread, hsat⟩ := hall first hfirst
    refine ⟨h, (related_iff hk).mpr ⟨hm, key, hkey, hread⟩, fun condition hcondition => ?_⟩
    by_cases hseveral : 1 < g.conditions.length
    · obtain ⟨h', hm', hread', hsat'⟩ := hall condition hcondition
      rwa [hu hseveral h hm h' hm' key hread hread']
    · obtain ⟨only, honly⟩ : ∃ only, g.conditions = [only] :=
        List.length_eq_one_iff.mp (by have := List.length_pos_of_ne_nil hne; omega)
      rw [honly, List.mem_singleton] at hfirst hcondition
      rwa [hcondition, ← hfirst]
  · rintro ⟨h, hrelated, hall⟩
    obtain ⟨hm, key, hkey, hread⟩ := (related_iff hk).mp hrelated
    refine ⟨key, hkey, (forall_lt_iff_forall_mem fun i _ hi => hg.key_iff hk hkey hi).mpr ?_⟩
    exact fun condition hcondition => ⟨h, hm, hread, hall condition hcondition⟩

/-- A key that passes a test stands for a related row that satisfies the condition. -/
theorem GroupOf.exists_key_iff (hg : GroupOf c g p target tests tested) {keys : List Int}
    (hk : g.join.keysOf root r = .ok keys) {i : Nat} {condition : NavigationCondition}
    (hi : g.conditions[i]? = some condition) :
    (∃ k ∈ keys, k ∈ JoinPlan.keysPassing tested i) ↔
      ∃ h, g.join.Related root r target h ∧
        Satisfies ⟨g.join.target, target, c.settings⟩ h condition := by
  constructor
  · rintro ⟨key, hkey, hpass⟩
    obtain ⟨h, hm, hread, hsat⟩ := (hg.key_iff hk hkey hi).mp hpass
    exact ⟨h, (related_iff hk).mpr ⟨hm, key, hkey, hread⟩, hsat⟩
  · rintro ⟨h, hrelated, hsat⟩
    obtain ⟨hm, key, hkey, hread⟩ := (related_iff hk).mp hrelated
    exact ⟨key, hkey, (hg.key_iff hk hkey hi).mpr ⟨h, hm, hread, hsat⟩⟩

/-- A root of dependents has one key, which passes all tests if it passes each of them. -/
theorem exists_forall_of_single {keys : List Int} {j : JoinPlan} (hk : j.keysOf root r = .ok keys)
    (hj : j.kind ≠ .keyArray) {n : Nat} (hn : 0 < n) {P : Int → Nat → Prop} :
    (∃ k ∈ keys, ∀ i < n, P k i) ↔ ∀ i < n, ∃ k ∈ keys, P k i := by
  constructor
  · rintro ⟨k, hkey, hall⟩ i hi
    exact ⟨k, hkey, hall i hi⟩
  · intro hall
    obtain ⟨k, hkey, -⟩ := hall 0 hn
    refine ⟨k, hkey, fun i hi => ?_⟩
    obtain ⟨k', hkey', hp⟩ := hall i hi
    rwa [keysOf_unique_key hk hj hkey hkey']

/-- The test of a group is true on exactly the root rows for which its conditions hold. -/
theorem GroupOf.eval_iff (hg : GroupOf c g p target tests tested) (hne : g.conditions ≠ [])
    {keys : List Int} (hk : g.join.keysOf root r = .ok keys)
    (hu : 1 < g.conditions.length →
      g.join.kind = .foreignKey ∨ g.join.kind = .sharedPrimaryKey →
        target.UniqueKeys g.join.targetKey.field) :
    ∃ b, p.eval root r = .ok b ∧
      (b = true ↔ g.join.Holds ⟨g.join.target, target, c.settings⟩ root r g.conditions) := by
  obtain ⟨found, heval, hfound⟩ := hg.eval hne hk
  refine ⟨_, heval, ?_⟩
  have hpos : 0 < g.conditions.length := List.length_pos_of_ne_nil hne
  have heach : (∀ i < g.conditions.length, ∃ k ∈ keys, k ∈ JoinPlan.keysPassing tested i) ↔
      ∀ condition ∈ g.conditions, ∃ h, g.join.Related root r target h ∧
        Satisfies ⟨g.join.target, target, c.settings⟩ h condition :=
    forall_lt_iff_forall_mem fun i _ hi => hg.exists_key_iff hk hi
  by_cases hnull : g.conditions.any (·.isNullTest) = true
  · -- A null check is alone, and its test passes every row.
    obtain ⟨condition, hcondition⟩ : ∃ condition, g.conditions = [condition] :=
      List.length_eq_one_iff.mp (by have := hg.nullCheck hnull; omega)
    obtain rfl : condition = .isNull := by
      cases condition <;> simp_all [NavigationCondition.isNullTest]
    have hsome : found = true ↔ ∃ h, g.join.Related root r target h := by
      rw [hfound]
      split
      · rw [heach, hcondition]
        simp [satisfies_isNull]
      · rename_i hj
        rw [exists_forall_of_single hk hj hpos, heach, hcondition]
        simp [satisfies_isNull]
    rw [hnull, hcondition, JoinPlan.holds_isNull, ← hsome]
    simp
  · rw [Bool.not_eq_true] at hnull
    rw [hnull, Bool.bne_false, hfound]
    cases hj : g.join.kind with
    | foreignKey =>
        rw [JoinPlan.holds_reference hnull (.inl hj),
          ← hg.reference_iff hne hk fun hseveral => hu hseveral (.inl hj)]
        simp
    | sharedPrimaryKey =>
        rw [JoinPlan.holds_reference hnull (.inr hj),
          ← hg.reference_iff hne hk fun hseveral => hu hseveral (.inr hj)]
        simp
    | keyArray =>
        rw [JoinPlan.holds_collection hnull (.inl hj), ← heach]
        simp
    | dependents =>
        rw [JoinPlan.holds_collection hnull (.inr hj), ← heach]
        simpa using exists_forall_of_single hk (by simp [hj]) hpos

/-- Compiling groups compiles each of them. -/
theorem groups?_spec {groups : List NavigationGroup} {ps : List CompiledPredicate}
    (h : (c.groups? groups).result = .ok (some ps)) :
    List.Forall₂ (fun g p => (c.group? g).result = .ok (some p)) groups ps := by
  induction groups generalizing ps with
  | nil =>
      obtain rfl := Option.some.inj (Except.ok.inj h)
      exact .nil
  | cons g groups ih =>
      rw [groups?, Traced.result_bind] at h
      obtain ⟨p?, hp, h⟩ := bind_eq_ok_iff.mp h
      cases p? with
      | none => cases h
      | some p =>
          simp only [Traced.result_bind, Traced.result_pure] at h
          obtain ⟨rest, hrest, rfl⟩ := RowCompiler.map_eq_ok_some_iff.mp h
          exact .cons hp (ih hrest)

theorem predicate?_spec {root : EntityType} {predicates : List NavigationPredicate}
    (hp : (c.predicate? root predicates).result = .ok (some p)) :
    ∃ ps, List.Forall₂ (fun g p => (c.group? g).result = .ok (some p))
        (NavigationGroup.ofPredicates predicates) ps ∧
      CompiledPredicate.conjunction? ps = some p := by
  rw [predicate?] at hp
  split at hp
  · cases hp
  · rw [Traced.result_bind] at hp
    obtain ⟨_, -, hp⟩ := bind_eq_ok_iff.mp hp
    rw [Traced.result_bind] at hp
    obtain ⟨ps?, hps, hp⟩ := bind_eq_ok_iff.mp hp
    obtain ⟨ps, rfl, hconjunction⟩ := Option.bind_eq_some_iff.mp (Except.ok.inj hp)
    exact ⟨ps, groups?_spec hps, hconjunction⟩

/-- The group of a navigation has a result on a root row whose keys can be read, which is that of the
predicates that it was gathered from. -/
theorem group?_eval_iff {c : SemiJoinCompiler} {predicates : List NavigationPredicate}
    {first : NavigationPredicate} {rest : List NavigationPredicate} {q : CompiledPredicate}
    (hover : NavigationPredicate.over predicates first.join.navigation = first :: rest)
    (hq : (c.group? ⟨first.join, (first :: rest).map (·.condition)⟩).result = .ok (some q))
    {root : Table} {r : RowHandle} {keys : List Int} (hk : first.join.keysOf root r = .ok keys)
    (hunique : ∀ navigation first second rest,
      NavigationPredicate.over predicates navigation = first :: second :: rest →
        first.join.kind = .foreignKey ∨ first.join.kind = .sharedPrimaryKey →
          ∀ target, c.tables.find? first.join.target.table = some target →
            target.UniqueKeys first.join.targetKey.field) :
    ∃ b, q.eval root r = .ok b ∧ (b = true ↔
      ∃ target, c.tables.find? first.join.target.table = some target ∧
        first.join.Holds ⟨first.join.target, target, c.settings⟩ root r
          ((first :: rest).map (·.condition))) := by
  obtain ⟨target, tests, tested, hspec⟩ := group?_spec hq
  have hu : 1 < ((first :: rest).map (·.condition)).length →
      first.join.kind = .foreignKey ∨ first.join.kind = .sharedPrimaryKey →
        target.UniqueKeys first.join.targetKey.field := by
    intro hseveral hj
    cases rest with
    | nil => simp at hseveral
    | cons second rest => exact hunique _ first second rest hover hj target hspec.table
  obtain ⟨b, heval, hiff⟩ := hspec.eval_iff (by simp) hk hu
  refine ⟨b, heval, hiff.trans ⟨fun h => ⟨target, hspec.table, h⟩, ?_⟩⟩
  rintro ⟨target', htable, h⟩
  obtain rfl := Option.some.inj (hspec.table.symm.trans htable)
  exact h

/-- A compiled semi-join gives a result on every root row whose keys can be read. It is true on
exactly the rows for which the conditions of every navigation hold. Target keys need to be unique
only where a reference has several conditions, which are about one row. -/
theorem predicate?_eval_iff (c : SemiJoinCompiler) (entity : EntityType)
    (predicates : List NavigationPredicate) (p : CompiledPredicate)
    (hp : (c.predicate? entity predicates).result = .ok (some p)) (root : Table) (r : RowHandle)
    (hkeys : ∀ q ∈ predicates, ∃ keys, q.join.keysOf root r = .ok keys)
    (hunique : ∀ navigation first second rest,
      NavigationPredicate.over predicates navigation = first :: second :: rest →
        first.join.kind = .foreignKey ∨ first.join.kind = .sharedPrimaryKey →
          ∀ target, c.tables.find? first.join.target.table = some target →
            target.UniqueKeys first.join.targetKey.field) :
    ∃ b, p.eval root r = .ok b ∧ (b = true ↔ ∀ navigation first rest,
      NavigationPredicate.over predicates navigation = first :: rest →
        ∃ target, c.tables.find? first.join.target.table = some target ∧
          first.join.Holds ⟨first.join.target, target, c.settings⟩ root r
            ((first :: rest).map (·.condition))) := by
  obtain ⟨ps, hps, hconjunction⟩ := predicate?_spec hp
  have hgathered := NavigationGroup.gathered_ofPredicates predicates
  -- Each group has its result, and the conjunction of the results is the result of the whole.
  have hgroup : ∀ g ∈ NavigationGroup.ofPredicates predicates, ∀ q,
      (c.group? g).result = .ok (some q) → ∃ b, q.eval root r = .ok b ∧ (b = true ↔
        ∃ target, c.tables.find? g.join.target.table = some target ∧
          g.join.Holds ⟨g.join.target, target, c.settings⟩ root r g.conditions) := by
    intro g hg q hq
    obtain ⟨first, rest, hover, rfl⟩ := hgathered.group g hg
    have hfirst : first ∈ NavigationPredicate.over predicates first.join.navigation :=
      hover ▸ List.mem_cons_self
    obtain ⟨keys, hk⟩ := hkeys first (List.mem_filter.mp hfirst).1
    exact group?_eval_iff hover hq hk hunique
  have htotal : ∀ q ∈ ps, ∃ b, q.eval root r = .ok b := by
    intro q hq
    obtain ⟨g, hg, hgq⟩ := forall₂_mem_right hps hq
    obtain ⟨b, hb, -⟩ := hgroup g hg q hgq
    exact ⟨b, hb⟩
  obtain ⟨b, hall, hiff⟩ := allM_eq_ok htotal
  refine ⟨b, (CompiledPredicate.conjunction?_eval hconjunction root r).trans hall,
    hiff.trans ⟨fun h navigation first rest hover => ?_, fun h q hq => ?_⟩⟩
  · have hm : first ∈ NavigationPredicate.over predicates navigation :=
      hover ▸ List.mem_cons_self
    obtain ⟨hfirst, hname⟩ := List.mem_filter.mp hm
    obtain ⟨g, hg, hgname⟩ := List.mem_map.mp (hgathered.covered first hfirst)
    obtain ⟨first', rest', hover', rfl⟩ := hgathered.group g hg
    have hnavigation : first'.join.navigation = navigation := by
      simpa using hgname.trans (of_decide_eq_true hname)
    obtain ⟨rfl, rfl⟩ : first' = first ∧ rest' = rest := by
      simpa [hnavigation, hover, eq_comm] using hover'
    obtain ⟨q, hq, hgq⟩ := forall₂_mem_right hps.flip hg
    obtain ⟨b, heval, hiff⟩ := hgroup _ hg q hgq
    exact hiff.mp (Except.ok.inj (heval.symm.trans (h q hq)))
  · obtain ⟨g, hg, hgq⟩ := forall₂_mem_right hps hq
    obtain ⟨b, heval, hiff⟩ := hgroup g hg q hgq
    obtain ⟨first, rest, hover, rfl⟩ := hgathered.group g hg
    rw [heval, hiff.mpr (h _ first rest hover)]

/-- The manager of Bob is Ann. -/
theorem predicate?_eval_iff_of_bob :
    let c : SemiJoinCompiler := ⟨⟨[("Staff", Staff.table)]⟩, {}⟩
    let conditions : List NavigationCondition := [.string "Name" .equal (.string "Ann"), .isNotNull]
    let predicates := conditions.map (NavigationPredicate.mk Staff.manager)
    ∃ p, (c.predicate? Staff.entity predicates).result = .ok (some p) ∧
      p.eval Staff.table ⟨0, 1, 2⟩ = .ok true ∧
        Staff.manager.Holds ⟨Staff.entity, Staff.table, {}⟩ Staff.table ⟨0, 1, 2⟩ conditions := by
  intro c conditions predicates
  obtain ⟨b, hb, hiff⟩ := predicate?_eval_iff c Staff.entity predicates _ rfl Staff.table ⟨0, 1, 2⟩
    (fun q hq => by
      obtain ⟨condition, -, rfl⟩ := List.mem_map.mp hq
      exact ⟨[1], rfl⟩)
    (fun navigation first second rest hover _ target htarget => by
      have hfirst : first ∈ NavigationPredicate.over predicates navigation :=
        hover ▸ List.mem_cons_self
      obtain ⟨condition, -, rfl⟩ := List.mem_map.mp (List.mem_filter.mp hfirst).1
      obtain rfl : Staff.table = target := Option.some.inj htarget
      exact Staff.uniqueKeys)
  obtain rfl : true = b := Except.ok.inj hb
  refine ⟨_, rfl, rfl, ?_⟩
  obtain ⟨target, htarget, hholds⟩ := hiff.mp rfl "Manager" _ _ rfl
  obtain rfl : Staff.table = target := Option.some.inj htarget
  exact hholds

end SemiJoinCompiler

end ColumnQuery
