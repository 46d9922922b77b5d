import ColumnQuery.Proofs.BatchedProjection
import ColumnQuery.Proofs.Include

/-! # Pages that succeed

Whether a page of entities succeeds is a matter of each of its entities: the page is loaded, or
projected, exactly if each of them would be alone on a page. -/

namespace ColumnQuery

variable {α β : Type}

/-- A result that is no failure. -/
def Completes (x : Except Error α) : Prop :=
  ∃ a, x = .ok a

theorem Completes.ok (a : α) : Completes (.ok a : Except Error α) :=
  ⟨a, rfl⟩

theorem completes_bind_iff {x : Except Error α} {f : α → Except Error β} :
    Completes (x >>= f) ↔ ∃ a, x = .ok a ∧ Completes (f a) := by
  cases x with
  | ok a => simp [Completes]
  | error e => simp [Completes]

/-- What is made of a result without failing completes with the result. -/
theorem completes_bind_ok_iff {x : Except Error α} {f : α → β} :
    Completes (x >>= fun a => .ok (f a)) ↔ Completes x := by
  rw [completes_bind_iff]
  exact ⟨fun ⟨a, h, _⟩ => ⟨a, h⟩, fun ⟨a, h⟩ => ⟨a, h, .ok _⟩⟩

/-! ## Included navigations -/

namespace JoinPlan

variable {j : JoinPlan} {t : Table} {keys : List Int}

/-- The target rows of a key can be loaded. -/
def LoadsKey (j : JoinPlan) (db : Database) (key : Int) : Prop :=
  ∃ t, db.tables.table j.target.table = .ok t ∧
    ∀ h ∈ t.handles, ∃ key?, t.readKey h j.targetKey.field = .ok key? ∧
      (key? = some key → Completes (j.target.materialize db.factory t h).result)

theorem loadRows_completes_iff {factory : EntityFactory} {rows : List RowHandle} :
    Completes (j.loadRows factory t keys rows).result ↔
      ∀ h ∈ rows, ∃ key?, t.readKey h j.targetKey.field = .ok key? ∧
        ∀ key ∈ keys, key? = some key → Completes (j.target.materialize factory t h).result := by
  induction rows with
  | nil => exact iff_of_true (.ok _) fun _ h => absurd h List.not_mem_nil
  | cons row rows ih =>
      rw [List.forall_mem_cons, ← ih, loadRows]
      simp only [Traced.result_bind, Traced.result_ofResult, Traced.emit, ok_bind]
      rw [completes_bind_iff]
      have hrest : ∀ found : LoadedRows, Completes (do
          let found ← pure found
          let others ← j.loadRows factory t keys rows
          pure (found ++ others) : Traced LoadedRows).result ↔
            Completes (j.loadRows factory t keys rows).result := by
        intro found
        simp only [Traced.result_bind, Traced.result_pure, ok_bind]
        exact completes_bind_ok_iff
      constructor
      · rintro ⟨key?, hkey, h⟩
        cases key? with
        | none => exact ⟨⟨none, hkey, fun _ _ h => by cases h⟩, (hrest []).mp h⟩
        | some key =>
            dsimp only at h
            split at h
            · rw [Traced.result_bind, completes_bind_iff] at h
              obtain ⟨e, he, h⟩ := h
              exact ⟨⟨some key, hkey, fun _ _ _ => ⟨e, he⟩⟩, (hrest _).mp h⟩
            · rename_i hmem
              refine ⟨⟨some key, hkey, fun k hk heq => ?_⟩, (hrest []).mp h⟩
              exact absurd (Option.some.inj heq ▸ List.contains_iff_mem.mpr hk) hmem
      · rintro ⟨⟨key?, hkey, hload⟩, h⟩
        refine ⟨key?, hkey, ?_⟩
        cases key? with
        | none => exact (hrest []).mpr h
        | some key =>
            dsimp only
            split
            · rename_i hmem
              obtain ⟨e, he⟩ := hload key (List.contains_iff_mem.mp hmem) rfl
              rw [Traced.result_bind, completes_bind_iff]
              exact ⟨e, he, (hrest _).mpr h⟩
            · exact (hrest []).mpr h

variable {db : Database}

/-- Loading completes if the rows of every key can be loaded. -/
theorem loadFor_completes_iff {holders : List Entity} :
    Completes (j.loadFor db holders).result ↔
      ∀ e ∈ holders, ∀ key ∈ e.rootKeys j, j.LoadsKey db key := by
  rw [← List.forall_mem_flatMap, loadFor]
  generalize holders.flatMap (·.rootKeys j) = keys
  cases keys with
  | nil => exact iff_of_true (.ok _) fun _ h => absurd h List.not_mem_nil
  | cons first keys =>
      rw [if_neg (by simp), Traced.result_bind, completes_bind_iff]
      simp only [Traced.result_ofResult, loadRows_completes_iff]
      constructor
      · rintro ⟨t, ht, h⟩ key hkey
        refine ⟨t, ht, fun row hrow => ?_⟩
        obtain ⟨key?, hread, hload⟩ := h row hrow
        exact ⟨key?, hread, hload key hkey⟩
      · intro h
        obtain ⟨t, ht, hfirst⟩ := h first List.mem_cons_self
        refine ⟨t, ht, fun row hrow => ?_⟩
        obtain ⟨key?, hread, -⟩ := hfirst row hrow
        refine ⟨key?, hread, fun key hkey hsome => ?_⟩
        obtain ⟨t', ht', hrows⟩ := h key hkey
        obtain rfl := Except.ok.inj (ht.symm.trans ht')
        obtain ⟨key?', hread', hload⟩ := hrows row hrow
        obtain rfl := Except.ok.inj (hread.symm.trans hread')
        exact hload hsome

end JoinPlan

namespace IncludePlan

variable {db : Database}

/-- The last navigation of a path is loaded into a page if it can be loaded into each entity. -/
theorem loadPath_completes_iff {path : IncludePath} {page : List Entity} :
    Completes (loadPath db path page).result ↔
      ∀ e ∈ page, Completes (loadPath db path [e]).result := by
  unfold loadPath
  cases path.getLast? with
  | none => exact iff_of_true (.ok _) fun _ _ => .ok _
  | some j =>
      have hload : ∀ page : List Entity, Completes (do
          let loaded ← j.loadFor db (page.flatMap (·.reached path.dropLast))
          return page.map (·.mapReached (fun e => e.set j.navigation (j.valueOn loaded e))
            path.dropLast) : Traced (List Entity)).result ↔
          ∀ e ∈ page, ∀ x ∈ e.reached path.dropLast, ∀ key ∈ x.rootKeys j, j.LoadsKey db key := by
        intro page
        rw [← List.forall_mem_flatMap, ← JoinPlan.loadFor_completes_iff, Traced.result_bind]
        exact completes_bind_ok_iff
      refine (hload page).trans (forall₂_congr fun e _ => ?_)
      rw [hload [e], List.forall_mem_singleton]

theorem loadPaths_completes_iff {paths : List IncludePath} {page : List Entity} :
    Completes (loadPaths db paths page).result ↔
      ∀ e ∈ page, Completes (loadPaths db paths [e]).result := by
  induction paths generalizing page with
  | nil => exact iff_of_true (.ok _) fun _ _ => .ok _
  | cons path paths ih =>
      have hcons : ∀ page : List Entity, Completes (loadPaths db (path :: paths) page).result ↔
          ∀ e ∈ page, Completes (loadPath db path [e]).result ∧
            Completes (loadPaths db paths [db.withPath path e]).result := by
        intro page
        rw [loadPaths, Traced.result_bind, completes_bind_iff, forall₂_and,
          ← loadPath_completes_iff]
        constructor
        · rintro ⟨page', hpage', h⟩
          obtain rfl := loadPath_spec hpage'
          rw [ih, List.forall_mem_map] at h
          exact ⟨⟨_, hpage'⟩, h⟩
        · rintro ⟨⟨page', hpage'⟩, h⟩
          obtain rfl := loadPath_spec hpage'
          refine ⟨_, hpage', ?_⟩
          rw [ih, List.forall_mem_map]
          exact h
      refine (hcons page).trans (forall₂_congr fun e _ => ?_)
      rw [hcons [e], List.forall_mem_singleton]

/-- A page is loaded if each of its entities can be. -/
theorem apply_completes_iff {plan : IncludePlan} {page : List Entity} :
    Completes (plan.apply db page).result ↔ ∀ e ∈ page, Completes (plan.apply db [e]).result :=
  loadPaths_completes_iff

end IncludePlan

/-! ## Batched projections -/

namespace BatchedProjection

variable {p : BatchedProjection} {j : JoinPlan} {t : Table} {reads : List BoundRead}
  {keys : List Int} {tables : TableSet}

/-- A scan completes if the keys of all rows can be read, and the first row of each key that is not
found yet. -/
theorem findRows_completes_iff {rows : List RowHandle} {found : FoundRows} :
    Completes (findRows j t reads keys rows found).result ↔
      (∀ h ∈ rows, Completes (t.readKey h j.targetKey.field)) ∧
        ∀ key ∈ keys, found.lookup key = none → ∀ h,
          (t.keyIndex j.targetKey.field (fun _ => true) rows).lookup key = some h →
            Completes (readRow t h j.target reads) := by
  induction rows generalizing found with
  | nil =>
      refine iff_of_true (.ok _) ⟨fun _ h => absurd h List.not_mem_nil, ?_⟩
      intro key _ _ h hlookup
      cases hlookup
  | cons row rows ih =>
      rw [findRows, List.forall_mem_cons, Table.keyIndex, List.filterMap_cons]
      simp only [Traced.result_bind, Traced.result_ofResult, Traced.emit, ok_bind]
      cases hread : t.readKey row j.targetKey.field with
      | error e => simp [Completes]
      | ok key? =>
          rw [ok_bind, and_iff_right (Completes.ok key?)]
          cases key? with
          | none => exact ih
          | some k =>
              have hhead : (Option.filter (fun _ => true)
                  (Except.ok (some k) : Except Error (Option Int)).toOption.join).map (·, row) =
                    some (k, row) := rfl
              rw [hhead]
              have hlookup : ∀ (key : Int) (index : KeyIndex), List.lookup key ((k, row) :: index) =
                  if key = k then some row else index.lookup key := by
                intro key index
                rw [List.lookup_cons]
                by_cases hk : key = k
                · rw [hk, beq_self_eq_true, if_pos rfl]
                · rw [beq_false_of_ne hk, if_neg hk]
              simp only [hlookup]
              split
              · rename_i hnew
                obtain ⟨hk, hnone⟩ : k ∈ keys ∧ found.lookup k = none := by simpa using hnew
                have happend : ∀ (values : List (String × Value)) (key : Int),
                    (found ++ [(k, values)]).lookup key = none ↔
                      found.lookup key = none ∧ key ≠ k := by
                  intro values key
                  rw [List.lookup_append, Option.or_eq_none_iff, List.lookup_cons]
                  by_cases hkey : key = k
                  · simp [hkey]
                  · simp [beq_false_of_ne hkey, hkey]
                rw [Traced.result_bind, completes_bind_iff]
                simp only [ih, happend, Traced.result_ofResult]
                constructor
                · rintro ⟨values, hvalues, hreads, h⟩
                  refine ⟨hreads, fun key hkey hfound h' => ?_⟩
                  split
                  · intro hrow
                    obtain rfl := Option.some.inj hrow
                    exact ⟨values, hvalues⟩
                  · rename_i hne
                    exact h key hkey ⟨hfound, hne⟩ h'
                · rintro ⟨hreads, h⟩
                  obtain ⟨values, hvalues⟩ := h k hk hnone row (if_pos rfl)
                  refine ⟨values, hvalues, hreads, fun key hkey hfound h' hlookup => ?_⟩
                  exact h key hkey hfound.1 h' ((if_neg hfound.2).trans hlookup)
              · rename_i hold
                have hold : ∀ key ∈ keys, found.lookup key = none → key ≠ k := by
                  rintro key hkey hnone rfl
                  exact hold (by simp [hkey, hnone])
                rw [ih]
                refine and_congr_right fun _ => forall₃_congr fun key hkey hnone => ?_
                rw [if_neg (hold key hkey hnone)]
                rfl

/-- The first target row of a key can be found and read. -/
def FindsKey (p : BatchedProjection) (tables : TableSet) (j : JoinPlan) (key : Int) : Prop :=
  ∃ t, tables.table j.target.table = .ok t ∧
    (∀ h ∈ t.handles, Completes (t.readKey h j.targetKey.field)) ∧
      ∀ h, (t.keyIndex j.targetKey.field (fun _ => true) t.handles).lookup key = some h →
        Completes (readRow t h j.target (p.reads.filter (·.navigation == j.navigation)))

theorem findFor_completes_iff {page : List Entity} :
    Completes (p.findFor tables page j).result ↔
      ∀ root ∈ page, ∀ key, keyOf? j root = some key → p.FindsKey tables j key := by
  have hkeys : (∀ root ∈ page, ∀ key, keyOf? j root = some key → p.FindsKey tables j key) ↔
      ∀ key ∈ page.filterMap (keyOf? j), p.FindsKey tables j key := by
    simp only [List.mem_filterMap, forall_exists_index, and_imp]
    exact ⟨fun h key root hroot hkey => h root hroot key hkey,
      fun h root hroot key hkey => h key root hroot hkey⟩
  rw [hkeys, findFor]
  generalize page.filterMap (keyOf? j) = keys
  cases keys with
  | nil => exact iff_of_true (.ok _) fun _ h => absurd h List.not_mem_nil
  | cons first keys =>
      rw [if_neg (by simp), Traced.result_bind, completes_bind_iff]
      simp only [Traced.result_ofResult, findRows_completes_iff, List.lookup_nil, true_implies]
      constructor
      · rintro ⟨t, ht, hreads, h⟩ key hkey
        exact ⟨t, ht, hreads, h key hkey⟩
      · intro h
        obtain ⟨t, ht, hreads, -⟩ := h first List.mem_cons_self
        refine ⟨t, ht, hreads, fun key hkey => ?_⟩
        obtain ⟨t', ht', -, hread⟩ := h key hkey
        obtain rfl := Except.ok.inj (ht.symm.trans ht')
        exact hread

theorem findAll_completes_iff {page : List Entity} {navigations : List JoinPlan} :
    Completes (p.findAll tables page navigations).result ↔
      ∀ j ∈ navigations, Completes (p.findFor tables page j).result := by
  induction navigations with
  | nil => exact iff_of_true (.ok _) fun _ h => absurd h List.not_mem_nil
  | cons j navigations ih =>
      rw [findAll, List.forall_mem_cons, ← ih, Traced.result_bind, completes_bind_iff]
      simp only [Traced.result_bind, Traced.result_pure]
      constructor
      · rintro ⟨found, hfound, h⟩
        exact ⟨⟨found, hfound⟩, completes_bind_ok_iff.mp h⟩
      · rintro ⟨⟨found, hfound⟩, h⟩
        exact ⟨found, hfound, completes_bind_ok_iff.mpr h⟩

/-- A page is projected exactly if the rows behind each of its roots can be found, and to the values
of its roots one by one. -/
theorem projectPage_eq_ok_iff {source : Option NavigationSource} {page : List Entity}
    {values : List Value} :
    (p.projectPage tables source page).result = .ok values ↔
      (∀ root ∈ page, ∀ j ∈ p.navigations, ∀ key, keyOf? j root = some key →
        p.FindsKey tables j key) ∧
        List.Forall₂ (fun root v => (p.body.eval source (p.boundScope tables root)).result = .ok v)
          page values := by
  have hfind : Completes (p.findAll tables page p.navigations).result ↔
      ∀ root ∈ page, ∀ j ∈ p.navigations, ∀ key, keyOf? j root = some key →
        p.FindsKey tables j key := by
    simp only [findAll_completes_iff, findFor_completes_iff]
    exact ⟨fun h root hroot j hj => h j hj root hroot, fun h j hj root hroot => h root hroot j hj⟩
  rw [← hfind, projectPage, Traced.result_bind]
  constructor
  · intro h
    obtain ⟨all, hall, h⟩ := bind_eq_ok_iff.mp h
    exact ⟨⟨all, hall⟩, (projectRoots_eq_ok_iff fun root hroot => scopeOf_eq hall hroot).mp h⟩
  · rintro ⟨⟨all, hall⟩, h⟩
    rw [hall, ok_bind]
    exact (projectRoots_eq_ok_iff fun root hroot => scopeOf_eq hall hroot).mpr h

theorem exists_forall₂_iff {R : α → β → Prop} {page : List α} :
    (∃ values, List.Forall₂ R page values) ↔ ∀ a ∈ page, ∃ b, R a b := by
  induction page with
  | nil => exact iff_of_true ⟨[], .nil⟩ fun _ h => absurd h List.not_mem_nil
  | cons a page ih =>
      rw [List.forall_mem_cons, ← ih]
      constructor
      · rintro ⟨_, hvalues⟩
        obtain ⟨b, values, hb, hrest, rfl⟩ := List.forall₂_cons_left_iff.mp hvalues
        exact ⟨⟨b, hb⟩, values, hrest⟩
      · rintro ⟨⟨b, hb⟩, values, hrest⟩
        exact ⟨b :: values, .cons hb hrest⟩

/-- A page is projected if each of its roots can be. -/
theorem projectPage_completes_iff {source : Option NavigationSource} {page : List Entity} :
    Completes (p.projectPage tables source page).result ↔
      ∀ root ∈ page, Completes (p.projectPage tables source [root]).result := by
  simp only [Completes, projectPage_eq_ok_iff, exists_and_left, exists_forall₂_iff,
    List.forall_mem_singleton]
  exact forall₂_and.symm

end BatchedProjection

end ColumnQuery
