import ColumnQuery.Proofs.BatchedProjection
import ColumnQuery.Proofs.Include
import ColumnQuery.Proofs.Stream
import ColumnQuery.Query.Memory

/-! # Stages in memory

What a stage makes of values, it makes of them one by one: neither the pages of a batched
projection or an include nor the indexes of a resolver show in the values. The stages of a query
depend on the settings only in the sizes of their pages. -/

namespace ColumnQuery

/-! ## Stages on items -/

/-- What a stage makes of items, one by one, where a source answers for the navigations. -/
def MemoryStage.onItems (db : Database) (source : NavigationSource)
    (items : List (Except Error Value)) : MemoryStage → List (Except Error Value)
  | .filter predicate => filterItems (fun v => (predicate.test (some source) v).result) items
  | .select projection => items.map (· >>= fun v => (projection.apply (some source) v).result)
  | .selectBatched projection _ =>
    items.map (· >>= fun v => v.asEntity.result >>= projection.projected db.tables source)
  | .skip n => skipItems n items
  | .take n => items.take n
  | .including plan _ =>
    items.map (· >>= fun v => v.asEntity.result >>= fun e => .ok (plan.included db e).toValue)

/-- A page of entities that a stage pulls from a stream fails. -/
inductive MemoryStage.PageFails (db : Database) (s : Stream Value) (e : Error) :
    MemoryStage → Prop where
  | selectBatched {projection : BatchedProjection} {size : Nat} {page : List Entity}
      (hpage : ∀ x ∈ page, .ok x.toValue ∈ s.items)
      (h : (projection.projectPage db.tables db.source page).result = .error e) :
      PageFails db s e (.selectBatched projection size)
  | including {plan : IncludePlan} {size : Nat} {page : List Entity}
      (hpage : ∀ x ∈ page, .ok x.toValue ∈ s.items)
      (h : (plan.apply db page).result = .error e) : PageFails db s e (.including plan size)

/-- A page of one of several stages fails, which run one after the other. -/
def MemoryStage.AnyPageFails (db : Database) (e : Error) :
    Stream Value → List MemoryStage → Prop
  | _, [] => False
  | s, stage :: rest => stage.PageFails db s e ∨ AnyPageFails db e (stage.run db s) rest

variable {db : Database} {source : NavigationSource} {strict : Prop} {P : Error → Prop} {lax : Prop}
  {s : Stream Value} {ws : List (Except Error Value)}

theorem Value.eq_of_entity? {v : Value} {e : Entity} (h : v.entity? = some e) : v = e.toValue := by
  cases v with
  | entity type fields =>
      obtain rfl := Option.some.inj h
      rfl
  | _ => cases h

theorem Value.asEntity_eq_ok {v : Value} {e : Entity} (h : v.asEntity.result = .ok e) :
    v = e.toValue := by
  unfold asEntity at h
  split at h
  · rename_i x hx
    obtain rfl := Except.ok.inj h
    exact eq_of_entity? hx
  · cases h

/-- Pages of entities made of values are the values one by one. -/
theorem Tracks.pagedEntities {process : List Entity → Traced (List Value)}
    {g : Entity → Except Error Value} (hlax : ∀ e, P e ∨ lax)
    (hvalues : ∀ page values, (process page).result = .ok values →
      List.Forall₂ (fun e v => g e = .ok v) page values)
    (hfail : ∀ page : List Entity, (∀ x ∈ page, .ok x.toValue ∈ s.items) →
      ∀ e, (process page).result = .error e → P e)
    (size : Nat) (h : Tracks P lax Eq s.items ws) :
    Tracks P lax Eq ((s.map Value.asEntity).paged size process).items
      (ws.map (· >>= fun v => v.asEntity.result >>= g)) := by
  have hentities : Tracks P lax Eq (s.map Value.asEntity).items
      (ws.map (· >>= fun v => v.asEntity.result)) := by
    rw [Stream.items_map]
    refine h.map fun v w hvw => ?_
    subst hvw
    exact .refl hlax _
  have hpulled : ∀ x, .ok x ∈ (s.map Value.asEntity).items → .ok x.toValue ∈ s.items := by
    intro x hx
    rw [Stream.items_map] at hx
    obtain ⟨r, hr, hx⟩ := List.mem_map.mp hx
    obtain ⟨v, rfl, hv⟩ := bind_eq_ok_iff.mp hx
    exact Value.asEntity_eq_ok hv ▸ hr
  have hempty : ∀ x ∈ ([] : List Entity), .ok x.toValue ∈ s.items :=
    fun _ hx => absurd hx List.not_mem_nil
  have hpaged := pagedFrom hvalues hfail size hempty hpulled hentities
  simp only [List.map_map, Function.comp_def, bind_assoc] at hpaged
  exact hpaged

section

variable (hsource : ∀ x name, Follows strict (db.source x name) (source x name))
  (hP : ¬ strict → ∀ e, P e) (hlax : ∀ e, P e ∨ lax)

include hsource hP hlax

/-- A stage makes of a stream what it makes of the items that the stream tracks, where the failure
of a page is excused. -/
theorem MemoryStage.run_tracks {stage : MemoryStage} (hfail : ∀ e, stage.PageFails db s e → P e)
    (h : Tracks P lax Eq s.items ws) :
    Tracks P lax Eq (stage.run db s).items (stage.onItems db source ws) := by
  cases stage with
  | filter predicate =>
      rw [run, Stream.items_filter]
      refine h.filter fun v w hvw => ?_
      rw [hvw]
      exact (predicate.test_follows hsource w).agree hP hlax
  | select projection =>
      rw [run, Stream.items_map]
      refine h.map fun v w hvw => ?_
      rw [hvw]
      exact (projection.apply_follows hsource w).agree hP hlax
  | selectBatched projection size =>
      exact h.pagedEntities hlax (fun _ _ => projection.projectPage_spec hsource)
        (fun page hpage e he => hfail e (.selectBatched hpage he)) size
  | skip n =>
      rw [run, Stream.items_skip]
      exact h.skip n
  | take n =>
      rw [run, Stream.items_take]
      exact h.take n
  | including plan size =>
      refine h.pagedEntities hlax (fun page values hpage => ?_) (fun page hpage e he => ?_) size
      · rw [Traced.result_bind] at hpage
        obtain ⟨loaded, hloaded, hpage⟩ := bind_eq_ok_iff.mp hpage
        obtain rfl := Except.ok.inj hpage
        rw [IncludePlan.apply_spec hloaded, List.map_map, List.forall₂_map_right_iff]
        exact List.forall₂_same.mpr fun e _ => rfl
      · refine hfail e (.including hpage ?_)
        rw [Traced.result_bind] at he
        cases hloaded : (plan.apply db page).result with
        | ok loaded => simp [hloaded] at he
        | error e' =>
            rw [hloaded] at he
            exact congrArg _ (Except.error.inj he)

/-- The stages of a query, one after the other. -/
theorem MemoryStage.runAll_tracks {stages : List MemoryStage}
    (hfail : ∀ e, AnyPageFails db e s stages → P e) (h : Tracks P lax Eq s.items ws) :
    Tracks P lax Eq (stages.foldl (MemoryStage.run db) s).items
      (stages.foldl (MemoryStage.onItems db source) ws) := by
  induction stages generalizing s ws with
  | nil => exact h
  | cons stage stages ih =>
      exact ih (fun e he => hfail e (.inr he))
        (run_tracks hsource hP hlax (fun e he => hfail e (.inl he)) h)

end

/-! ## Settings -/

def MemoryStage.unpaged : MemoryStage → MemoryStage
  | .selectBatched projection _ => .selectBatched projection 0
  | .including plan _ => .including plan 0
  | stage => stage

theorem MemoryStage.onItems_unpaged (items : List (Except Error Value)) (stage : MemoryStage) :
    stage.unpaged.onItems db source items = stage.onItems db source items := by
  cases stage <;> rfl

/-- What stages make of items does not depend on the sizes of their pages. -/
theorem MemoryStage.foldl_onItems_congr {stages stages' : List MemoryStage}
    (h : stages.map unpaged = stages'.map unpaged) (items : List (Except Error Value)) :
    stages.foldl (onItems db source) items = stages'.foldl (onItems db source) items := by
  have hunpaged : ∀ stages : List MemoryStage,
      (stages.map unpaged).foldl (onItems db source) items =
        stages.foldl (onItems db source) items := by
    intro stages
    rw [List.foldl_map]
    simp only [onItems_unpaged]
  rw [← hunpaged, h, hunpaged]

namespace Engine

variable {settings settings' : Settings} {reducer : Option Reducer} {element : Option EntityType}
  {paths : List (List String)}

theorem includeStage_unpaged (rest : List QueryOp) :
    ((⟨db, settings⟩ : Engine).includeStage reducer element paths rest).map
        (List.map MemoryStage.unpaged) =
      ((⟨db, settings'⟩ : Engine).includeStage reducer element paths rest).map
        (List.map MemoryStage.unpaged) := by
  unfold includeStage
  split
  · rfl
  · split
    · rfl
    · cases IncludePlan.ofChains db.catalog _ paths <;> rfl

theorem selectStage_unpaged (projection : Expr) (rest : List QueryOp) :
    ((⟨db, settings⟩ : Engine).selectStage reducer element projection rest).map
        MemoryStage.unpaged =
      ((⟨db, settings'⟩ : Engine).selectStage reducer element projection rest).map
        MemoryStage.unpaged := by
  unfold selectStage
  split
  · cases BatchedProjection.ofLambda? db.catalog _ projection with
    | error e => rfl
    | ok batched => cases batched <;> rfl
  · rfl

/-- Results that agree without the sizes of pages agree so behind results that do. -/
theorem bind_unpaged_congr {x x' y y' : Except Error (List MemoryStage)}
    {z z' : Except Error MemoryStage}
    (hx : x.map (List.map MemoryStage.unpaged) = x'.map (List.map MemoryStage.unpaged))
    (hz : z.map MemoryStage.unpaged = z'.map MemoryStage.unpaged)
    (hy : y.map (List.map MemoryStage.unpaged) = y'.map (List.map MemoryStage.unpaged)) :
    (x >>= fun before => z >>= fun stage => y >>= fun stages =>
        (pure (before ++ stage :: stages) : Except Error _)).map (List.map MemoryStage.unpaged) =
      (x' >>= fun before => z' >>= fun stage => y' >>= fun stages =>
        (pure (before ++ stage :: stages) : Except Error _)).map
          (List.map MemoryStage.unpaged) := by
  cases x <;> cases x' <;> simp at hx
  · simp [hx]
  · cases z <;> cases z' <;> simp at hz
    · simp [hz]
    · cases y <;> cases y' <;> simp at hy
      · simp [hy]
      · simp [hx, hz, hy]

/-- Settings only show in the sizes of pages. -/
theorem memoryStages_unpaged (ops : List QueryOp) :
    ((⟨db, settings⟩ : Engine).memoryStages reducer element paths ops).map
        (List.map MemoryStage.unpaged) =
      ((⟨db, settings'⟩ : Engine).memoryStages reducer element paths ops).map
        (List.map MemoryStage.unpaged) := by
  have hstage : ∀ stage : MemoryStage, (Except.ok stage : Except Error _).map MemoryStage.unpaged =
      (Except.ok stage : Except Error _).map MemoryStage.unpaged := fun _ => rfl
  induction ops generalizing element paths with
  | nil => exact includeStage_unpaged []
  | cons op ops ih =>
      cases op with
      | including path => exact ih
      | filter predicate => exact bind_unpaged_congr (includeStage_unpaged _) (hstage _) ih
      | select projection =>
          exact bind_unpaged_congr (includeStage_unpaged _) (selectStage_unpaged projection ops) ih
      | skip n => exact bind_unpaged_congr (includeStage_unpaged _) (hstage _) ih
      | take n => exact bind_unpaged_congr (includeStage_unpaged _) (hstage _) ih

end Engine

end ColumnQuery
