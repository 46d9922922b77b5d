import ColumnQuery.Proofs.ExecutionTiers
import ColumnQuery.Proofs.LoadedPaths

/-! # Includes over a whole query

Paths that are included directly one after the other are loaded together; a filter, a skip or a take
between them parts them into groups. A group loads its first navigations anew, so an entity of the
result carries a path exactly if the path is in the last group that loads its first navigation. -/

namespace ColumnQuery

/-! ## Groups of included paths -/

/-- Paths that are included directly one after the other. -/
abbrev IncludeGroup := List (List String)

/-- The groups of a query, behind some paths that were included directly before. -/
def includeGroups (paths : List (List String)) : List QueryOp → List IncludeGroup
  | [] => if paths.isEmpty then [] else [paths]
  | .including path :: rest => includeGroups (paths ++ [path]) rest
  | _ :: rest => (if paths.isEmpty then [] else [paths]) ++ includeGroups [] rest

/-- A path of the group begins with the path, so that the group loads it. -/
def IncludeGroup.Loads (group : IncludeGroup) (path : List String) : Prop :=
  ∃ chain ∈ group, path <+: chain

/-- The last group that loads the first navigation of the path loads the path. -/
def KeptBy (groups : List IncludeGroup) (path : List String) : Prop :=
  ∃ before group after, groups = before ++ group :: after ∧ group.Loads path ∧
    ∀ later ∈ after, ¬ later.Loads (path.take 1)

/-- What the entities at the end of the names hold at a navigation. -/
def Entity.held (e : Entity) (start : List String) (navigation : String) : List (Option Value) :=
  (e.follow start).map (·.get? navigation)

/-- What is at the end of a path depends on nothing but its first navigation. -/
theorem Entity.held_congr {e e' : Entity} {start : List String} {navigation first : String}
    (hfirst : (start ++ [navigation]).head? = some first) (h : e.get? first = e'.get? first) :
    e.held start navigation = e'.held start navigation := by
  cases start with
  | nil =>
      obtain rfl : navigation = first := by simpa using hfirst
      simp [held, follow, h]
  | cons name start =>
      obtain rfl : name = first := by simpa using hfirst
      simp only [held, follow, h]

/-- A factory makes entities on which no navigation is loaded. -/
def EntityFactory.Bare (factory : EntityFactory) (c : Catalog) : Prop :=
  ∀ e ∈ c.entities, ∀ n ∈ e.navigations, (factory e).get? n.name = none

/-- An output yields the entity, in a sequence or as its one value. -/
def QueryOutput.Yields (x : Entity) : QueryOutput → Prop
  | .rows _ values => .ok x.toValue ∈ values.items
  | .scalar v => v = x.toValue

/-! ## One group -/

namespace IncludePlan

variable {db : Database} {plan : IncludePlan} {root : EntityType} {path : IncludePath}
  {j : JoinPlan} {e : Entity}

/-- Entities behind a navigation that a plan loads, with the paths behind it loaded into them. -/
theorem follow_included (hc : db.catalog.Sound) (hroot : root ∈ db.catalog.entities)
    (hplan : plan.Ordered db.catalog root.name) (hj : [j] ∈ plan.paths) (rest : List String) :
    (plan.included db e).follow (j.navigation :: rest) =
      (j.valueOn (j.loadableRows db) e).entities.flatMap fun x =>
        ((plan.under j).included db x).follow rest := by
  rw [Entity.follow, included_get? hc hroot hplan hj]
  dsimp only
  rw [Value.entities_mapEntities, List.flatMap_map]

/-- A plan loads its paths into every entity on the way. -/
theorem included_carries (hc : db.catalog.Sound) (hroot : root ∈ db.catalog.entities)
    (hplan : plan.Ordered db.catalog root.name) (hpath : path ++ [j] ∈ plan.paths) :
    ∀ held ∈ (plan.included db e).held path.names j.navigation, held.isSome = true := by
  rw [Entity.held, List.forall_mem_map]
  induction path generalizing plan root e with
  | nil =>
      intro x hx
      obtain rfl := List.mem_singleton.mp hx
      rw [included_get? hc hroot hplan hpath]
      rfl
  | cons k path ih =>
      have hk : [k] ∈ plan.paths := hplan.head_mem hpath
      have htarget := (hc.planned k ((hplan.walks [k] hk).last_mem rfl)).target
      intro x hx
      rw [IncludePath.names_cons, follow_included hc hroot hplan hk, List.mem_flatMap] at hx
      obtain ⟨y, -, hx⟩ := hx
      exact ih htarget (hplan.under k) (mem_under.mpr hpath) x hx

/-- A navigation that a plan does not load keeps its value. -/
theorem included_unloaded (hplan : plan.Ordered db.catalog root.name)
    (hj : db.catalog.join? root.name j.navigation = some j) (hnot : [j] ∉ plan.paths) :
    (plan.included db e).get? j.navigation = e.get? j.navigation := by
  refine included_get?_of_ne fun k rest hk hname => hnot ?_
  obtain ⟨hkwalk, -⟩ := hplan.walks _ hk
  rw [← hname, hj] at hkwalk
  obtain rfl := Option.some.inj hkwalk
  exact hplan.head_mem hk

/-- No navigation is loaded on an entity that is made of a row. -/
theorem unloaded_of_materialize (hbare : db.factory.Bare db.catalog) (hc : db.catalog.Sound)
    (hroot : root ∈ db.catalog.entities) {t : Table} {h : RowHandle}
    (he : (root.materialize db.factory t h).result = .ok e)
    (hj : db.catalog.join? root.name j.navigation = some j) : e.get? j.navigation = none := by
  have hr : root.readMembers t h root.members (db.factory root) = .ok e := he
  obtain ⟨n, hn, hname⟩ := (hc.planned j (Catalog.join?_spec hj).1).navigation
  rw [hc.join_root hroot hj] at hn
  rw [(EntityType.readMembers_others hr).2 _ (hc.navigation_not_member hroot hj), ← hname]
  exact hbare root hroot n hn

/-- Where a plan loads the first navigation of a path but not the path, no entity on the way has
what is at its end: the first navigation yields entities that are made of rows. -/
theorem included_lacks (hbare : db.factory.Bare db.catalog) (hc : db.catalog.Sound)
    (hroot : root ∈ db.catalog.entities) (hplan : plan.Ordered db.catalog root.name) {k : JoinPlan}
    (hk : [k] ∈ plan.paths) (hwalk : IncludePath.From db.catalog root.name (k :: path ++ [j]))
    (hnot : k :: path ++ [j] ∉ plan.paths) :
    ∀ held ∈ (plan.included db e).held (IncludePath.names (k :: path)) j.navigation,
      held = none := by
  rw [Entity.held, List.forall_mem_map]
  induction path generalizing plan root e k with
  | nil =>
      intro x hx
      rw [IncludePath.names_cons, follow_included hc hroot hplan hk, List.mem_flatMap] at hx
      obtain ⟨y, hy, hx⟩ := hx
      obtain rfl := List.mem_singleton.mp hx
      obtain ⟨hkwalk, hjwalk, -⟩ := hwalk
      obtain ⟨t, h, hmade⟩ := JoinPlan.mem_entities_valueOn hy
      have htarget := (hc.planned k (Catalog.join?_spec hkwalk).1).target
      rw [included_unloaded (hplan.under k) hjwalk fun hj => hnot (mem_under.mp hj)]
      exact unloaded_of_materialize hbare hc htarget hmade hjwalk
  | cons l path ih =>
      intro x hx
      rw [IncludePath.names_cons, follow_included hc hroot hplan hk, List.mem_flatMap] at hx
      obtain ⟨y, hy, hx⟩ := hx
      obtain ⟨hkwalk, hwalk⟩ := hwalk
      have htarget := (hc.planned k (Catalog.join?_spec hkwalk).1).target
      by_cases hl : [l] ∈ (plan.under k).paths
      · exact ih htarget (hplan.under k) hl hwalk (fun hj => hnot (mem_under.mp hj)) x hx
      · -- Nothing is reached, since the entities that are made of rows have no navigation loaded.
        obtain ⟨t, h, hmade⟩ := JoinPlan.mem_entities_valueOn hy
        rw [IncludePath.names_cons, Entity.follow, included_unloaded (hplan.under k) hwalk.1 hl,
          unloaded_of_materialize hbare hc htarget hmade hwalk.1] at hx
        cases hx

/-! ## A group by the names of its paths -/

variable {group : IncludeGroup} {start : List String} {navigation : String}

/-- Names along which a group leads are those of a path over the joins of the catalog. -/
theorem Plans.exists_path {c : Catalog} {name : String} {paths : List IncludePath}
    (hp : Plans c name group paths) (h : group.Loads (start ++ [navigation])) :
    ∃ (path : IncludePath) (j : JoinPlan), IncludePath.From c name (path ++ [j]) ∧
      path.names = start ∧ j.navigation = navigation := by
  obtain ⟨chain, hchain, hprefix⟩ := h
  obtain ⟨walk, hwalk, rfl⟩ := hp.walk chain hchain
  obtain ⟨path, hpath, hnames⟩ := List.prefix_map_iff.mp hprefix
  obtain ⟨path, last, rfl, hstart, hlast⟩ := List.map_eq_append_iff.mp hnames.symm
  obtain ⟨j, rfl, hj⟩ := List.map_eq_singleton_iff.mp hlast
  exact ⟨path, j, hwalk.of_prefix hpath, hstart, hj⟩

/-- A plan has the paths that its group loads. -/
theorem Plans.mem_iff_loads {c : Catalog} {name : String} {paths : List IncludePath}
    (hp : Plans c name group paths) (path : IncludePath) {j : JoinPlan}
    (hwalk : IncludePath.From c name (path ++ [j])) :
    path ++ [j] ∈ paths ↔ group.Loads (path.names ++ [j.navigation]) := by
  rw [hp.mem_iff, IncludePath.names_append]
  exact ⟨fun h => h.2.2, fun h => ⟨by simp, hwalk, h⟩⟩

end IncludePlan

/-! ## Groups one after the other -/

section

variable {db : Database} {root : EntityType} {groups : List IncludeGroup}
  {plans : List IncludePlan} {path : IncludePath} {j k : JoinPlan}

/-- The first navigation of a path and its name. -/
theorem IncludePath.exists_first (path : IncludePath) (j : JoinPlan) :
    ∃ k rest, path ++ [j] = k :: rest ∧
      (path.names ++ [j.navigation]).head? = some k.navigation ∧
      (path.names ++ [j.navigation]).take 1 = [k.navigation] := by
  cases path with
  | nil => exact ⟨j, [], rfl, rfl, rfl⟩
  | cons k path => exact ⟨k, path ++ [j], rfl, rfl, rfl⟩

/-- An entity with the paths of several plans loaded, one plan after the other. -/
def Database.loadedBy (db : Database) (plans : List IncludePlan) (e : Entity) : Entity :=
  plans.foldl (fun e plan => plan.included db e) e

theorem Database.loadedBy_cons (db : Database) (plan : IncludePlan) (plans : List IncludePlan)
    (e : Entity) : db.loadedBy (plan :: plans) e = db.loadedBy plans (plan.included db e) := rfl

theorem KeptBy.cons {groups : List IncludeGroup} {path : List String} (h : KeptBy groups path)
    (group : IncludeGroup) : KeptBy (group :: groups) path := by
  obtain ⟨before, kept, after, rfl, hloads, hlater⟩ := h
  exact ⟨group :: before, kept, after, rfl, hloads, hlater⟩

variable (hc : db.catalog.Sound) (hroot : root ∈ db.catalog.entities)
  (hplans : List.Forall₂ (fun group plan => IncludePlan.ofChains db.catalog root group = .ok plan)
    groups plans)

include hplans

theorem Database.loadedBy_unloaded (hk : db.catalog.join? root.name k.navigation = some k)
    (hnot : ∀ group ∈ groups, ¬ group.Loads [k.navigation]) (e : Entity) :
    (db.loadedBy plans e).get? k.navigation = e.get? k.navigation := by
  induction hplans generalizing e with
  | nil => rfl
  | cons hplan _ ih =>
      obtain ⟨hgroup, hnot⟩ := List.forall_mem_cons.mp hnot
      obtain ⟨hp, hordered⟩ := IncludePlan.ofChains_spec hplan
      refine (ih hnot _).trans (IncludePlan.included_unloaded hordered hk fun hmem => hgroup ?_)
      exact (hp.mem_iff_loads [] ⟨hk, trivial⟩).mp hmem

include hc hroot

/-- A path that is kept is loaded on every entity on the way. -/
theorem Database.loadedBy_carries (hwalk : IncludePath.From db.catalog root.name (path ++ [j]))
    (hkept : KeptBy groups (path.names ++ [j.navigation])) (e : Entity) :
    ∀ held ∈ (db.loadedBy plans e).held path.names j.navigation, held.isSome = true := by
  induction hplans generalizing e with
  | nil =>
      obtain ⟨before, group, after, hempty, -⟩ := hkept
      simp at hempty
  | @cons group plan groups plans hplan hplans ih =>
      obtain ⟨before, kept, after, hgroups, hloads, hlater⟩ := hkept
      cases before with
      | cons _ before =>
          obtain ⟨rfl, rfl⟩ := List.cons.inj hgroups
          exact ih ⟨before, kept, after, rfl, hloads, hlater⟩ _
      | nil =>
          obtain ⟨rfl, rfl⟩ := List.cons.inj hgroups
          obtain ⟨k, rest, hfirst, hhead, htake⟩ := path.exists_first j
          obtain ⟨hp, hordered⟩ := IncludePlan.ofChains_spec hplan
          have hmem : path ++ [j] ∈ plan.paths := (hp.mem_iff_loads _ hwalk).mpr hloads
          have hk : db.catalog.join? root.name k.navigation = some k := (hfirst ▸ hwalk).1
          rw [db.loadedBy_cons, Entity.held_congr hhead
            (Database.loadedBy_unloaded hplans hk (htake ▸ hlater) (plan.included db e))]
          exact IncludePlan.included_carries hc hroot hordered hmem

/-- A path that is loaded and not kept is missing from every entity on the way. -/
theorem Database.loadedBy_lacks (hbare : db.factory.Bare db.catalog)
    (hwalk : IncludePath.From db.catalog root.name (path ++ [j]))
    (hloads : ∃ group ∈ groups, group.Loads ((path.names ++ [j.navigation]).take 1))
    (hkept : ¬ KeptBy groups (path.names ++ [j.navigation])) (e : Entity) :
    ∀ held ∈ (db.loadedBy plans e).held path.names j.navigation, held = none := by
  induction hplans generalizing e with
  | nil => simp at hloads
  | @cons group plan groups plans hplan hplans ih =>
      by_cases hlater : ∃ later ∈ groups, later.Loads ((path.names ++ [j.navigation]).take 1)
      · exact ih hlater (fun h => hkept (h.cons group)) _
      · have hlater : ∀ later ∈ groups, ¬ later.Loads ((path.names ++ [j.navigation]).take 1) :=
          fun later hl hloads => hlater ⟨later, hl, hloads⟩
        have hgroup : ¬ group.Loads (path.names ++ [j.navigation]) := fun h =>
          hkept ⟨[], group, groups, rfl, h, hlater⟩
        have hfirstLoads : group.Loads ((path.names ++ [j.navigation]).take 1) := by
          obtain ⟨g, hg, hloads⟩ := hloads
          rcases List.mem_cons.mp hg with rfl | hg
          · exact hloads
          · exact absurd hloads (hlater g hg)
        obtain ⟨hp, hordered⟩ := IncludePlan.ofChains_spec hplan
        cases path with
        | nil => exact absurd hfirstLoads hgroup
        | cons k path =>
            have hk : db.catalog.join? root.name k.navigation = some k := hwalk.1
            have hhead : (IncludePath.names (k :: path) ++ [j.navigation]).head? =
                some k.navigation := rfl
            rw [db.loadedBy_cons, Entity.held_congr hhead
              (Database.loadedBy_unloaded hplans hk hlater (plan.included db e))]
            exact IncludePlan.included_lacks hbare hc hroot hordered
              ((hp.mem_iff_loads [] ⟨hk, trivial⟩).mpr hfirstLoads) hwalk
              fun hmem => hgroup ((hp.mem_iff_loads _ hwalk).mp hmem)

end

/-! ## Stages -/

/-- What some stages yield are entities from before them, with the paths of plans loaded. -/
def MemoryStage.Load (db : Database) (stages : List MemoryStage) (plans : List IncludePlan) :
    Prop :=
  ∀ (s : Stream Value) (x : Entity), .ok x.toValue ∈ (stages.foldl (MemoryStage.run db) s).items →
    ∃ y : Entity, .ok y.toValue ∈ s.items ∧ x = db.loadedBy plans y

namespace MemoryStage

variable {db : Database}

theorem Load.nil (db : Database) : Load db [] [] :=
  fun _ x hx => ⟨x, hx, rfl⟩

theorem Load.append {before after : List MemoryStage} {plans plans' : List IncludePlan}
    (h : Load db before plans) (h' : Load db after plans') :
    Load db (before ++ after) (plans ++ plans') := by
  intro s x hx
  rw [List.foldl_append] at hx
  obtain ⟨y, hy, rfl⟩ := h' _ x hx
  obtain ⟨z, hz, rfl⟩ := h s y hy
  exact ⟨z, hz, (List.foldl_append ..).symm⟩

theorem Load.filter (predicate : Expr) : Load db [.filter predicate] [] := by
  intro s x hx
  rw [List.foldl_cons, List.foldl_nil, run, Stream.items_filter] at hx
  exact ⟨x, Stream.mem_of_mem_filterItems hx, rfl⟩

theorem Load.skip (n : Nat) : Load db [.skip n] [] := by
  intro s x hx
  rw [List.foldl_cons, List.foldl_nil, run, Stream.items_skip] at hx
  exact ⟨x, Stream.mem_of_mem_skipItems hx, rfl⟩

theorem Load.take (n : Nat) : Load db [.take n] [] := by
  intro s x hx
  rw [List.foldl_cons, List.foldl_nil, run, Stream.items_take] at hx
  exact ⟨x, List.mem_of_mem_take hx, rfl⟩

/-- A page yields its entities with the paths loaded. -/
theorem Load.including (plan : IncludePlan) (size : Nat) :
    Load db [.including plan size] [plan] := by
  intro s x hx
  obtain ⟨page, values, hpage, hresult, hx⟩ := Stream.mem_items_paged hx
  rw [Traced.result_bind] at hresult
  obtain ⟨loaded, hloaded, hresult⟩ := bind_eq_ok_iff.mp hresult
  obtain rfl := Except.ok.inj hresult
  rw [IncludePlan.apply_spec hloaded, List.map_map, List.mem_map] at hx
  obtain ⟨y, hy, hx⟩ := hx
  have hpulled := hpage y hy
  rw [Stream.items_map] at hpulled
  obtain ⟨item, hitem, hpulled⟩ := List.mem_map.mp hpulled
  obtain ⟨v, rfl, hv⟩ := bind_eq_ok_iff.mp hpulled
  exact ⟨y, Value.asEntity_eq_ok hv ▸ hitem, (Entity.toValue_inj hx).symm⟩

end MemoryStage

/-- The stages load some groups one after the other, each by the plan for it. -/
def Engine.LoadGroups (e : Engine) (root : EntityType) (stages : List MemoryStage)
    (groups : List IncludeGroup) : Prop :=
  ∃ plans, List.Forall₂ (fun group plan => IncludePlan.ofChains e.db.catalog root group = .ok plan)
    groups plans ∧ MemoryStage.Load e.db stages plans

namespace Engine

variable {e : Engine} {reducer : Option Reducer} {root : EntityType} {paths : List (List String)}
  {ops : List QueryOp} {stages : List MemoryStage}

theorem LoadGroups.append {before after : List MemoryStage} {groups groups' : List IncludeGroup}
    (h : e.LoadGroups root before groups) (h' : e.LoadGroups root after groups') :
    e.LoadGroups root (before ++ after) (groups ++ groups') := by
  obtain ⟨plans, hplans, hload⟩ := h
  obtain ⟨plans', hplans', hload'⟩ := h'
  exact ⟨plans ++ plans', List.rel_append hplans hplans', hload.append hload'⟩

/-- A stage that loads nothing goes before others. -/
theorem LoadGroups.cons {stage : MemoryStage} {groups : List IncludeGroup}
    (hstage : MemoryStage.Load e.db [stage] []) (h : e.LoadGroups root stages groups) :
    e.LoadGroups root (stage :: stages) groups :=
  LoadGroups.append ⟨[], .nil, hstage⟩ h

theorem includeStage_load (h : e.includeStage reducer (some root) paths ops = .ok stages) :
    e.LoadGroups root stages (if paths.isEmpty then [] else [paths]) := by
  unfold includeStage at h
  split at h
  · rename_i hempty
    obtain rfl := Except.ok.inj h
    rw [if_pos hempty]
    exact ⟨[], .nil, .nil e.db⟩
  · rename_i hsome
    obtain ⟨plan, hplan, h⟩ := bind_eq_ok_iff.mp h
    obtain rfl := Except.ok.inj h
    rw [if_neg hsome]
    exact ⟨[plan], .cons hplan .nil, .including plan _⟩

/-- The stages of a query without a projection load its groups one after the other. -/
theorem memoryStages_load (h : e.memoryStages reducer (some root) paths ops = .ok stages)
    (hselect : ∀ projection, .select projection ∉ ops) :
    e.LoadGroups root stages (includeGroups paths ops) := by
  induction ops generalizing paths stages with
  | nil => exact includeStage_load h
  | cons op ops ih =>
      have hrest : ∀ projection, .select projection ∉ ops := fun projection hmem =>
        hselect projection (List.mem_cons_of_mem op hmem)
      cases op with
      | including path => exact ih h hrest
      | select projection => exact absurd List.mem_cons_self (hselect projection)
      | filter predicate =>
          obtain ⟨before, hbefore, h⟩ := bind_eq_ok_iff.mp h
          obtain ⟨rest, hstages, h⟩ := bind_eq_ok_iff.mp h
          obtain rfl := Except.ok.inj h
          exact (includeStage_load hbefore).append ((ih hstages hrest).cons (.filter predicate))
      | skip n =>
          obtain ⟨before, hbefore, h⟩ := bind_eq_ok_iff.mp h
          obtain ⟨rest, hstages, h⟩ := bind_eq_ok_iff.mp h
          obtain rfl := Except.ok.inj h
          exact (includeStage_load hbefore).append ((ih hstages hrest).cons (.skip n))
      | take n =>
          obtain ⟨before, hbefore, h⟩ := bind_eq_ok_iff.mp h
          obtain ⟨rest, hstages, h⟩ := bind_eq_ok_iff.mp h
          obtain rfl := Except.ok.inj h
          exact (includeStage_load hbefore).append ((ih hstages hrest).cons (.take n))

/-- Pushing operators to the rows parts no group. -/
theorem Pushed.includeGroups_eq {rows : RowCompiler} {rowStages : List RowStage}
    {rest : List QueryOp} (h : Pushed e rows ops rowStages rest) :
    includeGroups [] rest = includeGroups [] ops := by
  induction h with
  | stop ops => rfl
  | filter _ _ ih => exact ih
  | skip _ _ ih => exact ih
  | take _ _ ih => exact ih

/-- A path that is included is in a group. -/
theorem exists_group {chain : List String} (h : chain ∈ paths ∨ .including chain ∈ ops) :
    ∃ group ∈ includeGroups paths ops, chain ∈ group := by
  have hbefore : ∀ {paths : List (List String)}, chain ∈ paths →
      ∃ group ∈ (if paths.isEmpty then [] else [paths]), chain ∈ group := by
    intro paths hchain
    cases paths with
    | nil => cases hchain
    | cons path paths => exact ⟨_, List.mem_singleton_self _, hchain⟩
  induction ops generalizing paths with
  | nil => exact hbefore (h.resolve_right List.not_mem_nil)
  | cons op ops ih =>
      have hpart : .including chain ≠ op →
          ∃ group ∈ (if paths.isEmpty then [] else [paths]) ++ includeGroups [] ops,
            chain ∈ group := by
        intro hop
        rcases h with h | h
        · obtain ⟨group, hgroup, hchain⟩ := hbefore h
          exact ⟨group, List.mem_append_left _ hgroup, hchain⟩
        · obtain ⟨group, hgroup, hchain⟩ := ih (.inr ((List.mem_cons.mp h).resolve_left hop))
          exact ⟨group, List.mem_append_right _ hgroup, hchain⟩
      cases op with
      | including path =>
          refine ih ?_
          rcases h with h | h
          · exact .inl (List.mem_append_left _ h)
          · rcases List.mem_cons.mp h with h | h
            · obtain rfl := QueryOp.including.inj h
              exact .inl (by simp)
            · exact .inr h
      | filter _ | select _ | skip _ | take _ => exact hpart (by simp)

end Engine

/-! ## Outputs -/

/-- A value that a reducer yields and that is an entity is one of those that it pulls. -/
theorem Reducer.run_yields {db : Database} {s : Stream Value} {r : Reducer} {x : Entity}
    (h : (r.run db s).result = .ok x.toValue) : .ok x.toValue ∈ s.items := by
  have hnext : ∀ {v : Value} {rest : Stream Value}, s.next.result = .ok (some (v, rest)) →
      .ok v ∈ s.items := by
    intro v rest hv
    rcases s.result_next with ⟨-, hn⟩ | ⟨_, _, -, hn⟩ | ⟨a, rest', hitems, hn⟩
    · rw [hn] at hv
      cases hv
    · rw [hn] at hv
      cases hv
    · rw [hn] at hv
      obtain ⟨rfl, -⟩ := Prod.mk.inj (Option.some.inj (Except.ok.inj hv))
      exact hitems ▸ List.mem_cons_self
  unfold run at h
  split at h
  case h_1 | h_2 =>
      rw [Traced.result_bind] at h
      obtain ⟨found, hfound, h⟩ := bind_eq_ok_iff.mp h
      cases found with
      | none => cases h
      | some found => exact Except.ok.inj h ▸ hnext hfound
  case h_3 | h_4 =>
      rw [Traced.result_bind] at h
      obtain ⟨found, hfound, h⟩ := bind_eq_ok_iff.mp h
      cases found with
      | none => cases h
      | some found =>
          dsimp only at h
          rw [Traced.result_bind] at h
          obtain ⟨more, -, h⟩ := bind_eq_ok_iff.mp h
          split at h
          · cases h
          · exact Except.ok.inj h ▸ hnext hfound
  case h_9 => cases h
  all_goals
    rw [Traced.result_bind] at h
    obtain ⟨_, -, h⟩ := bind_eq_ok_iff.mp h
    cases h

theorem RowReducer.run_ne_entity {t : Table} {s : Stream RowHandle} (r : RowReducer) {x : Entity} :
    (r.run t s).result ≠ .ok x.toValue := by
  intro h
  unfold run at h
  split at h
  all_goals
    rw [Traced.result_bind] at h
    obtain ⟨_, -, h⟩ := bind_eq_ok_iff.mp h
    cases h

namespace Engine

variable {e : Engine}

/-- The groups of a query are those of what its plan leaves for values. -/
theorem plan_groups {q : Pipeline} (hselect : ∀ projection, .select projection ∉ q.ops) {p : Plan}
    (h : (e.plan q).result = .ok p) :
    includeGroups [] p.memoryOps = includeGroups [] q.ops ∧
      ∀ projection, .select projection ∉ p.memoryOps := by
  obtain ⟨-, -, -, hp | ⟨-, ops, hpushed, hprojection, -⟩⟩ := plan_cases h
  · rw [hp]
    exact ⟨rfl, hselect⟩
  · rcases pushProjection_spec hprojection with ⟨-, hops⟩ | ⟨lambda, _, -, hops, -⟩
    · rw [hops]
      exact ⟨hpushed.includeGroups_eq, fun projection hmem =>
        hselect projection (hpushed.mem hmem)⟩
    · exact absurd (hpushed.mem (hops ▸ List.mem_cons_self)) (hselect lambda)

/-- What an execution yields are entities with the groups of the query loaded. -/
theorem execute_loads {query : Expr} {q : Pipeline} (hq : Pipeline.ofExpr query = .ok q)
    (hselect : ∀ projection, .select projection ∉ q.ops) {output : QueryOutput}
    (hrun : (e.execute query).result = .ok output) {x : Entity} (hx : output.Yields x) :
    ∃ root ∈ e.db.catalog.entities, ∃ plans,
      List.Forall₂ (fun group plan => IncludePlan.ofChains e.db.catalog root group = .ok plan)
        (includeGroups [] q.ops) plans ∧ ∃ y, x = e.db.loadedBy plans y := by
  rw [execute, planExpr, Traced.result_bind, Traced.result_bind, Traced.result_ofResult, hq] at hrun
  obtain ⟨p, hp, hrun⟩ := bind_eq_ok_iff.mp hrun
  obtain ⟨hentity, -⟩ := plan_cases hp
  obtain ⟨hgroups, hselect⟩ := plan_groups hselect hp
  refine ⟨p.entity, (Catalog.mem_of_entity hentity).1, ?_⟩
  rw [run] at hrun
  split at hrun
  · -- A reducer on rows yields no entity.
    rename_i reducer _
    rw [Traced.result_bind] at hrun
    obtain ⟨v, hv, hrun⟩ := bind_eq_ok_iff.mp hrun
    obtain rfl := Except.ok.inj hrun
    obtain rfl : v = x.toValue := hx
    exact absurd hv reducer.run_ne_entity
  · rw [Traced.result_bind] at hrun
    obtain ⟨stages, hstages, hrun⟩ := bind_eq_ok_iff.mp hrun
    obtain ⟨plans, hplans, hload⟩ := memoryStages_load hstages hselect
    refine ⟨plans, hgroups ▸ hplans, ?_⟩
    have hitem : .ok x.toValue ∈
        (stages.foldl (MemoryStage.run e.db) (p.rowValues e.db)).items := by
      cases hr : p.reducer with
      | none =>
          rw [hr] at hrun
          obtain rfl := Except.ok.inj hrun
          exact hx
      | some r =>
          rw [hr] at hrun
          dsimp only at hrun
          rw [Traced.result_bind] at hrun
          obtain ⟨v, hv, hrun⟩ := bind_eq_ok_iff.mp hrun
          obtain rfl := Except.ok.inj hrun
          obtain rfl : v = x.toValue := hx
          exact r.run_yields hv
    obtain ⟨y, -, hy⟩ := hload _ x hitem
    exact ⟨y, hy⟩

/-- An entity of the result carries an included path exactly if the last group of the query that
loads the first navigation of the path loads the path: then the navigation at the end of the path is
loaded on every entity that the path reaches, and otherwise it is missing from all of them, where a
factory makes entities on which no navigation is loaded. -/
theorem carries_path_iff_kept
    (hcatalog : ∃ bundle resolve, Catalog.build bundle resolve = .ok e.db.catalog)
    {query : Expr} {q : Pipeline} (hq : Pipeline.ofExpr query = .ok q)
    (hselect : ∀ projection, .select projection ∉ q.ops) {output : QueryOutput}
    (hrun : (e.execute query).result = .ok output) {x : Entity} (hx : output.Yields x)
    {chain start : List String} {navigation : String} (hchain : .including chain ∈ q.ops)
    (hpath : start ++ [navigation] <+: chain) :
    (KeptBy (includeGroups [] q.ops) (start ++ [navigation]) →
      ∀ y ∈ x.follow start, ∃ v, y.get? navigation = some v) ∧
    (¬ KeptBy (includeGroups [] q.ops) (start ++ [navigation]) →
      e.db.factory.Bare e.db.catalog → ∀ y ∈ x.follow start, y.get? navigation = none) := by
  obtain ⟨bundle, resolve, hbuild⟩ := hcatalog
  have hc := (Catalog.build_spec hbuild).1
  obtain ⟨root, hroot, plans, hplans, y, rfl⟩ := execute_loads hq hselect hrun hx
  obtain ⟨group, hgroup, hmem⟩ : ∃ group ∈ includeGroups [] q.ops, chain ∈ group :=
    exists_group (.inr hchain)
  have hloads : group.Loads (start ++ [navigation]) := ⟨chain, hmem, hpath⟩
  obtain ⟨plan, -, hplan⟩ := forall₂_mem_right hplans.flip hgroup
  obtain ⟨path, j, hwalk, rfl, rfl⟩ := (IncludePlan.ofChains_spec hplan).1.exists_path hloads
  constructor
  · intro hkept z hz
    have hheld := Database.loadedBy_carries hc hroot hplans hwalk hkept y
    exact Option.isSome_iff_exists.mp (hheld _ (List.mem_map_of_mem hz))
  · intro hkept hbare z hz
    refine Database.loadedBy_lacks hc hroot hplans hbare hwalk ⟨group, hgroup, ?_⟩ hkept y _
      (List.mem_map_of_mem hz)
    exact ⟨chain, hmem, (List.take_prefix 1 _).trans hpath⟩

end Engine

namespace Staff

/-- Managers of managers are included, and behind a skip managers alone. -/
def includedTwice : Expr :=
  .call .including (.call .skip (.call .including (.source "Staff")
    [.lambda "s" (.member (.member (.parameter "s") "Manager") "Manager")])
    [.constant (.scalar (.ofInt .i32 0))])
    [.lambda "s" (.member (.parameter "s") "Manager")]

def includedTwiceOps : List QueryOp :=
  [.including ["Manager", "Manager"], .skip 0, .including ["Manager"]]

theorem includedTwice_stages :
    (⟨database, {}⟩ : Engine).memoryStages none (some entity) [] includedTwiceOps =
      .ok [.including ⟨[[manager], [manager, manager]]⟩ defaultPageSize, .skip 0,
        .including ⟨[[manager]]⟩ defaultPageSize] := by
  have hmanagers : ∀ rest, (⟨database, {}⟩ : Engine).includeStage none (some entity)
      [["Manager", "Manager"]] rest = (.ok [.including ⟨[[manager], [manager, manager]]⟩
        (Settings.pageBound {} none rest)]) := by
    intro rest
    change (IncludePlan.ofChains catalog entity [["Manager", "Manager"]] >>= _) = _
    rw [managers_plan]
    rfl
  have hmanager : ∀ rest, (⟨database, {}⟩ : Engine).includeStage none (some entity)
      [["Manager"]] rest = (.ok [.including ⟨[[manager]]⟩ (Settings.pageBound {} none rest)]) := by
    intro rest
    change (IncludePlan.ofChains catalog entity [["Manager"]] >>= _) = _
    rw [manager_plan]
    rfl
  simp only [includedTwiceOps, Engine.memoryStages, List.nil_append, hmanagers, hmanager]
  rfl

theorem includedTwice_run : (Engine.execute ⟨database, {}⟩ includedTwice).result =
    .ok (.rows .materialized (List.foldl (MemoryStage.run database)
      (Plan.rowValues ⟨entity, table, [], none, includedTwiceOps, none, none⟩ database)
      [.including ⟨[[manager], [manager, manager]]⟩ defaultPageSize, .skip 0,
        .including ⟨[[manager]]⟩ defaultPageSize])) := by
  have hplan : (Engine.planExpr ⟨database, {}⟩ includedTwice).result =
      .ok ⟨entity, table, [], none, includedTwiceOps, none, none⟩ := rfl
  rw [Engine.execute, Traced.result_bind, hplan, ok_bind, Engine.run, Traced.result_bind,
    Traced.result_ofResult, includedTwice_stages]
  rfl

theorem includedTwice_not_kept :
    ¬ KeptBy (includeGroups [] includedTwiceOps) ["Manager", "Manager"] := by
  rintro ⟨before, group, after, hgroups, hloads, hlater⟩
  have hgroups : [[["Manager", "Manager"]], [["Manager"]]] = before ++ group :: after := hgroups
  have hlast : IncludeGroup.Loads [["Manager"]] ["Manager"] :=
    ⟨_, List.mem_cons_self, List.prefix_rfl⟩
  match before, hgroups with
  | [], hgroups =>
      obtain ⟨-, rfl⟩ := List.cons.inj hgroups
      exact hlater _ List.mem_cons_self hlast
  | [_], hgroups =>
      obtain ⟨rfl, -⟩ := List.cons.inj (List.cons.inj hgroups).2
      obtain ⟨chain, hchain, hprefix⟩ := hloads
      obtain rfl := List.mem_singleton.mp hchain
      exact absurd hprefix (by decide)
  | _ :: _ :: before, hgroups => simp at hgroups

end Staff

/-- Bob is yielded with his manager, whose manager the second group has dropped. -/
theorem Engine.carries_path_iff_kept_on_bob : ∃ output bob ann,
    (Engine.execute ⟨Staff.database, {}⟩ Staff.includedTwice).result = .ok output ∧
      output.Yields bob ∧ (∃ v, bob.get? "Manager" = some v) ∧
        ann ∈ bob.follow ["Manager"] ∧ ann.get? "Manager" = none := by
  obtain ⟨bob, ann, hbob, hann⟩ : ∃ bob ann, QueryOutput.Yields bob
      (.rows .materialized (List.foldl (MemoryStage.run Staff.database) (Plan.rowValues
        ⟨Staff.entity, Staff.table, [], none, Staff.includedTwiceOps, none, none⟩ Staff.database)
        [.including ⟨[[Staff.manager], [Staff.manager, Staff.manager]]⟩ defaultPageSize, .skip 0,
          .including ⟨[[Staff.manager]]⟩ defaultPageSize])) ∧ ann ∈ bob.follow ["Manager"] :=
    ⟨⟨"Staff", _⟩, _, List.mem_of_getElem? (i := 1) rfl, List.mem_cons_self⟩
  have hchain : .including ["Manager", "Manager"] ∈ Staff.includedTwiceOps := List.mem_cons_self
  have hkept := fun start navigation
      (hpath : start ++ [navigation] <+: ["Manager", "Manager"]) =>
    carries_path_iff_kept ⟨_, _, Staff.build⟩
      (q := ⟨"Staff", Staff.includedTwiceOps, none, .entity "Staff"⟩) rfl
      (by simp [Staff.includedTwiceOps]) Staff.includedTwice_run hbob hchain hpath
  refine ⟨_, bob, ann, Staff.includedTwice_run, hbob, ?_, hann, ?_⟩
  · have hlast : KeptBy (includeGroups [] Staff.includedTwiceOps) ["Manager"] :=
      ⟨_, _, [], rfl, ⟨_, List.mem_cons_self, List.prefix_rfl⟩, by simp⟩
    exact (hkept [] "Manager" (by decide)).1 hlast bob List.mem_cons_self
  · exact (hkept ["Manager"] "Manager" (by decide)).2 Staff.includedTwice_not_kept
      (fun _ _ _ _ => rfl) ann hann

end ColumnQuery
