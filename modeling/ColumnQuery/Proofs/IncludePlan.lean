import ColumnQuery.Proofs.Catalog
import ColumnQuery.Related.Include

/-! # Planned includes

The paths of a plan are the beginnings of its chains, as the joins of the catalog lead along them.
None comes twice, and they come shallow first, so that a path is loaded after its beginnings. -/

namespace ColumnQuery

/-! ## Paths along the joins of a catalog -/

namespace IncludePath

/-- The joins of a catalog lead along the path from an entity of the name. -/
def From (c : Catalog) : String → IncludePath → Prop
  | _, [] => True
  | name, j :: rest => c.join? name j.navigation = some j ∧ From c j.target.name rest

def target (name : String) (path : IncludePath) : String :=
  path.foldl (fun _ j => j.target.name) name

variable {c : Catalog} {name : String} {p q : IncludePath}

theorem names_cons (j : JoinPlan) (p : IncludePath) :
    names (j :: p) = j.navigation :: p.names := rfl

theorem names_append (p q : IncludePath) : names (p ++ q) = p.names ++ q.names :=
  List.map_append

theorem from_append : (p ++ q).From c name ↔ p.From c name ∧ q.From c (p.target name) := by
  induction p generalizing name with
  | nil => simp [From, target]
  | cons j p ih =>
      rw [List.cons_append, From, From, ih, and_assoc]
      rfl

theorem target_append : (p ++ q).target name = q.target (p.target name) :=
  List.foldl_append

theorem From.of_prefix (hq : q.From c name) (h : p <+: q) : p.From c name := by
  obtain ⟨rest, rfl⟩ := h
  exact (from_append.mp hq).1

/-- Names determine the joins of a path, since a catalog has one join for a name. -/
theorem From.prefix_of_names (hp : p.From c name) (hq : q.From c name)
    (h : p.names <+: q.names) : p <+: q := by
  induction p generalizing name q with
  | nil => exact List.nil_prefix
  | cons j p ih =>
      cases q with
      | nil => simp [names] at h
      | cons k q =>
          obtain ⟨hname, hrest⟩ := List.cons_prefix_cons.mp h
          obtain ⟨hj, hp⟩ := hp
          obtain ⟨hk, hq⟩ := hq
          rw [show j.navigation = k.navigation from hname, hk] at hj
          obtain rfl := Option.some.inj hj
          exact List.cons_prefix_cons.mpr ⟨rfl, ih hp hq hrest⟩

theorem From.eq_of_names (hp : p.From c name) (hq : q.From c name) (h : p.names = q.names) :
    p = q := by
  have hlength : p.length = q.length := by simpa [names] using congrArg List.length h
  exact (hp.prefix_of_names hq (h ▸ List.prefix_rfl)).eq_of_length hlength

theorem From.last_mem (hp : p.From c name) {j : JoinPlan} (hj : p.getLast? = some j) :
    j ∈ c.joins := by
  obtain ⟨start, rfl⟩ := List.getLast?_eq_some_iff.mp hj
  obtain ⟨-, hjoin, -⟩ := from_append.mp hp
  exact (Catalog.join?_spec hjoin).1

/-- The path behind a first navigation. -/
def behind? (j : JoinPlan) : IncludePath → Option IncludePath
  | [] => none
  | k :: rest => if k = j then some rest else none

theorem behind?_eq_some {path rest : IncludePath} {j : JoinPlan} :
    path.behind? j = some rest ↔ path = j :: rest := by
  cases path with
  | nil => simp [behind?]
  | cons k path =>
      by_cases hk : k = j
      · simp [behind?, hk]
      · simp [behind?, hk]

end IncludePath

/-- Entities reached by following navigations of the names. -/
def Entity.follow : List String → Entity → List Entity
  | [], e => [e]
  | name :: rest, e =>
    match e.get? name with
    | some v => v.entities.flatMap (follow rest)
    | none => []

theorem Entity.reached_eq_follow (path : IncludePath) (e : Entity) :
    e.reached path = e.follow path.names := by
  induction path generalizing e with
  | nil => rfl
  | cons j path ih =>
      rw [reached, IncludePath.names_cons, follow]
      cases e.get? j.navigation with
      | none => rfl
      | some v => exact congrArg (v.entities.flatMap ·) (funext ih)

/-! ## Plans -/

namespace IncludePlan

/-- Paths from an entity of the name. None comes twice, shallow ones come first, and a path comes
with its beginnings. -/
structure Ordered (c : Catalog) (name : String) (plan : IncludePlan) : Prop where
  walks : ∀ path ∈ plan.paths, path.From c name
  distinct : plan.paths.Nodup
  shallow : plan.paths.Pairwise fun p q => p.length ≤ q.length
  closed : ∀ path ∈ plan.paths, ∀ start, start <+: path → start ≠ [] → start ∈ plan.paths

/-- The paths of a plan behind a first navigation, without the navigation. -/
def under (plan : IncludePlan) (j : JoinPlan) : IncludePlan :=
  ⟨plan.paths.filterMap (·.behind? j)⟩

variable {c : Catalog} {name : String} {plan : IncludePlan} {j : JoinPlan}

theorem mem_under {path : IncludePath} : path ∈ (plan.under j).paths ↔ j :: path ∈ plan.paths := by
  simp [under, IncludePath.behind?_eq_some]

/-- The first navigation of a path is a path alone. -/
theorem Ordered.head_mem (hplan : plan.Ordered c name)
    {rest : IncludePath} (h : j :: rest ∈ plan.paths) : [j] ∈ plan.paths :=
  hplan.closed _ h [j] (List.cons_prefix_cons.mpr ⟨rfl, List.nil_prefix⟩) (List.cons_ne_nil j [])

/-- The paths behind a navigation are paths from its target. -/
theorem Ordered.under (hplan : plan.Ordered c name) (j : JoinPlan) :
    (plan.under j).Ordered c j.target.name where
  walks path hpath := (hplan.walks _ (mem_under.mp hpath)).2
  distinct := by
    refine hplan.distinct.filterMap fun p q path hp hq => ?_
    rw [IncludePath.behind?_eq_some.mp hp, IncludePath.behind?_eq_some.mp hq]
  shallow := by
    refine hplan.shallow.filterMap _ fun p q hpq p' hp q' hq => ?_
    rw [IncludePath.behind?_eq_some.mp hp, IncludePath.behind?_eq_some.mp hq] at hpq
    simpa using hpq
  closed path hpath start hstart hne :=
    mem_under.mpr (hplan.closed _ (mem_under.mp hpath) _ (List.cons_prefix_cons.mpr ⟨rfl, hstart⟩)
      (List.cons_ne_nil j start))

/-! ## Planning -/

/-- A path is added unless it is there; its names tell. -/
theorem mem_added {root : String} {path : IncludePath} {paths added : List IncludePath}
    (hpaths : ∀ q ∈ paths, q.From c root) (hpath : path.From c root)
    (h : (if paths.any (·.names == path.names) then paths else paths ++ [path]) = added) :
    (∀ q, q ∈ added ↔ q ∈ paths ∨ q = path) ∧ (paths.Nodup → added.Nodup) := by
  by_cases hany : paths.any (·.names == path.names) = true
  · rw [if_pos hany] at h
    subst h
    obtain ⟨p, hp, hnames⟩ := List.any_eq_true.mp hany
    obtain rfl : p = path := (hpaths p hp).eq_of_names hpath (by simpa using hnames)
    refine ⟨fun q => ⟨.inl, ?_⟩, id⟩
    rintro (hq | rfl)
    · exact hq
    · exact hp
  · rw [if_neg hany] at h
    subst h
    refine ⟨fun q => by simp, fun hd => ?_⟩
    have hnew : path ∉ paths := fun hp => hany (List.any_eq_true.mpr ⟨path, hp, by simp⟩)
    rw [List.nodup_append]
    refine ⟨hd, List.nodup_singleton path, fun q hq q' hq' he => hnew ?_⟩
    obtain rfl := List.mem_singleton.mp hq'
    exact he ▸ hq

/-- Walking a chain adds the paths on its way. -/
theorem addChain_spec {root entity : String} (path : IncludePath) {chain : List String}
    {paths paths' : List IncludePath} (hpath : path.From c root) (hend : path.target root = entity)
    (hpaths : ∀ q ∈ paths, q.From c root)
    (h : addChain c entity path chain paths = .ok paths') :
    ∃ walk : IncludePath, walk.From c entity ∧ walk.names = chain ∧
      (∀ q, q ∈ paths' ↔ q ∈ paths ∨ ∃ r, r ≠ [] ∧ r <+: walk ∧ q = path ++ r) ∧
      (paths.Nodup → paths'.Nodup) := by
  induction chain generalizing entity path paths with
  | nil =>
      obtain rfl := Except.ok.inj h
      exact ⟨[], trivial, rfl, fun q => by simp, id⟩
  | cons navigation chain ih =>
      rw [addChain] at h
      split at h
      · cases h
      · rename_i j hj
        split at h
        · cases h
        · obtain ⟨-, -, rfl⟩ := Catalog.join?_spec hj
          have hstep : (path ++ [j]).From c root :=
            IncludePath.from_append.mpr ⟨hpath, by rw [hend]; exact ⟨hj, trivial⟩⟩
          dsimp only at h
          generalize hadded : (if paths.any _ then paths else _) = added at h
          obtain ⟨hmem, hnodup⟩ := mem_added hpaths hstep hadded
          obtain ⟨walk, hwalk, hnames, hmem', hnodup'⟩ :=
            ih (path ++ [j]) hstep (by rw [IncludePath.target_append]; rfl)
              (fun q hq => ((hmem q).mp hq).elim (hpaths q) (· ▸ hstep)) h
          refine ⟨j :: walk, ⟨hj, hwalk⟩, by rw [← hnames]; rfl, fun q => ?_, hnodup' ∘ hnodup⟩
          rw [hmem', hmem]
          constructor
          · rintro ((hq | rfl) | ⟨r, hr, hwalk, rfl⟩)
            · exact .inl hq
            · exact .inr ⟨[j], by simp, by simp, rfl⟩
            · exact .inr ⟨j :: r, by simp, by simpa using hwalk, by simp⟩
          · rintro (hq | ⟨r, hr, hwalk, rfl⟩)
            · exact .inl (.inl hq)
            · cases r with
              | nil => exact absurd rfl hr
              | cons k r =>
                  obtain ⟨rfl, hrest⟩ := List.cons_prefix_cons.mp hwalk
                  cases r with
                  | nil => exact .inl (.inr rfl)
                  | cons l r => exact .inr ⟨l :: r, by simp, hrest, by simp⟩

/-- What planning chains from an entity of the name guarantees: the catalog leads along each chain,
and the paths are the beginnings of the chains. -/
structure Plans (c : Catalog) (name : String) (chains : List (List String))
    (paths : List IncludePath) : Prop where
  walk : ∀ chain ∈ chains, ∃ path : IncludePath, path.From c name ∧ path.names = chain
  mem_iff : ∀ path, path ∈ paths ↔
    path ≠ [] ∧ path.From c name ∧ ∃ chain ∈ chains, path.names <+: chain
  distinct : paths.Nodup

theorem Plans.addChain {root : String} {chains : List (List String)} {chain : List String}
    {paths paths' : List IncludePath} (hp : Plans c root chains paths)
    (h : IncludePlan.addChain c root [] chain paths = .ok paths') :
    Plans c root (chains ++ [chain]) paths' := by
  obtain ⟨walk, hwalk, hnames, hmem, hnodup⟩ :=
    addChain_spec [] trivial rfl (fun q hq => ((hp.mem_iff q).mp hq).2.1) h
  constructor
  case walk =>
      intro chain' hchain
      rcases List.mem_append.mp hchain with hchain | hchain
      · exact hp.walk chain' hchain
      · obtain rfl := List.mem_singleton.mp hchain
        exact ⟨walk, hwalk, hnames⟩
  case mem_iff =>
      intro path
      rw [hmem, hp.mem_iff]
      constructor
      · rintro (⟨hne, hpath, chain', hchain, hprefix⟩ | ⟨r, hne, hr, rfl⟩)
        · exact ⟨hne, hpath, chain', List.mem_append_left _ hchain, hprefix⟩
        · refine ⟨hne, hwalk.of_prefix hr, chain, by simp, ?_⟩
          rw [← hnames]
          exact hr.map _
      · rintro ⟨hne, hpath, chain', hchain, hprefix⟩
        rcases List.mem_append.mp hchain with hchain | hchain
        · exact .inl ⟨hne, hpath, chain', hchain, hprefix⟩
        · obtain rfl := List.mem_singleton.mp hchain
          exact .inr ⟨path, hne, hpath.prefix_of_names hwalk (hnames ▸ hprefix), rfl⟩
  case distinct => exact hnodup hp.distinct

theorem Plans.foldlM {root : String} {done chains : List (List String)}
    {paths paths' : List IncludePath} (hp : Plans c root done paths)
    (h : chains.foldlM (fun paths chain => IncludePlan.addChain c root [] chain paths) paths =
      .ok paths') : Plans c root (done ++ chains) paths' := by
  induction chains generalizing done paths with
  | nil =>
      obtain rfl := Except.ok.inj h
      rwa [List.append_nil]
  | cons chain chains ih =>
      rw [List.foldlM_cons] at h
      obtain ⟨paths₁, hpaths₁, h⟩ := bind_eq_ok_iff.mp h
      rw [← List.singleton_append, ← List.append_assoc]
      exact ih (hp.addChain hpaths₁) h

/-- Planning chains yields their beginnings in order. -/
theorem ofChains_spec {root : EntityType} {chains : List (List String)}
    (h : ofChains c root chains = .ok plan) :
    Plans c root.name chains plan.paths ∧ plan.Ordered c root.name := by
  obtain ⟨paths, hpaths, h⟩ := bind_eq_ok_iff.mp h
  obtain rfl := Except.ok.inj h
  have hstart : Plans c root.name [] [] := ⟨by simp, by simp, List.nodup_nil⟩
  have hplans : Plans c root.name chains paths := hstart.foldlM hpaths
  have hperm := List.mergeSort_perm paths fun a b => decide (a.length ≤ b.length)
  have hsorted : Plans c root.name chains (paths.mergeSort fun a b => a.length ≤ b.length) :=
    ⟨hplans.walk, fun path => hperm.mem_iff.trans (hplans.mem_iff path),
      hperm.nodup_iff.mpr hplans.distinct⟩
  refine ⟨hsorted, ?_⟩
  constructor
  case walks => exact fun path hpath => ((hsorted.mem_iff path).mp hpath).2.1
  case distinct => exact hsorted.distinct
  case shallow =>
      refine (List.pairwise_mergeSort ?_ ?_ paths).imp (by simp)
      · intro a b c
        simpa using Nat.le_trans
      · intro a b
        simpa using Nat.le_total a.length b.length
  case closed =>
      intro path hpath start hstart hne
      obtain ⟨-, hwalk, chain, hchain, hprefix⟩ := (hsorted.mem_iff path).mp hpath
      exact (hsorted.mem_iff start).mpr
        ⟨hne, hwalk.of_prefix hstart, chain, hchain, (hstart.map _).trans hprefix⟩

end IncludePlan

end ColumnQuery
