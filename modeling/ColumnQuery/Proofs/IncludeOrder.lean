import ColumnQuery.Proofs.IncludeGroups
import ColumnQuery.Proofs.WellFormedBundles

/-! # Order of included paths

Chains are planned unless a walk along one of them is stopped, and the first stop in the order of the
chains is the failure. A plan has every beginning of a chain once, by length and then by the first
chain with it, so that a path is loaded into entities that carry its beginnings. -/

namespace ColumnQuery

/-! ## Walks along chains -/

/-- Whether an include can load the navigation: a reference, or a read-only collection. -/
def JoinPlan.Includable (j : JoinPlan) : Prop :=
  j.isCollection = true → j.shape = some .readOnly

theorem JoinPlan.not_includable_iff {j : JoinPlan} :
    ¬ j.Includable ↔ (j.isCollection && decide (j.shape ≠ some .readOnly)) = true := by
  simp [Includable]

namespace IncludePlan

variable {c : Catalog} {root : String}

/-- A walk along a chain of names from an entity of the name is stopped, by a name that is no
navigation of the entity that is reached or by a collection that an include cannot load. -/
inductive Stops (c : Catalog) : String → List String → Error → Prop where
  | unknown {entity navigation : String} {rest : List String}
    (h : c.join? entity navigation = none) :
    Stops c entity (navigation :: rest) (.unknownMember entity navigation)
  | shape {entity navigation : String} {rest : List String} {j : JoinPlan}
    (h : c.join? entity navigation = some j) (hj : ¬ j.Includable) :
    Stops c entity (navigation :: rest) (.invalidNavigationShape entity navigation j.target.name)
  | later {entity navigation : String} {rest : List String} {j : JoinPlan} {error : Error}
    (h : c.join? entity navigation = some j) (hj : j.Includable)
    (hrest : Stops c j.target.name rest error) :
    Stops c entity (navigation :: rest) error

/-- The first chain along which the walk from an entity of the name is stopped, and by what. -/
def FirstStop (c : Catalog) (root : String) (chains : List (List String)) (error : Error) : Prop :=
  ∃ before chain after, chains = before ++ chain :: after ∧
    (∀ earlier ∈ before, ∀ error', ¬ Stops c root earlier error') ∧ Stops c root chain error

/-- A chain cannot be added exactly if its walk is stopped. -/
theorem addChain_eq_error_iff {entity : String} {path : IncludePath} {chain : List String}
    {paths : List IncludePath} {error : Error} :
    addChain c entity path chain paths = .error error ↔ Stops c entity chain error := by
  induction chain generalizing entity path paths with
  | nil => exact ⟨nofun, nofun⟩
  | cons navigation chain ih =>
      rw [addChain]
      cases hfound : c.join? entity navigation with
      | none =>
          refine ⟨fun h => Except.error.inj h ▸ .unknown hfound, fun h => ?_⟩
          cases h with
          | unknown h => rfl
          | shape h | later h => cases hfound.symm.trans h
      | some j =>
          dsimp only
          by_cases hj : j.Includable
          · rw [if_neg (mt JoinPlan.not_includable_iff.mpr (not_not.mpr hj)), ih]
            refine ⟨.later hfound hj, fun h => ?_⟩
            cases h with
            | unknown h => cases hfound.symm.trans h
            | shape h hshape =>
                obtain rfl := Option.some.inj (hfound.symm.trans h)
                exact absurd hj hshape
            | later h _ hrest =>
                obtain rfl := Option.some.inj (hfound.symm.trans h)
                exact hrest
          · rw [if_pos (JoinPlan.not_includable_iff.mp hj)]
            refine ⟨fun h => Except.error.inj h ▸ .shape hfound hj, fun h => ?_⟩
            cases h with
            | unknown h => cases hfound.symm.trans h
            | shape h _ =>
                obtain rfl := Option.some.inj (hfound.symm.trans h)
                rfl
            | later h hincludable =>
                obtain rfl := Option.some.inj (hfound.symm.trans h)
                exact absurd hincludable hj

theorem foldlM_addChain_eq_error_iff {chains : List (List String)} {paths : List IncludePath}
    {error : Error} :
    chains.foldlM (fun paths chain => addChain c root [] chain paths) paths = .error error ↔
      FirstStop c root chains error := by
  induction chains generalizing paths with
  | nil =>
      refine ⟨nofun, fun h => ?_⟩
      obtain ⟨before, chain, after, hempty, -⟩ := h
      simp at hempty
  | cons chain chains ih =>
      rw [List.foldlM_cons, bind_eq_error_iff]
      constructor
      · rintro (h | ⟨added, hadded, h⟩)
        · exact ⟨[], chain, chains, rfl, by simp, addChain_eq_error_iff.mp h⟩
        · obtain ⟨before, stopped, after, rfl, hbefore, hstops⟩ := ih.mp h
          refine ⟨chain :: before, stopped, after, rfl, ?_, hstops⟩
          rw [List.forall_mem_cons]
          refine ⟨fun error' hstops' => ?_, hbefore⟩
          cases hadded.symm.trans (addChain_eq_error_iff.mpr hstops')
      · rintro ⟨before, stopped, after, hchains, hbefore, hstops⟩
        cases before with
        | nil =>
            obtain ⟨rfl, -⟩ := List.cons.inj hchains
            exact .inl (addChain_eq_error_iff.mpr hstops)
        | cons first before =>
            obtain ⟨rfl, rfl⟩ := List.cons.inj hchains
            obtain ⟨hfirst, hbefore⟩ := List.forall_mem_cons.mp hbefore
            cases hadded : addChain c root [] chain paths with
            | error error' => exact absurd (addChain_eq_error_iff.mp hadded) (hfirst error')
            | ok added =>
                exact .inr ⟨added, rfl, ih.mpr ⟨before, stopped, after, rfl, hbefore, hstops⟩⟩

/-! ## The order of paths -/

/-- Number of the first chain that begins with the names. -/
def firstChain (chains : List (List String)) (names : List String) : Nat :=
  chains.findIdx (names.isPrefixOf ·)

/-- Names come before others if they are fewer, or as many and in an earlier chain first. -/
def Precedes (chains : List (List String)) (m n : List String) : Prop :=
  m.length < n.length ∨ m.length = n.length ∧ firstChain chains m < firstChain chains n

variable {chains more : List (List String)} {names : List String}

theorem firstChain_lt (h : ∃ chain ∈ chains, names <+: chain) :
    firstChain chains names < chains.length :=
  List.findIdx_lt_length.mpr (by simpa using h)

theorem firstChain_append (h : ∃ chain ∈ chains, names <+: chain) :
    firstChain (chains ++ more) names = firstChain chains names := by
  rw [firstChain, List.findIdx_append]
  exact if_pos (firstChain_lt h)

theorem le_firstChain_append (h : ∀ chain ∈ chains, ¬ names <+: chain) :
    chains.length ≤ firstChain (chains ++ more) names := by
  have hnot : ¬ chains.findIdx (names.isPrefixOf ·) < chains.length := by
    rw [List.findIdx_lt_length]
    simpa using h
  rw [firstChain, List.findIdx_append, if_neg hnot]
  exact Nat.le_add_left _ _

/-- Walking a chain appends paths that are not there, each longer than the one before. -/
theorem addChain_append {entity : String} {path : IncludePath} {chain : List String}
    {paths paths' : List IncludePath} (h : addChain c entity path chain paths = .ok paths') :
    ∃ added, paths' = paths ++ added ∧ added.Pairwise (fun p q => p.length < q.length) ∧
      ∀ q ∈ added, path.length < q.length ∧ ∀ p ∈ paths, p.names ≠ q.names := by
  induction chain generalizing entity path paths with
  | nil =>
      obtain rfl := Except.ok.inj h
      exact ⟨[], (List.append_nil paths).symm, .nil, by simp⟩
  | cons navigation chain ih =>
      rw [addChain] at h
      split at h
      · cases h
      · rename_i j hj
        split at h
        · cases h
        · dsimp only at h
          by_cases hany : paths.any (·.names == IncludePath.names (path ++ [j])) = true
          · rw [if_pos hany] at h
            obtain ⟨added, rfl, hgrows, hadded⟩ := ih h
            refine ⟨added, rfl, hgrows, fun q hq => ⟨?_, (hadded q hq).2⟩⟩
            exact Nat.lt_of_succ_lt (by simpa using (hadded q hq).1)
          · rw [if_neg hany] at h
            obtain ⟨added, rfl, hgrows, hadded⟩ := ih h
            refine ⟨(path ++ [j]) :: added, by simp, ?_, ?_⟩
            · exact .cons (fun q hq => (hadded q hq).1) hgrows
            · rw [List.forall_mem_cons]
              refine ⟨⟨by simp, fun p hp hnames => hany ?_⟩, fun q hq => ⟨?_, fun p hp => ?_⟩⟩
              · exact List.any_eq_true.mpr ⟨p, hp, by simpa using hnames⟩
              · exact Nat.lt_of_succ_lt (by simpa using (hadded q hq).1)
              · exact (hadded q hq).2 p (List.mem_append_left _ hp)

/-- Of two paths of one length the one that a chain has first stands first. -/
def ByFirstChain (chains : List (List String)) (paths : List IncludePath) : Prop :=
  paths.Pairwise fun p q =>
    p.length = q.length → firstChain chains p.names < firstChain chains q.names

theorem ByFirstChain.addChain {chain : List String} {paths paths' : List IncludePath}
    (hp : Plans c root chains paths) (ho : ByFirstChain chains paths)
    (h : IncludePlan.addChain c root [] chain paths = .ok paths') :
    ByFirstChain (chains ++ [chain]) paths' := by
  have hp' := hp.addChain h
  obtain ⟨added, rfl, hgrows, hadded⟩ := addChain_append h
  have hold : ∀ p ∈ paths, ∃ chain ∈ chains, p.names <+: chain := fun p hmem =>
    ((hp.mem_iff p).mp hmem).2.2
  have hnew : ∀ q ∈ added, ∀ chain ∈ chains, ¬ q.names <+: chain := by
    intro q hq chain' hchain hprefix
    obtain ⟨hne, hwalk, -⟩ := (hp'.mem_iff q).mp (List.mem_append_right paths hq)
    exact (hadded q hq).2 q ((hp.mem_iff q).mpr ⟨hne, hwalk, chain', hchain, hprefix⟩) rfl
  rw [ByFirstChain, List.pairwise_append]
  refine ⟨?_, ?_, ?_⟩
  · refine ho.imp_of_mem fun {p q} hpmem hqmem hpq hlength => ?_
    rw [firstChain_append (hold p hpmem), firstChain_append (hold q hqmem)]
    exact hpq hlength
  · exact hgrows.imp fun hlt heq => absurd heq (Nat.ne_of_lt hlt)
  · intro p hpmem q hq _
    calc firstChain (chains ++ [chain]) p.names
      _ = firstChain chains p.names := firstChain_append (hold p hpmem)
      _ < chains.length := firstChain_lt (hold p hpmem)
      _ ≤ firstChain (chains ++ [chain]) q.names := le_firstChain_append (hnew q hq)

theorem ByFirstChain.foldlM {done : List (List String)} {paths paths' : List IncludePath}
    (hp : Plans c root done paths) (ho : ByFirstChain done paths)
    (h : chains.foldlM (fun paths chain => IncludePlan.addChain c root [] chain paths) paths =
      .ok paths') : ByFirstChain (done ++ chains) paths' := by
  induction chains generalizing done paths with
  | nil =>
      obtain rfl := Except.ok.inj h
      rwa [List.append_nil]
  | cons chain chains ih =>
      rw [List.foldlM_cons] at h
      obtain ⟨paths₁, hpaths₁, h⟩ := bind_eq_ok_iff.mp h
      rw [← List.singleton_append, ← List.append_assoc]
      exact ih (hp.addChain hpaths₁) (ho.addChain hp hpaths₁) h

end IncludePlan

section

variable {α : Type} {f : α → Nat} {xs : List α}

/-- Sorting leaves the items of one key in their order. -/
theorem filter_mergeSort (f : α → Nat) (xs : List α) (n : Nat) :
    (xs.mergeSort fun a b => f a ≤ f b).filter (f · = n) = xs.filter (f · = n) := by
  have hpairwise : (xs.filter (f · = n)).Pairwise fun a b => decide (f a ≤ f b) = true := by
    refine List.pairwise_of_forall_mem_list fun a ha b hb => ?_
    simp only [List.mem_filter, decide_eq_true_eq] at ha hb ⊢
    omega
  have hsub : (xs.filter (f · = n)).Sublist (xs.mergeSort fun a b => f a ≤ f b) := by
    refine List.sublist_mergeSort ?_ ?_ hpairwise List.filter_sublist
    · intro a b c
      simpa using Nat.le_trans
    · intro a b
      simpa using Nat.le_total (f a) (f b)
  have hfilter := hsub.filter (f · = n)
  rw [List.filter_filter] at hfilter
  simp only [Bool.and_self] at hfilter
  exact (hfilter.eq_of_length ((List.mergeSort_perm xs _).filter _).length_eq.symm).symm

/-- Items that are related within one key are so behind sorting, where lesser keys come first. -/
theorem pairwise_mergeSort_lex {R : α → α → Prop} (h : xs.Pairwise fun a b => f a = f b → R a b) :
    (xs.mergeSort fun a b => f a ≤ f b).Pairwise fun a b => f a < f b ∨ f a = f b ∧ R a b := by
  rw [List.pairwise_iff_forall_sublist]
  intro a b hab
  have hle : f a ≤ f b := by
    have hsorted : (xs.mergeSort fun a b => f a ≤ f b).Pairwise fun a b =>
        decide (f a ≤ f b) = true := by
      refine List.pairwise_mergeSort ?_ ?_ xs
      · intro a b c
        simpa using Nat.le_trans
      · intro a b
        simpa using Nat.le_total (f a) (f b)
    simpa using List.pairwise_iff_forall_sublist.mp hsorted hab
  refine (Nat.lt_or_eq_of_le hle).imp_right fun heq => ⟨heq, ?_⟩
  have hfilter := hab.filter (f · = f b)
  rw [filter_mergeSort] at hfilter
  have hin : [a, b].Sublist xs := by
    simpa [heq] using hfilter.trans List.filter_sublist
  exact List.pairwise_iff_forall_sublist.mp h hin heq

end

/-! ## Plans -/

namespace IncludePlan

variable {c : Catalog} {plan : IncludePlan} {chains : List (List String)}

/-- What the plan of chains is: the beginnings of the chains but the empty one, each once and in
order. On a path each navigation starts at the entity type that the one before targets. -/
structure PlansPrefixes (c : Catalog) (root : EntityType) (chains : List (List String))
    (plan : IncludePlan) : Prop where
  prefixes : ∀ names, names ∈ plan.paths.map IncludePath.names ↔
    names ≠ [] ∧ ∃ chain ∈ chains, names <+: chain
  once : (plan.paths.map IncludePath.names).Nodup
  ordered : (plan.paths.map IncludePath.names).Pairwise (Precedes chains)
  joined : ∀ path ∈ plan.paths, path.IsChain fun j k => k.root = j.target
  starts : ∀ j rest, j :: rest ∈ plan.paths → j.root.name = root.name ∧
    (root ∈ c.entities → j.root = root)

/-- What loading the paths of a plan does: where it comes to a path, it has loaded the beginnings of
the path and not the path, it does not come to the path again, and the entities on the way carry
what the beginnings lead to. -/
structure LoadsInOrder (plan : IncludePlan) (db : Database) (before : List IncludePath)
    (path : IncludePath) (after : List IncludePath) : Prop where
  steps : ∀ page, plan.apply db page =
    loadPaths db before page >>= fun page => loadPath db path page >>= loadPaths db after
  once : path ∉ before ∧ path ∉ after
  beginnings : ∀ start, start <+: path → start ≠ [] → start ≠ path → start ∈ before
  carried : ∀ page page', (loadPaths db before page).result = .ok page' →
    ∀ start j, start ++ [j] <+: path → start ++ [j] ≠ path →
      ∀ e ∈ page', ∀ x ∈ e.follow (IncludePath.names start), ∃ v, x.get? j.navigation = some v

theorem loadPaths_append (db : Database) (before after : List IncludePath) (page : List Entity) :
    loadPaths db (before ++ after) page = loadPaths db before page >>= loadPaths db after := by
  induction before generalizing page with
  | nil => rfl
  | cons path before ih =>
      rw [List.cons_append, loadPaths, loadPaths, Traced.bind_bind]
      exact congrArg _ (funext ih)

/-- The first paths of a plan are a plan, since beginnings come before. -/
theorem Ordered.of_append {name : String} {before after : List IncludePath}
    (h : Ordered c name ⟨before ++ after⟩) : Ordered c name ⟨before⟩ where
  walks path hpath := h.walks path (List.mem_append_left after hpath)
  distinct := (List.nodup_append.mp h.distinct).1
  shallow := (List.pairwise_append.mp h.shallow).1
  closed path hpath start hstart hne := by
    have hmem := h.closed path (List.mem_append_left after hpath) start hstart hne
    refine (List.mem_append.mp hmem).resolve_right fun hafter => ?_
    have hle := (List.pairwise_append.mp h.shallow).2.2 path hpath start hafter
    have hsame : start = path := hstart.eq_of_length_le hle
    exact (List.nodup_append.mp h.distinct).2.2 path hpath start hafter hsame.symm

/-- The beginnings of a path stand before it. -/
theorem Ordered.mem_before {name : String} {before after : List IncludePath} {path : IncludePath}
    (h : Ordered c name ⟨before ++ path :: after⟩) {start : IncludePath} (hstart : start <+: path)
    (hne : start ≠ []) (hproper : start ≠ path) : start ∈ before := by
  have hplan : Ordered c name ⟨(before ++ [path]) ++ after⟩ := by simpa using h
  have hmem := hplan.of_append.closed path (by simp) start hstart hne
  simpa [hproper] using hmem

/-- Along a path each navigation starts at the target of the one before. -/
theorem isChain_of_from (hc : c.Sound) {name : String} {path : IncludePath}
    (hpath : path.From c name) : path.IsChain fun j k => k.root = j.target := by
  induction path generalizing name with
  | nil => exact .nil
  | cons j path ih =>
      obtain ⟨hj, hrest⟩ := hpath
      cases path with
      | nil => exact .singleton j
      | cons k path =>
          have htarget := (hc.planned j (Catalog.join?_spec hj).1).target
          exact .cons_cons (hc.join_root htarget hrest.1) (ih hrest)

theorem plansPrefixes (hc : c.Sound) {root : EntityType} (h : ofChains c root chains = .ok plan) :
    PlansPrefixes c root chains plan := by
  obtain ⟨hplans, hordered⟩ := ofChains_spec h
  have hnames : ∀ p ∈ plan.paths, ∀ q ∈ plan.paths, p.names = q.names → p = q :=
    fun p hp q hq he => (hordered.walks p hp).eq_of_names (hordered.walks q hq) he
  constructor
  case prefixes =>
      intro names
      rw [List.mem_map]
      constructor
      · rintro ⟨path, hpath, rfl⟩
        obtain ⟨hne, -, hchain⟩ := (hplans.mem_iff path).mp hpath
        exact ⟨by simpa [IncludePath.names] using hne, hchain⟩
      · rintro ⟨hne, chain, hchain, hprefix⟩
        obtain ⟨walk, hwalk, rfl⟩ := hplans.walk chain hchain
        obtain ⟨path, hpath, rfl⟩ := List.prefix_map_iff.mp hprefix
        refine ⟨path, (hplans.mem_iff path).mpr ⟨?_, hwalk.of_prefix hpath, _, hchain, hprefix⟩, rfl⟩
        rintro rfl
        exact hne rfl
  case once => exact hordered.distinct.map_on hnames
  case ordered =>
      obtain ⟨paths, hpaths, h⟩ := bind_eq_ok_iff.mp h
      obtain rfl := Except.ok.inj h
      have hstart : Plans c root.name [] [] := ⟨by simp, by simp, List.nodup_nil⟩
      have hfirst : ByFirstChain chains paths := ByFirstChain.foldlM hstart .nil hpaths
      rw [List.pairwise_map]
      refine (pairwise_mergeSort_lex hfirst).imp fun {p q} hpq => ?_
      simpa [Precedes, IncludePath.names] using hpq
  case joined => exact fun path hpath => isChain_of_from hc (hordered.walks path hpath)
  case starts =>
      intro j rest hpath
      obtain ⟨hj, -⟩ := hordered.walks _ hpath
      exact ⟨(Catalog.join?_spec hj).2.1, fun hroot => hc.join_root hroot hj⟩

theorem loadsInOrder {db : Database} (hc : db.catalog.Sound) {root : EntityType}
    (h : ofChains db.catalog root chains = .ok plan) {before after : List IncludePath}
    {path : IncludePath} (hsplit : plan.paths = before ++ path :: after) :
    LoadsInOrder plan db before path after := by
  obtain ⟨paths⟩ := plan
  obtain rfl : paths = before ++ path :: after := hsplit
  have hordered := (ofChains_spec h).2
  have hbefore : Ordered db.catalog root.name ⟨before⟩ := hordered.of_append
  constructor
  case steps => exact fun page => loadPaths_append db before (path :: after) page
  case once =>
      obtain ⟨-, hafter, hdisjoint⟩ := List.nodup_append.mp hordered.distinct
      exact ⟨fun hmem => hdisjoint path hmem path List.mem_cons_self rfl,
        (List.nodup_cons.mp hafter).1⟩
  case beginnings => exact fun start => hordered.mem_before
  case carried =>
      intro page page' hpage start j hstart hproper e he x hx
      have hmem : start ++ [j] ∈ before := hordered.mem_before hstart (by simp) hproper
      obtain ⟨k, rest, hfirst, -⟩ := IncludePath.exists_first start j
      have hwalk := hbefore.walks _ hmem
      rw [hfirst] at hwalk
      obtain ⟨hkmem, hname, -⟩ := Catalog.join?_spec hwalk.1
      rw [loadPaths_spec hpage] at he
      obtain ⟨y, -, rfl⟩ := List.mem_map.mp he
      have hcarries := included_carries (e := y) hc (hc.planned k hkmem).root (hname ▸ hbefore) hmem
      rw [Entity.held, List.forall_mem_map] at hcarries
      exact Option.isSome_iff_exists.mp (hcarries x hx)

/-- Over a built catalog, planning chains fails exactly with the first stop of a walk along them: at
a name that the entity does not declare as a navigation, or at the shape of a collection. Otherwise
the plan has the beginnings of the chains, each once, by length and then by the first chain with it,
and loading them loads a path once and after its beginnings. -/
theorem ofChains_plans_beginnings {bundle : SchemaBundle}
    {resolve : String → Option TableSchema} (hbuild : Catalog.build bundle resolve = .ok c)
    (root : EntityType) (chains : List (List String)) :
    (∀ error, ofChains c root chains = .error error ↔ FirstStop c root.name chains error) ∧
    (∀ entity navigation, c.join? entity navigation = none ↔
      ∀ d ∈ bundle.entities, d.name = entity → ∀ n ∈ d.navigations, n.name ≠ navigation) ∧
    ∀ plan, ofChains c root chains = .ok plan → PlansPrefixes c root chains plan ∧
      ∀ db : Database, db.catalog = c → ∀ before path after,
        plan.paths = before ++ path :: after → LoadsInOrder plan db before path after := by
  have hc : c.Sound := (Catalog.build_spec hbuild).1
  refine ⟨fun error => ?_, fun entity navigation => ?_, fun plan hplan => ?_⟩
  · exact bind_ok_eq_error_iff.trans foldlM_addChain_eq_error_iff
  · rw [← Option.not_isSome_iff_eq_none, Option.isSome_iff_exists,
      (Catalog.built_of_build hbuild).exists_join?_iff]
    simp
  · refine ⟨plansPrefixes hc hplan, fun db hdb before path after hsplit => ?_⟩
    subst hdb
    exact loadsInOrder hc hplan hsplit

/-- A manager has no boss, and the manager's manager is loaded after the manager. -/
theorem ofChains_plans_beginnings_of_managers :
    ofChains Staff.catalog Staff.entity [["Manager"], ["Manager", "Boss"]] =
      .error (.unknownMember "Staff" "Boss") ∧
    PlansPrefixes Staff.catalog Staff.entity [["Manager", "Manager"]]
      ⟨[[Staff.manager], [Staff.manager, Staff.manager]]⟩ ∧
    LoadsInOrder ⟨[[Staff.manager], [Staff.manager, Staff.manager]]⟩ Staff.database
      [[Staff.manager]] [Staff.manager, Staff.manager] [] := by
  have hmanager : Staff.catalog.join? "Staff" "Manager" = some Staff.manager := rfl
  have hreference : Staff.manager.Includable := nofun
  have hstop : FirstStop Staff.catalog "Staff" [["Manager"], ["Manager", "Boss"]]
      (.unknownMember "Staff" "Boss") := by
    refine ⟨[["Manager"]], _, [], rfl, fun earlier hearlier error hstops => ?_,
      .later hmanager hreference (.unknown rfl)⟩
    obtain rfl := List.mem_singleton.mp hearlier
    cases hstops with
    | unknown h => cases hmanager.symm.trans h
    | shape h hshape =>
        obtain rfl := Option.some.inj (hmanager.symm.trans h)
        exact hshape hreference
    | later _ _ hrest => cases hrest
  obtain ⟨hprefixes, hloads⟩ :=
    (ofChains_plans_beginnings Staff.build Staff.entity _).2.2 _ Staff.managers_plan
  exact ⟨((ofChains_plans_beginnings Staff.build Staff.entity _).1 _).mpr hstop, hprefixes,
    hloads Staff.database rfl _ _ _ rfl⟩

end IncludePlan

end ColumnQuery
