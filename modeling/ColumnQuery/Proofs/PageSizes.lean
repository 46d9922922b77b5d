import ColumnQuery.Proofs.MemoryStages
import ColumnQuery.Proofs.PageSuccess

/-! # Sizes of pages

A page is no longer than what a reducer can ask for, so a sequence with a reducer behind it may be
cut into other pages than the sequence alone. Where the sequence alone has all its values, this does
not show: every page succeeds that is made of its entities. -/

namespace ColumnQuery

variable {α β : Type}

/-! ## Values that are all there -/

namespace Tracks

variable {P : Error → Prop} {lax : Prop} {items items' : List (Except Error α)}

theorem refl_of_completes (h : ∀ r ∈ items, Completes r) : Tracks P lax Eq items items := by
  induction items with
  | nil => exact .nil
  | cons item items ih =>
      obtain ⟨⟨a, rfl⟩, hrest⟩ := List.forall_mem_cons.mp h
      exact .cons rfl (ih hrest)

/-- Items that track others where no error is excused are these. -/
theorem eq_of_unexcused (h : Tracks (fun _ => False) False Eq items items') : items = items' := by
  induction h with
  | nil => rfl
  | cons hab _ ih => rw [hab, ih]
  | left he => exact he.elim
  | right _ he => exact he.elim

end Tracks

namespace Stream

variable {process : List α → Traced (List β)} {page : List α} {size : Nat} {s s' : Stream α}

theorem completes_of_ofPage (h : ∀ r ∈ (ofPage process page).items, Completes r) {a : α}
    (ha : a ∈ page) : Completes (process page).result := by
  have hpage : page.isEmpty = false := by
    cases page with
    | nil => cases ha
    | cons _ _ => rfl
  rw [ofPage, hpage, if_neg Bool.false_ne_true] at h
  simp only [items_after] at h
  cases hresult : (process page).result with
  | ok values => exact .ok values
  | error e =>
      rw [hresult] at h
      obtain ⟨_, he⟩ := h (.error e) List.mem_cons_self
      cases he

/-- Pages that yield values alone are made of values, and each value is on a page that succeeds. -/
theorem completes_of_pagedFrom (h : ∀ r ∈ (s.pagedFrom size process page).items, Completes r) :
    (∀ r ∈ s.items, Completes r) ∧ ∀ a, a ∈ page ∨ .ok a ∈ s.items →
      ∃ pulled, a ∈ pulled ∧ Completes (process pulled).result := by
  induction s generalizing page with
  | done =>
      refine ⟨fun _ hr => absurd hr List.not_mem_nil, fun a ha => ⟨page, ?_⟩⟩
      have ha : a ∈ page := ha.resolve_right List.not_mem_nil
      exact ⟨ha, completes_of_ofPage h ha⟩
  | effect e rest ih => exact ih h
  | item r rest ih =>
      cases r with
      | error e =>
          rw [pagedFrom, items_append] at h
          obtain ⟨_, he⟩ := h (.error e) (List.mem_append_right _ List.mem_cons_self)
          cases he
      | ok a =>
          have hitem : ∀ x, x ∈ page ∨ .ok x ∈ (item (.ok a) rest).items →
              x ∈ page ++ [a] ∨ .ok x ∈ rest.items := by
            rintro x (hx | hx)
            · exact .inl (List.mem_append_left _ hx)
            · rcases List.mem_cons.mp hx with hx | hx
              · obtain rfl := Except.ok.inj hx
                exact .inl (List.mem_append_right _ List.mem_cons_self)
              · exact .inr hx
          rw [pagedFrom] at h
          dsimp only at h
          split at h
          · obtain ⟨hrest, hpages⟩ := ih h
            exact ⟨List.forall_mem_cons.mpr ⟨.ok a, hrest⟩, fun x hx => hpages x (hitem x hx)⟩
          · rw [items_after] at h
            cases hresult : (process (page ++ [a])).result with
            | error e =>
                rw [hresult] at h
                obtain ⟨_, he⟩ := h (.error e) List.mem_cons_self
                cases he
            | ok values =>
                rw [hresult] at h
                dsimp only at h
                rw [items_append, List.forall_mem_append] at h
                obtain ⟨hrest, hpages⟩ := ih h.2
                refine ⟨List.forall_mem_cons.mpr ⟨.ok a, hrest⟩, fun x hx => ?_⟩
                rcases hitem x hx with hx | hx
                · exact ⟨page ++ [a], hx, values, hresult⟩
                · exact hpages x (.inr hx)

/-- Values in pages do not depend on the size of the pages, where a page succeeds if its values do
and all values of one size are there. -/
theorem items_paged_congr {g : α → Except Error β} {size' : Nat} (hitems : s'.items = s.items)
    (hvalues : ∀ page values, (process page).result = .ok values →
      List.Forall₂ (fun a c => g a = .ok c) page values)
    (hsingle : ∀ page, Completes (process page).result ↔
      ∀ a ∈ page, Completes (process [a]).result)
    (h : ∀ r ∈ (s.paged size process).items, Completes r) :
    (s'.paged size' process).items = (s.paged size process).items := by
  obtain ⟨hs, hpages⟩ := completes_of_pagedFrom h
  have hpage : ∀ page : List α, (∀ a ∈ page, .ok a ∈ s.items) →
      Completes (process page).result := by
    intro page hpage
    rw [hsingle]
    intro a ha
    obtain ⟨pulled, hmem, hpulled⟩ := hpages a (.inr (hpage a ha))
    exact (hsingle pulled).mp hpulled a hmem
  have hmap : ∀ (t : Stream α) (size : Nat), t.items = s.items →
      (t.paged size process).items = s.items.map (· >>= g) := by
    intro t size ht
    have hfail : ∀ page : List α, (∀ a ∈ page, .ok a ∈ s.items) →
        ∀ e, (process page).result = .error e → False := by
      intro page hmem e he
      obtain ⟨_, hok⟩ := hpage page hmem
      cases he.symm.trans hok
    have htracks : Tracks (fun _ => False) False Eq (([] : List α).map Except.ok ++ t.items)
        s.items := by
      rw [List.map_nil, List.nil_append, ht]
      exact .refl_of_completes hs
    exact (Tracks.pagedFrom hvalues hfail size (fun _ ha => absurd ha List.not_mem_nil)
      (fun a ha => ht ▸ ha) htracks).eq_of_unexcused
  rw [hmap s' size' hitems, hmap s size rfl]

end Stream

/-! ## Stages that pass every value on -/

namespace MemoryStage

/-- Whether a stage yields something for every value that it does not skip. -/
def passes : MemoryStage → Bool
  | .select _ | .selectBatched .. | .skip _ | .including .. => true
  | .filter _ | .take _ => false

variable {db : Database} {s s' : Stream Value} {stage stage' : MemoryStage}

theorem completes_of_map {f : Value → Traced α}
    (h : ∀ r ∈ (s.map f).items, Completes r) : ∀ r ∈ s.items, Completes r := by
  intro r hr
  rw [Stream.items_map, List.forall_mem_map] at h
  obtain ⟨a, ha, -⟩ := completes_bind_iff.mp (h r hr)
  exact ⟨a, ha⟩

theorem completes_of_skipItems {n : Nat} {items : List (Except Error α)}
    (h : ∀ r ∈ skipItems n items, Completes r) : ∀ r ∈ items, Completes r := by
  induction items generalizing n with
  | nil => exact fun _ hr => absurd hr List.not_mem_nil
  | cons item items ih =>
      cases n with
      | zero => exact h
      | succ n =>
          cases item with
          | error e =>
              obtain ⟨_, he⟩ := h (.error e) List.mem_cons_self
              cases he
          | ok a => exact List.forall_mem_cons.mpr ⟨.ok a, ih h⟩

/-- No error is lost on the way through a stage that passes every value on. -/
theorem completes_of_run (hpasses : stage.passes = true)
    (h : ∀ r ∈ (stage.run db s).items, Completes r) : ∀ r ∈ s.items, Completes r := by
  cases stage with
  | select projection => exact completes_of_map h
  | skip n =>
      rw [run, Stream.items_skip] at h
      exact completes_of_skipItems h
  | selectBatched projection size | including plan size =>
      exact completes_of_map (Stream.completes_of_pagedFrom h).1
  | filter predicate | take n => cases hpasses

/-- The size of its pages does not show in a stage that yields values alone. -/
theorem items_run_congr (hpasses : stage.passes = true) (hsame : stage'.unpaged = stage.unpaged)
    (hitems : s'.items = s.items) (h : ∀ r ∈ (stage.run db s).items, Completes r) :
    (stage'.run db s').items = (stage.run db s).items := by
  have hentities : (s'.map Value.asEntity).items = (s.map Value.asEntity).items := by
    rw [Stream.items_map, Stream.items_map, hitems]
  cases stage with
  | select projection =>
      cases stage' <;> cases hsame
      rw [run, run, Stream.items_map, Stream.items_map, hitems]
  | skip n =>
      cases stage' <;> cases hsame
      rw [run, run, Stream.items_skip, Stream.items_skip, hitems]
  | selectBatched projection size =>
      cases stage' <;> cases hsame
      have hsource : ∀ x name, Follows True (db.source x name) (db.source x name) :=
        fun _ _ => .refl _
      exact Stream.items_paged_congr hentities
        (fun _ _ => projection.projectPage_spec hsource)
        (fun _ => projection.projectPage_completes_iff) h
  | including plan size =>
      cases stage' <;> cases hsame
      refine Stream.items_paged_congr (g := fun e => .ok (plan.included db e).toValue) hentities
        (fun page values hpage => ?_) (fun page => ?_) h
      · rw [Traced.result_bind] at hpage
        obtain ⟨loaded, hloaded, hpage⟩ := bind_eq_ok_iff.mp hpage
        obtain rfl := Except.ok.inj hpage
        rw [IncludePlan.apply_spec hloaded, List.map_map, List.forall₂_map_right_iff]
        exact List.forall₂_same.mpr fun e _ => rfl
      · simp only [Traced.result_bind, Traced.result_pure, ← pure_eq_ok]
        exact completes_bind_ok_iff.trans <| plan.apply_completes_iff.trans <|
          forall₂_congr fun _ _ => completes_bind_ok_iff.symm
  | filter predicate | take n => cases hpasses

/-- Sizes of pages do not show in stages that yield values alone. -/
theorem items_foldl_congr {stages stages' : List MemoryStage}
    (hpasses : ∀ stage ∈ stages, stage.passes = true)
    (hsame : stages'.map unpaged = stages.map unpaged) (hitems : s'.items = s.items)
    (h : ∀ r ∈ (stages.foldl (run db) s).items, Completes r) :
    (stages'.foldl (run db) s').items = (stages.foldl (run db) s).items := by
  have hbefore : ∀ (stages : List MemoryStage) (s : Stream Value),
      (∀ stage ∈ stages, stage.passes = true) →
        (∀ r ∈ (stages.foldl (run db) s).items, Completes r) → ∀ r ∈ s.items, Completes r := by
    intro stages
    induction stages with
    | nil => exact fun _ _ h => h
    | cons stage stages ih =>
        intro s hpasses h
        obtain ⟨hstage, hrest⟩ := List.forall_mem_cons.mp hpasses
        exact completes_of_run hstage (ih _ hrest h)
  induction stages generalizing stages' s s' with
  | nil =>
      obtain rfl := List.map_eq_nil_iff.mp hsame
      exact hitems
  | cons stage stages ih =>
      obtain ⟨hstage, hrest⟩ := List.forall_mem_cons.mp hpasses
      obtain ⟨stage', rest', rfl, hhead, htail⟩ := List.map_eq_cons_iff.mp hsame
      rw [List.foldl_cons, List.foldl_cons]
      exact ih hrest htail (items_run_congr hstage hhead hitems (hbefore stages _ hrest h)) h

end MemoryStage

/-! ## Stages of a query -/

namespace Engine

/-- The stage of an operator other than an include, before the given operators, and the type of the
entities behind it. -/
inductive OpStage (e : Engine) (reducer : Option Reducer) (element : Option EntityType)
    (rest : List QueryOp) : QueryOp → MemoryStage → Option EntityType → Prop where
  | filter (predicate : Expr) :
      OpStage e reducer element rest (.filter predicate) (.filter predicate) element
  | select {projection : Expr} {stage : MemoryStage}
      (h : e.selectStage reducer element projection rest = .ok stage) :
      OpStage e reducer element rest (.select projection) stage none
  | skip (n : Nat) : OpStage e reducer element rest (.skip n) (.skip n) element
  | take (n : Nat) : OpStage e reducer element rest (.take n) (.take n) element

/-- The stages of operators on values, where some paths are still to be included. -/
inductive Staged (e : Engine) (reducer : Option Reducer) :
    Option EntityType → List (List String) → List QueryOp → List MemoryStage → Prop where
  | done {element : Option EntityType} {paths : List (List String)} {stages : List MemoryStage}
      (h : e.includeStage reducer element paths [] = .ok stages) :
      Staged e reducer element paths [] stages
  | including {element : Option EntityType} {paths : List (List String)} {path : List String}
      {rest : List QueryOp} {stages : List MemoryStage}
      (h : Staged e reducer element (paths ++ [path]) rest stages) :
      Staged e reducer element paths (.including path :: rest) stages
  | stage {element behind : Option EntityType} {paths : List (List String)} {op : QueryOp}
      {rest : List QueryOp} {before stages : List MemoryStage} {stage : MemoryStage}
      (hbefore : e.includeStage reducer element paths (op :: rest) = .ok before)
      (hop : OpStage e reducer element rest op stage behind)
      (hrest : Staged e reducer behind [] rest stages) :
      Staged e reducer element paths (op :: rest) (before ++ stage :: stages)

variable {e : Engine} {reducer reducer' : Option Reducer} {element : Option EntityType}
  {paths : List (List String)} {ops rest rest' : List QueryOp} {stages before : List MemoryStage}

theorem memoryStages_eq_ok_iff :
    e.memoryStages reducer element paths ops = .ok stages ↔
      Staged e reducer element paths ops stages := by
  constructor
  · intro h
    induction ops generalizing element paths stages with
    | nil => exact .done h
    | cons op ops ih =>
        cases op with
        | including path => exact .including (ih h)
        | filter _ | skip _ | take _ =>
            obtain ⟨before, hbefore, h⟩ := bind_eq_ok_iff.mp h
            obtain ⟨rest, hrest, h⟩ := bind_eq_ok_iff.mp h
            obtain rfl := Except.ok.inj h
            exact .stage hbefore (by constructor) (ih hrest)
        | select projection =>
            obtain ⟨before, hbefore, h⟩ := bind_eq_ok_iff.mp h
            obtain ⟨stage, hstage, h⟩ := bind_eq_ok_iff.mp h
            obtain ⟨rest, hrest, h⟩ := bind_eq_ok_iff.mp h
            obtain rfl := Except.ok.inj h
            exact .stage hbefore (.select hstage) (ih hrest)
  · intro h
    induction h with
    | done h => exact h
    | including _ ih => exact ih
    | stage hbefore hop _ ih =>
        cases hop with
        | select hstage =>
            rw [memoryStages, hbefore, ok_bind, hstage, ok_bind, ih]
            rfl
        | _ =>
            rw [memoryStages, hbefore, ok_bind, ih]
            rfl

/-! ## Reducers behind a query -/

/-- An include passes every value on, and only the size of its pages depends on what is behind. -/
theorem includeStage_spec (h : e.includeStage reducer element paths rest = .ok before)
    (reducer' : Option Reducer) (rest' : List QueryOp) :
    (∀ stage ∈ before, stage.passes = true) ∧
      ∃ before', e.includeStage reducer' element paths rest' = .ok before' ∧
        before'.map MemoryStage.unpaged = before.map MemoryStage.unpaged := by
  unfold includeStage at h ⊢
  split at h
  · obtain rfl := Except.ok.inj h
    exact ⟨fun _ hs => absurd hs List.not_mem_nil, [], if_pos ‹_›, rfl⟩
  · rename_i hpaths
    rw [if_neg hpaths]
    cases element with
    | none => cases h
    | some root =>
        obtain ⟨plan, hplan, h⟩ := bind_eq_ok_iff.mp h
        obtain rfl := Except.ok.inj h
        dsimp only
        rw [hplan]
        exact ⟨List.forall_mem_singleton.mpr rfl, _, rfl, rfl⟩

theorem includeStage_congr (h : demand? reducer rest = demand? reducer' rest') :
    e.includeStage reducer element paths rest = e.includeStage reducer' element paths rest' := by
  unfold includeStage Settings.pageBound
  rw [h]

/-- A projection passes every value on, and only the size of its pages depends on what is behind. -/
theorem selectStage_spec {projection : Expr} {stage : MemoryStage}
    (h : e.selectStage reducer element projection rest = .ok stage)
    (reducer' : Option Reducer) (rest' : List QueryOp) :
    stage.passes = true ∧
      ∃ stage', e.selectStage reducer' element projection rest' = .ok stage' ∧
        stage'.unpaged = stage.unpaged := by
  unfold selectStage at h ⊢
  cases element with
  | none =>
      obtain rfl := Except.ok.inj h
      exact ⟨rfl, _, rfl, rfl⟩
  | some root =>
      obtain ⟨batched, hbatched, h⟩ := bind_eq_ok_iff.mp h
      obtain rfl := Except.ok.inj h
      dsimp only
      rw [hbatched]
      cases batched <;> exact ⟨rfl, _, rfl, rfl⟩

theorem selectStage_congr {projection : Expr}
    (h : demand? reducer rest = demand? reducer' rest') :
    e.selectStage reducer element projection rest =
      e.selectStage reducer' element projection rest' := by
  unfold selectStage Settings.pageBound
  rw [h]

namespace OpStage

variable {op : QueryOp} {stage : MemoryStage} {behind : Option EntityType}

theorem change (h : OpStage e reducer element rest op stage behind) (reducer' : Option Reducer)
    (rest' : List QueryOp) : ∃ stage', OpStage e reducer' element rest' op stage' behind ∧
      stage'.unpaged = stage.unpaged := by
  cases h with
  | filter predicate => exact ⟨_, .filter predicate, rfl⟩
  | select h =>
      obtain ⟨-, stage', hstage', hsame⟩ := selectStage_spec h reducer' rest'
      exact ⟨stage', .select hstage', hsame⟩
  | skip n => exact ⟨_, .skip n, rfl⟩
  | take n => exact ⟨_, .take n, rfl⟩

end OpStage

namespace Staged

/-- The stages of a query with more operators and another reducer behind it: they differ in the
sizes of pages, and in what is added at the end. -/
theorem extend {added : List QueryOp} {tail : List MemoryStage}
    (htail : ∀ element paths before, e.includeStage reducer element paths [] = .ok before →
      ∃ stages, Staged e reducer' element paths added stages ∧
        stages.map MemoryStage.unpaged = (before ++ tail).map MemoryStage.unpaged)
    (h : Staged e reducer element paths ops stages) :
    ∃ stages', Staged e reducer' element paths (ops ++ added) stages' ∧
      stages'.map MemoryStage.unpaged = (stages ++ tail).map MemoryStage.unpaged := by
  induction h with
  | done h => exact htail _ _ _ h
  | including _ ih =>
      obtain ⟨stages', hstages', hsame⟩ := ih
      exact ⟨stages', .including hstages', hsame⟩
  | @stage element behind paths op rest before stages stage hbefore hop _ ih =>
      obtain ⟨stages', hstages', hsame⟩ := ih
      obtain ⟨-, before', hbefore', hsameBefore⟩ :=
        includeStage_spec hbefore reducer' (op :: (rest ++ added))
      obtain ⟨stage', hop', hsameStage⟩ := hop.change reducer' (rest ++ added)
      refine ⟨before' ++ stage' :: stages', .stage hbefore' hop' hstages', ?_⟩
      rw [List.append_assoc, List.cons_append, List.map_append, List.map_append, List.map_cons,
        List.map_cons, hsameBefore, hsameStage, hsame]

/-- With another reducer the stages differ in the sizes of pages. -/
theorem change (h : Staged e reducer element paths ops stages) (reducer' : Option Reducer) :
    ∃ stages', Staged e reducer' element paths ops stages' ∧
      stages'.map MemoryStage.unpaged = stages.map MemoryStage.unpaged := by
  have htail : ∀ element paths before, e.includeStage reducer element paths [] = .ok before →
      ∃ stages, Staged e reducer' element paths [] stages ∧
        stages.map MemoryStage.unpaged = (before ++ []).map MemoryStage.unpaged := by
    intro element paths before hbefore
    obtain ⟨-, before', hbefore', hsame⟩ := includeStage_spec hbefore reducer' []
    exact ⟨before', .done hbefore', by rw [hsame, List.append_nil]⟩
  simpa using h.extend htail

/-- An operator at the end is a last stage of its own. -/
theorem append {op : QueryOp} {stage : MemoryStage}
    (hop : ∀ element, ∃ behind, OpStage e reducer' element [] op stage behind)
    (h : Staged e reducer element paths ops stages) :
    ∃ stages', Staged e reducer' element paths (ops ++ [op]) stages' ∧
      stages'.map MemoryStage.unpaged = (stages ++ [stage]).map MemoryStage.unpaged := by
  refine h.extend fun element paths before hbefore => ?_
  obtain ⟨-, before', hbefore', hsame⟩ := includeStage_spec hbefore reducer' [op]
  obtain ⟨behind, hop⟩ := hop element
  exact ⟨before' ++ [stage], .stage hbefore' hop (.done rfl), by
    rw [List.map_append, List.map_append, hsame]⟩

/-- Where a reducer changes what the operators can ask for, none of them filters or takes. -/
theorem passes (h : Staged e reducer element paths ops stages)
    (hdemand : demand? reducer ops ≠ demand? reducer' ops) :
    ∀ stage ∈ stages, stage.passes = true := by
  induction h with
  | done h => exact (includeStage_spec h none []).1
  | including _ ih => exact ih hdemand
  | @stage element behind paths op rest before stages stage hbefore hop _ ih =>
      rw [List.forall_mem_append, List.forall_mem_cons]
      refine ⟨(includeStage_spec hbefore none []).1, ?_⟩
      cases hop with
      | filter | take => exact absurd rfl hdemand
      | select hstage => exact ⟨(selectStage_spec hstage none []).1, ih hdemand⟩
      | skip n => exact ⟨rfl, ih fun h => hdemand (congrArg (Option.map (n + ·)) h)⟩

/-- With another reducer the same stages come first, and only stages that pass every value on come
behind the first page of another size. -/
theorem split (h : Staged e reducer element paths ops stages) (reducer' : Option Reducer) :
    ∃ first last last', stages = first ++ last ∧
      Staged e reducer' element paths ops (first ++ last') ∧
        last'.map MemoryStage.unpaged = last.map MemoryStage.unpaged ∧
          ∀ stage ∈ last, stage.passes = true := by
  induction h with
  | @done element paths stages h =>
      obtain ⟨hpasses, stages', hstages', hsame⟩ := includeStage_spec h reducer' []
      exact ⟨[], stages, stages', rfl, .done hstages', hsame, hpasses⟩
  | including _ ih =>
      obtain ⟨first, last, last', rfl, hstages', hsame, hpasses⟩ := ih
      exact ⟨first, last, last', rfl, .including hstages', hsame, hpasses⟩
  | @stage element behind paths op rest before stages stage hbefore hop hrest ih =>
      by_cases hdemand : demand? reducer (op :: rest) = demand? reducer' (op :: rest)
      · obtain ⟨first, last, last', rfl, hstages', hsame, hpasses⟩ := ih
        have hop' : OpStage e reducer' element rest op stage behind := by
          cases hop with
          | filter predicate => exact .filter predicate
          | select hstage => exact .select (selectStage_congr hdemand ▸ hstage)
          | skip n => exact .skip n
          | take n => exact .take n
        refine ⟨before ++ stage :: first, last, last', by simp, ?_, hsame, hpasses⟩
        rw [List.append_assoc, List.cons_append]
        exact .stage (includeStage_congr hdemand ▸ hbefore) hop' hstages'
      · have hall : Staged e reducer element paths (op :: rest) (before ++ stage :: stages) :=
          .stage hbefore hop hrest
        obtain ⟨stages', hstages', hsame⟩ := hall.change reducer'
        exact ⟨[], _, stages', rfl, hstages', hsame, hall.passes hdemand⟩

end Staged

/-- Where a sequence has all its values, it has them with any reducer behind it. -/
theorem memoryStages_items (h : e.memoryStages reducer element paths ops = .ok stages)
    (reducer' : Option Reducer) {s : Stream Value}
    (hs : ∀ r ∈ (stages.foldl (MemoryStage.run e.db) s).items, Completes r) :
    ∃ stages', e.memoryStages reducer' element paths ops = .ok stages' ∧
      (stages'.foldl (MemoryStage.run e.db) s).items =
        (stages.foldl (MemoryStage.run e.db) s).items := by
  obtain ⟨first, last, last', rfl, hstages', hsame, hpasses⟩ :=
    (memoryStages_eq_ok_iff.mp h).split reducer'
  refine ⟨first ++ last', memoryStages_eq_ok_iff.mpr hstages', ?_⟩
  rw [List.foldl_append] at hs ⊢
  rw [List.foldl_append]
  exact MemoryStage.items_foldl_congr hpasses hsame rfl hs

end Engine

end ColumnQuery
