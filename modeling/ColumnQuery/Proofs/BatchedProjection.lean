import ColumnQuery.Proofs.Evaluation
import ColumnQuery.Proofs.Resolver
import ColumnQuery.Related.Projection

/-! # Batched projections

Projecting a page gives each of its roots what the first target rows of its keys give to the root
alone, whichever other roots are on the page. -/

namespace ColumnQuery

namespace BatchedProjection

/-! ## Bound values of one root -/

/-- Bound values of one navigation: those of the first target row with the key. -/
def rowOf? (p : BatchedProjection) (tables : TableSet) (j : JoinPlan) (key : Int) :
    Option (List (String × Value)) := do
  let t ← tables.find? j.target.table
  let h ← (t.keyIndex j.targetKey.field (fun _ => true) t.handles).lookup key
  (readRow t h j.target (p.reads.filter (·.navigation == j.navigation))).toOption

def boundValue (p : BatchedProjection) (tables : TableSet) (root : Entity) (r : BoundRead) :
    Value :=
  let value? : Option Value := do
    let j ← p.navigations.find? (·.navigation == r.navigation)
    let values ← p.rowOf? tables j (← keyOf? j root)
    values.lookup r.parameter
  value?.getD r.member.type.defaultValue

/-- Parameters in scope for one root, whatever else is on its page. -/
def boundScope (p : BatchedProjection) (tables : TableSet) (root : Entity) : Scope :=
  (p.reads.map fun r => (r.parameter, p.boundValue tables root r)).reverse ++
    [(p.parameter, root.toValue)]

def projected (p : BatchedProjection) (tables : TableSet) (source : NavigationSource)
    (root : Entity) : Except Error Value :=
  (p.body.eval (some source) <|
    (p.reads.map fun r => (r.parameter, p.boundValue tables root r)).reverse ++
      [(p.parameter, root.toValue)]).result

/-! ## Pages -/

variable {p : BatchedProjection} {j : JoinPlan} {t : Table} {reads : List BoundRead}
  {keys : List Int} {rows : List RowHandle} {found result : FoundRows}

/-- A scan finds the first row of each key that is not found yet. -/
theorem findRows_spec (h : (findRows j t reads keys rows found).result = .ok result) {key : Int}
    (hkey : key ∈ keys) :
    result.lookup key = (found.lookup key).or
      (((t.keyIndex j.targetKey.field (fun _ => true) rows).lookup key).bind fun h =>
        (readRow t h j.target reads).toOption) := by
  induction rows generalizing found with
  | nil =>
      obtain rfl := Except.ok.inj h
      simp [Table.keyIndex]
  | cons row rows ih =>
      rw [findRows] at h
      simp only [Traced.result_bind, Traced.result_ofResult] at h
      obtain ⟨_, -, h⟩ := bind_eq_ok_iff.mp h
      obtain ⟨key?, hread, h⟩ := bind_eq_ok_iff.mp h
      rw [Table.keyIndex, List.filterMap_cons, hread]
      cases key? with
      | none => exact ih h
      | some k =>
          have hhead : (Option.filter (fun _ => true)
              (Except.ok (some k) : Except Error (Option Int)).toOption.join).map (·, row) =
                some (k, row) := rfl
          rw [hhead]
          dsimp only at h
          by_cases hk : key = k
          · subst hk
            rw [List.lookup_cons, beq_self_eq_true]
            dsimp only
            split at h
            · rename_i hnew
              have hnone : found.lookup key = none := by simpa [hkey] using hnew
              rw [Traced.result_bind] at h
              obtain ⟨values, hvalues, h⟩ := bind_eq_ok_iff.mp h
              have hvalues : readRow t row j.target reads = .ok values := hvalues
              rw [ih h, List.lookup_append, hnone, Option.bind_some, hvalues]
              simp [Except.toOption]
            · rename_i hold
              obtain ⟨values, hvalues⟩ : ∃ values, found.lookup key = some values := by
                rw [← Option.isSome_iff_exists, ← Option.not_isNone]
                simpa [hkey] using hold
              rw [ih h, hvalues, Option.some_or, Option.some_or]
          · have hne : (key == k) = false := by simpa using hk
            rw [List.lookup_cons, hne]
            dsimp only
            split at h
            · rw [Traced.result_bind] at h
              obtain ⟨values, -, h⟩ := bind_eq_ok_iff.mp h
              have hother : List.lookup key [(k, values)] = none := by
                rw [List.lookup_cons, hne]
                rfl
              rw [ih h, List.lookup_append, hother, Option.or_none]
              rfl
            · exact ih h

variable {tables : TableSet} {page : List Entity} {root : Entity}

/-- What is found for a page has the bound values of the keys of its roots. -/
theorem findFor_spec (h : (p.findFor tables page j).result = .ok found) (hroot : root ∈ page)
    {key : Int} (hkey : keyOf? j root = some key) : found.lookup key = p.rowOf? tables j key := by
  have hmem : key ∈ page.filterMap (keyOf? j) := List.mem_filterMap.mpr ⟨root, hroot, hkey⟩
  rw [findFor] at h
  split at h
  · rename_i hempty
    rw [List.isEmpty_iff.mp hempty] at hmem
    cases hmem
  · rw [Traced.result_bind] at h
    obtain ⟨t, ht, h⟩ := bind_eq_ok_iff.mp h
    have ht : tables.find? j.target.table = some t := by
      simp only [Traced.result_ofResult, TableSet.table] at ht
      split at ht
      · rename_i t' hfound
        obtain rfl := Except.ok.inj ht
        exact hfound
      · cases ht
    rw [findRows_spec h hmem, rowOf?, ht]
    rfl

theorem findAll_spec {navigations : List JoinPlan} {all : List (JoinPlan × FoundRows)}
    (h : (p.findAll tables page navigations).result = .ok all) :
    List.Forall₂ (fun j found => found.1 = j ∧ (p.findFor tables page j).result = .ok found.2)
      navigations all := by
  induction navigations generalizing all with
  | nil =>
      obtain rfl := Except.ok.inj h
      exact .nil
  | cons j navigations ih =>
      rw [findAll] at h
      simp only [Traced.result_bind, Traced.result_pure] at h
      obtain ⟨found, hfound, h⟩ := bind_eq_ok_iff.mp h
      obtain ⟨rest, hrest, h⟩ := bind_eq_ok_iff.mp h
      obtain rfl := Except.ok.inj h
      exact .cons ⟨rfl, hfound⟩ (ih hrest)

/-- A root on a page takes the values that it takes alone. -/
theorem valueOf_eq {all : List (JoinPlan × FoundRows)}
    (h : (p.findAll tables page p.navigations).result = .ok all) (hroot : root ∈ page)
    (r : BoundRead) : valueOf all root r = p.boundValue tables root r := by
  have hfind : ∀ (navigations : List JoinPlan) (all : List (JoinPlan × FoundRows)),
      List.Forall₂ (fun j found => found.1 = j ∧ (p.findFor tables page j).result = .ok found.2)
        navigations all →
      ((all.find? fun f => f.1.navigation == r.navigation).bind fun f =>
        (keyOf? f.1 root).bind fun key => (f.2.lookup key).bind fun values =>
          values.lookup r.parameter) =
      ((navigations.find? (·.navigation == r.navigation)).bind fun j =>
        (keyOf? j root).bind fun key => (p.rowOf? tables j key).bind fun values =>
          values.lookup r.parameter) := by
    intro navigations all hall
    induction hall with
    | nil => rfl
    | @cons j found navigations all hj hall ih =>
        obtain ⟨k, rows⟩ := found
        obtain ⟨rfl, hrows⟩ := hj
        rw [List.find?_cons, List.find?_cons]
        dsimp only
        cases hname : k.navigation == r.navigation with
        | false => exact ih
        | true =>
            simp only [Option.bind_some]
            cases hkey : keyOf? k root with
            | none => rfl
            | some key => simp only [Option.bind_some, findFor_spec hrows hroot hkey]
  exact congrArg (·.getD r.member.type.defaultValue) (hfind p.navigations all (findAll_spec h))

theorem scopeOf_eq {all : List (JoinPlan × FoundRows)}
    (h : (p.findAll tables page p.navigations).result = .ok all) (hroot : root ∈ page) :
    p.scopeOf all root = p.boundScope tables root := by
  rw [scopeOf, boundScope]
  simp only [valueOf_eq h hroot]

theorem projectRoots_eq_ok_iff {source : Option NavigationSource}
    {all : List (JoinPlan × FoundRows)} {scope : Entity → Scope} {roots : List Entity}
    {values : List Value} (hscope : ∀ root ∈ roots, p.scopeOf all root = scope root) :
    (p.projectRoots source all roots).result = .ok values ↔
      List.Forall₂ (fun root v => (p.body.eval source (scope root)).result = .ok v)
        roots values := by
  induction roots generalizing values with
  | nil =>
      rw [List.forall₂_nil_left_iff]
      exact ⟨fun h => (Except.ok.inj h).symm, fun h => congrArg Except.ok h.symm⟩
  | cons root roots ih =>
      obtain ⟨hroot, hroots⟩ := List.forall_mem_cons.mp hscope
      rw [projectRoots, hroot]
      simp only [Traced.result_bind, Traced.result_pure]
      constructor
      · intro h
        obtain ⟨v, hv, h⟩ := bind_eq_ok_iff.mp h
        obtain ⟨rest, hrest, h⟩ := bind_eq_ok_iff.mp h
        obtain rfl := Except.ok.inj h
        exact .cons hv ((ih hroots).mp hrest)
      · intro h
        obtain ⟨v, rest, hv, hrest, rfl⟩ := List.forall₂_cons_left_iff.mp h
        rw [hv, ok_bind, (ih hroots).mpr hrest]
        rfl

/-- A page is projected root by root, also from a source that the page's follows. -/
theorem projectPage_spec {strict : Prop} {source source' : NavigationSource}
    (hsource : ∀ e name, Follows strict (source e name) (source' e name)) {values : List Value}
    (h : (p.projectPage tables (some source) page).result = .ok values) :
    List.Forall₂ (fun root v => p.projected tables source' root = .ok v) page values := by
  rw [projectPage, Traced.result_bind] at h
  obtain ⟨all, hall, h⟩ := bind_eq_ok_iff.mp h
  refine ((projectRoots_eq_ok_iff fun root hroot => scopeOf_eq hall hroot).mp h).imp ?_
  intro root v hv
  exact (hv ▸ Expr.eval_follows hsource _ p.body).eq_of_ok

end BatchedProjection

end ColumnQuery
