import ColumnQuery.Proofs.ProjectedMembers
import Mathlib.Logic.Function.Basic

/-! # Positions of bound reads

The values that are read from a row come in the order of the reads of its navigation. Dealing them
out to the reads of a projection in their order, one navigation beside the other, gives each read
the value that its parameter names, since no two reads have one parameter. -/

namespace ColumnQuery

/-- In a list of values under distinct keys, the value of a key stands where the key does. -/
theorem lookup_eq_getElem? {α β : Type} [BEq α] [LawfulBEq α] {entries : List (α × β)} {a : α}
    {i : Nat} (hn : (entries.map (·.1)).Nodup) (hi : (entries.map (·.1))[i]? = some a) :
    entries.lookup a = (entries.map (·.2))[i]? := by
  induction entries generalizing i with
  | nil => rfl
  | cons entry entries ih =>
      obtain ⟨hfirst, hn⟩ := List.nodup_cons.mp hn
      rw [List.lookup_cons]
      cases i with
      | zero =>
          obtain rfl : entry.1 = a := by simpa using hi
          simp
      | succ i =>
          have hi : (entries.map (·.1))[i]? = some a := by simpa using hi
          have hne : (a == entry.1) = false := by
            rw [beq_eq_false_iff_ne]
            rintro rfl
            exact hfirst (List.mem_of_getElem? hi)
          rw [hne, List.map_cons, List.getElem?_cons_succ]
          exact ih hn hi

namespace BatchedProjection

/-! ## Rows by position -/

/-- Each row that is found holds values for the parameters of reads, in their order. -/
def InOrder (reads : List BoundRead) (rows : FoundRows) : Prop :=
  ∀ entry ∈ rows, entry.2.map (·.1) = reads.map (·.parameter)

variable {p : BatchedProjection} {tables : TableSet} {j : JoinPlan} {t : Table} {row : RowHandle}
  {reads : List BoundRead} {rows : List RowHandle} {found result : FoundRows} {page : List Entity}

theorem readRow_parameters {target : EntityType} {values : List (String × Value)}
    (h : readRow t row target reads = .ok values) :
    values.map (·.1) = reads.map (·.parameter) := by
  induction reads generalizing values with
  | nil =>
      obtain rfl := Except.ok.inj h
      rfl
  | cons r reads ih =>
      rw [readRow] at h
      split at h
      · cases h
      · obtain ⟨v, -, h⟩ := bind_eq_ok_iff.mp h
        obtain ⟨rest, hrest, h⟩ := bind_eq_ok_iff.mp h
        obtain rfl := Except.ok.inj h
        exact congrArg (r.parameter :: ·) (ih hrest)

theorem findRows_inOrder {keys : List Int} (hfound : InOrder reads found)
    (h : (findRows j t reads keys rows found).result = .ok result) : InOrder reads result := by
  induction rows generalizing found with
  | nil =>
      obtain rfl := Except.ok.inj h
      exact hfound
  | cons row rows ih =>
      rw [findRows] at h
      simp only [Traced.result_bind, Traced.result_ofResult] at h
      obtain ⟨_, -, h⟩ := bind_eq_ok_iff.mp h
      obtain ⟨key?, -, h⟩ := bind_eq_ok_iff.mp h
      cases key? with
      | none => exact ih hfound h
      | some key =>
          dsimp only at h
          split at h
          · rw [Traced.result_bind] at h
            obtain ⟨values, hvalues, h⟩ := bind_eq_ok_iff.mp h
            refine ih (List.forall_mem_append.mpr ⟨hfound, ?_⟩) h
            exact List.forall_mem_singleton.mpr (readRow_parameters hvalues)
          · exact ih hfound h

theorem findFor_inOrder (h : (p.findFor tables page j).result = .ok found) :
    InOrder (p.reads.filter (·.navigation == j.navigation)) found := by
  have hnil : InOrder (p.reads.filter (·.navigation == j.navigation)) [] :=
    fun _ hentry => absurd hentry List.not_mem_nil
  rw [findFor] at h
  split at h
  · obtain rfl := Except.ok.inj h
    exact hnil
  · rw [Traced.result_bind] at h
    obtain ⟨t, -, h⟩ := bind_eq_ok_iff.mp h
    exact findRows_inOrder hnil h

/-! ## Dealing values out -/

/-- Values of reads for a root, taken by their position among the values of its related rows;
`taken` counts the values that a navigation has given so far. -/
def valuesByPosition (all : List (JoinPlan × FoundRows)) (root : Entity) (taken : String → Nat) :
    List BoundRead → List Value
  | [] => []
  | r :: rest =>
    let value? : Option Value := do
      let (j, rows) ← all.find? fun f => f.1.navigation == r.navigation
      let values ← rows.lookup (← keyOf? j root)
      (values.map (·.2))[taken r.navigation]?
    value?.getD r.member.type.defaultValue ::
      valuesByPosition all root
        (Function.update taken r.navigation (taken r.navigation + 1)) rest

variable {all : List (JoinPlan × FoundRows)} {root : Entity}

/-- A read comes after as many reads of its navigation as have been counted. -/
theorem getElem?_filter_navigation (earlier later : List BoundRead) (r : BoundRead) :
    ((earlier ++ r :: later).filter (·.navigation == r.navigation))[
      earlier.countP (·.navigation == r.navigation)]? = some r := by
  rw [List.filter_append, List.countP_eq_length_filter,
    List.getElem?_append_right (Nat.le_refl _), Nat.sub_self,
    List.filter_cons_of_pos (by simp), List.getElem?_cons_zero]

/-- What a row holds under the parameter of a read stands where the read does. -/
theorem lookup_parameter {earlier later : List BoundRead} {r : BoundRead} {rows : FoundRows}
    (hdistinct : ((earlier ++ r :: later).map (·.parameter)).Nodup)
    (hrows : InOrder ((earlier ++ r :: later).filter (·.navigation == r.navigation)) rows)
    {key : Int} {values : List (String × Value)} (hvalues : rows.lookup key = some values) :
    values.lookup r.parameter =
      (values.map (·.2))[earlier.countP (·.navigation == r.navigation)]? := by
  obtain ⟨before, after, rfl, -⟩ := List.lookup_eq_some_iff.mp hvalues
  have hnames := hrows _ (List.mem_append_right _ List.mem_cons_self)
  refine lookup_eq_getElem? ?_ ?_
  · rw [hnames]
    exact hdistinct.sublist (List.filter_sublist.map _)
  · rw [hnames, List.getElem?_map, getElem?_filter_navigation]
    rfl

/-- Dealing out the values goes on behind the reads that have theirs. -/
theorem valuesByPosition_eq {earlier later : List BoundRead}
    (hdistinct : ((earlier ++ later).map (·.parameter)).Nodup)
    (hall : ∀ f ∈ all, InOrder ((earlier ++ later).filter (·.navigation == f.1.navigation)) f.2) :
    valuesByPosition all root (fun n => earlier.countP (·.navigation == n)) later =
      later.map (valueOf all root) := by
  induction later generalizing earlier with
  | nil => rfl
  | cons r later ih =>
      have hnext : Function.update (fun n => earlier.countP (·.navigation == n)) r.navigation
          (earlier.countP (·.navigation == r.navigation) + 1) =
            fun n => (earlier ++ [r]).countP (·.navigation == n) := by
        funext n
        rw [Function.update_apply, List.countP_append, List.countP_singleton]
        by_cases hn : n = r.navigation
        · subst hn
          simp
        · simp [hn, Ne.symm hn]
      have hvalue : ∀ f, all.find? (fun f => f.1.navigation == r.navigation) = some f →
          ∀ key values, f.2.lookup key = some values → values.lookup r.parameter =
            (values.map (·.2))[earlier.countP (·.navigation == r.navigation)]? := by
        intro f hf key values hvalues
        have hrows := hall f (List.mem_of_find?_eq_some hf)
        rw [show f.1.navigation = r.navigation by simpa using List.find?_some hf] at hrows
        exact lookup_parameter hdistinct hrows hvalues
      rw [valuesByPosition, List.map_cons, hnext,
        ih (by simpa using hdistinct) (by simpa using hall)]
      refine congrArg (· :: _) ?_
      unfold valueOf
      refine congrArg (fun v? : Option Value => v?.getD r.member.type.defaultValue) ?_
      cases hf : all.find? (fun f => f.1.navigation == r.navigation) with
      | none => rfl
      | some f =>
          simp only [Option.bind_eq_bind, Option.bind_some]
          cases keyOf? f.1 root with
          | none => rfl
          | some key =>
              simp only [Option.bind_some]
              cases hvalues : f.2.lookup key with
              | none => rfl
              | some values => exact (hvalue f hf key values hvalues).symm

/-- Where a projection has been planned, the scope of a root binds the reads to the values that are
dealt out by position. -/
theorem scopeOf_eq_positions {catalog : Catalog} {entity : EntityType} {lambda : Expr}
    (hplan : ofLambda? catalog entity lambda = .ok (some p))
    (hall : (p.findAll tables page p.navigations).result = .ok all) (root : Entity) :
    p.scopeOf all root =
      ((p.reads.map (·.parameter)).zip (valuesByPosition all root (fun _ => 0) p.reads)).reverse ++
        [(p.parameter, root.toValue)] := by
  have hrows : ∀ f ∈ all, InOrder (p.reads.filter (·.navigation == f.1.navigation)) f.2 := by
    intro f hf
    obtain ⟨j, -, rfl, hfound⟩ := forall₂_mem_right (findAll_spec hall) hf
    exact findFor_inOrder hfound
  have hvalues : valuesByPosition all root (fun _ => 0) p.reads = p.reads.map (valueOf all root) :=
    @valuesByPosition_eq all root [] p.reads (bindings_valid hplan).distinct hrows
  rw [scopeOf, hvalues, List.zip_map']

end BatchedProjection

end ColumnQuery
