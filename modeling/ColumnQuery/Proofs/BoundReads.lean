import ColumnQuery.Proofs.Catalog
import ColumnQuery.Proofs.Reading
import ColumnQuery.Proofs.Substitution
import ColumnQuery.Related.Projection

/-! # Bound reads

Binding the reads of a projection is a detour: with the values of the reads for their parameters,
what results is the projection with these values in the place of the reads. A read keeps its value
since its parameter tells the navigation and the member, and no other parameter begins with a
dollar sign. -/

namespace ColumnQuery

/-- Whether a member of a related entity can be bound to a parameter: a virtual string cannot, and
an array only if rows can be read for it. -/
def MemberDef.bindable (m : MemberDef) (f : Field) : Except Error Bool :=
  match m.type with
  | .string => .ok !f.isVirtual
  | .array element shape => rowArraySupported m.name element shape
  | _ => .ok true

/-- Parameter for a member read through a navigation. -/
def BoundRead.parameterOf (navigation member : String) : String :=
  s!"${navigation}.{member}"

/-- Adds a read, unless its parameter is there, and its navigation. -/
def Bindings.add (b : Bindings) (j : JoinPlan) (m : MemberDef) : Bindings :=
  if b.reads.any (·.parameter == BoundRead.parameterOf j.navigation m.name) then b
  else
    { navigations :=
        if b.navigations.any (·.navigation == j.navigation) then b.navigations
        else b.navigations ++ [j]
      reads := b.reads ++ [⟨BoundRead.parameterOf j.navigation m.name, j.navigation, m⟩] }

/-- A read is bound to its parameter if it goes through a reference to a member that can be. -/
theorem bindRead_run (j : JoinPlan) (member : String) (b : Bindings) :
    (bindRead j member).run b =
      if j.isCollection then .ok (none, b)
      else
        match j.target.memberField? member with
        | none => .ok (none, b)
        | some (m, f) => m.bindable f >>= fun supported =>
          if supported then
            .ok (some (.parameter (BoundRead.parameterOf j.navigation m.name)), b.add j m)
          else .ok (none, b) := by
  unfold bindRead
  split
  · rfl
  · cases hfield : j.target.memberField? member with
    | none => rfl
    | some found =>
        obtain ⟨m, f⟩ := found
        have hname : m.name = member := by
          obtain ⟨hm, -⟩ := EntityType.memberField?_eq_some.mp hfield
          simpa using List.find?_some hm
        subst hname
        dsimp only
        unfold MemberDef.bindable
        cases m.type with
        | string => cases f.isVirtual <;> rfl
        | array element shape =>
            dsimp only
            cases rowArraySupported m.name element shape with
            | error e => rfl
            | ok supported => cases supported <;> rfl
        | _ => rfl

/-! ## Values for reads -/

namespace Expr

section

variable (catalog : Catalog) (root : EntityType) (parameter : String)

mutual

/-- Members that are read through navigations of a parameter, where no lambda binds it anew. -/
def freeReads : Expr → List (JoinPlan × String)
  | .source _ | .parameter _ | .constant _ => []
  | .member target name =>
    match target.navigationOf? catalog root parameter with
    | some j => [(j, name)]
    | none => freeReads target
  | .convert operand _ | .not operand => freeReads operand
  | .binary _ left right => freeReads left ++ freeReads right
  | .call _ target args => freeReads target ++ freeReadsAll args
  | .conditional test ifTrue ifFalse => freeReads test ++ freeReads ifTrue ++ freeReads ifFalse
  | .record members => freeReadsMembers members
  | .array items => freeReadsAll items
  | .lambda name body => if name = parameter then [] else freeReads body

def freeReadsAll : List Expr → List (JoinPlan × String)
  | [] => []
  | e :: rest => freeReads e ++ freeReadsAll rest

def freeReadsMembers : List (String × Expr) → List (JoinPlan × String)
  | [] => []
  | (_, e) :: rest => freeReads e ++ freeReadsMembers rest

end

variable (value : JoinPlan → String → Value)

mutual

/-- Puts values in the place of the members that are read through navigations of a parameter. -/
def withReads : Expr → Expr
  | .source entity => .source entity
  | .parameter name => .parameter name
  | .constant v => .constant v
  | .member target name =>
    match target.navigationOf? catalog root parameter with
    | some j => .constant (value j name)
    | none => .member (withReads target) name
  | .convert operand kind => .convert (withReads operand) kind
  | .not operand => .not (withReads operand)
  | .binary op left right => .binary op (withReads left) (withReads right)
  | .call method target args => .call method (withReads target) (withReadsAll args)
  | .conditional test ifTrue ifFalse =>
    .conditional (withReads test) (withReads ifTrue) (withReads ifFalse)
  | .record members => .record (withReadsMembers members)
  | .array items => .array (withReadsAll items)
  | .lambda name body =>
    if name = parameter then .lambda name body else .lambda name (withReads body)

def withReadsAll : List Expr → List Expr
  | [] => []
  | e :: rest => withReads e :: withReadsAll rest

def withReadsMembers : List (String × Expr) → List (String × Expr)
  | [] => []
  | (name, e) :: rest => (name, withReads e) :: withReadsMembers rest

end

end

end Expr

/-! ## Bindings on the way -/

/-- A name that the parameter of no bound read has. -/
def Plain (name : String) : Prop :=
  name.toList.head? ≠ some '$'

instance (name : String) : Decidable (Plain name) :=
  inferInstanceAs (Decidable (_ ≠ _))

namespace Bindings

variable (catalog : Catalog) (root : EntityType)

/-- Each read goes through a reference of the root, under a parameter of its own, and the reference
is planned. -/
structure Valid (b : Bindings) : Prop where
  distinct : (b.reads.map (·.parameter)).Nodup
  navigations : ∀ j ∈ b.navigations,
    catalog.join? root.name j.navigation = some j ∧ j.isCollection = false
  reads : ∀ r ∈ b.reads, ∃ j ∈ b.navigations, ∃ f,
    j.target.memberField? r.member.name = some (r.member, f) ∧
      r = ⟨BoundRead.parameterOf j.navigation r.member.name, j.navigation, r.member⟩

/-- A member that is read through a reference of the root has a parameter. -/
structure Has (b : Bindings) (j : JoinPlan) (member : String) : Prop where
  ofRoot : catalog.join? root.name j.navigation = some j
  field : ∃ m f, j.target.memberField? member = some (m, f)
  bound : ∃ r ∈ b.reads, r.parameter = BoundRead.parameterOf j.navigation member

/-- A substitution for the parameters of the reads, and for no other parameter. -/
structure Values (b : Bindings) (σ : String → Option Value) (value : JoinPlan → String → Value) :
    Prop where
  plain : ∀ name, Plain name → σ name = none
  reads : ∀ j member, b.Has catalog root j member →
    σ (BoundRead.parameterOf j.navigation member) = some (value j member)

/-- What comes of binding the reads of a part of an expression: they have parameters besides those
that there are, and the part is as wanted with values for them. -/
structure Binds (reads : List (JoinPlan × String)) (b b' : Bindings)
    (same : (String → Option Value) → (JoinPlan → String → Value) → Prop) : Prop where
  grows : b.reads ⊆ b'.reads
  valid : b.Valid catalog root → b'.Valid catalog root
  has : ∀ read ∈ reads, b'.Has catalog root read.1 read.2
  same : ∀ σ value, b'.Values catalog root σ value → same σ value

variable {catalog root} {b b₁ b₂ : Bindings} {reads reads' : List (JoinPlan × String)}
  {same same' : (String → Option Value) → (JoinPlan → String → Value) → Prop}

theorem Has.mono {j : JoinPlan} {member : String} (h : b₁.Has catalog root j member)
    (hreads : b₁.reads ⊆ b₂.reads) : b₂.Has catalog root j member := by
  obtain ⟨r, hr, hparameter⟩ := h.bound
  exact ⟨h.ofRoot, h.field, r, hreads hr, hparameter⟩

theorem Values.anti {σ : String → Option Value} {value : JoinPlan → String → Value}
    (h : b₂.Values catalog root σ value) (hreads : b₁.reads ⊆ b₂.reads) :
    b₁.Values catalog root σ value :=
  ⟨h.plain, fun j member hhas => h.reads j member (hhas.mono hreads)⟩

namespace Binds

theorem refl (h : ∀ σ value, b.Values catalog root σ value → same σ value) :
    Binds catalog root [] b b same where
  grows := List.Subset.refl _
  valid := id
  has := fun _ hr => absurd hr List.not_mem_nil
  same := h

theorem seq (h : Binds catalog root reads b b₁ same) (h' : Binds catalog root reads' b₁ b₂ same') :
    Binds catalog root (reads ++ reads') b b₂ fun σ value => same σ value ∧ same' σ value where
  grows := List.Subset.trans h.grows h'.grows
  valid := h'.valid ∘ h.valid
  has := List.forall_mem_append.mpr ⟨fun read hr => (h.has read hr).mono h'.grows, h'.has⟩
  same := fun σ value hvalues => ⟨h.same σ value (hvalues.anti h'.grows), h'.same σ value hvalues⟩

theorem imp (h : Binds catalog root reads b b₁ same)
    (himp : ∀ σ value, b₁.Values catalog root σ value → same σ value → same' σ value) :
    Binds catalog root reads b b₁ same' :=
  ⟨h.grows, h.valid, h.has, fun σ value hvalues => himp σ value hvalues (h.same σ value hvalues)⟩

end Binds

theorem any_parameter_iff {name : String} :
    b.reads.any (·.parameter == name) = true ↔ ∃ r ∈ b.reads, r.parameter = name := by
  simp

/-- The navigation of a read that is added is planned once. -/
theorem Valid.add {j : JoinPlan} {m : MemberDef} {f : Field} (hb : b.Valid catalog root)
    (hj : catalog.join? root.name j.navigation = some j) (hshape : j.isCollection = false)
    (hm : j.target.memberField? m.name = some (m, f)) : (b.add j m).Valid catalog root := by
  unfold Bindings.add
  split
  · exact hb
  · rename_i hnew
    have hdistinct : ((b.reads ++
        [(⟨BoundRead.parameterOf j.navigation m.name, j.navigation, m⟩ : BoundRead)]).map
          (·.parameter)).Nodup := by
      rw [List.map_append, List.map_singleton, List.nodup_append]
      refine ⟨hb.distinct, List.nodup_singleton _, ?_⟩
      rintro name hname _ hlast rfl
      obtain rfl := List.mem_singleton.mp hlast
      exact hnew (any_parameter_iff.mpr (List.mem_map.mp hname))
    split
    · rename_i hany
      obtain ⟨k, hk, hname⟩ : ∃ k ∈ b.navigations, k.navigation = j.navigation := by
        simpa using hany
      obtain rfl : k = j := by
        have hfound := (hb.navigations k hk).1
        rw [hname, hj] at hfound
        exact (Option.some.inj hfound).symm
      refine ⟨hdistinct, hb.navigations, List.forall_mem_append.mpr ⟨hb.reads, ?_⟩⟩
      exact List.forall_mem_singleton.mpr ⟨k, hk, f, hm, rfl⟩
    · refine ⟨hdistinct, List.forall_mem_append.mpr ⟨hb.navigations, ?_⟩,
        List.forall_mem_append.mpr ⟨fun r hr => ?_, ?_⟩⟩
      · exact List.forall_mem_singleton.mpr ⟨hj, hshape⟩
      · obtain ⟨k, hk, hread⟩ := hb.reads r hr
        exact ⟨k, List.mem_append_left _ hk, hread⟩
      · exact List.forall_mem_singleton.mpr
          ⟨j, List.mem_append_right _ List.mem_cons_self, f, hm, rfl⟩

/-- A read that is added has its parameter, and what there is stays. -/
theorem binds_add {j : JoinPlan} {m : MemberDef} {f : Field}
    (hj : catalog.join? root.name j.navigation = some j) (hshape : j.isCollection = false)
    (hm : j.target.memberField? m.name = some (m, f)) :
    Binds catalog root [(j, m.name)] b (b.add j m) fun σ value =>
      (Expr.parameter (BoundRead.parameterOf j.navigation m.name)).instantiate σ =
        .constant (value j m.name) := by
  have hgrows : b.reads ⊆ (b.add j m).reads := by
    unfold add
    split
    · exact List.Subset.refl _
    · exact List.subset_append_left _ _
  have hhas : (b.add j m).Has catalog root j m.name := by
    refine ⟨hj, ⟨m, f, hm⟩, ?_⟩
    unfold add
    split
    · exact any_parameter_iff.mp (by assumption)
    · exact ⟨_, List.mem_append_right _ List.mem_cons_self, rfl⟩
  refine ⟨hgrows, fun hb => hb.add hj hshape hm, List.forall_mem_singleton.mpr hhas, ?_⟩
  intro σ value hvalues
  rw [Expr.instantiate, hvalues.reads j m.name hhas]

end Bindings

/-- Where nothing follows from nothing, what is bound is bound from something. -/
theorem run_bind_eq_some {α β : Type} {x : Binding (Option α)} {f : Option α → Binding (Option β)}
    {b b' : Bindings} {y : β} (hnone : ∀ b₁, (f none).run b₁ = .ok (none, b₁))
    (h : (x >>= f).run b = .ok (some y, b')) :
    ∃ a b₁, x.run b = .ok (some a, b₁) ∧ (f (some a)).run b₁ = .ok (some y, b') := by
  rw [StateT.run_bind] at h
  obtain ⟨⟨a?, b₁⟩, hx, h⟩ := bind_eq_ok_iff.mp h
  cases a? with
  | none => cases (hnone b₁).symm.trans h
  | some a => exact ⟨a, b₁, hx, h⟩

/-- A read that is bound to an expression is bound to its parameter. -/
theorem binds_bindRead {catalog : Catalog} {root : EntityType} {j : JoinPlan} {member : String}
    {b b' : Bindings} {e : Expr} (hj : catalog.join? root.name j.navigation = some j)
    (h : (bindRead j member).run b = .ok (some e, b')) :
    Bindings.Binds catalog root [(j, member)] b b' fun σ value =>
      e.instantiate σ = .constant (value j member) := by
  rw [bindRead_run] at h
  split at h
  · cases h
  · rename_i hshape
    split at h
    · cases h
    · rename_i m f hfield
      obtain ⟨supported, -, h⟩ := bind_eq_ok_iff.mp h
      cases supported with
      | false => cases h
      | true =>
          have hname : m.name = member :=
            (EntityType.mem_members_of_member? (EntityType.memberField?_eq_some.mp hfield).1).2
          subst hname
          rw [if_pos rfl] at h
          cases h
          exact Bindings.binds_add hj ((Bool.not_eq_true _).mp hshape) hfield

/-! ## Expressions with bound reads -/

namespace Expr

variable {catalog : Catalog} {root : EntityType} {parameter : String}

theorem navigationOf?_eq_some {e : Expr} {j : JoinPlan}
    (h : e.navigationOf? catalog root parameter = some j) :
    catalog.join? root.name j.navigation = some j := by
  unfold navigationOf? at h
  split at h
  · split at h
    · rw [(Catalog.join?_spec h).2.2]
      exact h
    · cases h
  · cases h

theorem hide_eq_self {σ : String → Option Value} {name : String} (h : σ name = none) :
    hide σ name = σ := by
  funext other
  rw [hide]
  split
  · rename_i heq
    rw [heq, h]
  · rfl

/-- Where the reads of an expression are bound, the expression that results is the one with values
for the reads, under any substitution that has these values for the parameters. -/
theorem binds_bindReads {e e' : Expr} {b b' : Bindings}
    (h : (e.bindReads catalog root parameter).run b = .ok (some e', b')) :
    Bindings.Binds catalog root (e.freeReads catalog root parameter) b b' fun σ value =>
      (∀ name ∈ e.parameters, Plain name) →
        e'.instantiate σ = e.withReads catalog root parameter value := by
  induction e using Expr.bindReads.induct catalog root parameter _
    (fun ms => ∀ ms' b b', (bindReadsMembers catalog root parameter ms).run b = .ok (some ms', b') →
      Bindings.Binds catalog root (freeReadsMembers catalog root parameter ms) b b' fun σ value =>
        (∀ name ∈ parametersMembers ms, Plain name) →
          instantiateMembers σ ms' = withReadsMembers catalog root parameter value ms)
    (fun es => ∀ es' b b', (bindReadsAll catalog root parameter es).run b = .ok (some es', b') →
      Bindings.Binds catalog root (freeReadsAll catalog root parameter es) b b' fun σ value =>
        (∀ name ∈ parametersAll es, Plain name) →
          instantiateAll σ es' = withReadsAll catalog root parameter value es)
    generalizing e' b b' with
  -- Leaves.
  | case1 entity | case3 v =>
      cases h
      exact .refl fun _ _ _ _ => rfl
  | case2 name =>
      cases h
      refine .refl fun σ value hvalues hplain => ?_
      rw [instantiate, hvalues.plain name (hplain name List.mem_cons_self), withReads]
  | case14 body =>
      rw [Expr.bindReads, if_pos rfl] at h
      cases h
      rw [freeReads, if_pos rfl]
      refine .refl fun σ value hvalues hplain => ?_
      rw [withReads, if_pos rfl]
      exact instantiate_eq_self fun name hname => hvalues.plain name (hplain name hname)
  -- A member, read through a navigation or not.
  | case4 target name j hj =>
      rw [Expr.bindReads, hj] at h
      rw [freeReads, hj]
      refine (binds_bindRead (navigationOf?_eq_some hj) h).imp fun σ value _ hsame _ => ?_
      rw [hsame, withReads, hj]
  | case5 target name hnone hsome =>
      rw [Expr.bindReads, hnone] at h
      dsimp only at h
      rw [if_pos hsome] at h
      cases h
  | case6 target name hnone hsome ih =>
      rw [Expr.bindReads, hnone] at h
      dsimp only at h
      rw [if_neg hsome] at h
      obtain ⟨target', b₁, htarget, h⟩ := run_bind_eq_some (fun _ => rfl) h
      cases h
      rw [freeReads, hnone]
      refine (ih htarget).imp fun σ value _ hsame hplain => ?_
      rw [instantiate, withReads, hnone, hsame hplain]
  -- Nodes, operand by operand.
  | case7 operand kind ih | case8 operand ih =>
      rw [Expr.bindReads] at h
      obtain ⟨operand', b₁, hoperand, h⟩ := run_bind_eq_some (fun _ => rfl) h
      cases h
      refine (ih hoperand).imp fun σ value _ hsame hplain => ?_
      rw [instantiate, withReads, hsame hplain]
  | case12 parts ih | case13 parts ih =>
      rw [Expr.bindReads] at h
      obtain ⟨parts', b₁, hparts, h⟩ := run_bind_eq_some (fun _ => rfl) h
      cases h
      refine (ih _ _ _ hparts).imp fun σ value _ hsame hplain => ?_
      rw [instantiate, withReads, hsame hplain]
  | case9 op left right ihl ihr =>
      simp only [Expr.bindReads, StateT.run_bind] at h
      obtain ⟨⟨left?, b₁⟩, hleft, h⟩ := bind_eq_ok_iff.mp h
      obtain ⟨⟨right?, b₂⟩, hright, h⟩ := bind_eq_ok_iff.mp h
      obtain ⟨hsome, rfl⟩ := Prod.mk.inj (Except.ok.inj h)
      dsimp only at hsome
      obtain ⟨left', rfl, hlast⟩ := Option.bind_eq_some_iff.mp hsome
      obtain ⟨right', rfl, rfl⟩ := Option.map_eq_some_iff.mp hlast
      refine ((ihl hleft).seq (ihr hright)).imp fun σ value _ hsame hplain => ?_
      rw [parameters, List.forall_mem_append] at hplain
      rw [instantiate, withReads, hsame.1 hplain.1, hsame.2 hplain.2]
  | case10 method target args iht iha =>
      rw [Expr.bindReads] at h
      obtain ⟨target', b₁, htarget, h⟩ := run_bind_eq_some (fun _ => rfl) h
      obtain ⟨args', b₂, hargs, h⟩ := run_bind_eq_some (fun _ => rfl) h
      cases h
      refine ((iht htarget).seq (iha _ _ _ hargs)).imp fun σ value _ hsame hplain => ?_
      rw [parameters, List.forall_mem_append] at hplain
      rw [instantiate, withReads, hsame.1 hplain.1, hsame.2 hplain.2]
  | case11 test ifTrue ifFalse ihc iht ihf =>
      simp only [Expr.bindReads, StateT.run_bind] at h
      obtain ⟨⟨test?, b₁⟩, htest, h⟩ := bind_eq_ok_iff.mp h
      obtain ⟨⟨ifTrue?, b₂⟩, htrue, h⟩ := bind_eq_ok_iff.mp h
      obtain ⟨⟨ifFalse?, b₃⟩, hfalse, h⟩ := bind_eq_ok_iff.mp h
      obtain ⟨hsome, rfl⟩ := Prod.mk.inj (Except.ok.inj h)
      dsimp only at hsome
      obtain ⟨test', rfl, hbranches⟩ := Option.bind_eq_some_iff.mp hsome
      obtain ⟨ifTrue', rfl, hlast⟩ := Option.bind_eq_some_iff.mp hbranches
      obtain ⟨ifFalse', rfl, rfl⟩ := Option.map_eq_some_iff.mp hlast
      refine (((ihc htest).seq (iht htrue)).seq (ihf hfalse)).imp fun σ value _ hsame hplain => ?_
      rw [parameters, List.forall_mem_append, List.forall_mem_append] at hplain
      rw [instantiate, withReads, hsame.1.1 hplain.1.1, hsame.1.2 hplain.1.2, hsame.2 hplain.2]
  | case15 name body hname ih =>
      rw [Expr.bindReads, if_neg hname] at h
      obtain ⟨body', b₁, hbody, h⟩ := run_bind_eq_some (fun _ => rfl) h
      cases h
      rw [freeReads, if_neg hname]
      refine (ih hbody).imp fun σ value hvalues hsame hplain => ?_
      obtain ⟨hplainName, hplainBody⟩ := List.forall_mem_cons.mp hplain
      rw [instantiate, withReads, if_neg hname, hide_eq_self (hvalues.plain name hplainName),
        hsame hplainBody]
  -- Items and members, up to the first that is not bound.
  | case16 es' b b' h | case18 ms' b b' h =>
      cases h
      exact .refl fun _ _ _ _ => rfl
  | case17 e rest ihe ihrest es' b b' h =>
      rw [Expr.bindReadsAll] at h
      obtain ⟨e', b₁, he, h⟩ := run_bind_eq_some (fun _ => rfl) h
      obtain ⟨rest', b₂, hrest, h⟩ := run_bind_eq_some (fun _ => rfl) h
      cases h
      refine ((ihe he).seq (ihrest _ _ _ hrest)).imp fun σ value _ hsame hplain => ?_
      rw [parametersAll, List.forall_mem_append] at hplain
      rw [instantiateAll, withReadsAll, hsame.1 hplain.1, hsame.2 hplain.2]
  | case19 name e rest ihe ihrest ms' b b' h =>
      rw [Expr.bindReadsMembers] at h
      obtain ⟨e', b₁, he, h⟩ := run_bind_eq_some (fun _ => rfl) h
      obtain ⟨rest', b₂, hrest, h⟩ := run_bind_eq_some (fun _ => rfl) h
      cases h
      refine ((ihe he).seq (ihrest _ _ _ hrest)).imp fun σ value _ hsame hplain => ?_
      rw [parametersMembers, List.forall_mem_append] at hplain
      rw [instantiateMembers, withReadsMembers, hsame.1 hplain.1, hsame.2 hplain.2]

end Expr

/-! ## Parameters of reads -/

namespace BoundRead

theorem toList_parameterOf (navigation member : String) :
    (parameterOf navigation member).toList =
      '$' :: (navigation.toList ++ '.' :: member.toList) := by
  simp only [parameterOf, String.toList_append, List.append_assoc]
  rfl

theorem not_plain_parameterOf (navigation member : String) :
    ¬ Plain (parameterOf navigation member) := by
  rw [Plain, toList_parameterOf]
  simp

/-- Texts up to a first dot, and behind it. -/
theorem append_dot_inj {a a' b b' : List Char} (ha : '.' ∉ a) (ha' : '.' ∉ a')
    (h : a ++ '.' :: b = a' ++ '.' :: b') : a = a' ∧ b = b' := by
  induction a generalizing a' with
  | nil =>
      cases a' with
      | nil => exact ⟨rfl, (List.cons.inj h).2⟩
      | cons c a' => exact absurd ((List.cons.inj h).1 ▸ List.mem_cons_self) ha'
  | cons c a ih =>
      cases a' with
      | nil => exact absurd ((List.cons.inj h).1 ▸ List.mem_cons_self) ha
      | cons c' a' =>
          obtain ⟨rfl, htail⟩ := List.cons.inj h
          obtain ⟨rfl, rfl⟩ := ih (fun hc => ha (List.mem_cons_of_mem _ hc))
            (fun hc => ha' (List.mem_cons_of_mem _ hc)) htail
          exact ⟨rfl, rfl⟩

/-- Where no navigation has a dot in its name, the parameter of a read tells the read. -/
theorem parameterOf_inj {navigation navigation' member member' : String}
    (hdot : '.' ∉ navigation.toList) (hdot' : '.' ∉ navigation'.toList)
    (h : parameterOf navigation member = parameterOf navigation' member') :
    navigation = navigation' ∧ member = member' := by
  have hlist := congrArg String.toList h
  rw [toList_parameterOf, toList_parameterOf] at hlist
  obtain ⟨hnavigation, hmember⟩ := append_dot_inj hdot hdot' (List.cons.inj hlist).2
  exact ⟨String.toList_injective hnavigation, String.toList_injective hmember⟩

end BoundRead

namespace Bindings

variable {catalog : Catalog} {root : EntityType} {b : Bindings} {j : JoinPlan} {member : String}

/-- The read of a member through a navigation, from its parameter. -/
theorem Valid.eq_of_parameter (hb : b.Valid catalog root)
    (hdots : ∀ j ∈ b.navigations, '.' ∉ j.navigation.toList) (hdot : '.' ∉ j.navigation.toList)
    (hj : catalog.join? root.name j.navigation = some j) {r : BoundRead} (hr : r ∈ b.reads)
    (hparameter : r.parameter = BoundRead.parameterOf j.navigation member) :
    j ∈ b.navigations ∧ ∃ m f, j.target.memberField? member = some (m, f) ∧
      r = ⟨BoundRead.parameterOf j.navigation m.name, j.navigation, m⟩ := by
  obtain ⟨k, hk, f, hfield, hread⟩ := hb.reads r hr
  have hsame : BoundRead.parameterOf k.navigation r.member.name =
      BoundRead.parameterOf j.navigation member := by
    rw [← hparameter, hread]
  obtain ⟨hnavigation, rfl⟩ := BoundRead.parameterOf_inj (hdots k hk) hdot hsame
  obtain rfl : k = j := by
    have hfound := (hb.navigations k hk).1
    rw [hnavigation, hj] at hfound
    exact (Option.some.inj hfound).symm
  exact ⟨hk, r.member, f, hfield, hread⟩

end Bindings

end ColumnQuery
