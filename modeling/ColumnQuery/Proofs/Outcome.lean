import ColumnQuery.Trace.Traced
import Mathlib.Data.List.Forall2

/-! # Outcomes

Laws of results that may be failures. `Follows` compares two ways to the same result, of which the
first may be allowed to fail where the second does not. -/

namespace ColumnQuery

variable {α β : Type}

/-! ## Sequencing -/

@[simp] theorem ok_bind (a : α) (f : α → Except Error β) : (Except.ok a >>= f) = f a := rfl

@[simp] theorem error_bind (e : Error) (f : α → Except Error β) :
    ((Except.error e : Except Error α) >>= f) = .error e := rfl

@[simp] theorem ok_map (a : α) (f : α → β) : (Except.ok a : Except Error α).map f = .ok (f a) := rfl

@[simp] theorem error_map (e : Error) (f : α → β) :
    (Except.error e : Except Error α).map f = .error e := rfl

theorem bind_eq_ok_iff {x : Except Error α} {f : α → Except Error β} {b : β} :
    (x >>= f) = .ok b ↔ ∃ a, x = .ok a ∧ f a = .ok b := by
  cases x with
  | ok a => simp
  | error e => simp

theorem bind_eq_error_iff {x : Except Error α} {f : α → Except Error β} {e : Error} :
    (x >>= f) = .error e ↔ x = .error e ∨ ∃ a, x = .ok a ∧ f a = .error e := by
  cases x with
  | ok a => simp
  | error e' => simp

/-- What is made of a result without failing fails only with the result. -/
theorem bind_ok_eq_error_iff {x : Except Error α} {f : α → β} {e : Error} :
    (x >>= fun a => .ok (f a)) = .error e ↔ x = .error e := by
  simp [bind_eq_error_iff]

theorem map_eq_ok_iff {x : Except Error α} {f : α → β} {b : β} :
    x.map f = .ok b ↔ ∃ a, x = .ok a ∧ f a = b := by
  cases x with
  | ok a => simp
  | error e => simp

@[simp] theorem pure_eq_ok (a : α) : (pure a : Except Error α) = .ok a := rfl

attribute [simp] Traced.result_bind

/-! ## Traversals -/

/-- A traversal succeeds with the results of the items, if all of them succeed. -/
theorem mapM_eq_ok_iff {f : α → Except Error β} {xs : List α} {ys : List β} :
    xs.mapM f = .ok ys ↔ List.Forall₂ (fun x y => f x = .ok y) xs ys := by
  induction xs generalizing ys with
  | nil =>
      rw [List.mapM_nil, pure_eq_ok, List.forall₂_nil_left_iff, Except.ok.injEq]
      exact eq_comm
  | cons x xs ih =>
      rw [List.mapM_cons, List.forall₂_cons_left_iff]
      simp only [bind_eq_ok_iff, ih, pure_eq_ok, Except.ok.injEq]
      constructor
      · rintro ⟨y, hy, ys, hys, rfl⟩
        exact ⟨y, ys, hy, hys, rfl⟩
      · rintro ⟨y, ys, hy, hys, rfl⟩
        exact ⟨y, hy, ys, hys, rfl⟩

theorem exists_of_mapM_eq_error {f : α → Except Error β} {xs : List α} {e : Error}
    (h : xs.mapM f = .error e) : ∃ x ∈ xs, f x = .error e := by
  induction xs with
  | nil => cases h
  | cons x xs ih =>
      rw [List.mapM_cons] at h
      simp only [pure_eq_ok, bind_eq_error_iff] at h
      rcases h with h | ⟨_, -, h | ⟨_, -, h⟩⟩
      · exact ⟨x, List.mem_cons_self, h⟩
      · obtain ⟨y, hy, h⟩ := ih h
        exact ⟨y, List.mem_cons_of_mem x hy, h⟩
      · cases h

theorem allM_eq_ok {f : α → Except Error Bool} {xs : List α}
    (hf : ∀ x ∈ xs, ∃ b, f x = .ok b) :
    ∃ b, xs.allM f = .ok b ∧ (b = true ↔ ∀ x ∈ xs, f x = .ok true) := by
  induction xs with
  | nil => exact ⟨true, rfl, by simp⟩
  | cons x xs ih =>
      obtain ⟨b, hb⟩ := hf x List.mem_cons_self
      rw [List.allM, hb]
      cases b with
      | false => exact ⟨false, rfl, by simp [hb]⟩
      | true =>
          obtain ⟨b, hxs, hiff⟩ := ih fun x hx => hf x (List.mem_cons_of_mem _ hx)
          exact ⟨b, hxs, by simp [hb, hiff]⟩

theorem allM_eq_true_iff {f : α → Except Error Bool} {xs : List α} :
    xs.allM f = .ok true ↔ ∀ x ∈ xs, f x = .ok true := by
  induction xs with
  | nil => simp [List.allM]
  | cons x xs ih =>
      rw [List.allM, List.forall_mem_cons]
      cases f x with
      | error e => simp
      | ok b => cases b <;> simp [ih]

theorem exists_of_allM_eq_false {f : α → Except Error Bool} {xs : List α}
    (h : xs.allM f = .ok false) : ∃ x ∈ xs, f x = .ok false := by
  induction xs with
  | nil => cases h
  | cons x xs ih =>
      rw [List.allM] at h
      obtain ⟨b, hb, h⟩ := bind_eq_ok_iff.mp h
      cases b with
      | false => exact ⟨x, List.mem_cons_self, hb⟩
      | true =>
          obtain ⟨y, hy, hf⟩ := ih h
          exact ⟨y, List.mem_cons_of_mem x hy, hf⟩

theorem exists_of_allM_eq_error {f : α → Except Error Bool} {xs : List α} {e : Error}
    (h : xs.allM f = .error e) : ∃ x ∈ xs, f x = .error e := by
  induction xs with
  | nil => cases h
  | cons x xs ih =>
      rw [List.allM] at h
      rcases bind_eq_error_iff.mp h with h | ⟨b, hb, h⟩
      · exact ⟨x, List.mem_cons_self, h⟩
      · cases b with
        | false => cases h
        | true =>
            obtain ⟨y, hy, h⟩ := ih h
            exact ⟨y, List.mem_cons_of_mem x hy, h⟩

theorem anyM_eq_ok {f : α → Except Error Bool} {xs : List α}
    (hf : ∀ x ∈ xs, ∃ b, f x = .ok b) :
    ∃ b, xs.anyM f = .ok b ∧ (b = true ↔ ∃ x ∈ xs, f x = .ok true) := by
  induction xs with
  | nil => exact ⟨false, rfl, by simp⟩
  | cons x xs ih =>
      obtain ⟨b, hb⟩ := hf x List.mem_cons_self
      rw [List.anyM, hb]
      cases b with
      | true => exact ⟨true, rfl, by simp [hb]⟩
      | false =>
          obtain ⟨b, hxs, hiff⟩ := ih fun x hx => hf x (List.mem_cons_of_mem _ hx)
          exact ⟨b, hxs, by simp [hb, hiff]⟩

theorem forall₂_mem_right {R : α → β → Prop} {xs : List α} {ys : List β}
    (h : List.Forall₂ R xs ys) {y : β} (hy : y ∈ ys) : ∃ x ∈ xs, R x y := by
  induction h with
  | nil => cases hy
  | cons hxy _ ih =>
      rcases List.mem_cons.mp hy with rfl | hy
      · exact ⟨_, List.mem_cons_self, hxy⟩
      · obtain ⟨x, hx, h⟩ := ih hy
        exact ⟨x, List.mem_cons_of_mem _ hx, h⟩

/-! ## Null references -/

/-- Whether the error makes the predicate around it false instead of failing it. -/
def Error.isNullReference : Error → Bool
  | .nullReference _ => true
  | _ => false

/-- The outcome is not a null reference. -/
def Grounded (x : Except Error α) : Prop :=
  ∀ e, x = .error e → e.isNullReference = false

namespace Grounded

theorem ok (a : α) : Grounded (.ok a) := by
  intro e h
  cases h

theorem error {e : Error} (h : e.isNullReference = false) :
    Grounded (.error e : Except Error α) := by
  rintro _ ⟨⟩
  exact h

theorem bind {x : Except Error α} {f : α → Except Error β} (hx : Grounded x)
    (hf : ∀ a, x = .ok a → Grounded (f a)) : Grounded (x >>= f) := by
  cases x with
  | ok a => exact hf a rfl
  | error e => exact error (hx e rfl)

theorem map {x : Except Error α} (f : α → β) (hx : Grounded x) : Grounded (x.map f) := by
  cases x with
  | ok a => exact ok (f a)
  | error e => exact error (hx e rfl)

end Grounded

/-! ## Following another outcome -/

/-- The outcomes are the same or, unless this has to be `strict`, the first is a failure other than
a null reference. -/
def Follows (strict : Prop) (x y : Except Error α) : Prop :=
  x = y ∨ ¬ strict ∧ ∃ e, x = .error e ∧ e.isNullReference = false

namespace Follows

variable {strict : Prop} {x y z : Except Error α}

theorem of_eq (h : x = y) : Follows strict x y :=
  .inl h

theorem refl (x : Except Error α) : Follows strict x x :=
  .inl rfl

theorem of_error (h : ¬ strict) {e : Error} (he : e.isNullReference = false) :
    Follows strict (.error e) y :=
  .inr ⟨h, e, rfl, he⟩

theorem eq_of_ok {a : α} (h : Follows strict (.ok a) y) : y = .ok a := by
  rcases h with h | ⟨-, e, he, -⟩
  · exact h.symm
  · cases he

theorem eq_of_strict (h : Follows strict x y) (hs : strict) : x = y := by
  rcases h with h | ⟨hn, -⟩
  · exact h
  · exact absurd hs hn

theorem trans (h : Follows strict x y) (h' : Follows strict y z) : Follows strict x z := by
  rcases h with rfl | h
  · exact h'
  · exact .inr h

theorem bind {f g : α → Except Error β} (h : Follows strict x y)
    (hf : ∀ a, y = .ok a → Follows strict (f a) (g a)) : Follows strict (x >>= f) (y >>= g) := by
  rcases h with rfl | ⟨hn, e, rfl, he⟩
  · cases x with
    | ok a => exact hf a rfl
    | error e => exact of_eq rfl
  · exact of_error hn he

end Follows

/-! ## Agreement up to excused errors -/

/-- Both outcomes are results in relation, or one of them is an error that is excused: on the first
side if it satisfies the predicate, on the second if that is `lax`. -/
inductive Agree (P : Error → Prop) (lax : Prop) (R : α → β → Prop) :
    Except Error α → Except Error β → Prop where
  | ok {a b} (h : R a b) : Agree P lax R (.ok a) (.ok b)
  | left {e} (h : P e) (y) : Agree P lax R (.error e) y
  | right {e} (x) (h : lax) : Agree P lax R x (.error e)

namespace Agree

variable {γ δ : Type} {P : Error → Prop} {lax : Prop} {R : α → β → Prop} {S : γ → δ → Prop}
  {x : Except Error α} {y : Except Error β}

theorem cases_on (h : Agree P lax R x y) :
    (∃ a b, x = .ok a ∧ y = .ok b ∧ R a b) ∨ (∃ e, x = .error e ∧ P e) ∨
      ∃ e, y = .error e ∧ lax := by
  cases h with
  | ok hab => exact .inl ⟨_, _, rfl, rfl, hab⟩
  | left he => exact .inr (.inl ⟨_, rfl, he⟩)
  | right _ he => exact .inr (.inr ⟨_, rfl, he⟩)

theorem refl (hlax : ∀ e, P e ∨ lax) (x : Except Error α) : Agree P lax Eq x x := by
  cases x with
  | ok a => exact .ok rfl
  | error e => exact (hlax e).elim (.left · _) (.right _ ·)

theorem bind {f : α → Except Error γ} {g : β → Except Error δ} (h : Agree P lax R x y)
    (hfg : ∀ a b, R a b → Agree P lax S (f a) (g b)) : Agree P lax S (x >>= f) (y >>= g) := by
  cases h with
  | ok hab => exact hfg _ _ hab
  | left he => exact .left he _
  | right _ he => exact .right _ he

theorem map {f : α → γ} {g : β → δ} (h : Agree P lax R x y) (hfg : ∀ a b, R a b → S (f a) (g b)) :
    Agree P lax S (x.map f) (y.map g) := by
  cases h with
  | ok hab => exact .ok (hfg _ _ hab)
  | left he => exact .left he _
  | right _ he => exact .right _ he

/-- Where only errors of the first side are excused, what it yields is in relation to a result. -/
theorem exists_of_ok {a : α} (h : Agree P False R (.ok a) y) :
    ∃ b, y = .ok b ∧ R a b := by
  cases h with
  | ok hab => exact ⟨_, rfl, hab⟩
  | right _ he => exact he.elim

end Agree

/-- An outcome that follows another agrees with it, where errors that both have are excused and
where every error is, if the first may fail alone. -/
theorem Follows.agree {strict : Prop} {P : Error → Prop} {lax : Prop} {x y : Except Error α}
    (h : Follows strict x y) (hP : ¬ strict → ∀ e, P e) (hlax : ∀ e, P e ∨ lax) :
    Agree P lax Eq x y := by
  rcases h with rfl | ⟨hn, e, rfl, -⟩
  · exact .refl hlax x
  · exact .left (hP hn e) y

end ColumnQuery
