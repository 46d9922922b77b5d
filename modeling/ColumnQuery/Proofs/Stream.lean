import ColumnQuery.Proofs.Outcome
import ColumnQuery.Trace.Stream

/-! # Items of streams

The items of a stream do not depend on its effects. One list of items tracks another if it agrees
with it up to its own first error; every operator keeps that, and so does buffering into pages. -/

namespace ColumnQuery

variable {α β γ δ : Type}

/-! ## Operators on items -/

/-- Keeps the items that pass a test, errors among them. -/
def filterItems (test : α → Except Error Bool) :
    List (Except Error α) → List (Except Error α)
  | [] => []
  | .error e :: rest => .error e :: filterItems test rest
  | .ok a :: rest =>
    match test a with
    | .ok true => .ok a :: filterItems test rest
    | .ok false => filterItems test rest
    | .error e => .error e :: filterItems test rest

/-- Leaves out the first values and keeps the errors among them. -/
def skipItems : Nat → List (Except Error α) → List (Except Error α)
  | 0, items => items
  | _ + 1, [] => []
  | n + 1, .error e :: rest => .error e :: skipItems (n + 1) rest
  | n + 1, .ok _ :: rest => skipItems n rest

namespace Stream

variable (s : Stream α)

@[simp] theorem items_after (es : List Effect) : (after es s).items = s.items := by
  induction es with
  | nil => rfl
  | cons e es ih => exact ih

@[simp] theorem items_append (t : Stream α) : (s ++ t).items = s.items ++ t.items := by
  change (append s t).items = _
  induction s with
  | done => rfl
  | effect e rest ih => exact ih
  | item r rest ih => exact congrArg (r :: ·) ih

@[simp] theorem items_ofList (values : List α) :
    (ofList values).items = values.map Except.ok := by
  induction values with
  | nil => rfl
  | cons a values ih => exact congrArg (Except.ok a :: ·) ih

theorem items_filter (test : α → Traced Bool) :
    (s.filter test).items = filterItems (fun a => (test a).result) s.items := by
  induction s with
  | done => rfl
  | effect e rest ih => exact ih
  | item r rest ih =>
      cases r with
      | error e => exact congrArg (Except.error e :: ·) ih
      | ok a =>
          rw [filter, items, filterItems]
          simp only [items_after]
          cases (test a).result with
          | error e => exact congrArg (Except.error e :: ·) ih
          | ok b =>
              cases b with
              | true => exact congrArg (Except.ok a :: ·) ih
              | false => exact ih

theorem items_map (f : α → Traced β) :
    (s.map f).items = s.items.map (· >>= fun a => (f a).result) := by
  induction s with
  | done => rfl
  | effect e rest ih => exact ih
  | item r rest ih =>
      cases r with
      | error e => exact congrArg (Except.error e :: ·) ih
      | ok a =>
          rw [map, items_after]
          exact congrArg ((f a).result :: ·) ih

theorem items_skip (n : Nat) : (s.skip n).items = skipItems n s.items := by
  induction s generalizing n with
  | done => cases n <;> simp [skip, skipItems, items]
  | effect e rest ih =>
      cases n with
      | zero => rw [skip, skipItems]
      | succ n => exact ih (n + 1)
  | item r rest ih =>
      cases n with
      | zero => rw [skip, skipItems]
      | succ n =>
          cases r with
          | error e => exact congrArg (Except.error e :: ·) (ih (n + 1))
          | ok a => exact ih n

theorem items_take (n : Nat) : (s.take n).items = s.items.take n := by
  induction s generalizing n with
  | done => cases n <;> rfl
  | effect e rest ih =>
      cases n with
      | zero => rfl
      | succ n => exact ih (n + 1)
  | item r rest ih =>
      cases n with
      | zero => rfl
      | succ n => exact congrArg (r :: ·) (ih n)

/-! ## Values among the items -/

theorem mem_of_mem_filterItems {test : α → Except Error Bool} {items : List (Except Error α)}
    {a : α} (h : .ok a ∈ filterItems test items) : .ok a ∈ items := by
  induction items with
  | nil => cases h
  | cons item items ih =>
      cases item with
      | error e =>
          rcases List.mem_cons.mp h with h | h
          · cases h
          · exact List.mem_cons_of_mem _ (ih h)
      | ok b =>
          rw [filterItems] at h
          split at h
          · rcases List.mem_cons.mp h with h | h
            · exact h ▸ List.mem_cons_self
            · exact List.mem_cons_of_mem _ (ih h)
          · exact List.mem_cons_of_mem _ (ih h)
          · rcases List.mem_cons.mp h with h | h
            · cases h
            · exact List.mem_cons_of_mem _ (ih h)

theorem mem_of_mem_skipItems {n : Nat} {items : List (Except Error α)} {a : α}
    (h : .ok a ∈ skipItems n items) : .ok a ∈ items := by
  induction items generalizing n with
  | nil => cases n <;> cases h
  | cons item items ih =>
      cases n with
      | zero => exact h
      | succ n =>
          cases item with
          | error e =>
              rcases List.mem_cons.mp h with h | h
              · cases h
              · exact List.mem_cons_of_mem _ (ih h)
          | ok b => exact List.mem_cons_of_mem _ (ih h)

section

variable {process : List α → Traced (List β)} {page : List α} {b : β}

/-- A value that a page yields is one of those that the page is processed to. -/
theorem mem_items_ofPage (h : .ok b ∈ (ofPage process page).items) :
    ∃ values, (process page).result = .ok values ∧ b ∈ values := by
  unfold ofPage at h
  split at h
  · cases h
  · rw [items_after] at h
    cases hresult : (process page).result with
    | error e =>
        rw [hresult] at h
        rcases List.mem_cons.mp h with h | h <;> cases h
    | ok values =>
        rw [hresult] at h
        exact ⟨values, rfl, by simpa using h⟩

theorem mem_items_pagedFrom {size : Nat} {s : Stream α}
    (h : .ok b ∈ (s.pagedFrom size process page).items) :
    ∃ pulled values, (∀ a ∈ pulled, a ∈ page ∨ .ok a ∈ s.items) ∧
      (process pulled).result = .ok values ∧ b ∈ values := by
  induction s generalizing page with
  | done =>
      obtain ⟨values, hresult, hb⟩ := mem_items_ofPage h
      exact ⟨page, values, fun a ha => .inl ha, hresult, hb⟩
  | effect e rest ih => exact ih h
  | item r rest ih =>
      cases r with
      | error e =>
          rw [pagedFrom, items_append, List.mem_append] at h
          rcases h with h | h
          · obtain ⟨values, hresult, hb⟩ := mem_items_ofPage h
            exact ⟨page, values, fun a ha => .inl ha, hresult, hb⟩
          · rcases List.mem_cons.mp h with h | h <;> cases h
      | ok a =>
          have hpage : ∀ x ∈ page ++ [a], x ∈ page ∨ .ok x ∈ (item (.ok a) rest).items := by
            intro x hx
            rcases List.mem_append.mp hx with hx | hx
            · exact .inl hx
            · exact .inr (List.mem_singleton.mp hx ▸ List.mem_cons_self)
          have hrest : ∀ x, .ok x ∈ rest.items → .ok x ∈ (item (.ok a) rest).items :=
            fun x hx => List.mem_cons_of_mem _ hx
          rw [pagedFrom] at h
          dsimp only at h
          split at h
          · obtain ⟨pulled, values, hpulled, hresult, hb⟩ := ih h
            refine ⟨pulled, values, fun x hx => ?_, hresult, hb⟩
            exact (hpulled x hx).elim (hpage x) fun hx => .inr (hrest x hx)
          · rw [items_after] at h
            cases hresult : (process (page ++ [a])).result with
            | error e =>
                rw [hresult] at h
                rcases List.mem_cons.mp h with h | h <;> cases h
            | ok values =>
                rw [hresult] at h
                dsimp only at h
                rw [items_append, items_ofList, List.mem_append] at h
                rcases h with h | h
                · exact ⟨page ++ [a], values, hpage, hresult, by simpa using h⟩
                · obtain ⟨pulled, values, hpulled, hresult, hb⟩ := ih h
                  refine ⟨pulled, values, fun x hx => ?_, hresult, hb⟩
                  exact (hpulled x hx).elim (fun hx => absurd hx List.not_mem_nil)
                    fun hx => .inr (hrest x hx)

/-- A value that pages yield is one of those that a page of values is processed to. -/
theorem mem_items_paged {size : Nat} {s : Stream α} (h : .ok b ∈ (s.paged size process).items) :
    ∃ pulled values, (∀ a ∈ pulled, .ok a ∈ s.items) ∧
      (process pulled).result = .ok values ∧ b ∈ values := by
  obtain ⟨pulled, values, hpulled, hresult, hb⟩ := mem_items_pagedFrom h
  exact ⟨pulled, values, fun a ha => (hpulled a ha).resolve_left List.not_mem_nil, hresult, hb⟩

end

/-! ## Consumers of items -/

theorem result_values : s.values.result = s.items.mapM id := by
  induction s with
  | done => rfl
  | effect e rest ih =>
      rw [values, Traced.result_bind, ih]
      rfl
  | item r rest ih =>
      rw [values, items, List.mapM_cons]
      simp only [Traced.result_bind, Traced.result_ofResult, ih]
      rfl

theorem result_count : s.count.result = s.values.result.map List.length := by
  induction s with
  | done => rfl
  | effect e rest ih =>
      rw [count, values, Traced.result_bind, Traced.result_bind, ih]
      rfl
  | item r rest ih =>
      rw [count, values]
      simp only [Traced.result_bind, Traced.result_ofResult, ih]
      cases r with
      | error e => rfl
      | ok a => cases rest.values.result <;> rfl

/-- The first item, as a consumer gets it; behind it are the items that follow. -/
theorem result_next :
    (s.items = [] ∧ s.next.result = .ok none) ∨
      (∃ e rest, s.items = .error e :: rest ∧ s.next.result = .error e) ∨
        ∃ a rest, s.items = .ok a :: rest.items ∧ s.next.result = .ok (some (a, rest)) := by
  induction s with
  | done => exact .inl ⟨rfl, rfl⟩
  | effect e rest ih =>
      have hnext : (effect e rest).next.result = rest.next.result := by
        rw [next, Traced.result_bind]
        rfl
      rw [hnext]
      exact ih
  | item r rest ih =>
      cases r with
      | error e => exact .inr (.inl ⟨e, rest.items, rfl, rfl⟩)
      | ok a => exact .inr (.inr ⟨a, rest, rfl, rfl⟩)

theorem result_any (test : α → Traced Bool) :
    (s.any test).result = s.items.anyM (· >>= fun a => (test a).result) := by
  induction s with
  | done => rfl
  | effect e rest ih =>
      rw [any, Traced.result_bind, ih]
      rfl
  | item r rest ih =>
      rw [any, items, List.anyM]
      simp only [Traced.result_bind, Traced.result_ofResult, bind_assoc]
      refine congrArg _ (funext fun a => congrArg _ (funext fun b => ?_))
      cases b with
      | true => rfl
      | false => exact ih

theorem result_all (test : α → Traced Bool) :
    (s.all test).result = s.items.allM (· >>= fun a => (test a).result) := by
  induction s with
  | done => rfl
  | effect e rest ih =>
      rw [all, Traced.result_bind, ih]
      rfl
  | item r rest ih =>
      rw [all, items, List.allM]
      simp only [Traced.result_bind, Traced.result_ofResult, bind_assoc]
      refine congrArg _ (funext fun a => congrArg _ (funext fun b => ?_))
      cases b with
      | true => exact ih
      | false => rfl

end Stream

/-! ## Tracking -/

/-- The items agree, value by value, until one of the lists has an error that is excused; nothing is
said of the items behind it. -/
inductive Tracks (P : Error → Prop) (lax : Prop) (R : α → β → Prop) :
    List (Except Error α) → List (Except Error β) → Prop where
  | nil : Tracks P lax R [] []
  | cons {a b us ws} (h : R a b) (hrest : Tracks P lax R us ws) :
      Tracks P lax R (.ok a :: us) (.ok b :: ws)
  | left {e} (h : P e) (us ws) : Tracks P lax R (.error e :: us) ws
  | right {e} (us) (h : lax) (ws) : Tracks P lax R us (.error e :: ws)

namespace Tracks

variable {P : Error → Prop} {lax : Prop} {R : α → β → Prop} {S : γ → δ → Prop}
  {us : List (Except Error α)} {ws : List (Except Error β)}

theorem refl (hlax : ∀ e, P e ∨ lax) (items : List (Except Error α)) :
    Tracks P lax Eq items items := by
  induction items with
  | nil => exact .nil
  | cons item items ih =>
      cases item with
      | ok a => exact .cons rfl ih
      | error e => exact (hlax e).elim (.left · _ _) (.right _ · _)

theorem filter {f : α → Except Error Bool} {g : β → Except Error Bool}
    (hfg : ∀ a b, R a b → Agree P lax Eq (f a) (g b)) (h : Tracks P lax R us ws) :
    Tracks P lax R (filterItems f us) (filterItems g ws) := by
  induction h with
  | nil => exact .nil
  | @cons a b us ws hab _ ih =>
      rw [filterItems, filterItems]
      rcases (hfg a b hab).cases_on with ⟨r, _, hf, hg, rfl⟩ | ⟨e, hf, he⟩ | ⟨e, hg, he⟩
      · rw [hf, hg]
        cases r with
        | true => exact .cons hab ih
        | false => exact ih
      · rw [hf]
        exact .left he _ _
      · rw [hg]
        exact .right _ he _
  | left he us ws => exact .left he _ _
  | right us he ws => exact .right _ he _

theorem map {f : α → Except Error γ} {g : β → Except Error δ}
    (hfg : ∀ a b, R a b → Agree P lax S (f a) (g b)) (h : Tracks P lax R us ws) :
    Tracks P lax S (us.map (· >>= f)) (ws.map (· >>= g)) := by
  induction h with
  | nil => exact .nil
  | @cons a b us ws hab _ ih =>
      rw [List.map_cons, List.map_cons, ok_bind, ok_bind]
      rcases (hfg a b hab).cases_on with ⟨c, d, hf, hg, hcd⟩ | ⟨e, hf, he⟩ | ⟨e, hg, he⟩
      · rw [hf, hg]
        exact .cons hcd ih
      · rw [hf]
        exact .left he _ _
      · rw [hg]
        exact .right _ he _
  | left he us ws => exact .left he _ _
  | right us he ws => exact .right _ he _

theorem skip (n : Nat) (h : Tracks P lax R us ws) :
    Tracks P lax R (skipItems n us) (skipItems n ws) := by
  induction h generalizing n with
  | nil => cases n <;> exact .nil
  | cons hab hrest ih =>
      cases n with
      | zero => simpa only [skipItems] using .cons hab hrest
      | succ n => exact ih n
  | left he us ws => cases n <;> simpa only [skipItems] using .left he _ _
  | right us he ws => cases n <;> simpa only [skipItems] using .right _ he _

theorem take (n : Nat) (h : Tracks P lax R us ws) : Tracks P lax R (us.take n) (ws.take n) := by
  induction h generalizing n with
  | nil => cases n <;> exact .nil
  | cons hab hrest ih =>
      cases n with
      | zero => exact .nil
      | succ n => exact .cons hab (ih n)
  | left he us ws =>
      cases n with
      | zero => exact .nil
      | succ n => exact .left he _ _
  | right us he ws =>
      cases n with
      | zero => exact .nil
      | succ n => exact .right _ he _

/-! ## Pages -/

section

variable {process : List α → Traced (List γ)} {g : α → Except Error γ} {page : List α}
  {values : List γ} {us as : List (Except Error α)} {vs : List (Except Error γ)}

/-- Values of a page track the values one by one, if what comes behind the page does. -/
theorem append_values (hpage : List.Forall₂ (fun a c => g a = .ok c) page values)
    (h : Tracks P lax Eq (page.map Except.ok ++ us) as)
    (hrest : ∀ {as}, Tracks P lax Eq us as → Tracks P lax Eq vs (as.map (· >>= g))) :
    Tracks P lax Eq (values.map Except.ok ++ vs) (as.map (· >>= g)) := by
  induction hpage generalizing as with
  | nil => exact hrest h
  | cons hg _ ih =>
      cases h with
      | cons hab hbehind =>
          subst hab
          rw [List.map_cons, List.map_cons, ok_bind, hg]
          exact .cons rfl (ih hbehind)
      | right _ he ws => exact .right _ he _

variable {pulled : α → Prop} (hvalues : ∀ page values, (process page).result = .ok values →
  List.Forall₂ (fun a c => g a = .ok c) page values)
  (hfail : ∀ page, (∀ a ∈ page, pulled a) → ∀ e, (process page).result = .error e → P e)

include hvalues hfail

theorem append_ofPage (hpage : ∀ a ∈ page, pulled a)
    (h : Tracks P lax Eq (page.map Except.ok ++ us) as)
    (hrest : ∀ {as}, Tracks P lax Eq us as → Tracks P lax Eq vs (as.map (· >>= g))) :
    Tracks P lax Eq ((Stream.ofPage process page).items ++ vs) (as.map (· >>= g)) := by
  unfold Stream.ofPage
  split
  · rename_i hempty
    obtain rfl := List.isEmpty_iff.mp hempty
    exact hrest h
  · simp only [Stream.items_after]
    cases hresult : (process page).result with
    | error e => exact .left (hfail page hpage e hresult) _ _
    | ok values =>
        simp only [Stream.items_ofList]
        exact append_values (hvalues page values hresult) h hrest

/-- Values in pages are the values one by one, where a page that succeeds has them and the error of
one that does not is excused. -/
theorem pagedFrom (size : Nat) {s : Stream α} (hpage : ∀ a ∈ page, pulled a)
    (hs : ∀ a, .ok a ∈ s.items → pulled a)
    (h : Tracks P lax Eq (page.map Except.ok ++ s.items) as) :
    Tracks P lax Eq (s.pagedFrom size process page).items (as.map (· >>= g)) := by
  induction s generalizing page as with
  | done =>
      have hlast : ∀ {as}, Tracks P lax Eq [] as →
          Tracks P lax Eq ([] : List (Except Error γ)) (as.map (· >>= g)) := by
        intro as h
        cases h with
        | nil => exact .nil
        | right _ he ws => exact .right _ he _
      simpa [Stream.pagedFrom] using append_ofPage hvalues hfail hpage h hlast
  | effect e rest ih => exact ih hpage hs h
  | item r rest ih =>
      cases r with
      | error e =>
          rw [Stream.pagedFrom, Stream.items_append]
          refine append_ofPage hvalues hfail hpage h fun h => ?_
          cases h with
          | left he us ws => exact .left he _ _
          | right _ he ws => exact .right _ he _
      | ok a =>
          have hfull : ∀ x ∈ page ++ [a], pulled x := by
            intro x hx
            rcases List.mem_append.mp hx with hx | hx
            · exact hpage x hx
            · exact hs x (List.mem_singleton.mp hx ▸ List.mem_cons_self)
          have hnone : ∀ x ∈ ([] : List α), pulled x := fun _ hx => absurd hx List.not_mem_nil
          have hrest : ∀ x, .ok x ∈ rest.items → pulled x :=
            fun x hx => hs x (List.mem_cons_of_mem _ hx)
          have h : Tracks P lax Eq ((page ++ [a]).map Except.ok ++ rest.items) as := by
            simpa [Stream.items] using h
          rw [Stream.pagedFrom]
          dsimp only
          split
          · exact ih hfull hrest h
          · rw [Stream.items_after]
            cases hresult : (process (page ++ [a])).result with
            | error e => exact .left (hfail _ hfull e hresult) _ _
            | ok values =>
                dsimp only
                rw [Stream.items_append, Stream.items_ofList]
                exact append_values (hvalues _ values hresult) h
                  fun h => ih hnone hrest h

end

/-! ## Consumers -/

theorem values {us : List (Except Error α)} (h : Tracks P lax R us ws) :
    Agree P lax (List.Forall₂ R) (us.mapM id) (ws.mapM id) := by
  induction h with
  | nil => exact .ok .nil
  | @cons a b us ws hab _ ih =>
      rw [List.mapM_cons, List.mapM_cons]
      exact ih.bind fun as bs hall => .ok (.cons hab hall)
  | left he us ws => exact .left he _
  | right us he ws => exact .right _ he

theorem anyM {f : α → Except Error Bool} {g : β → Except Error Bool}
    (hfg : ∀ a b, R a b → Agree P lax Eq (f a) (g b)) (h : Tracks P lax R us ws) :
    Agree P lax Eq (us.anyM (· >>= f)) (ws.anyM (· >>= g)) := by
  induction h with
  | nil => exact .ok rfl
  | @cons a b us ws hab _ ih =>
      rw [List.anyM, List.anyM, ok_bind, ok_bind]
      refine (hfg a b hab).bind fun r _ he => ?_
      subst he
      cases r with
      | true => exact .ok rfl
      | false => exact ih
  | left he us ws => exact .left he _
  | right us he ws => exact .right _ he

theorem allM {f : α → Except Error Bool} {g : β → Except Error Bool}
    (hfg : ∀ a b, R a b → Agree P lax Eq (f a) (g b)) (h : Tracks P lax R us ws) :
    Agree P lax Eq (us.allM (· >>= f)) (ws.allM (· >>= g)) := by
  induction h with
  | nil => exact .ok rfl
  | @cons a b us ws hab _ ih =>
      rw [List.allM, List.allM, ok_bind, ok_bind]
      refine (hfg a b hab).bind fun r _ he => ?_
      subst he
      cases r with
      | true => exact ih
      | false => exact .ok rfl
  | left he us ws => exact .left he _
  | right us he ws => exact .right _ he

/-- The first item of a stream that tracks items. -/
theorem next {s : Stream α} (h : Tracks P lax R s.items ws) :
    (s.next.result = .ok none ∧ ws = []) ∨ (∃ e, s.next.result = .error e ∧ P e) ∨
      (∃ e others, ws = .error e :: others ∧ lax) ∨
        ∃ a rest b others, s.next.result = .ok (some (a, rest)) ∧ ws = .ok b :: others ∧
          R a b ∧ Tracks P lax R rest.items others := by
  rcases s.result_next with ⟨hitems, hnext⟩ | ⟨e, rest, hitems, hnext⟩ | ⟨a, rest, hitems, hnext⟩
  · rw [hitems] at h
    cases h with
    | nil => exact .inl ⟨hnext, rfl⟩
    | right _ he ws => exact .inr (.inr (.inl ⟨_, _, rfl, he⟩))
  · rw [hitems] at h
    cases h with
    | left he us ws => exact .inr (.inl ⟨_, hnext, he⟩)
    | right _ he ws => exact .inr (.inr (.inl ⟨_, _, rfl, he⟩))
  · rw [hitems] at h
    cases h with
    | cons hab hrest => exact .inr (.inr (.inr ⟨a, rest, _, _, hnext, rfl, hab, hrest⟩))
    | right _ he ws => exact .inr (.inr (.inl ⟨_, _, rfl, he⟩))

end Tracks

end ColumnQuery
