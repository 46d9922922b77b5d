import ColumnQuery.Proofs.Stream
import Mathlib.Order.Bounds.Basic

/-! # Rows that a stream pulls

A stream can be cut before the pull of a row; what is left is the stream over only the rows before
the cut. Every operator commutes with the cut, as long as its tests pull nothing themselves. The
rows pulled for the first items are therefore the fewest over which the stream has these items. -/

namespace ColumnQuery

variable {α β : Type}

/-- Whether an effect takes a row from a table. -/
def Effect.isPull : Effect → Bool
  | .pull _ => true
  | _ => false

/-- Whether a result settles the search for a verdict: the verdict does, and so does an error. -/
def settles (verdict : Bool) : Except Error Bool → Bool
  | .ok b => b == verdict
  | .error _ => true

/-- Position of the first item that settles the search for a verdict. -/
def verdictAt (verdict : Bool) (test : α → Except Error Bool) (items : List (Except Error α)) :
    Nat :=
  items.findIdx fun r => settles verdict (r >>= test)

theorem verdictAt_cons (verdict : Bool) (test : α → Except Error Bool) (r : Except Error α)
    (items : List (Except Error α)) :
    verdictAt verdict test (r :: items) =
      if settles verdict (r >>= test) then 0 else verdictAt verdict test items + 1 := by
  rw [verdictAt, List.findIdx_cons, cond_eq_ite]
  rfl

/-! ## Computations -/

namespace Traced

/-- Rows that a computation pulls. -/
def pulls (t : Traced α) : Nat :=
  t.effects.countP Effect.isPull

variable {t : Traced α} {f : α → Traced β}

theorem pulls_bind_of_ok {a : α} (h : t.result = .ok a) :
    (t >>= f).pulls = t.pulls + (f a).pulls := by
  rw [pulls, effects_bind, h, List.countP_append]
  rfl

theorem pulls_bind_of_error {e : Error} (h : t.result = .error e) :
    (t >>= f).pulls = t.pulls := by
  rw [pulls, effects_bind, h, List.append_nil]
  rfl

/-- What is done with a result after pulling nothing more does not show in the pulls. -/
theorem pulls_bind_silent (hf : ∀ a, (f a).pulls = 0) : (t >>= f).pulls = t.pulls := by
  cases h : t.result with
  | ok a => rw [pulls_bind_of_ok h, hf, Nat.add_zero]
  | error e => exact pulls_bind_of_error h

theorem pulls_bind_eq_zero (ht : t.pulls = 0) (hf : ∀ a, (f a).pulls = 0) :
    (t >>= f).pulls = 0 :=
  (pulls_bind_silent hf).trans ht

theorem pulls_emit_bind (e : Effect) (t : Traced α) :
    (emit e >>= fun _ => t).pulls = t.pulls + if e.isPull then 1 else 0 := by
  have hemit : (emit e).pulls = if e.isPull then 1 else 0 := List.countP_singleton
  rw [pulls_bind_of_ok (a := ()) rfl, hemit, Nat.add_comm]

end Traced

namespace Stream

/-! ## Effects of a kind -/

/-- Effects of a kind that a stream leaves on the way to its end. -/
def marks (p : Effect → Bool) (s : Stream α) : Nat :=
  s.effects.countP p

section

variable {p : Effect → Bool} (s : Stream α) {test : α → Traced Bool} {f : α → Traced β}

@[simp] theorem marks_effect (e : Effect) :
    (effect e s).marks p = s.marks p + if p e then 1 else 0 :=
  List.countP_cons

theorem marks_after (es : List Effect) : (after es s).marks p = es.countP p + s.marks p := by
  induction es with
  | nil => exact (Nat.zero_add _).symm
  | cons e es ih =>
      rw [after, marks_effect, ih, List.countP_cons]
      omega

/-- What leaves no effects of the kind does not show behind the effects of a stream. -/
theorem marks_after_silent {es : List Effect} (hes : es.countP p = 0) :
    (after es s).marks p = s.marks p := by
  rw [marks_after, hes, Nat.zero_add]

theorem marks_filter (htest : ∀ a, (test a).effects.countP p = 0) :
    (s.filter test).marks p = s.marks p := by
  induction s with
  | done => rfl
  | effect e rest ih => rw [filter, marks_effect, marks_effect, ih]
  | item r rest ih =>
      cases r with
      | error e => exact ih
      | ok a =>
          rw [filter, marks_after_silent _ (htest a)]
          cases (test a).result with
          | error e => exact ih
          | ok b => cases b <;> exact ih

theorem marks_map (hf : ∀ a, (f a).effects.countP p = 0) : (s.map f).marks p = s.marks p := by
  induction s with
  | done => rfl
  | effect e rest ih => rw [map, marks_effect, marks_effect, ih]
  | item r rest ih =>
      cases r with
      | error e => exact ih
      | ok a =>
          rw [map, marks_after_silent _ (hf a)]
          exact ih

theorem marks_skip (n : Nat) : (s.skip n).marks p = s.marks p := by
  induction s generalizing n with
  | done => cases n <;> rfl
  | effect e rest ih =>
      cases n with
      | zero => rw [skip]
      | succ n => rw [skip, marks_effect, marks_effect, ih]
  | item r rest ih =>
      cases n with
      | zero => rw [skip]
      | succ n => cases r <;> exact ih _

theorem marks_take_le (n : Nat) : (s.take n).marks p ≤ s.marks p := by
  induction s generalizing n with
  | done => cases n <;> exact le_rfl
  | effect e rest ih =>
      cases n with
      | zero => exact Nat.zero_le _
      | succ n =>
          rw [take, marks_effect, marks_effect]
          exact Nat.add_le_add_right (ih (n + 1)) _
  | item r rest ih =>
      cases n with
      | zero => exact Nat.zero_le _
      | succ n => exact ih n

end

/-! ## Pulls and cuts -/

/-- Rows that a stream pulls on the way to its end. -/
def pulls (s : Stream α) : Nat :=
  s.effects.countP Effect.isPull

/-- The stream over only the first `m` rows: it ends where the next one would be pulled. -/
def upTo : Nat → Stream α → Stream α
  | _, .done => .done
  | m, .effect e rest =>
    if e.isPull then
      match m with
      | 0 => .done
      | m + 1 => .effect e (upTo m rest)
    else .effect e (upTo m rest)
  | m, .item r rest => .item r (upTo m rest)

variable (s : Stream α)

@[simp] theorem pulls_done : (done : Stream α).pulls = 0 := rfl

@[simp] theorem pulls_item (r : Except Error α) : (item r s).pulls = s.pulls := rfl

@[simp] theorem pulls_effect (e : Effect) :
    (effect e s).pulls = s.pulls + if e.isPull then 1 else 0 :=
  s.marks_effect e

@[simp] theorem upTo_done (m : Nat) : (done : Stream α).upTo m = done := by
  rw [upTo]

@[simp] theorem upTo_item (m : Nat) (r : Except Error α) :
    (item r s).upTo m = item r (s.upTo m) := by
  rw [upTo]

theorem upTo_zero_pull {e : Effect} (he : e.isPull = true) : (effect e s).upTo 0 = done := by
  rw [upTo, if_pos he]

theorem upTo_succ_pull {e : Effect} (he : e.isPull = true) (m : Nat) :
    (effect e s).upTo (m + 1) = effect e (s.upTo m) := by
  rw [upTo, if_pos he]

theorem upTo_silent {e : Effect} (he : e.isPull = false) (m : Nat) :
    (effect e s).upTo m = effect e (s.upTo m) := by
  rw [upTo.eq_def]
  exact if_neg (by simp [he])

theorem upTo_after {es : List Effect} (hes : es.countP Effect.isPull = 0) (m : Nat) :
    (after es s).upTo m = after es (s.upTo m) := by
  induction es with
  | nil => rfl
  | cons e es ih =>
      rw [List.countP_eq_zero, List.forall_mem_cons, Bool.not_eq_true,
        ← List.countP_eq_zero] at hes
      rw [after, after, upTo_silent _ hes.1, ih hes.2]

/-- A cut stream has the first items of the whole stream. -/
theorem items_upTo_prefix (m : Nat) : (s.upTo m).items <+: s.items := by
  induction s generalizing m with
  | done => exact List.prefix_rfl
  | effect e rest ih =>
      by_cases he : e.isPull = true
      · cases m with
        | zero =>
            rw [upTo_zero_pull _ he]
            exact List.nil_prefix
        | succ m =>
            rw [upTo_succ_pull _ he]
            exact ih m
      · rw [upTo_silent _ (by simpa using he)]
        exact ih m
  | item r rest ih =>
      rw [upTo_item]
      exact (List.prefix_cons_inj r).mpr (ih m)

/-- The first `k` items need `m` rows at most exactly if the stream over `m` rows has them. -/
theorem pulls_take_le_iff {k : Nat} (hk : k ≤ s.items.length) (m : Nat) :
    (s.take k).pulls ≤ m ↔ k ≤ (s.upTo m).items.length := by
  induction s generalizing k m with
  | done =>
      obtain rfl := Nat.le_zero.mp hk
      simp [take]
  | effect e rest ih =>
      cases k with
      | zero => simp [take]
      | succ k =>
          have hrest := @ih (k + 1) hk
          rw [take, pulls_effect]
          by_cases he : e.isPull = true
          · rw [if_pos he]
            cases m with
            | zero =>
                rw [upTo_zero_pull _ he]
                simp [items]
            | succ m =>
                rw [upTo_succ_pull _ he, items, ← hrest m]
                omega
          · rw [if_neg he, upTo_silent _ (by simpa using he), items]
            exact hrest m
  | item r rest ih =>
      cases k with
      | zero => simp [take]
      | succ k =>
          rw [take, pulls_item, upTo_item, items, List.length_cons,
            ih (Nat.le_of_succ_le_succ hk) m]
          omega

/-- The rows pulled for the first `k` items are the fewest over which the stream has `k` items. -/
theorem isLeast_pulls_take {k : Nat} (hk : k ≤ s.items.length) :
    IsLeast {m | k ≤ (s.upTo m).items.length} (s.take k).pulls :=
  ⟨(s.pulls_take_le_iff hk _).mp le_rfl, fun m hm => (s.pulls_take_le_iff hk m).mpr hm⟩

/-! ## Operators -/

/-- An operator that passes effects on and commutes with the cuts behind an effect commutes with
those of the whole stream. -/
theorem upTo_effect_comm {g : Stream α → Stream β} (hdone : g done = done)
    (heffect : ∀ e s, g (effect e s) = effect e (g s)) {rest : Stream α}
    (hrest : ∀ m, (g rest).upTo m = g (rest.upTo m)) (e : Effect) (m : Nat) :
    (g (effect e rest)).upTo m = g ((effect e rest).upTo m) := by
  rw [heffect]
  by_cases he : e.isPull = true
  · cases m with
    | zero => rw [upTo_zero_pull _ he, upTo_zero_pull _ he, hdone]
    | succ m => rw [upTo_succ_pull _ he, upTo_succ_pull _ he, heffect, hrest]
  · rw [Bool.not_eq_true] at he
    rw [upTo_silent _ he, upTo_silent _ he, heffect, hrest]

section

variable {test : α → Traced Bool} {f : α → Traced β}

theorem upTo_filter (htest : ∀ a, (test a).pulls = 0) (m : Nat) :
    (s.filter test).upTo m = (s.upTo m).filter test := by
  induction s generalizing m with
  | done => rfl
  | effect e rest ih => exact upTo_effect_comm rfl (fun _ _ => rfl) ih e m
  | item r rest ih =>
      cases r with
      | error e => rw [filter, upTo_item, upTo_item, filter, ih]
      | ok a =>
          rw [filter, upTo_item, filter, upTo_after _ (htest a)]
          cases (test a).result with
          | error e => simp only [upTo_item, ih]
          | ok b => cases b <;> simp only [upTo_item, ih]

theorem pulls_filter (htest : ∀ a, (test a).pulls = 0) : (s.filter test).pulls = s.pulls :=
  s.marks_filter htest

theorem upTo_map (hf : ∀ a, (f a).pulls = 0) (m : Nat) :
    (s.map f).upTo m = (s.upTo m).map f := by
  induction s generalizing m with
  | done => rfl
  | effect e rest ih => exact upTo_effect_comm rfl (fun _ _ => rfl) ih e m
  | item r rest ih =>
      cases r with
      | error e => rw [map, upTo_item, upTo_item, map, ih]
      | ok a => rw [map, upTo_item, map, upTo_after _ (hf a), upTo_item, ih]

theorem pulls_map (hf : ∀ a, (f a).pulls = 0) : (s.map f).pulls = s.pulls :=
  s.marks_map hf

end

theorem upTo_skip (n m : Nat) : (s.skip n).upTo m = (s.upTo m).skip n := by
  induction s generalizing n m with
  | done => cases n <;> rfl
  | effect e rest ih =>
      cases n with
      | zero => rw [skip, skip]
      | succ n => exact upTo_effect_comm rfl (fun _ _ => rfl) (ih (n + 1)) e m
  | item r rest ih =>
      cases n with
      | zero => rw [skip, skip]
      | succ n =>
          cases r with
          | error e => rw [skip, upTo_item, upTo_item, skip, ih]
          | ok a => rw [skip, upTo_item, skip, ih]

theorem pulls_skip (n : Nat) : (s.skip n).pulls = s.pulls :=
  s.marks_skip n

theorem upTo_take (n m : Nat) : (s.take n).upTo m = (s.upTo m).take n := by
  induction s generalizing n m with
  | done => cases n <;> rfl
  | effect e rest ih =>
      cases n with
      | zero => rw [take, take, upTo_done]
      | succ n => exact upTo_effect_comm rfl (fun _ _ => rfl) (ih (n + 1)) e m
  | item r rest ih =>
      cases n with
      | zero => rw [take, take, upTo_done]
      | succ n => rw [take, upTo_item, upTo_item, take, ih]

theorem pulls_take_le (n : Nat) : (s.take n).pulls ≤ s.pulls :=
  s.marks_take_le n

/-- A stream that has fewer items than are taken is pulled to its end. -/
theorem take_eq_self {n : Nat} (hn : s.items.length < n) : s.take n = s := by
  induction s generalizing n with
  | done => cases n <;> rfl
  | effect e rest ih =>
      cases n with
      | zero => exact absurd hn (Nat.not_lt_zero _)
      | succ n => rw [take, ih hn]
  | item r rest ih =>
      cases n with
      | zero => exact absurd hn (Nat.not_lt_zero _)
      | succ n => rw [take, ih (Nat.lt_of_succ_lt_succ hn)]

/-! ## Consumers -/

theorem pulls_next : s.next.pulls = (s.take 1).pulls := by
  induction s with
  | done => rfl
  | effect e rest ih => rw [next, take, Traced.pulls_emit_bind, pulls_effect, ih]
  | item r rest ih =>
      rw [next, take, pulls_item, take]
      rfl

/-- To take several items is to ask for the first and then to take the others. -/
theorem pulls_take_succ {a : α} {rest : Stream α} (h : s.next.result = .ok (some (a, rest)))
    (k : Nat) : (s.take (k + 1)).pulls = s.next.pulls + (rest.take k).pulls := by
  induction s with
  | done => cases h
  | effect e behind ih =>
      rw [next, Traced.result_bind] at h
      rw [next, take, Traced.pulls_emit_bind, pulls_effect, ih h]
      omega
  | item r behind ih =>
      cases r with
      | error e => cases h
      | ok b =>
          obtain ⟨rfl, rfl⟩ := Prod.mk.inj (Option.some.inj (Except.ok.inj h))
          exact (Nat.zero_add _).symm

/-- To ask for the first item, and for the second unless the first ends the search, is to take two
items at most. -/
theorem pulls_next_twice {f : Option (α × Stream α) → Traced β} (hnone : (f none).pulls = 0)
    (hsome : ∀ a rest, (f (some (a, rest))).pulls = rest.next.pulls) :
    (s.next >>= f).pulls = (s.take (min 2 (s.items.findIdx (fun r => !r.isOk) + 1))).pulls := by
  rcases s.result_next with ⟨hitems, hnext⟩ | ⟨e, others, hitems, hnext⟩ | ⟨a, rest, hitems, hnext⟩
  · rw [Traced.pulls_bind_of_ok hnext, hnone, hitems]
    exact s.pulls_next
  · rw [Traced.pulls_bind_of_error hnext, hitems]
    exact s.pulls_next
  · have htwo : min 2 (s.items.findIdx (fun r => !r.isOk) + 1) = 2 := by
      rw [hitems, List.findIdx_cons]
      exact Nat.min_eq_left (Nat.succ_le_succ (Nat.succ_le_succ (Nat.zero_le _)))
    rw [Traced.pulls_bind_of_ok hnext, hsome, htwo, pulls_take_succ s hnext, rest.pulls_next]

theorem pulls_count :
    s.count.pulls = (s.take (s.items.findIdx (fun r => !r.isOk) + 1)).pulls := by
  induction s with
  | done => rfl
  | effect e rest ih => rw [count, take, Traced.pulls_emit_bind, pulls_effect, ih, items]
  | item r rest ih =>
      rw [count, take, pulls_item, items, List.findIdx_cons]
      cases r with
      | error e =>
          simp only [Except.isOk, Except.toBool, Bool.not_false, cond_true, take]
          rfl
      | ok a =>
          rw [Traced.pulls_bind_of_ok (a := a) rfl,
            Traced.pulls_bind_silent (f := fun n => pure (n + 1)) fun _ => rfl, ih]
          exact Nat.zero_add _

section

variable {test : α → Traced Bool}

/-- A search goes on behind an item exactly if the item does not settle it. -/
theorem pulls_search (verdict : Bool) (htest : ∀ a, (test a).pulls = 0) (r : Except Error α)
    {g : Bool → Traced β} (hverdict : (g verdict).pulls = 0) :
    (do test (← .ofResult r) >>= g : Traced β).pulls =
      if settles verdict (r >>= fun a => (test a).result) then 0 else (g !verdict).pulls := by
  cases r with
  | error e => rfl
  | ok a =>
      rw [Traced.pulls_bind_of_ok (a := a) rfl, ok_bind]
      cases hresult : (test a).result with
      | error e =>
          rw [Traced.pulls_bind_of_error hresult, htest]
          rfl
      | ok b =>
          rw [Traced.pulls_bind_of_ok hresult, htest, settles]
          by_cases hb : b = verdict
          · rw [hb, hverdict, if_pos (beq_self_eq_true _)]
            rfl
          · rw [if_neg (by simpa using hb), Bool.eq_not_of_ne hb]
            exact (Nat.zero_add _).trans (Nat.zero_add _)

theorem pulls_any (htest : ∀ a, (test a).pulls = 0) :
    (s.any test).pulls =
      (s.take (verdictAt true (fun a => (test a).result) s.items + 1)).pulls := by
  induction s with
  | done => rfl
  | effect e rest ih => rw [any, take, Traced.pulls_emit_bind, pulls_effect, ih, items]
  | item r rest ih =>
      rw [any, take, pulls_item, items, verdictAt_cons]
      refine (pulls_search true htest r rfl).trans ?_
      split
      · rw [take, pulls_done]
      · exact ih

theorem pulls_all (htest : ∀ a, (test a).pulls = 0) :
    (s.all test).pulls =
      (s.take (verdictAt false (fun a => (test a).result) s.items + 1)).pulls := by
  induction s with
  | done => rfl
  | effect e rest ih => rw [all, take, Traced.pulls_emit_bind, pulls_effect, ih, items]
  | item r rest ih =>
      rw [all, take, pulls_item, items, verdictAt_cons]
      refine (pulls_search false htest r rfl).trans ?_
      split
      · rw [take, pulls_done]
      · exact ih

end

end Stream

end ColumnQuery
