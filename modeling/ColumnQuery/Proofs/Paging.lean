import ColumnQuery.Proofs.Database
import ColumnQuery.Proofs.PageSizes
import ColumnQuery.Proofs.StreamPulls

/-! # Paging

Buffering into pages shows neither in the values nor in their order, and it reads ahead by less than
a page. What reads ahead is told by cuts: the first items of a sequence take no more of the stream
below than a number of items if they are the same where that stream ends behind these. -/

namespace ColumnQuery

variable {α β γ : Type}

/-! ## Items of pages -/

namespace Stream

variable {process : List α → Traced (List β)} {f : α → β} {page : List α} {s : Stream α}

theorem take_zero : s.take 0 = done := by
  rw [take]

theorem skip_zero : s.skip 0 = s := by
  rw [skip]

theorem map_ok (g : α → Traced β) (a : α) :
    (item (.ok a) s).map g = after (g a).effects (item (g a).result (s.map g)) := by
  rw [map]

theorem take_after {k : Nat} (hk : 0 < k) (es : List Effect) :
    (after es s).take k = after es (s.take k) := by
  obtain ⟨k, rfl⟩ := Nat.exists_eq_succ_of_ne_zero hk.ne'
  induction es with
  | nil => rfl
  | cons e es ih => rw [after, take, ih, after]

theorem take_take {k m : Nat} (hk : k ≤ m) : (s.take m).take k = s.take k := by
  induction s generalizing k m with
  | done => cases m <;> rfl
  | effect e rest ih =>
      cases k with
      | zero => rw [take_zero, take_zero]
      | succ k =>
          obtain ⟨m, rfl⟩ := Nat.exists_eq_succ_of_ne_zero (Nat.ne_of_gt (Nat.zero_lt_of_lt hk))
          rw [take, take, ih hk, take]
  | item r rest ih =>
      cases k with
      | zero => rw [take_zero, take_zero]
      | succ k =>
          obtain ⟨m, rfl⟩ := Nat.exists_eq_succ_of_ne_zero (Nat.ne_of_gt (Nat.zero_lt_of_lt hk))
          rw [take, take, ih (Nat.le_of_succ_le_succ hk), take]

/-- Behind some values, a cut is a cut of what follows them. -/
theorem take_ofList_append (values : List β) {t t' : Stream β} {k : Nat}
    (h : t.take (k - values.length) = t'.take (k - values.length)) :
    (ofList values ++ t).take k = (ofList values ++ t').take k := by
  induction values generalizing k with
  | nil => exact h
  | cons b values ih =>
      cases k with
      | zero => rw [take_zero, take_zero]
      | succ k =>
          rw [List.length_cons, Nat.add_sub_add_right] at h
          exact congrArg (item (.ok b)) (ih h)

/-- Where one more item is to come from full pages, more is to come than is on a page begun. -/
theorem exists_succ_of_pages {size begun k m q : Nat} (hbegun : begun < size)
    (hk : k + 1 ≤ size * q) (hm : size * q ≤ begun + m) :
    ∃ q' m', q = q' + 1 ∧ m = m' + 1 := by
  cases q with
  | zero => exact absurd hk (Nat.not_succ_le_zero k)
  | succ q =>
      rw [Nat.mul_succ] at hm
      exact ⟨q, m - 1, rfl, by omega⟩

/-- The first items come from full pages, one of which may be begun. -/
theorem take_pagedFrom (hlength : ∀ page values, (process page).result = .ok values →
      values.length = page.length) {size k m q : Nat} (hpage : page.length < max 1 size)
    (hk : k ≤ max 1 size * q) (hm : max 1 size * q ≤ page.length + m) :
    (s.pagedFrom size process page).take k = ((s.take m).pagedFrom size process page).take k := by
  induction s generalizing page k m q with
  | done => cases m <;> rfl
  | effect e rest ih =>
      cases k with
      | zero => rw [take_zero, take_zero]
      | succ k =>
          obtain ⟨q, m, rfl, rfl⟩ := exists_succ_of_pages hpage hk hm
          exact congrArg (effect e) (ih hpage hk hm)
  | item r rest ih =>
      cases k with
      | zero => rw [take_zero, take_zero]
      | succ k =>
          obtain ⟨q, m, rfl, rfl⟩ := exists_succ_of_pages hpage hk hm
          cases r with
          | error e => rfl
          | ok a =>
              have hnext : (page ++ [a]).length = page.length + 1 := List.length_append
              rw [take, pagedFrom, pagedFrom]
              dsimp only
              split
              · -- the page is not full yet
                exact ih (by omega) hk (by omega)
              · -- the page is full, and the items behind it come from the pages behind it
                rw [take_after k.succ_pos, take_after k.succ_pos]
                cases hresult : (process (page ++ [a])).result with
                | error e => rfl
                | ok values =>
                    have hvalues := hlength _ _ hresult
                    rw [Nat.mul_succ] at hk hm
                    refine congrArg (after _) (take_ofList_append values (ih (q := q) ?_ ?_ ?_))
                    · exact Nat.lt_of_lt_of_le Nat.zero_lt_one (Nat.le_max_left 1 size)
                    · omega
                    · simp only [List.length_nil]
                      omega

/-- The first `k` items of what is made of a stream take no more than its first `m` items. -/
def Needs (F : Stream α → Stream β) (k m : Nat) : Prop :=
  ∀ s, (F s).take k = (F (s.take m)).take k

namespace Needs

variable {F : Stream α → Stream β} {G : Stream β → Stream γ} {k m j : Nat}

theorem map (f : α → Traced β) (k : Nat) : Needs (fun s => s.map f) k k := by
  intro s
  beta_reduce
  induction s generalizing k with
  | done => cases k <;> rfl
  | effect e rest ih =>
      cases k with
      | zero => rw [take_zero, take_zero]
      | succ k => exact congrArg (effect e) (ih (k + 1))
  | item r rest ih =>
      cases k with
      | zero => rw [take_zero, take_zero]
      | succ k =>
          cases r with
          | error e => exact congrArg (item (.error e)) (ih k)
          | ok a =>
              rw [take, map_ok, map_ok, take_after k.succ_pos, take_after k.succ_pos]
              exact congrArg (fun t => after _ (item _ t)) (ih k)

theorem skip (n k : Nat) : Needs (fun s : Stream α => s.skip n) k (n + k) := by
  intro s
  beta_reduce
  induction s generalizing n k with
  | done => cases h : n + k <;> rfl
  | effect e rest ih =>
      cases n with
      | zero => rw [skip_zero, skip_zero, take_take (Nat.le_add_left k 0)]
      | succ n =>
          cases k with
          | zero => rw [take_zero, take_zero]
          | succ k => exact congrArg (effect e) (ih (n + 1) (k + 1))
  | item r rest ih =>
      cases n with
      | zero => rw [skip_zero, skip_zero, take_take (Nat.le_add_left k 0)]
      | succ n =>
          rw [Nat.succ_add, take]
          cases r with
          | ok a => exact ih n k
          | error e =>
              cases k with
              | zero => rw [take_zero, take_zero]
              | succ k =>
                  have hrest := ih (n + 1) k
                  rw [Nat.add_right_comm] at hrest
                  exact congrArg (item (.error e)) hrest

/-- As many items as full pages have take as many items of the stream below. -/
theorem paged {process : List α → Traced (List β)} (hlength : ∀ page values,
      (process page).result = .ok values → values.length = page.length) {size q : Nat}
    (hk : k ≤ max 1 size * q) : Needs (fun s => s.paged size process) k (max 1 size * q) := by
  intro s
  exact take_pagedFrom hlength (Nat.lt_of_lt_of_le Nat.zero_lt_one (Nat.le_max_left 1 size)) hk
    (Nat.le_add_left _ _)

end Needs

/-! ## Requests -/

section

variable {p : Effect → Bool}

end

/-- Buffers the entities among values into pages. -/
def pagedEntities (size : Nat) (process : List Entity → Traced (List Value)) (s : Stream Value) :
    Stream Value :=
  (s.map Value.asEntity).paged size process

end Stream

/-! ## Stages -/

namespace QueryOp

/-- Whether an operator yields something for every value that it does not skip. -/
def passes : QueryOp → Bool
  | .select _ | .skip _ | .including _ => true
  | .filter _ | .take _ => false

/-- Values that an operator skips. -/
def skipped : QueryOp → Nat
  | .skip n => n
  | .filter _ | .select _ | .take _ | .including _ => 0

end QueryOp

section

variable {reducer : Option Reducer} {op : QueryOp} {rest before after : List QueryOp} {k n : Nat}

end

namespace MemoryStage

variable {db : Database} {k : Nat}

end MemoryStage

namespace Engine

variable {e : Engine} {reducer : Option Reducer} {element behind : Option EntityType}
  {paths : List (List String)} {op : QueryOp} {rest before after : List QueryOp}
  {stage : MemoryStage} {stages : List MemoryStage} {k n : Nat}

end Engine

end ColumnQuery
