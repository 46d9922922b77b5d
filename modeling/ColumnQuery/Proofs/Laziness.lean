import ColumnQuery.Proofs.Database
import ColumnQuery.Proofs.RowAgreement
import ColumnQuery.Proofs.RowStages
import ColumnQuery.Proofs.StreamPulls
import ColumnQuery.Query.Execute

/-! # Laziness

A plan without pages pulls no row too many. For its first items it pulls exactly the rows without
which it would not have them, and to find its end the rows up to the first at which a take has let
through all that it may. A reducer pulls no row past the item that decides it. -/

namespace ColumnQuery

variable {α β σ : Type}

/-! ## Stages -/

/-- A stage over a stream that pulls row by row. It either takes up to its limit or, without one,
pulls the rows that the stream pulls. -/
structure LazyStage (run : Stream α → Stream α) (limit : Option Nat) : Prop where
  upTo : ∀ s m, (run s).upTo m = run (s.upTo m)
  take : ∀ n, limit = some n → ∀ s, run s = s.take n
  pulls : limit = none → ∀ s, (run s).pulls = s.pulls

namespace LazyStage

/-- A stage without a limit. -/
theorem unlimited {run : Stream α → Stream α} (hupTo : ∀ s m, (run s).upTo m = run (s.upTo m))
    (hpulls : ∀ s, (run s).pulls = s.pulls) : LazyStage run none where
  upTo := hupTo
  take _ hn := nomatch hn
  pulls _ := hpulls

theorem limited (n : Nat) : LazyStage (fun s : Stream α => s.take n) (some n) where
  upTo s m := s.upTo_take n m
  take k hk s := by rw [Option.some.inj hk]
  pulls hn := nomatch hn

end LazyStage

/-- Of stages that run one after the other, one lets through its full limit. -/
def AnyFull (run : Stream α → σ → Stream α) (limit : σ → Option Nat) : Stream α → List σ → Prop
  | _, [] => False
  | s, stage :: rest =>
    limit stage = some (run s stage).items.length ∨ AnyFull run limit (run s stage) rest

/-- A stream that is pulled to its end pulls `m` rows or less exactly if a limit is reached over
these rows; if none ever is, it pulls all of them. -/
def Stops (s : Stream α) (Full : Nat → Prop) (rows : Nat) : Prop :=
  (∀ m, Full m ↔ s.pulls ≤ m) ∨ (∀ m, ¬ Full m) ∧ s.pulls = rows

namespace Stops

variable {s : Stream α} {Full Full' : Nat → Prop} {rows : Nat}

theorem congr (h : Stops s Full rows) (hfull : ∀ m, Full m ↔ Full' m) : Stops s Full' rows := by
  obtain rfl : Full = Full' := funext fun m => propext (hfull m)
  exact h

/-- A take that is reached ends the stream no later than before; one that is not changes nothing. -/
theorem take (h : Stops s Full rows) (n : Nat) :
    Stops (s.take n) (fun m => Full m ∨ n = ((s.upTo m).take n).items.length) rows := by
  have hreached : ∀ m, n = ((s.upTo m).take n).items.length ↔ n ≤ (s.upTo m).items.length := by
    intro m
    rw [Stream.items_take, List.length_take]
    omega
  by_cases hn : n ≤ s.items.length
  · refine .inl fun m => ?_
    dsimp only
    rw [hreached, ← s.pulls_take_le_iff hn]
    refine or_iff_right_of_imp fun hfull => ?_
    rcases h with h | ⟨h, -⟩
    · exact (s.pulls_take_le n).trans ((h m).mp hfull)
    · exact absurd hfull (h m)
  · have hnever : ∀ m, ¬ n = ((s.upTo m).take n).items.length := by
      intro m hm
      exact hn (((hreached m).mp hm).trans (s.items_upTo_prefix m).length_le)
    rw [s.take_eq_self (Nat.lt_of_not_le hn)]
    exact h.congr fun m => (or_iff_left (hnever m)).symm

variable {run : Stream α → σ → Stream α} {limit : σ → Option Nat}

theorem stage (h : Stops s Full rows) {stage : σ} (hstage : LazyStage (run · stage) (limit stage)) :
    Stops (run s stage)
      (fun m => Full m ∨ limit stage = some (run (s.upTo m) stage).items.length) rows := by
  cases hlimit : limit stage with
  | none =>
      have hpulls : (run s stage).pulls = s.pulls := hstage.pulls hlimit s
      rw [Stops, hpulls]
      exact h.congr fun m => by simp
  | some n =>
      have hrun : ∀ s, run s stage = s.take n := hstage.take n hlimit
      rw [hrun]
      exact (h.take n).congr fun m => by rw [hrun, Option.some.injEq]

/-- Stages that run one after the other stop at the first limit that is reached. -/
theorem foldl {stages : List σ}
    (hstages : ∀ stage ∈ stages, LazyStage (run · stage) (limit stage)) (h : Stops s Full rows) :
    Stops (stages.foldl run s) (fun m => Full m ∨ AnyFull run limit (s.upTo m) stages) rows := by
  induction stages generalizing s Full with
  | nil => exact h.congr fun m => (or_iff_left id).symm
  | cons stage stages ih =>
      obtain ⟨hstage, hrest⟩ := List.forall_mem_cons.mp hstages
      refine (ih hrest (h.stage hstage)).congr fun m => ?_
      rw [hstage.upTo, AnyFull, or_assoc]

theorem isLeast (h : Stops s Full rows) :
    IsLeast {m | Full m} s.pulls ∨ (∀ m, ¬ Full m) ∧ s.pulls = rows :=
  h.imp_left fun h => ⟨(h _).mpr le_rfl, fun m hm => (h m).mp hm⟩

end Stops

theorem LazyStage.upTo_foldl {run : Stream α → σ → Stream α} {limit : σ → Option Nat}
    {stages : List σ} (hstages : ∀ stage ∈ stages, LazyStage (run · stage) (limit stage))
    (s : Stream α) (m : Nat) : (stages.foldl run s).upTo m = stages.foldl run (s.upTo m) := by
  induction stages generalizing s with
  | nil => rfl
  | cons stage stages ih =>
      obtain ⟨hstage, hrest⟩ := List.forall_mem_cons.mp hstages
      rw [List.foldl_cons, ih hrest, hstage.upTo, List.foldl_cons]

/-! ## Evaluation pulls nothing -/

section

variable (source : Option NavigationSource)

theorem Traced.silent_congruence : Traced.Congruence fun _ _ t => t.pulls = 0 where
  pure _ := rfl
  fail _ := rfl
  bind {_ _ _ t _ _} ht hf := by
    cases hresult : t.result with
    | ok a => rw [pulls_bind_of_ok hresult, ht, hf a hresult]
    | error e => rw [pulls_bind_of_error hresult, ht]
  asTest ht := ht

theorem Entity.readMember_silent (e : Entity) (name : String) (hname : e.get? name = none) :
    (e.toValue.readMember source name).pulls = 0 := by
  have hfield : e.toValue.field? name = none := hname
  unfold Value.readMember
  rw [hfield]
  cases source with
  | none => rfl
  | some answer =>
      refine Traced.pulls_bind_eq_zero rfl fun _ => Traced.pulls_bind_eq_zero rfl ?_
      intro found
      cases found <;> rfl

/-- Evaluation asks for navigations, but it pulls no row of its own. -/
theorem Expr.eval_silent (scope : Scope) (e : Expr) : (e.eval source scope).pulls = 0 :=
  eval_congruence (a := source) Traced.silent_congruence (Entity.readMember_silent source) scope e

theorem Expr.test_silent (lambda : Expr) (v : Value) : (lambda.test source v).pulls = 0 :=
  test_congruence (a := source) Traced.silent_congruence (Entity.readMember_silent source) lambda v

theorem Expr.apply_silent (lambda : Expr) (v : Value) : (lambda.apply source v).pulls = 0 :=
  apply_congruence (a := source) Traced.silent_congruence (Entity.readMember_silent source) lambda v

end

/-! ## Only the first rows -/

namespace Stream

variable {s : Stream α}

theorem filter_congr {test test' : α → Traced Bool}
    (h : ∀ a, .ok a ∈ s.items → test a = test' a) : s.filter test = s.filter test' := by
  induction s with
  | done => rfl
  | effect e rest ih => rw [filter, filter, ih h]
  | item r rest ih =>
      have hrest := ih fun a ha => h a (List.mem_cons_of_mem _ ha)
      cases r with
      | error e => rw [filter, filter, hrest]
      | ok a => rw [filter, filter, hrest, h a List.mem_cons_self]

theorem map_congr {f g : α → Traced β} (h : ∀ a, .ok a ∈ s.items → f a = g a) :
    s.map f = s.map g := by
  induction s with
  | done => rfl
  | effect e rest ih => rw [map, map, ih h]
  | item r rest ih =>
      have hrest := ih fun a ha => h a (List.mem_cons_of_mem _ ha)
      cases r with
      | error e => rw [map, map, hrest]
      | ok a => rw [map, map, hrest, h a List.mem_cons_self]

end Stream

namespace Table

/-- The table of only the first `m` rows. -/
def firstRows (t : Table) (m : Nat) : Table :=
  { t with rows := t.rows.take m }

variable {t : Table} {h : RowHandle} {m : Nat}

theorem stored_firstRows (hh : h.position < m) : (t.firstRows m).stored h = t.stored h := by
  rw [stored, stored, firstRows, List.getElem?_take_of_lt hh]

/-- A row that is kept holds what it held. -/
theorem sameField_firstRows (hh : h.position < m) (f : Field) :
    SameField (t.firstRows m) t h h f where
  id _ := rfl
  read kind := by
    rw [read, read, stored_firstRows hh]
    rfl
  offset := by
    rw [offset?, offset?, stored_firstRows hh]
    rfl

theorem position_lt_of_mem_handles (hh : h ∈ (t.firstRows m).handles) : h.position < m := by
  obtain ⟨-, row, hrow⟩ := mem_handles_iff.mp hh
  have hsome : (t.rows.take m)[h.position]? = some row := (stored_eq_ok_iff.mp hrow).1
  rw [List.getElem?_take] at hsome
  split at hsome
  · assumption
  · cases hsome

theorem handles_firstRows : (t.firstRows m).handles = t.handles.take m := by
  refine List.ext_getElem? fun i => ?_
  rw [handles, handles, firstRows, List.getElem?_map, List.getElem?_zipIdx, List.getElem?_take,
    List.getElem?_take, List.getElem?_map, List.getElem?_zipIdx]
  split <;> rfl

theorem stream_firstRows (name : String) :
    (t.firstRows m).stream name = (t.stream name).upTo m := by
  rw [stream, stream, handles_firstRows]
  generalize t.handles = handles
  induction handles generalizing m with
  | nil => rw [List.take_nil, List.foldr_nil, Stream.upTo_done]
  | cons h handles ih =>
      rw [List.foldr_cons]
      cases m with
      | zero => rw [List.take_zero, Stream.upTo_zero_pull _ rfl, List.foldr_nil]
      | succ m =>
          rw [List.take_succ_cons, List.foldr_cons, Stream.upTo_succ_pull _ rfl, Stream.upTo_item,
            ih]

theorem pulls_stream (name : String) : (t.stream name).pulls = t.rows.length := by
  have hlength : t.handles.length = t.rows.length := by
    rw [handles, List.length_map, List.length_zipIdx]
  rw [stream, ← hlength]
  generalize t.handles = handles
  induction handles with
  | nil => rfl
  | cons h handles ih =>
      rw [List.foldr_cons, Stream.pulls_effect, Stream.pulls_item, ih]
      rfl

end Table

/-! ## Stages on rows -/

namespace RowStage

/-- Items that a stage lets through at most, if that is bounded. -/
def limit? : RowStage → Option Nat
  | .take n => some n
  | _ => none

variable {t : Table} {m : Nat} {s : Stream RowHandle}

theorem lazyStage (t : Table) (stage : RowStage) : LazyStage (run t · stage) stage.limit? := by
  cases stage with
  | filter p =>
      have htest : ∀ h, (Traced.ofResult (p.eval t h)).pulls = 0 := fun _ => rfl
      exact .unlimited (fun s m => s.upTo_filter htest m) fun s => s.pulls_filter htest
  | skip n => exact .unlimited (fun s m => s.upTo_skip n m) fun s => s.pulls_skip n
  | take n => exact .limited n

theorem mem_items_run {stage : RowStage} {h : RowHandle} (hh : .ok h ∈ (run t s stage).items) :
    .ok h ∈ s.items := by
  cases stage with
  | filter p =>
      rw [run, Stream.items_filter] at hh
      exact Stream.mem_of_mem_filterItems hh
  | skip n =>
      rw [run, Stream.items_skip] at hh
      exact Stream.mem_of_mem_skipItems hh
  | take n =>
      rw [run, Stream.items_take] at hh
      exact List.mem_of_mem_take hh

section

variable (hs : ∀ h, .ok h ∈ s.items → h.position < m)

include hs

/-- A stage over kept rows does not miss the others. -/
theorem run_firstRows (stage : RowStage) : run (t.firstRows m) s stage = run t s stage := by
  cases stage with
  | filter p =>
      refine Stream.filter_congr fun h hh => ?_
      exact congrArg _ (p.test.eval_congr (fun _ _ => rfl) fun l _ =>
        Table.sameField_firstRows (hs h hh) l.1)
  | skip n | take n => rfl

theorem foldl_firstRows (stages : List RowStage) :
    stages.foldl (run (t.firstRows m)) s = stages.foldl (run t) s ∧
      ∀ h, .ok h ∈ (stages.foldl (run t) s).items → h.position < m := by
  induction stages generalizing s with
  | nil => exact ⟨rfl, hs⟩
  | cons stage stages ih =>
      rw [List.foldl_cons, List.foldl_cons, run_firstRows hs]
      exact ih fun h hh => hs h (mem_items_run hh)

theorem anyFull_firstRows (stages : List RowStage) :
    AnyFull (run (t.firstRows m)) limit? s stages ↔ AnyFull (run t) limit? s stages := by
  induction stages generalizing s with
  | nil => exact Iff.rfl
  | cons stage stages ih =>
      rw [AnyFull, AnyFull, run_firstRows hs, ih fun h hh => hs h (mem_items_run hh)]

end

end RowStage

/-! ## Stages in memory -/

namespace MemoryStage

def limit? : MemoryStage → Option Nat
  | .take n => some n
  | _ => none

def isPaged : MemoryStage → Bool
  | .selectBatched .. | .including .. => true
  | _ => false

theorem lazyStage (db : Database) {stage : MemoryStage} (h : stage.isPaged = false) :
    LazyStage (run db · stage) stage.limit? := by
  cases stage with
  | filter predicate =>
      have htest : ∀ v, (predicate.test db.source v).pulls = 0 := predicate.test_silent _
      exact .unlimited (fun s m => s.upTo_filter htest m) fun s => s.pulls_filter htest
  | select projection =>
      have happly : ∀ v, (projection.apply db.source v).pulls = 0 := projection.apply_silent _
      exact .unlimited (fun s m => s.upTo_map happly m) fun s => s.pulls_map happly
  | skip n => exact .unlimited (fun s m => s.upTo_skip n m) fun s => s.pulls_skip n
  | take n => exact .limited n
  | selectBatched projection size | including plan size => cases h

end MemoryStage

/-! ## Plans -/

/-- A stream is pulled lazily from a number of rows, where `cut m` is the stream over only the
first `m` rows and `Full m` says that a take is reached over these. -/
structure Stream.PulledLazily (s : Stream α) (cut : Nat → Stream α) (Full : Nat → Prop)
    (rows : Nat) : Prop where
  /-- The rows pulled for the first `k` items are the fewest that yield `k` items. -/
  items : ∀ k ≤ s.items.length, IsLeast {m | k ≤ (cut m).items.length} (s.take k).pulls
  /-- The end is found at the first take that is reached, or else behind the last row. -/
  stop : IsLeast {m | Full m} s.pulls ∨ (∀ m, ¬ Full m) ∧ s.pulls = rows

theorem Stops.pulledLazily {s : Stream α} {cut : Nat → Stream α} {Full : Nat → Prop} {rows : Nat}
    (h : Stops s Full rows) (hcut : ∀ m, cut m = s.upTo m) : s.PulledLazily cut Full rows where
  items k hk := by
    simp only [hcut]
    exact s.isLeast_pulls_take hk
  stop := h.isLeast

namespace Plan

def firstRows (p : Plan) (m : Nat) : Plan :=
  { p with table := p.table.firstRows m }

/-- A take among the stages on rows lets through all that it may. -/
def RowTakeFull (p : Plan) : Prop :=
  AnyFull (RowStage.run p.table) RowStage.limit? (p.table.stream p.entity.table) p.rowStages

def values (p : Plan) (db : Database) (stages : List MemoryStage) : Stream Value :=
  stages.foldl (MemoryStage.run db) (p.rowValues db)

/-- A take, on rows or in memory, lets through all that it may. -/
def TakeFull (p : Plan) (db : Database) (stages : List MemoryStage) : Prop :=
  p.RowTakeFull ∨ AnyFull (MemoryStage.run db) MemoryStage.limit? (p.rowValues db) stages

variable (p : Plan) (m : Nat) (db : Database)

theorem position_lt_of_mem_stream (h : RowHandle)
    (hh : .ok h ∈ (((p.table.stream p.entity.table).upTo m).items)) : h.position < m := by
  rw [← Table.stream_firstRows, items_stream] at hh
  obtain ⟨h', hh', heq⟩ := List.mem_map.mp hh
  exact Except.ok.inj heq ▸ Table.position_lt_of_mem_handles hh'

theorem rows_firstRows : (p.firstRows m).rows = p.rows.upTo m := by
  have hkept := RowStage.foldl_firstRows (t := p.table) (p.position_lt_of_mem_stream m) p.rowStages
  rw [rows, rows, firstRows, Table.stream_firstRows, hkept.1,
    LazyStage.upTo_foldl fun stage _ => RowStage.lazyStage p.table stage]

theorem position_lt_of_mem_rows (h : RowHandle) (hh : .ok h ∈ (p.rows.upTo m).items) :
    h.position < m := by
  rw [rows, LazyStage.upTo_foldl fun stage _ => RowStage.lazyStage p.table stage] at hh
  exact (RowStage.foldl_firstRows (p.position_lt_of_mem_stream m) p.rowStages).2 h hh

theorem materialize_silent (e : EntityType) (factory : EntityFactory) (t : Table) (h : RowHandle) :
    (do return (← e.materialize factory t h).toValue : Traced Value).pulls = 0 :=
  Traced.pulls_bind_eq_zero rfl fun _ => rfl

theorem rowValues_firstRows : (p.firstRows m).rowValues db = (p.rowValues db).upTo m := by
  have hkept : ∀ h, .ok h ∈ (p.rows.upTo m).items → ∀ f,
      SameField (p.table.firstRows m) p.table h h f :=
    fun h hh => Table.sameField_firstRows (p.position_lt_of_mem_rows m h hh)
  rw [rowValues, rowValues, rows_firstRows]
  cases hp : p.projector with
  | some projector =>
      have hprojector : (p.firstRows m).projector = some projector := hp
      rw [hprojector]
      dsimp only
      rw [Stream.upTo_map _ fun _ => rfl]
      refine Stream.map_congr fun h hh => congrArg _ ?_
      exact projector.read.eval_congr (fun _ _ => rfl) fun l _ => hkept h hh l.1
  | none =>
      have hprojector : (p.firstRows m).projector = none := hp
      rw [hprojector]
      dsimp only
      rw [Stream.upTo_map _ fun _ => materialize_silent ..]
      refine Stream.map_congr fun h hh => ?_
      rw [show (p.firstRows m).entity.materialize db.factory (p.firstRows m).table h =
        p.entity.materialize db.factory p.table h from
          p.entity.materialize_congr (hkept h hh) db.factory]

theorem pulls_rowValues : (p.rowValues db).pulls = p.rows.pulls := by
  rw [rowValues]
  cases p.projector with
  | some projector => exact Stream.pulls_map _ fun _ => rfl
  | none => exact Stream.pulls_map _ fun _ => materialize_silent ..

theorem stops_rows :
    Stops p.rows (fun m => (p.firstRows m).RowTakeFull) p.table.rows.length := by
  have hstream : Stops (p.table.stream p.entity.table) (fun _ => False) p.table.rows.length :=
    .inr ⟨fun _ => id, Table.pulls_stream _⟩
  refine (hstream.foldl fun stage _ => RowStage.lazyStage p.table stage).congr fun m => ?_
  rw [false_or, ← RowStage.anyFull_firstRows (p.position_lt_of_mem_stream m),
    ← Table.stream_firstRows]
  rfl

variable {db} {stages : List MemoryStage} (hstages : ∀ stage ∈ stages, stage.isPaged = false)

include hstages

theorem values_firstRows : (p.firstRows m).values db stages = (p.values db stages).upTo m := by
  rw [values, values, rowValues_firstRows,
    LazyStage.upTo_foldl fun stage h => MemoryStage.lazyStage db (hstages stage h)]

theorem stops_values :
    Stops (p.values db stages) (fun m => (p.firstRows m).TakeFull db stages)
      p.table.rows.length := by
  have hrowValues : Stops (p.rowValues db) (fun m => (p.firstRows m).RowTakeFull)
      p.table.rows.length := by
    rw [Stops, pulls_rowValues]
    exact p.stops_rows
  refine (hrowValues.foldl fun stage h => MemoryStage.lazyStage db (hstages stage h)).congr ?_
  intro m
  rw [TakeFull, rowValues_firstRows]

end Plan

/-! ## Reducers -/

/-- Number of the item that decides a reducer on rows, if there are so many. -/
def RowReducer.reach (t : Table) (items : List (Except Error RowHandle)) : RowReducer → Nat
  | .any none => 1
  | .any (some p) => verdictAt true (p.eval t) items + 1
  | .all p => verdictAt false (p.eval t) items + 1
  | .count => items.findIdx (fun r => !r.isOk) + 1

def Reducer.reach (db : Database) (items : List (Except Error Value)) (r : Reducer) : Nat :=
  match r.kind, r.predicate with
  | .first, _ | .firstOrDefault, _ | .any, none => 1
  | .single, _ | .singleOrDefault, _ => min 2 (items.findIdx (fun r => !r.isOk) + 1)
  | .any, some p => verdictAt true (fun v => (p.test db.source v).result) items + 1
  | .all, some p => verdictAt false (fun v => (p.test db.source v).result) items + 1
  | .all, none => 0
  | .count, _ => items.findIdx (fun r => !r.isOk) + 1

theorem RowReducer.pulls_run (t : Table) (s : Stream RowHandle) (r : RowReducer) :
    (r.run t s).pulls = (s.take (r.reach t s.items)).pulls := by
  cases r with
  | count => exact (Traced.pulls_bind_silent fun _ => rfl).trans s.pulls_count
  | any p =>
      cases p with
      | none => exact (Traced.pulls_bind_silent fun _ => rfl).trans s.pulls_next
      | some p => exact (Traced.pulls_bind_silent fun _ => rfl).trans (s.pulls_any fun _ => rfl)
  | all p => exact (Traced.pulls_bind_silent fun _ => rfl).trans (s.pulls_all fun _ => rfl)

/-- A reducer pulls no row past the item that decides it. -/
theorem Reducer.pulls_run (db : Database) (s : Stream Value) (r : Reducer) :
    (r.run db s).pulls = (s.take (r.reach db s.items)).pulls := by
  have hfirst : ∀ f : Option (Value × Stream Value) → Traced Value, (∀ x, (f x).pulls = 0) →
      (s.next >>= f).pulls = (s.take 1).pulls :=
    fun f hf => (Traced.pulls_bind_silent hf).trans s.pulls_next
  have hsingle : ∀ (rest : Stream Value) (f : Option (Value × Stream Value) → Traced Value),
      (∀ x, (f x).pulls = 0) → (rest.next >>= f).pulls = rest.next.pulls :=
    fun rest f hf => Traced.pulls_bind_silent hf
  obtain ⟨kind, predicate⟩ := r
  cases kind with
  | first | firstOrDefault =>
      refine hfirst _ fun x => ?_
      cases x <;> rfl
  | single | singleOrDefault =>
      refine s.pulls_next_twice rfl fun v rest => hsingle rest _ fun other => ?_
      cases other <;> rfl
  | count => exact (Traced.pulls_bind_silent fun _ => rfl).trans s.pulls_count
  | any =>
      cases predicate with
      | none => exact hfirst _ fun _ => rfl
      | some p =>
          exact (Traced.pulls_bind_silent fun _ => rfl).trans (s.pulls_any (p.test_silent _))
  | all =>
      cases predicate with
      | none =>
          have hnone : s.take 0 = .done := by rw [Stream.take]
          exact congrArg Stream.pulls hnone.symm
      | some p =>
          exact (Traced.pulls_bind_silent fun _ => rfl).trans (s.pulls_all (p.test_silent _))

/-! ## Runs -/

/-- A plan without pages is lazy down to the row: both the rows that it lets through and the values
behind its stages in memory are pulled lazily, a sequence pulls nothing before its first value is
asked for, and a reducer pulls what is pulled for the item that decides it. -/
theorem Engine.run_pulls_lazily (e : Engine) (p : Plan) (stages : List MemoryStage)
    (hstages : e.memoryStages p.reducer (some p.entity) [] p.memoryOps = .ok stages)
    (hunpaged : ∀ stage ∈ stages, stage.isPaged = false) :
    p.rows.PulledLazily (fun m => (p.firstRows m).rows) (fun m => (p.firstRows m).RowTakeFull)
        p.table.rows.length ∧
      (p.values e.db stages).PulledLazily (fun m => (p.firstRows m).values e.db stages)
        (fun m => (p.firstRows m).TakeFull e.db stages) p.table.rows.length ∧
      match p.rowReducer, p.reducer with
      | some r, _ => (e.run p).pulls = (p.rows.take (r.reach p.table p.rows.items)).pulls
      | none, some r =>
        (e.run p).pulls =
          ((p.values e.db stages).take (r.reach e.db (p.values e.db stages).items)).pulls
      | none, none =>
        e.run p = pure (.rows p.strategy (p.values e.db stages)) ∧
          ∀ m, e.run (p.firstRows m) =
            pure (.rows p.strategy ((p.firstRows m).values e.db stages)) := by
  refine ⟨p.stops_rows.pulledLazily fun m => p.rows_firstRows m,
    (p.stops_values hunpaged).pulledLazily fun m => p.values_firstRows m hunpaged, ?_⟩
  cases hrowReducer : p.rowReducer with
  | some r =>
      rw [run, hrowReducer]
      exact (Traced.pulls_bind_silent fun _ => rfl).trans (r.pulls_run p.table p.rows)
  | none =>
      cases hreducer : p.reducer with
      | some r =>
          rw [run, hrowReducer, hstages, hreducer]
          exact (Traced.pulls_bind_of_ok rfl).trans <| (Nat.zero_add _).trans <|
            (Traced.pulls_bind_silent fun _ => rfl).trans (r.pulls_run e.db _)
      | none =>
          rw [hreducer] at hstages
          have hrun : ∀ p : Plan, p.rowReducer = none → p.reducer = none →
              e.memoryStages none (some p.entity) [] p.memoryOps = .ok stages →
              e.run p = pure (.rows p.strategy (p.values e.db stages)) := by
            intro p hrowReducer hreducer hstages
            rw [run, hrowReducer, hreducer, hstages]
            rfl
          exact ⟨hrun p hrowReducer hreducer hstages,
            fun m => hrun (p.firstRows m) hrowReducer hreducer hstages⟩

/-- The first of the staff whose id is one. -/
def Staff.first : Plan where
  entity := Staff.entity
  table := Staff.table
  rowStages := [.filter (.ofTest (.compare .equal (.id Staff.idField (.int .i32))
    (.constant (.scalar (.ofInt .i32 1)))))]
  projector := none
  memoryOps := [.take 1]
  reducer := none
  rowReducer := none

/-- Of the two rows of staff only the first is pulled for it. -/
theorem Engine.run_pulls_lazily_for_ann :
    let e : Engine := ⟨Staff.database, {}⟩
    let values (p : Plan) := p.values e.db [.take 1]
    e.run Staff.first = pure (.rows .rowFiltered (values Staff.first)) ∧
      (values Staff.first).pulls = 1 ∧ Staff.table.rows.length = 2 ∧
      IsLeast {m | 1 ≤ (values (Staff.first.firstRows m)).items.length}
        ((values Staff.first).take 1).pulls := by
  obtain ⟨-, hvalues, hrun, -⟩ :=
    run_pulls_lazily ⟨Staff.database, {}⟩ Staff.first [.take 1] rfl (by simp [MemoryStage.isPaged])
  exact ⟨hrun, by rfl, rfl, hvalues.items 1 (by decide)⟩

end ColumnQuery
