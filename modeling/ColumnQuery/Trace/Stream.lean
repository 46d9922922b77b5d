import ColumnQuery.Trace.Traced

/-! # Streams of items

A stream is what a lazy sequence does when it is pulled to its end: effects and items, in order.
An item is a value or an error, and the stream goes on after an error. To pull `n` items is to cut
the stream behind the `n`-th, so the effects before the cut are exactly those that a consumer has
caused. -/

namespace ColumnQuery

/-- Effects and items in order. -/
inductive Stream (α : Type) where
  | done
  | effect (e : Effect) (rest : Stream α)
  | item (r : Except Error α) (rest : Stream α)

namespace Stream

variable {α β : Type}

def after : List Effect → Stream α → Stream α
  | [], s => s
  | e :: es, s => .effect e (after es s)

def ofList : List α → Stream α
  | [] => .done
  | a :: rest => .item (.ok a) (ofList rest)

def append : Stream α → Stream α → Stream α
  | .done, t => t
  | .effect e rest, t => .effect e (append rest t)
  | .item r rest, t => .item r (append rest t)

instance : Append (Stream α) := ⟨append⟩

/-- Items of a stream, errors among them. -/
def items : Stream α → List (Except Error α)
  | .done => []
  | .effect _ rest => items rest
  | .item r rest => r :: items rest

def effects : Stream α → List Effect
  | .done => []
  | .effect e rest => e :: effects rest
  | .item _ rest => effects rest

/-- Keeps the items that pass a test. An error stays, and so does the error of a test. -/
def filter (test : α → Traced Bool) : Stream α → Stream α
  | .done => .done
  | .effect e rest => .effect e (filter test rest)
  | .item (.error e) rest => .item (.error e) (filter test rest)
  | .item (.ok a) rest =>
    let t := test a
    after t.effects <|
      match t.result with
      | .ok true => .item (.ok a) (filter test rest)
      | .ok false => filter test rest
      | .error e => .item (.error e) (filter test rest)

def map (f : α → Traced β) : Stream α → Stream β
  | .done => .done
  | .effect e rest => .effect e (map f rest)
  | .item (.error e) rest => .item (.error e) (map f rest)
  | .item (.ok a) rest =>
    let t := f a
    after t.effects (.item t.result (map f rest))

/-- Leaves out the first values; errors among them stay. -/
def skip : Nat → Stream α → Stream α
  | 0, s => s
  | _ + 1, .done => .done
  | n + 1, .effect e rest => .effect e (skip (n + 1) rest)
  | n + 1, .item (.error e) rest => .item (.error e) (skip (n + 1) rest)
  | n + 1, .item (.ok _) rest => skip n rest

/-- Ends the stream behind its `n`-th item. -/
def take : Nat → Stream α → Stream α
  | 0, _ => .done
  | _ + 1, .done => .done
  | n + 1, .effect e rest => .effect e (take (n + 1) rest)
  | n + 1, .item r rest => .item r (take n rest)

/-- What a processed page yields; a page without values is not processed. -/
def ofPage (process : List α → Traced (List β)) (page : List α) : Stream β :=
  if page.isEmpty then .done
  else
    let t := process page
    after t.effects <|
      match t.result with
      | .ok values => ofList values
      | .error e => .item (.error e) .done

/-- Buffers values and processes them page by page, after those on the page already. A page is full
at `size` values, and at one if `size` is zero. The first error ends the stream, behind the values
before it; so does the failure of a page. -/
def pagedFrom (size : Nat) (process : List α → Traced (List β)) (page : List α) :
    Stream α → Stream β
  | .done => ofPage process page
  | .effect e rest => .effect e (pagedFrom size process page rest)
  | .item (.error e) _ => ofPage process page ++ .item (.error e) .done
  | .item (.ok a) rest =>
    let page := page ++ [a]
    if page.length < size then pagedFrom size process page rest
    else
      let t := process page
      after t.effects <|
        match t.result with
        | .ok values => ofList values ++ pagedFrom size process [] rest
        | .error e => .item (.error e) .done

/-- Processes the values of a stream in pages. -/
def paged (size : Nat) (process : List α → Traced (List β)) (s : Stream α) : Stream β :=
  s.pagedFrom size process []

/-- The first value and the stream behind it, or nothing at the end. -/
def next : Stream α → Traced (Option (α × Stream α))
  | .done => pure none
  | .effect e rest => do
    .emit e
    rest.next
  | .item r rest => .ofResult (r.map fun a => some (a, rest))

/-- All values, up to the first error. -/
def values : Stream α → Traced (List α)
  | .done => pure []
  | .effect e rest => do
    .emit e
    rest.values
  | .item r rest => do
    let a ← .ofResult r
    return a :: (← rest.values)

/-- Number of values, up to the first error. -/
def count : Stream α → Traced Nat
  | .done => pure 0
  | .effect e rest => do
    .emit e
    rest.count
  | .item r rest => do
    let _ ← .ofResult r
    return (← rest.count) + 1

/-- Whether a value passes a test; nothing behind it is pulled. -/
def any (test : α → Traced Bool) : Stream α → Traced Bool
  | .done => pure false
  | .effect e rest => do
    .emit e
    rest.any test
  | .item r rest => do
    let a ← .ofResult r
    if ← test a then return true else rest.any test

/-- Whether every value passes a test; nothing behind one that fails is pulled. -/
def all (test : α → Traced Bool) : Stream α → Traced Bool
  | .done => pure true
  | .effect e rest => do
    .emit e
    rest.all test
  | .item r rest => do
    let a ← .ofResult r
    if ← test a then rest.all test else return false

end Stream

end ColumnQuery
