import ColumnQuery.Error
import ColumnQuery.Text.Match

/-! # Traced computations

A computation that may fail and that leaves a record of what it did besides. The record never
influences the result: `Traced.result_bind` says that results compose as if it were absent. -/

namespace ColumnQuery

/-- What a run does besides computing values. -/
inductive Effect where
  /-- Takes one row from the row sequence of a table. -/
  | pull (table : String)
  /-- Makes one entity. -/
  | create
  /-- Looks a needle up in the string index of a table. -/
  | lookup (table : String) (kind : MatchKind) (needle : List UInt8)
  /-- Asks for a navigation of an entity that is not loaded. -/
  | request (entity : Entity) (navigation : String)

/-- A result and the effects on the way to it, in order. -/
structure Traced (α : Type) where
  effects : List Effect
  result : Except Error α

namespace Traced

variable {α β : Type}

def ofResult (r : Except Error α) : Traced α :=
  ⟨[], r⟩

def fail (e : Error) : Traced α :=
  ⟨[], .error e⟩

def emit (e : Effect) : Traced Unit :=
  ⟨[e], .ok ()⟩

def emitAll (es : List Effect) : Traced Unit :=
  ⟨es, .ok ()⟩

protected def bind (t : Traced α) (f : α → Traced β) : Traced β :=
  match t.result with
  | .ok a =>
    let u := f a
    ⟨t.effects ++ u.effects, u.result⟩
  | .error e => ⟨t.effects, .error e⟩

instance : Monad Traced where
  pure a := ⟨[], .ok a⟩
  bind := Traced.bind

@[simp] theorem result_pure (a : α) : (pure a : Traced α).result = .ok a := rfl

@[simp] theorem effects_pure (a : α) : (pure a : Traced α).effects = [] := rfl

@[simp] theorem result_ofResult (r : Except Error α) : (ofResult r).result = r := rfl

@[simp] theorem result_fail (e : Error) : (fail e : Traced α).result = .error e := rfl

theorem result_bind (t : Traced α) (f : α → Traced β) :
    (t >>= f).result = t.result >>= fun a => (f a).result := by
  change (Traced.bind t f).result = _
  unfold Traced.bind
  cases t.result <;> rfl

theorem effects_bind (t : Traced α) (f : α → Traced β) :
    (t >>= f).effects =
      t.effects ++ match t.result with
        | .ok a => (f a).effects
        | .error _ => [] := by
  change (Traced.bind t f).effects = _
  unfold Traced.bind
  cases t.result <;> simp

end Traced

end ColumnQuery
