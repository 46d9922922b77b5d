import ColumnQuery.Value.Rules

/-! # Comparisons in either order -/

namespace ColumnQuery

open Float.Model

/-! ## Floating point -/

/-- Exchanging two unpacked floats exchanges their order; what is not a number has none. -/
theorem unpacked_compare_swap (a b : UnpackedFloat) :
    b.compare a = (a.compare b).map Ordering.swap := by
  cases a with
  | infinity s =>
      cases b with
      | infinity t => cases s <;> cases t <;> rfl
      | notANumber => rfl
      | zero => cases s <;> rfl
      | finite => cases s <;> rfl
  | notANumber => cases b <;> rfl
  | zero s =>
      cases b with
      | infinity t => cases t <;> rfl
      | notANumber => rfl
      | zero => rfl
      | finite t => cases t <;> rfl
  | finite s m d hm =>
      cases b with
      | infinity t => cases s <;> cases t <;> rfl
      | notANumber => rfl
      | zero t => cases s <;> rfl
      | finite t n e hn =>
          have hexp : Ord.compare e d = (Ord.compare d e).swap := Std.OrientedOrd.eq_swap
          have hman : Ord.compare n m = (Ord.compare m n).swap := Std.OrientedOrd.eq_swap
          have hthen : ∀ o p : Ordering, (o.then p).swap = o.swap.then p.swap := by decide
          cases s <;> cases t <;> first
            | rfl
            | dsimp only [UnpackedFloat.compare]
              simp only [hexp, hman, hthen, Option.map_some]

theorem unpacked_beq_comm (a b : UnpackedFloat) :
    (a.compare b == some .eq) = (b.compare a == some .eq) := by
  rw [unpacked_compare_swap a b]
  cases a.compare b with
  | none => rfl
  | some o => cases o <;> rfl

theorem double_beq_comm (x y : Float) : (x == y) = (y == x) :=
  unpacked_beq_comm x.toModel.unpack y.toModel.unpack

theorem single_beq_comm (x y : Float32) : (x == y) = (y == x) :=
  unpacked_beq_comm x.toModel.unpack y.toModel.unpack

theorem double_lt_iff (x y : Float) :
    x < y ↔ x.toModel.unpack.compare y.toModel.unpack = some .lt := by
  change decide (x.toModel < y.toModel) = true ↔ _
  rw [decide_eq_true_iff]
  change UnpackedFloat.lt x.toModel.unpack y.toModel.unpack = true ↔ _
  simp [UnpackedFloat.lt]

theorem compareDoubles_swap (x y : Float) :
    Scalar.compareDoubles y x = (Scalar.compareDoubles x y).map Ordering.swap := by
  have hxy : (x == y) = (x.toModel.unpack.compare y.toModel.unpack == some .eq) := rfl
  have hyx : (y == x) = (y.toModel.unpack.compare x.toModel.unpack == some .eq) := rfl
  have hs := unpacked_compare_swap x.toModel.unpack y.toModel.unpack
  simp only [Scalar.compareDoubles, double_lt_iff, hxy, hyx, hs]
  cases x.toModel.unpack.compare y.toModel.unpack with
  | none => simp
  | some o => cases o <;> simp

/-! ## Scalars -/

theorem Scalar.compare_swap (s t : Scalar) : t.compare s = (s.compare t).map Ordering.swap := by
  cases s with
  | bool a =>
      cases t with
      | bool b => cases a <;> cases b <;> rfl
      | _ => rfl
  | int j m hm =>
      cases t with
      | bool b => rfl
      | int k n hn => exact congrArg some Std.OrientedOrd.eq_swap
      | _ => exact compareDoubles_swap _ _
  | _ =>
      cases t with
      | bool b => rfl
      | _ => exact compareDoubles_swap _ _

theorem Scalar.same_comm (s t : Scalar) : s.same t = t.same s := by
  cases s <;> cases t <;>
    simp only [Scalar.same, Bool.beq_comm, double_beq_comm, single_beq_comm]

/-! ## Values -/

namespace Value

mutual

theorem same_comm : ∀ a b : Value, a.same b = b.same a
  | .array xs, b => by
      cases b with
      | array ys => exact sameItems_comm xs ys
      | _ => rfl
  | .collection xs, b => by
      cases b with
      | collection ys => exact sameItems_comm xs ys
      | _ => rfl
  | .entity m fs, b => by
      cases b with
      | entity n gs => simp only [same, sameFields_comm fs gs, Bool.beq_comm (a := m)]
      | _ => rfl
  | .record fs, b => by
      cases b with
      | record gs => exact sameFields_comm fs gs
      | _ => rfl
  | .scalar s, b => by
      cases b with
      | scalar t => exact s.same_comm t
      | _ => rfl
  | .string s, b => by
      cases b with
      | string t => simp only [same, Bool.beq_comm (a := s)]
      | _ => rfl
  | .char c, b => by
      cases b with
      | char d => simp only [same, Bool.beq_comm (a := c)]
      | _ => rfl
  | .null, b => by cases b <;> rfl

theorem sameItems_comm : ∀ xs ys : List Value, sameItems xs ys = sameItems ys xs
  | [], [] | [], _ :: _ | _ :: _, [] => rfl
  | x :: xs, y :: ys => by simp only [sameItems, same_comm x y, sameItems_comm xs ys]

theorem sameFields_comm : ∀ fs gs : List (String × Value), sameFields fs gs = sameFields gs fs
  | [], [] | [], _ :: _ | _ :: _, [] => rfl
  | (m, x) :: fs, (n, y) :: gs => by
      simp only [sameFields, same_comm x y, sameFields_comm fs gs, Bool.beq_comm (a := m)]

end

theorem scalar_eq_comm (s t : Scalar) :
    (s.compare t == some .eq) = (t.compare s == some .eq) := by
  rw [s.compare_swap t]
  cases s.compare t with
  | none => rfl
  | some o => cases o <;> rfl

mutual

theorem equal_comm : ∀ a b : Value, a.equal b = b.equal a
  | .array xs, b => by
      cases b with
      | array ys => exact equalItems_comm xs ys
      | _ => rfl
  | .collection xs, b => by
      cases b with
      | collection ys => exact equalItems_comm xs ys
      | _ => rfl
  | .entity m fs, b => by
      cases b with
      | entity n gs => simp only [equal, sameFields_comm fs gs, Bool.beq_comm (a := m)]
      | _ => rfl
  | .record fs, b => by
      cases b with
      | record gs => exact sameFields_comm fs gs
      | _ => rfl
  | .scalar s, b => by
      cases b with
      | scalar t => exact scalar_eq_comm s t
      | _ => rfl
  | .string s, b => by
      cases b with
      | string t => simp only [equal, Bool.beq_comm (a := s)]
      | _ => rfl
  | .char c, b => by
      cases b with
      | char d => simp only [equal, Bool.beq_comm (a := c)]
      | _ => rfl
  | .null, b => by cases b <;> rfl

theorem equalItems_comm : ∀ xs ys : List Value, equalItems xs ys = equalItems ys xs
  | [], [] | [], _ :: _ | _ :: _, [] => rfl
  | x :: xs, y :: ys => by simp only [equalItems, equal_comm x y, equalItems_comm xs ys]

end

theorem order_swap (a b : Value) : b.order a = (a.order b).map Ordering.swap := by
  cases a <;> cases b <;> try rfl
  case scalar.scalar s t => exact s.compare_swap t
  case char.char c d => exact congrArg some Std.OrientedOrd.eq_swap
  case string.string s t => exact congrArg some Std.OrientedOrd.eq_swap

/-- A comparison with exchanged operands and the flipped operator says the same. -/
theorem compare_flip (op : Comparison) (a b : Value) :
    Value.compare op.flip b a = Value.compare op a b := by
  have ho := order_swap a b
  cases op <;> simp only [Value.compare, Comparison.flip, equal_comm b a, ho] <;>
    cases a.order b with
    | none => rfl
    | some o => cases o <;> rfl

end Value

end ColumnQuery
