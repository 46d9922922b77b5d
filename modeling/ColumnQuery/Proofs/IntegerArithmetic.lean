import ColumnQuery.Value.Rules
import Mathlib.Data.Int.ModEq

/-! # Integer arithmetic

Two integers are computed in wide words, cut to sixty-four bits and converted to the promoted kind.
Each of the cuts is a reduction modulo a power of two that divides the one before, so that together
they are one reduction of the exact result into the promoted kind, whatever overflows on the way. -/

namespace ColumnQuery

/-! ## Exact results -/

/-- The division of `m` by `n` that truncates toward zero: the remainder is smaller than the divisor
and has the sign of the dividend. -/
structure TruncatedDivision (m n quotient remainder : Int) : Prop where
  split : m = n * quotient + remainder
  small : remainder.natAbs < n.natAbs
  sign : 0 ≤ remainder * m

theorem truncatedDivision {m n : Int} (hn : n ≠ 0) :
    TruncatedDivision m n (m.tdiv n) (m.tmod n) where
  split := (Int.mul_tdiv_add_tmod m n).symm
  small := by
    rw [Int.natAbs_tmod]
    exact Nat.mod_lt m.natAbs (Int.natAbs_pos.mpr hn)
  sign := by
    rcases Int.le_total 0 m with hm | hm
    · exact Int.mul_nonneg (Int.tmod_nonneg n hm) hm
    · have hneg : 0 ≤ (-m).tmod n := Int.tmod_nonneg n (Int.neg_nonneg_of_nonpos hm)
      rw [Int.neg_tmod] at hneg
      exact Int.mul_nonneg_of_nonpos_of_nonpos (by omega) hm

namespace Arithmetic

/-- Whether the operation is a division or its remainder. -/
def divides : Arithmetic → Bool
  | .divide | .modulo => true
  | _ => false

/-- The result of an operation on integers without bounds. -/
inductive Yields : Arithmetic → Int → Int → Int → Prop where
  | add (m n : Int) : Yields .add m n (m + n)
  | subtract (m n : Int) : Yields .subtract m n (m - n)
  | multiply (m n : Int) : Yields .multiply m n (m * n)
  | divide {m n quotient remainder : Int} (h : TruncatedDivision m n quotient remainder) :
    Yields .divide m n quotient
  | modulo {m n quotient remainder : Int} (h : TruncatedDivision m n quotient remainder) :
    Yields .modulo m n remainder

/-- Only a division by zero fails. -/
theorem integer_of_zero {op : Arithmetic} (hop : op.divides = true) (m : Int) :
    op.integer m 0 = .error .divisionByZero := by
  cases op with
  | divide => rfl
  | modulo => rfl
  | _ => cases hop

/-- Any other operation yields the exact result, reduced into a wide word. -/
theorem exists_integer_of_not_zero {op : Arithmetic} {m n : Int}
    (h : ¬(op.divides = true ∧ n = 0)) :
    ∃ exact, op.Yields m n exact ∧ op.integer m n = .ok (wideWrap exact) := by
  cases op with
  | add => exact ⟨_, .add m n, rfl⟩
  | subtract => exact ⟨_, .subtract m n, rfl⟩
  | multiply => exact ⟨_, .multiply m n, rfl⟩
  | divide =>
      have hn : n ≠ 0 := fun hn => h ⟨rfl, hn⟩
      exact ⟨_, .divide (truncatedDivision hn), if_neg hn⟩
  | modulo =>
      have hn : n ≠ 0 := fun hn => h ⟨rfl, hn⟩
      exact ⟨_, .modulo (truncatedDivision hn), if_neg hn⟩

end Arithmetic

/-! ## Reductions -/

theorem wideWrap_modEq (n : Int) : wideWrap n ≡ n [ZMOD wideCount] := by
  simp only [Int.ModEq, wideWrap, wideCount]
  omega

namespace IntKind

theorem promote_comm (j k : IntKind) : j.promote k = k.promote j := by
  cases j <;> cases k <;> rfl

theorem count_eq (k : IntKind) : k.count = 2 ^ k.bits := by
  cases k <;> rfl

theorem count_dvd_i64 (k : IntKind) : k.count ∣ IntKind.i64.count := by
  cases k <;> decide

theorem i64_count_dvd_wide : IntKind.i64.count ∣ wideCount := by
  decide

theorem wrap_modEq (k : IntKind) (n : Int) : k.wrap n ≡ n [ZMOD k.count] :=
  (k.wrap_eq_wrap_iff (k.wrap n) n).mp (wrap_eq_self (k.wrap_holds n))

/-- Reducing into a wide word and then to sixty-four bits before a kind changes nothing modulo the
kind, since each number of values divides the one before. -/
theorem wrap_cut_modEq (k : IntKind) (n : Int) :
    k.wrap (IntKind.wrap .i64 (wideWrap n)) ≡ n [ZMOD k.count] :=
  calc
    k.wrap (IntKind.wrap .i64 (wideWrap n))
      ≡ IntKind.wrap .i64 (wideWrap n) [ZMOD k.count] := k.wrap_modEq _
    _ ≡ wideWrap n [ZMOD k.count] := (IntKind.wrap_modEq .i64 _).of_dvd k.count_dvd_i64
    _ ≡ n [ZMOD k.count] :=
      (wideWrap_modEq n).of_dvd (k.count_dvd_i64.trans i64_count_dvd_wide)

end IntKind

/-! ## Arithmetic of integers -/

namespace Value

/-- Arithmetic of two integers, of any kinds, has the promoted kind in either order of the kinds and
is the exact result modulo the width of that kind, in its range. It fails exactly if a division or
its remainder has the divisor zero. -/
theorem integer_arithmetic_exact (op : Arithmetic) {j k : IntKind} {m n : Int} (hm : j.Holds m)
    (hn : k.Holds n) :
    j.promote k = k.promote j ∧
    (∀ error, Value.arithmetic op (.scalar (.int j m hm)) (.scalar (.int k n hn)) = .error error ↔
      error = .divisionByZero ∧ op.divides = true ∧ n = 0) ∧
    (¬(op.divides = true ∧ n = 0) → ∃ exact r, ∃ hr : (j.promote k).Holds r,
      Value.arithmetic op (.scalar (.int j m hm)) (.scalar (.int k n hn)) =
        .ok (.scalar (.int (j.promote k) r hr)) ∧
      op.Yields m n exact ∧ r ≡ exact [ZMOD 2 ^ (j.promote k).bits]) := by
  have harithmetic : Value.arithmetic op (.scalar (.int j m hm)) (.scalar (.int k n hn)) =
      (op.integer m n).map fun r =>
        .scalar (.ofInt (j.promote k) (IntKind.wrap .i64 r)) := by
    cases op <;> cases hresult : Arithmetic.integer _ m n <;>
      simp [Value.arithmetic, Scalar.arithmetic, hresult, Except.map]
  have hdone : ¬(op.divides = true ∧ n = 0) → ∃ exact r, ∃ hr : (j.promote k).Holds r,
      Value.arithmetic op (.scalar (.int j m hm)) (.scalar (.int k n hn)) =
        .ok (.scalar (.int (j.promote k) r hr)) ∧
      op.Yields m n exact ∧ r ≡ exact [ZMOD 2 ^ (j.promote k).bits] := by
    intro h
    obtain ⟨exact, hyields, hresult⟩ := Arithmetic.exists_integer_of_not_zero h
    have hmod := (j.promote k).wrap_cut_modEq exact
    rw [IntKind.count_eq] at hmod
    exact ⟨exact, _, IntKind.wrap_holds _ _, by rw [harithmetic, hresult]; rfl, hyields, hmod⟩
  refine ⟨j.promote_comm k, fun error => ⟨fun herror => ?_, ?_⟩, hdone⟩
  · by_cases h : op.divides = true ∧ n = 0
    · obtain ⟨hop, rfl⟩ := h
      rw [harithmetic, Arithmetic.integer_of_zero hop] at herror
      exact ⟨(Except.error.inj herror).symm, hop, rfl⟩
    · obtain ⟨_, _, _, hok, -⟩ := hdone h
      rw [hok] at herror
      cases herror
  · rintro ⟨rfl, hop, rfl⟩
    rw [harithmetic, Arithmetic.integer_of_zero hop]
    rfl

/-- The product of the greatest 64-bit words, which is past the wide words, is one; and the least
signed word divided by minus one is itself. -/
theorem integer_arithmetic_exact_past_ends :
    (∃ h, Value.arithmetic .multiply (.scalar (.int .u64 18446744073709551615 (by decide)))
      (.scalar (.int .u64 18446744073709551615 (by decide))) = .ok (.scalar (.int .u64 1 h))) ∧
    ∃ h, Value.arithmetic .divide (.scalar (.int .i64 (-9223372036854775808) (by decide)))
      (.scalar (.int .i64 (-1) (by decide))) =
        .ok (.scalar (.int .i64 (-9223372036854775808) h)) := by
  have hgreatest : IntKind.Holds .u64 18446744073709551615 := by decide
  have hleast : IntKind.Holds .i64 (-9223372036854775808) := by decide
  have hminus : IntKind.Holds .i64 (-1) := by decide
  constructor
  · obtain ⟨exact, r, hr, hresult, hyields, hmod⟩ :=
      (integer_arithmetic_exact .multiply hgreatest hgreatest).2.2 (by decide)
    have hrange : 0 ≤ r ∧ r ≤ 18446744073709551615 := hr
    obtain rfl : r = 1 := by
      cases hyields
      simp only [IntKind.promote, IntKind.bits, Int.ModEq] at hmod
      omega
    exact ⟨hr, hresult⟩
  · obtain ⟨exact, r, hr, hresult, hyields, hmod⟩ :=
      (integer_arithmetic_exact .divide hleast hminus).2.2 (by decide)
    have hrange : -9223372036854775808 ≤ r ∧ r ≤ 9223372036854775807 := hr
    obtain rfl : r = -9223372036854775808 := by
      cases hyields with
      | divide h =>
          have hsplit := h.split
          have hsmall := h.small
          simp only [IntKind.promote, IntKind.bits, Int.ModEq] at hmod
          omega
    exact ⟨hr, hresult⟩

end Value

end ColumnQuery
