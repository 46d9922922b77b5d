import ColumnQuery.Json.Decode
import Mathlib.Data.List.TakeWhile
import Mathlib.Data.Option.Basic

/-! # Texts of integers

An integer that is written into a document is read back, if it is in the range of an integer of
sixty-four bits with or without a sign. -/

namespace ColumnQuery.Json

/-- Digits of a natural number, as numbers. -/
def decimal (n : Nat) : List Nat :=
  (Nat.toDigits 10 n).map fun c => c.toNat - '0'.toNat

def intChars (n : Int) : List Char :=
  if n < 0 then '-' :: Nat.toDigits 10 n.natAbs else Nat.toDigits 10 n.natAbs

theorem toList_toString (n : Int) : (toString n).toList = intChars n := by
  cases n with
  | ofNat m =>
      have hm : ¬ (Int.ofNat m < 0) := Int.not_lt.mpr (Int.natCast_nonneg m)
      rw [intChars, if_neg hm]
      change (toString m).toList = Nat.toDigits 10 m
      rw [Nat.toString_eq_ofList_toDigits, String.toList_ofList]
  | negSucc m =>
      rw [intChars, if_pos (Int.negSucc_lt_zero m)]
      change ("-" ++ toString (m + 1)).toList = '-' :: Nat.toDigits 10 (m + 1)
      simp

theorem ofInt_eq (n : Int) : Json.ofInt n = .number (intChars n) := by
  rw [Json.ofInt, toList_toString]

/-! ## Digits -/

theorem isDigit_of_mem {n : Nat} {c : Char} (h : c ∈ Nat.toDigits 10 n) : c.isDigit = true :=
  Nat.isDigit_of_mem_toDigits (by decide) (by decide) h

theorem takeDigits_toDigits (n : Nat) : takeDigits (Nat.toDigits 10 n) = (decimal n, []) := by
  have hall : ∀ c ∈ Nat.toDigits 10 n, c.isDigit = true := fun _ => isDigit_of_mem
  rw [takeDigits, List.takeWhile_eq_self_iff.mpr hall, List.dropWhile_eq_nil_iff.mpr hall]
  rfl

/-- No digits but those of zero begin with a zero. -/
theorem head?_decimal {n : Nat} (h : 0 < n) : (decimal n).head? ≠ some 0 := by
  induction n using Nat.strongRecOn with
  | ind n ih =>
      by_cases hlt : n < 10
      · simp only [decimal, Nat.toDigits_of_lt_base hlt, List.map_cons, List.head?_cons]
        rw [Nat.toNat_digitChar_of_lt_ten hlt]
        simp
        omega
      · have hhead := ih (n / 10) (by omega) (by omega)
        cases hd : decimal (n / 10) with
        | nil => simp [decimal] at hd
        | cons d ds =>
            rw [decimal, Nat.toDigits_of_base_le (by decide) (by omega), List.map_append]
            rw [hd] at hhead
            rw [← decimal, hd]
            exact hhead

theorem foldl_decimal (n : Nat) : (decimal n).foldl (fun m d => m * 10 + d) 0 = n := by
  have hread := @Nat.ofDigitChars_ten_toDigits n
  rw [Nat.ofDigitChars_eq_foldl] at hread
  simpa [decimal, List.foldl_map, Nat.mul_comm] using hread

/-- Digits of a number that fits an unsigned word all go into the significand. -/
theorem extend_eq {s : Nat} {ds : List Nat}
    (h : ds.foldl (fun m d => m * 10 + d) s < wordCount) :
    extend s ds = (ds.foldl (fun m d => m * 10 + d) s, []) := by
  have hle : ∀ (ds : List Nat) (s : Nat), s ≤ ds.foldl (fun m d => m * 10 + d) s := by
    intro ds
    induction ds with
    | nil => exact fun s => Nat.le_refl s
    | cons d ds ih =>
        intro s
        have hs := ih (s * 10 + d)
        rw [List.foldl_cons]
        omega
  induction ds generalizing s with
  | nil => rfl
  | cons d ds ih =>
      rw [List.foldl_cons] at h
      have hfits : s * 10 + d < wordCount := Nat.lt_of_le_of_lt (hle ds _) h
      rw [extend, if_pos hfits, ih h, List.foldl_cons]

theorem extend_decimal {n : Nat} (h : n < wordCount) : extend 0 (decimal n) = (n, []) := by
  have hfold := foldl_decimal n
  rw [extend_eq (by rwa [hfold]), hfold]

/-! ## Written integers -/

theorem ofChars?_intChars (n : Int) :
    WrittenNumber.ofChars? (intChars n) =
      some ⟨decide (n < 0), decimal n.natAbs, [], none⟩ := by
  have hdigits : decimal n.natAbs = [0] ∨
      decimal n.natAbs ≠ [] ∧ (decimal n.natAbs).head? ≠ some 0 := by
    by_cases hz : n.natAbs = 0
    · left
      rw [hz]
      rfl
    · exact .inr ⟨by simp [decimal], head?_decimal (by omega)⟩
  have hguard : (guard (decimal n.natAbs = [0] ∨
      decimal n.natAbs ≠ [] ∧ (decimal n.natAbs).head? ≠ some 0) : Option Unit) = some () :=
    if_pos hdigits
  have htake := takeDigits_toDigits n.natAbs
  unfold WrittenNumber.ofChars?
  by_cases hneg : n < 0
  · rw [intChars, if_pos hneg, decide_eq_true hneg]
    simp only [htake, hguard, Option.bind_eq_bind, Option.bind_some]
  · rw [intChars, if_neg hneg, decide_eq_false hneg]
    -- a digit stands in the place of a sign
    obtain ⟨c, cs, hcs⟩ : ∃ c cs, Nat.toDigits 10 n.natAbs = c :: cs :=
      List.exists_cons_of_ne_nil Nat.toDigits_ne_nil
    have hc : c ≠ '-' := by
      rintro rfl
      have hdigit : ('-').isDigit = true := isDigit_of_mem (n := n.natAbs) (by simp [hcs])
      simp at hdigit
    rw [hcs] at htake ⊢
    simp [htake, hguard, hc]

theorem value?_natural {m : Nat} (h : m < wordCount) :
    (⟨false, decimal m, [], none⟩ : WrittenNumber).value? = some (.natural m) := by
  simp [WrittenNumber.value?, WrittenNumber.isIntegral, extend_decimal h]

theorem value?_negative {m : Nat} (hpos : m ≠ 0) (hle : m ≤ wordCount / 2) :
    (⟨true, decimal m, [], none⟩ : WrittenNumber).value? = some (.negative (-m)) := by
  have h : m < wordCount := Nat.lt_of_le_of_lt hle (by decide)
  simp [WrittenNumber.value?, WrittenNumber.isIntegral, extend_decimal h, hpos,
    Nat.not_lt.mpr hle]

/-- A written integer is read back. -/
theorem asInt?_ofInt {n : Int} (hleast : -9223372036854775808 ≤ n)
    (hgreatest : n < 18446744073709551616) : (Json.ofInt n).asInt? = some n := by
  rw [ofInt_eq, asInt?, asNumber?, ofChars?_intChars, Option.bind_some]
  by_cases hneg : n < 0
  · have hle : n.natAbs ≤ wordCount / 2 := by
      simp only [wordCount]
      omega
    rw [decide_eq_true hneg, value?_negative (by omega) hle]
    change some (-(n.natAbs : Int)) = some n
    rw [Option.some.injEq]
    omega
  · have hlt : n.natAbs < wordCount := by
      simp only [wordCount]
      omega
    rw [decide_eq_false hneg, value?_natural hlt]
    change some (n.natAbs : Int) = some n
    rw [Option.some.injEq]
    omega

/-- An integer of any kind is read back. -/
theorem asInt?_ofInt_of_holds {k : IntKind} {n : Int} (h : k.Holds n) :
    (Json.ofInt n).asInt? = some n := by
  obtain ⟨hleast, hgreatest⟩ := h
  refine asInt?_ofInt ?_ ?_ <;> cases k <;>
    simp [IntKind.least, IntKind.greatest, IntKind.isSigned, IntKind.count] at hleast hgreatest <;>
    omega

end ColumnQuery.Json
