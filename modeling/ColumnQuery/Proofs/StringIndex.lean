import ColumnQuery.StringIndex.Offsets

/-! # Exactness of the string index

A region is a sequence of strings that zero bytes end. `mem_findOffsets_iff` says that the offsets
found for a needle are exactly the starts of the strings that match it. -/

namespace ColumnQuery

/-- Whether a string starts at an offset: at the beginning of the region or behind a zero byte. -/
def StartsString (bytes : List UInt8) (offset : Nat) : Prop :=
  offset = 0 ∨ ∃ before rest, bytes = before ++ 0 :: rest ∧ offset = before.length + 1

/-- Bytes of the string that starts at an offset. -/
def stringBytes (bytes : List UInt8) (offset : Nat) : List UInt8 :=
  (bytes.drop offset).takeWhile (· ≠ 0)

/-! ## Regions cut at the first zero byte -/

/-- What follows the first string of a region: nothing, or a zero byte and the other strings. -/
inductive Tail : List UInt8 → Prop where
  | done : Tail []
  | zero (rest : List UInt8) : Tail (0 :: rest)

theorem exists_segment (bytes : List UInt8) :
    ∃ segment tail, bytes = segment ++ tail ∧ 0 ∉ segment ∧ Tail tail := by
  induction bytes with
  | nil => exact ⟨[], [], rfl, by simp, .done⟩
  | cons b bytes ih =>
      by_cases hb : b = 0
      · subst hb
        exact ⟨[], 0 :: bytes, rfl, by simp, .zero bytes⟩
      · obtain ⟨segment, tail, rfl, hz, ht⟩ := ih
        exact ⟨b :: segment, tail, rfl, by simp [Ne.symm hb, hz], ht⟩

theorem takeWhile_segment {segment tail : List UInt8} (hz : 0 ∉ segment) (ht : Tail tail) :
    (segment ++ tail).takeWhile (· ≠ 0) = segment := by
  have hall : ∀ b ∈ segment, (decide (b ≠ 0)) = true := by
    intro b hb
    simpa using fun h : b = 0 => hz (h ▸ hb)
  rw [List.takeWhile_append_of_pos hall]
  cases ht with
  | done => simp
  | zero rest => simp

theorem stringBytes_zero {segment tail : List UInt8} (hz : 0 ∉ segment) (ht : Tail tail) :
    stringBytes (segment ++ tail) 0 = segment := by
  simpa [stringBytes] using takeWhile_segment hz ht

theorem stringBytes_behind (segment rest : List UInt8) (offset : Nat) :
    stringBytes (segment ++ 0 :: rest) (segment.length + 1 + offset) = stringBytes rest offset := by
  have hdrop : (segment ++ 0 :: rest).drop (segment.length + 1 + offset) = rest.drop offset := by
    rw [show segment ++ 0 :: rest = (segment ++ [0]) ++ rest by simp,
      show segment.length + 1 + offset = (segment ++ [0]).length + offset by simp,
      List.drop_length_add_append]
  rw [stringBytes, stringBytes, hdrop]

/-- The starts of a region are its beginning and the starts behind its first zero byte. -/
theorem startsString_segment {segment rest : List UInt8} (hz : 0 ∉ segment) (offset : Nat) :
    StartsString (segment ++ 0 :: rest) offset ↔
      offset = 0 ∨ ∃ o, StartsString rest o ∧ offset = segment.length + 1 + o := by
  constructor
  · rintro (rfl | ⟨before, after, he, rfl⟩)
    · exact .inl rfl
    · right
      rcases List.append_eq_append_iff.mp he with ⟨more, rfl, hmore⟩ | ⟨more, rfl, hmore⟩
      · cases more with
        | nil => exact ⟨0, .inl rfl, by simp⟩
        | cons c more =>
            obtain ⟨rfl, rfl⟩ := List.cons.inj hmore
            refine ⟨more.length + 1, .inr ⟨more, after, rfl, rfl⟩, ?_⟩
            simp only [List.length_append, List.length_cons]
            omega
      · cases more with
        | nil => exact ⟨0, .inl rfl, by simp⟩
        | cons c more =>
            obtain ⟨rfl, -⟩ := List.cons.inj hmore
            simp at hz
  · rintro (rfl | ⟨o, rfl | ⟨before, after, rfl, rfl⟩, rfl⟩)
    · exact .inl rfl
    · exact .inr ⟨segment, rest, rfl, rfl⟩
    · refine .inr ⟨segment ++ 0 :: before, after, by simp, ?_⟩
      simp only [List.length_append, List.length_cons]
      omega

theorem startsString_of_no_zero {segment : List UInt8} (hz : 0 ∉ segment) (offset : Nat) :
    StartsString segment offset ↔ offset = 0 := by
  constructor
  · rintro (rfl | ⟨before, after, rfl, -⟩)
    · rfl
    · simp at hz
  · exact .inl

/-! ## One string -/

variable {kind : MatchKind} {needle : List UInt8}

/-- Whether a match in the rest of a string counts; `atStart` tells that nothing of the string has
been passed. -/
def MatchKind.HoldsFrom (kind : MatchKind) (needle : List UInt8) (atStart : Bool)
    (segment : List UInt8) : Prop :=
  match kind with
  | .contains => needle <:+: segment
  | .startsWith => atStart = true ∧ needle <+: segment
  | .endsWith => needle <:+ segment

theorem holdsFrom_start (kind : MatchKind) (needle segment : List UInt8) :
    kind.HoldsFrom needle true segment ↔ kind.holds segment needle = true := by
  cases kind with
  | contains => exact (Text.occursIn_iff needle segment).symm
  | startsWith => simp [MatchKind.HoldsFrom, MatchKind.holds]
  | endsWith => simp [MatchKind.HoldsFrom, MatchKind.holds]

theorem not_holdsFrom_nil (hn : needle ≠ []) (atStart : Bool) :
    ¬ kind.HoldsFrom needle atStart [] := by
  cases kind <;> simp [MatchKind.HoldsFrom, hn]

/-- A needle without zero bytes does not reach over the end of a string. -/
theorem prefix_append_tail_iff {segment tail : List UInt8} (hz : 0 ∉ needle) (ht : Tail tail) :
    needle <+: segment ++ tail ↔ needle <+: segment := by
  constructor
  · rintro ⟨rest, he⟩
    rcases List.append_eq_append_iff.mp he with ⟨more, rfl, -⟩ | ⟨more, rfl, hmore⟩
    · exact List.prefix_append needle more
    · cases more with
      | nil => simp
      | cons c more =>
          cases ht with
          | done => simp at hmore
          | zero rest =>
              obtain ⟨rfl, -⟩ := List.cons.inj hmore
              simp at hz
  · exact fun h => h.trans (List.prefix_append segment tail)

/-- A hit at the end of a string is the whole rest of it. -/
theorem accepts_endsWith_iff {segment tail : List UInt8} (hz : 0 ∉ segment) (ht : Tail tail)
    (hp : needle <+: segment) (atStart : Bool) :
    MatchKind.endsWith.accepts needle atStart (segment ++ tail) = true ↔ needle = segment := by
  obtain ⟨more, rfl⟩ := hp
  have hdrop : (needle ++ more ++ tail).drop needle.length = more ++ tail := by
    rw [List.append_assoc, List.drop_left]
  rw [MatchKind.accepts, hdrop]
  cases more with
  | nil => cases ht <;> simp
  | cons c more =>
      have hc : c ≠ 0 := fun h => hz (by simp [h])
      simp [hc]

/-- What a hit at the next byte and the matches behind it amount to. -/
theorem holdsFrom_cons {b : UInt8} {segment tail : List UInt8} (hz : 0 ∉ b :: segment)
    (ht : Tail tail) (atStart : Bool) :
    kind.HoldsFrom needle atStart (b :: segment) ↔
      (needle <+: b :: segment ∧ kind.accepts needle atStart (b :: segment ++ tail) = true) ∨
        (¬ (needle <+: b :: segment ∧ kind ≠ .endsWith) ∧ kind.HoldsFrom needle false segment) := by
  cases kind with
  | contains =>
      simp only [MatchKind.HoldsFrom, MatchKind.accepts, List.infix_cons_iff]
      by_cases h : needle <+: b :: segment <;> simp [h]
  | startsWith => simp [MatchKind.HoldsFrom, MatchKind.accepts, and_comm]
  | endsWith =>
      simp only [MatchKind.HoldsFrom, List.suffix_cons_iff, ne_eq, not_true_eq_false, and_false,
        not_false_eq_true, true_and]
      refine or_congr ?_ Iff.rfl
      constructor
      · rintro rfl
        exact ⟨List.prefix_rfl, (accepts_endsWith_iff hz ht List.prefix_rfl atStart).mpr rfl⟩
      · rintro ⟨hp, ha⟩
        exact (accepts_endsWith_iff hz ht hp atStart).mp ha

/-! ## The pass over a region -/

/-- Offsets that the pass finds behind the end of a string. -/
def offsetsBehind (kind : MatchKind) (needle : List UInt8) (pos : Nat) : List UInt8 → List Nat
  | [] => []
  | _ :: rest => scanOffsets kind needle (pos + 1) (pos + 1) false rest

/-- The pass over the rest of a string finds its start if a match is still to come, and then goes
on behind it. -/
theorem mem_scanOffsets_segment (hn : needle ≠ []) (hz : 0 ∉ needle) {segment tail : List UInt8}
    (hs : 0 ∉ segment) (ht : Tail tail) {start pos : Nat} (hle : start ≤ pos) (passing : Bool)
    (offset : Nat) :
    offset ∈ scanOffsets kind needle start pos passing (segment ++ tail) ↔
      (offset = start ∧ passing = false ∧ kind.HoldsFrom needle (start == pos) segment) ∨
        offset ∈ offsetsBehind kind needle (pos + segment.length) tail := by
  induction segment generalizing pos passing with
  | nil =>
      have hnil : ¬ kind.HoldsFrom needle (start == pos) [] := not_holdsFrom_nil hn _
      cases ht with
      | done => simp [scanOffsets, offsetsBehind, hnil]
      | zero rest =>
          have hhit : needle.isPrefixOf (0 :: rest) = false := by
            cases needle with
            | nil => exact absurd rfl hn
            | cons c needle =>
                have hc : c ≠ 0 := fun h => hz (by simp [h])
                simp [List.isPrefixOf, hc]
          simp [scanOffsets, offsetsBehind, hnil, hhit]
  | cons b segment ih =>
      have hb : b ≠ 0 := fun h => hs (by simp [h])
      have hs' : 0 ∉ segment := fun h => hs (List.mem_cons_of_mem b h)
      have hlate : (start == pos + 1) = false := by
        simp only [beq_eq_false_iff_ne]
        omega
      have hhit :
          needle.isPrefixOf (b :: (segment ++ tail)) = decide (needle <+: b :: segment) := by
        have hprefix : needle <+: b :: segment ++ tail ↔ needle <+: b :: segment :=
          prefix_append_tail_iff hz ht
        rw [Bool.eq_iff_iff, List.isPrefixOf_iff_prefix, decide_eq_true_iff]
        exact hprefix
      have hlen : pos + 1 + segment.length = pos + (b :: segment).length := by
        simp only [List.length_cons]
        omega
      have hcons : kind.HoldsFrom needle (start == pos) (b :: segment) ↔ _ :=
        holdsFrom_cons hs ht (start == pos)
      rw [List.cons_append, scanOffsets]
      simp only [hhit, hb, if_false, List.mem_append, ih hs' (Nat.le_succ_of_le hle), hlate, hlen,
        hcons]
      by_cases hp : needle <+: b :: segment <;> cases passing <;> cases kind <;>
        simp [hp, hb, MatchKind.accepts] <;> grind

/-- From the start of a string on, the pass finds the starts of the strings that match. -/
theorem mem_scanOffsets_iff (hn : needle ≠ []) (hz : 0 ∉ needle) (bytes : List UInt8)
    (pos offset : Nat) :
    offset ∈ scanOffsets kind needle pos pos false bytes ↔
      ∃ o, offset = pos + o ∧ StartsString bytes o ∧
        kind.holds (stringBytes bytes o) needle = true := by
  obtain ⟨segment, tail, rfl, hs, ht⟩ := exists_segment bytes
  rw [mem_scanOffsets_segment hn hz hs ht (Nat.le_refl pos)]
  simp only [beq_self_eq_true, holdsFrom_start, true_and]
  cases ht with
  | done =>
      simp only [List.append_nil, offsetsBehind, List.not_mem_nil, or_false,
        startsString_of_no_zero hs]
      have hfirst : stringBytes segment 0 = segment := by simpa using stringBytes_zero hs .done
      constructor
      · rintro ⟨rfl, h⟩
        exact ⟨0, rfl, rfl, by rwa [hfirst]⟩
      · rintro ⟨o, rfl, rfl, h⟩
        exact ⟨rfl, by rwa [hfirst] at h⟩
  | zero rest =>
      have hfirst := stringBytes_zero hs (.zero rest)
      simp only [offsetsBehind, startsString_segment hs]
      rw [mem_scanOffsets_iff hn hz rest]
      constructor
      · rintro (⟨rfl, h⟩ | ⟨o, rfl, hstart, h⟩)
        · exact ⟨0, rfl, .inl rfl, by rwa [hfirst]⟩
        · refine ⟨segment.length + 1 + o, by omega, .inr ⟨o, hstart, rfl⟩, ?_⟩
          rwa [stringBytes_behind]
      · rintro ⟨_, rfl, rfl | ⟨o, hstart, rfl⟩, h⟩
        · exact .inl ⟨rfl, by rwa [hfirst] at h⟩
        · rw [stringBytes_behind] at h
          exact .inr ⟨o, by omega, hstart, h⟩
termination_by bytes.length

theorem mem_eraseRepsBy_loop (r : Nat → Nat → Bool) (hr : ∀ a b, r a b = true → a = b)
    (xs : List Nat) (a : Nat) (acc : List Nat) (x : Nat) :
    x ∈ List.eraseRepsBy.loop r a xs acc ↔ x = a ∨ x ∈ xs ∨ x ∈ acc := by
  induction xs generalizing a acc with
  | nil => simp [List.eraseRepsBy.loop, or_comm]
  | cons b xs ih =>
      rw [List.eraseRepsBy.loop]
      cases h : r a b with
      | true => simp [ih, hr a b h, ← or_assoc]
      | false =>
          simp only [ih, List.mem_cons]
          grind

theorem mem_eraseReps (xs : List Nat) (x : Nat) : x ∈ xs.eraseReps ↔ x ∈ xs := by
  cases xs with
  | nil => simp [List.eraseReps, List.eraseRepsBy]
  | cons a xs =>
      rw [List.eraseReps, List.eraseRepsBy, mem_eraseRepsBy_loop _ (by simp)]
      simp

/-- The offsets found are the starts of the strings that match. -/
theorem mem_findOffsets_iff (hn : needle ≠ []) (hz : 0 ∉ needle) (bytes : List UInt8)
    (offset : Nat) :
    offset ∈ findOffsets bytes needle kind ↔
      StartsString bytes offset ∧ kind.holds (stringBytes bytes offset) needle = true := by
  have hempty : needle.isEmpty = false := by simpa using hn
  rw [findOffsets, hempty, if_neg Bool.false_ne_true, mem_eraseReps,
    mem_scanOffsets_iff hn hz bytes 0 offset]
  simp

end ColumnQuery
