import ColumnQuery.Proofs.StringIndex

/-! # The pass over a region in jumps

`findOffsets` passes over a region byte by byte. The same can be done in jumps from hit to hit and
from a hit to the next string, with three positions in hand. Each read of the jumping pass is
checked against the bounds of the region here, and `Scan.Finds` says that the pass ends with some
offsets without a read out of bounds. It always does, its offsets are those of `findOffsets`, and
they are exactly the starts of the matching strings. -/

namespace ColumnQuery

/-- Bytes of a region between two positions, which have to lie in the region in this order. -/
def slice? (bytes : List UInt8) (low high : Nat) : Option (List UInt8) :=
  if low ≤ high ∧ high ≤ bytes.length then some ((bytes.drop low).take (high - low)) else none

/-- Position of the first occurrence of a needle. -/
def firstHit? (needle : List UInt8) : List UInt8 → Option Nat
  | [] => none
  | b :: rest =>
    if needle.isPrefixOf (b :: rest) then some 0 else (firstHit? needle rest).map (· + 1)

/-- Position of the last zero byte. -/
def lastZero? : List UInt8 → Option Nat
  | [] => none
  | b :: rest =>
    match lastZero? rest with
    | some i => some (i + 1)
    | none => if b = 0 then some 0 else none

/-- Positions of a pass over a region: where a string starts, how far its zero bytes have been
looked for, and from where the next hit is looked for. -/
structure Scan where
  start : Nat := 0
  scanned : Nat := 0
  next : Nat := 0

namespace Scan

/-- Whether a hit counts for the string that starts at `start`. -/
def accepted? (kind : MatchKind) (needle bytes : List UInt8) (start hit : Nat) : Option Bool :=
  match kind with
  | .contains => some true
  | .startsWith => some (start == hit)
  | .endsWith =>
    if hit + needle.length = bytes.length then some true
    else bytes[hit + needle.length]?.map (· == 0)

/-- Where to look for the next hit, if anywhere: a hit that has to end its string may overlap the
next one, and any other hit is the last of its string. -/
def behind? (kind : MatchKind) (bytes : List UInt8) (hit : Nat) : Option (Option Nat) :=
  match kind with
  | .endsWith => some (some (hit + 1))
  | _ => (slice? bytes hit bytes.length).map fun rest =>
      (rest.findIdx? (· == 0)).map (hit + · + 1)

/-- One round of the pass: the offset that it finds, if any, and the positions to go on from unless
the pass is over. A read out of bounds gives no result. -/
def round? (kind : MatchKind) (needle bytes : List UInt8) (s : Scan) :
    Option (List Nat × Option Scan) := do
  let ahead ← slice? bytes s.next bytes.length
  match firstHit? needle ahead with
  | none => return ([], none)
  | some distance =>
    let hit := s.next + distance
    let passed ← slice? bytes s.scanned hit
    let start := match lastZero? passed with
      | some i => s.scanned + i + 1
      | none => s.start
    let accepted ← accepted? kind needle bytes start hit
    let found := if accepted then [start] else []
    match ← behind? kind bytes hit with
    | none => return (found, none)
    | some next => return (found, if bytes.length ≤ next then none else some ⟨start, hit, next⟩)

/-- The rounds from some positions on come to an end with the offsets found, in their order. -/
inductive Ends (kind : MatchKind) (needle bytes : List UInt8) : Scan → List Nat → Prop where
  | last {s : Scan} {found : List Nat} (round : s.round? kind needle bytes = some (found, none)) :
      Ends kind needle bytes s found
  | more {s s' : Scan} {found rest : List Nat}
      (round : s.round? kind needle bytes = some (found, some s'))
      (ends : Ends kind needle bytes s' rest) : Ends kind needle bytes s (found ++ rest)

/-- The pass ends with some offsets, each kept once. There is no round for a needle that is empty or
longer than the region. -/
inductive Finds (kind : MatchKind) (needle bytes : List UInt8) : List Nat → Prop where
  | skipped (short : needle = [] ∨ bytes.length < needle.length) : Finds kind needle bytes []
  | scanned {offsets : List Nat} (long : ¬ (needle = [] ∨ bytes.length < needle.length))
      (ends : Ends kind needle bytes {} offsets) : Finds kind needle bytes offsets.eraseReps

/-! ## Starts of strings -/

/-- Start of the string that is reached by passing over bytes from a position on. -/
def startBehind (start pos : Nat) : List UInt8 → Nat
  | [] => start
  | b :: rest => startBehind (if b = 0 then pos + 1 else start) (pos + 1) rest

theorem startBehind_append (start pos : Nat) (front back : List UInt8) :
    startBehind start pos (front ++ back) =
      startBehind (startBehind start pos front) (pos + front.length) back := by
  induction front generalizing start pos with
  | nil => rfl
  | cons b front ih =>
      rw [List.cons_append, startBehind, ih, startBehind, List.length_cons]
      congr 1
      omega

/-- The start is behind the last zero byte that has been passed. -/
theorem startBehind_eq (start pos : Nat) (bytes : List UInt8) :
    startBehind start pos bytes = match lastZero? bytes with
      | some i => pos + i + 1
      | none => start := by
  induction bytes generalizing start pos with
  | nil => rfl
  | cons b rest ih =>
      rw [startBehind, ih, lastZero?]
      cases lastZero? rest with
      | some i =>
          simp only
          omega
      | none => by_cases hb : b = 0 <;> simp [hb]

theorem startBehind_of_first_zero {bytes : List UInt8} {i : Nat}
    (h : bytes.findIdx? (· == 0) = some i) (start pos : Nat) :
    startBehind start pos (bytes.take (i + 1)) = pos + i + 1 := by
  induction bytes generalizing start pos i with
  | nil => simp at h
  | cons b rest ih =>
      rw [List.take_succ_cons, startBehind]
      by_cases hb : b = 0
      · obtain rfl : 0 = i := by simpa [List.findIdx?_cons, hb] using h
        simp [hb, startBehind]
      · obtain ⟨j, hj, rfl⟩ : ∃ j, rest.findIdx? (· == 0) = some j ∧ j + 1 = i := by
          simpa [List.findIdx?_cons, hb] using h
        rw [ih hj]
        omega

/-! ## Jumps -/

variable {kind : MatchKind} {needle bytes : List UInt8}

theorem scanOffsets_of_no_hit (h : firstHit? needle bytes = none) (start pos : Nat) :
    scanOffsets kind needle start pos false bytes = [] := by
  induction bytes generalizing start pos with
  | nil => rfl
  | cons b rest ih =>
      rw [firstHit?] at h
      split at h
      · cases h
      · rename_i hhit
        simp [scanOffsets, hhit, ih (by simpa using h)]

/-- Up to the first hit nothing is found. -/
theorem scanOffsets_of_hit (kind : MatchKind) {distance : Nat}
    (h : firstHit? needle bytes = some distance) (start pos : Nat) :
    scanOffsets kind needle start pos false bytes =
        scanOffsets kind needle (startBehind start pos (bytes.take distance)) (pos + distance)
          false (bytes.drop distance) ∧
      distance < bytes.length ∧ needle <+: bytes.drop distance := by
  induction bytes generalizing start pos distance with
  | nil => cases h
  | cons b rest ih =>
      rw [firstHit?] at h
      split at h
      · rename_i hhit
        obtain rfl := Option.some.inj h
        exact ⟨rfl, Nat.succ_pos _, List.isPrefixOf_iff_prefix.mp hhit⟩
      · rename_i hhit
        obtain ⟨distance, hdistance, rfl⟩ := Option.map_eq_some_iff.mp h
        obtain ⟨hscan, hlt, hoccurs⟩ := ih hdistance (if b = 0 then pos + 1 else start) (pos + 1)
        refine ⟨?_, Nat.succ_lt_succ hlt, by simpa using hoccurs⟩
        have hrest : scanOffsets kind needle start pos false (b :: rest) =
            scanOffsets kind needle (if b = 0 then pos + 1 else start) (pos + 1) false rest := by
          simp [scanOffsets, hhit]
        rw [hrest, hscan, List.take_succ_cons, List.drop_succ_cons, startBehind]
        congr 1
        omega

/-- Offsets that are found from the next string on. -/
def offsetsAfter (kind : MatchKind) (needle : List UInt8) (pos : Nat) (bytes : List UInt8) :
    List Nat :=
  match bytes.findIdx? (· == 0) with
  | none => []
  | some i => scanOffsets kind needle (pos + i + 1) (pos + i + 1) false (bytes.drop (i + 1))

theorem offsetsAfter_zero (pos : Nat) (rest : List UInt8) :
    offsetsAfter kind needle pos (0 :: rest) =
      scanOffsets kind needle (pos + 1) (pos + 1) false rest := by
  simp [offsetsAfter, List.findIdx?_cons]

theorem offsetsAfter_of_ne {b : UInt8} (hb : b ≠ 0) (pos : Nat) (rest : List UInt8) :
    offsetsAfter kind needle pos (b :: rest) = offsetsAfter kind needle (pos + 1) rest := by
  rw [offsetsAfter, offsetsAfter]
  cases hi : rest.findIdx? (· == 0) with
  | none => simp [List.findIdx?_cons, hb, hi]
  | some i =>
      have hpos : pos + (i + 1) + 1 = pos + 1 + i + 1 := by omega
      simp [List.findIdx?_cons, hb, hi, hpos]

/-- The rest of a string that is done with is passed over. -/
theorem scanOffsets_passing (start pos : Nat) (bytes : List UInt8) :
    scanOffsets kind needle start pos true bytes = offsetsAfter kind needle pos bytes := by
  induction bytes generalizing pos with
  | nil => rfl
  | cons b rest ih =>
      by_cases hb : b = 0
      · subst hb
        simp [scanOffsets, offsetsAfter_zero]
      · rw [offsetsAfter_of_ne hb, ← ih (pos + 1)]
        simp [scanOffsets, hb]

/-- After a hit the pass goes on with the next string, unless hits have to end their string. -/
theorem scanOffsets_behind_hit (hkind : kind ≠ .endsWith) (hne : bytes ≠ [])
    (hoccurs : needle <+: bytes) (start pos : Nat) :
    scanOffsets kind needle start pos false bytes =
      (if kind.accepts needle (start == pos) bytes then [start] else []) ++
        offsetsAfter kind needle pos bytes := by
  cases bytes with
  | nil => exact absurd rfl hne
  | cons b rest =>
      have hhit : needle.isPrefixOf (b :: rest) = true := List.isPrefixOf_iff_prefix.mpr hoccurs
      rw [scanOffsets, hhit]
      by_cases hb : b = 0
      · subst hb
        simp [offsetsAfter_zero]
      · rw [offsetsAfter_of_ne hb, ← scanOffsets_passing start]
        simp [hb, hkind]

/-- A hit that has to end its string may overlap the next one. -/
theorem scanOffsets_endsWith_hit {b : UInt8} {rest : List UInt8} (hoccurs : needle <+: b :: rest)
    (start pos : Nat) :
    scanOffsets .endsWith needle start pos false (b :: rest) =
      (if MatchKind.endsWith.accepts needle (start == pos) (b :: rest) then [start] else []) ++
        scanOffsets .endsWith needle (startBehind start pos [b]) (pos + 1) false rest := by
  have hhit : needle.isPrefixOf (b :: rest) = true := List.isPrefixOf_iff_prefix.mpr hoccurs
  rw [scanOffsets, hhit]
  simp [startBehind]

/-! ## Rounds -/

theorem slice?_eq {low high : Nat} (h : low ≤ high) (h' : high ≤ bytes.length) :
    slice? bytes low high = some ((bytes.drop low).take (high - low)) :=
  if_pos ⟨h, h'⟩

theorem slice?_to_end {low : Nat} (h : low ≤ bytes.length) :
    slice? bytes low bytes.length = some (bytes.drop low) := by
  rw [slice?_eq h (Nat.le_refl _), List.take_of_length_le (by simp)]

/-- Whether a hit counts is read inside the region. -/
theorem accepted?_eq {hit : Nat} (hlt : hit < bytes.length) (hoccurs : needle <+: bytes.drop hit)
    (start : Nat) :
    accepted? kind needle bytes start hit =
      some (kind.accepts needle (start == hit) (bytes.drop hit)) := by
  cases kind with
  | contains => rfl
  | startsWith => rfl
  | endsWith =>
      have hlength := hoccurs.length_le
      rw [List.length_drop] at hlength
      rw [accepted?, MatchKind.accepts, List.drop_drop]
      by_cases hstop : hit + needle.length = bytes.length
      · rw [if_pos hstop, List.drop_of_length_le (by omega)]
      · have hin : hit + needle.length < bytes.length := by omega
        rw [if_neg hstop, List.getElem?_eq_getElem hin, List.drop_eq_getElem_cons hin]
        rfl

/-- The positions of a pass lie in the region and in their order. -/
structure InBounds (bytes : List UInt8) (s : Scan) : Prop where
  scanned : s.scanned ≤ s.next
  next : s.next ≤ bytes.length

/-- Offsets that are found from the positions of a pass on. -/
def offsets (kind : MatchKind) (needle bytes : List UInt8) (s : Scan) : List Nat :=
  scanOffsets kind needle
    (startBehind s.start s.scanned ((bytes.drop s.scanned).take (s.next - s.scanned))) s.next false
    (bytes.drop s.next)

/-- What a round of a pass comes to: it finds all the offsets that are left, or some of them and
goes on further ahead. -/
inductive Advances (kind : MatchKind) (needle bytes : List UInt8) (s : Scan) :
    List Nat × Option Scan → Prop where
  | last {found : List Nat} (offsets : s.offsets kind needle bytes = found) :
      Advances kind needle bytes s (found, none)
  | more {found : List Nat} {s' : Scan} (inBounds : s'.InBounds bytes) (ahead : s.next < s'.next)
      (offsets : s.offsets kind needle bytes = found ++ s'.offsets kind needle bytes) :
      Advances kind needle bytes s (found, some s')

variable {s : Scan}

/-- The bytes that have been passed at a hit. -/
theorem passed_eq (h : s.InBounds bytes) (distance : Nat) :
    (bytes.drop s.scanned).take (s.next + distance - s.scanned) =
      (bytes.drop s.scanned).take (s.next - s.scanned) ++ (bytes.drop s.next).take distance := by
  have hsplit : s.next + distance - s.scanned = (s.next - s.scanned) + distance := by
    have := h.scanned
    omega
  rw [hsplit, List.take_add, List.drop_drop, Nat.add_sub_cancel' h.scanned]

theorem offsets_of_hit (kind : MatchKind) (h : s.InBounds bytes) {distance : Nat}
    (hhit : firstHit? needle (bytes.drop s.next) = some distance) :
    s.offsets kind needle bytes = scanOffsets kind needle
      (startBehind s.start s.scanned
        ((bytes.drop s.scanned).take (s.next + distance - s.scanned)))
      (s.next + distance) false (bytes.drop (s.next + distance)) := by
  have hpos : s.scanned + ((bytes.drop s.scanned).take (s.next - s.scanned)).length = s.next := by
    have := h.scanned
    have := h.next
    rw [List.length_take, List.length_drop]
    omega
  rw [offsets, (scanOffsets_of_hit kind hhit _ _).1, passed_eq h, startBehind_append, hpos,
    List.drop_drop]

/-- What is found at a hit and behind it. -/
theorem behind?_spec {hit : Nat} (hlt : hit < bytes.length) (hoccurs : needle <+: bytes.drop hit)
    (start : Nat) {found : List Nat}
    (hfound : found =
      if kind.accepts needle (start == hit) (bytes.drop hit) then [start] else []) :
    ∃ next?, behind? kind bytes hit = some next? ∧
      match next? with
      | none => scanOffsets kind needle start hit false (bytes.drop hit) = found
      | some next => (⟨start, hit, next⟩ : Scan).InBounds bytes ∧ hit < next ∧
          scanOffsets kind needle start hit false (bytes.drop hit) =
            found ++ (⟨start, hit, next⟩ : Scan).offsets kind needle bytes := by
  subst hfound
  by_cases hkind : kind = .endsWith
  · subst hkind
    refine ⟨some (hit + 1), rfl, ⟨Nat.le_succ hit, hlt⟩, Nat.lt_succ_self hit, ?_⟩
    rw [List.drop_eq_getElem_cons hlt] at hoccurs ⊢
    rw [scanOffsets_endsWith_hit hoccurs, offsets, Nat.add_sub_cancel_left,
      List.drop_eq_getElem_cons hlt, List.take_succ_cons, List.take_zero]
  · have hne : bytes.drop hit ≠ [] := by simpa using hlt
    have hbehind : behind? kind bytes hit =
        some (((bytes.drop hit).findIdx? (· == 0)).map (hit + · + 1)) := by
      cases kind with
      | endsWith => exact absurd rfl hkind
      | contains | startsWith => simp [behind?, slice?_to_end (Nat.le_of_lt hlt)]
    rw [scanOffsets_behind_hit hkind hne hoccurs, offsetsAfter]
    cases hzero : (bytes.drop hit).findIdx? (· == 0) with
    | none => exact ⟨none, by rw [hbehind, hzero]; rfl, List.append_nil _⟩
    | some i =>
        have hi : i < bytes.length - hit := by
          simpa using (List.findIdx?_eq_some_iff_getElem.mp hzero).1
        refine ⟨some (hit + i + 1), by rw [hbehind, hzero]; rfl, ⟨?_, ?_⟩, ?_, ?_⟩
        · show hit ≤ hit + i + 1
          omega
        · show hit + i + 1 ≤ bytes.length
          omega
        · omega
        · have htake : hit + i + 1 - hit = i + 1 := by omega
          rw [offsets]
          dsimp only
          rw [htake, startBehind_of_first_zero hzero, List.drop_drop]
          rfl

/-- A round from positions in bounds reads in bounds and advances. -/
theorem round?_advances (kind : MatchKind) (needle : List UInt8) (h : s.InBounds bytes) :
    ∃ r, s.round? kind needle bytes = some r ∧ s.Advances kind needle bytes r := by
  rw [round?, slice?_to_end h.next]
  cases hhit : firstHit? needle (bytes.drop s.next) with
  | none => exact ⟨_, by simp [hhit], .last (scanOffsets_of_no_hit hhit _ _)⟩
  | some distance =>
      obtain ⟨-, hlt, hoccurs⟩ := scanOffsets_of_hit kind hhit 0 0
      rw [List.length_drop] at hlt
      rw [List.drop_drop] at hoccurs
      have hbound : s.next + distance < bytes.length := by omega
      have hscanned : s.scanned ≤ s.next + distance := Nat.le_add_right_of_le h.scanned
      have hoffsets := offsets_of_hit kind h hhit
      rw [startBehind_eq] at hoffsets
      simp only [hhit, Option.bind_eq_bind, Option.bind_some,
        slice?_eq hscanned (Nat.le_of_lt hbound), accepted?_eq hbound hoccurs]
      -- From here on only where the string of the hit starts matters, not how that is found.
      generalize (match lastZero? ((bytes.drop s.scanned).take (s.next + distance - s.scanned)) with
        | some i => s.scanned + i + 1
        | none => s.start) = start at hoffsets ⊢
      generalize hfound :
        (if kind.accepts needle (start == s.next + distance) (bytes.drop (s.next + distance)) then
          [start] else []) = found
      obtain ⟨next?, hbehind, hnext⟩ := behind?_spec hbound hoccurs start hfound.symm
      rw [hbehind]
      cases next? with
      | none => exact ⟨_, rfl, .last (hoffsets.trans hnext)⟩
      | some next =>
          obtain ⟨hin, hahead, hrest⟩ := hnext
          by_cases hend : bytes.length ≤ next
          · refine ⟨(found, none), by simp [hend], .last ?_⟩
            rw [hoffsets, hrest, offsets]
            simp [List.drop_of_length_le hend, scanOffsets]
          · refine ⟨(found, some _), by simp [hend], .more hin ?_ (hoffsets.trans hrest)⟩
            exact Nat.lt_of_le_of_lt (Nat.le_add_right _ _) hahead

/-- From positions in bounds the pass ends, and every read on the way is in bounds. -/
theorem ends_offsets (s : Scan) (h : s.InBounds bytes) :
    Ends kind needle bytes s (s.offsets kind needle bytes) := by
  obtain ⟨r, hround, hadvances⟩ := round?_advances kind needle h
  cases hadvances with
  | last hoffsets =>
      rw [hoffsets]
      exact .last hround
  | more hin hahead hoffsets =>
      -- The next round looks further ahead, so less of the region is left.
      rw [hoffsets]
      exact .more hround (ends_offsets _ hin)
termination_by bytes.length - s.next
decreasing_by
  have := hin.next
  omega

theorem finds_findOffsets (kind : MatchKind) (needle bytes : List UInt8) :
    Finds kind needle bytes (findOffsets bytes needle kind) := by
  by_cases hn : needle = []
  · subst hn
    exact .skipped (.inl rfl)
  · rw [findOffsets, if_neg (by simpa using hn)]
    by_cases hlong : bytes.length < needle.length
    · have hhit : firstHit? needle bytes = none := by
        refine Option.eq_none_iff_forall_ne_some.mpr fun distance hhit => ?_
        have hlength := (scanOffsets_of_hit kind hhit 0 0).2.2.length_le
        rw [List.length_drop] at hlength
        omega
      rw [scanOffsets_of_no_hit hhit]
      exact .skipped (.inr hlong)
    · exact .scanned (by simp [hn, hlong]) (ends_offsets {} ⟨Nat.le_refl 0, Nat.zero_le _⟩)

theorem Ends.unique {s : Scan} {found found' : List Nat} (h : Ends kind needle bytes s found)
    (h' : Ends kind needle bytes s found') : found = found' := by
  induction h generalizing found' with
  | last round =>
      cases h' with
      | last round' => exact (Prod.mk.inj (Option.some.inj (round.symm.trans round'))).1
      | more round' => cases round.symm.trans round'
  | more round _ ih =>
      cases h' with
      | last round' => cases round.symm.trans round'
      | more round' ends' =>
          obtain ⟨rfl, hs⟩ := Prod.mk.inj (Option.some.inj (round.symm.trans round'))
          obtain rfl := Option.some.inj hs
          rw [ih ends']

theorem Finds.unique {offsets offsets' : List Nat} (h : Finds kind needle bytes offsets)
    (h' : Finds kind needle bytes offsets') : offsets = offsets' := by
  cases h with
  | skipped short =>
      cases h' with
      | skipped => rfl
      | scanned long => exact absurd short long
  | scanned long ends =>
      cases h' with
      | skipped short => exact absurd short long
      | scanned _ ends' => rw [ends.unique ends']

/-- The pass ends with the offsets of `findOffsets` and no others. -/
theorem finds_iff (offsets : List Nat) :
    Finds kind needle bytes offsets ↔ offsets = findOffsets bytes needle kind := by
  constructor
  · intro h
    exact h.unique (finds_findOffsets kind needle bytes)
  · rintro rfl
    exact finds_findOffsets kind needle bytes

end Scan

/-! ## Matching strings -/

/-- The bytes of a needle sit in those of a string as the kind asks. -/
def MatchKind.SitsInBytes (kind : MatchKind) (needle string : List UInt8) : Prop :=
  match kind with
  | .contains => needle <:+: string
  | .startsWith => needle <+: string
  | .endsWith => needle <:+ string

theorem MatchKind.sitsInBytes_iff (kind : MatchKind) (needle string : List UInt8) :
    kind.SitsInBytes needle string ↔ kind.holds string needle = true := by
  rw [← holdsFrom_start]
  cases kind <;> simp [SitsInBytes, HoldsFrom]

/-- Over every region and for every needle the pass in jumps ends without a read out of bounds, and
always with the offsets of `findOffsets`. For a needle that is not empty and holds no zero byte they
are exactly the starts of the strings in which the needle sits as the kind asks. -/
theorem found_offsets_are_matching_starts (bytes needle : List UInt8) (kind : MatchKind) :
    (∀ offsets, Scan.Finds kind needle bytes offsets ↔ offsets = findOffsets bytes needle kind) ∧
      (needle ≠ [] → 0 ∉ needle → ∀ offset,
        offset ∈ findOffsets bytes needle kind ↔
          StartsString bytes offset ∧ kind.SitsInBytes needle (stringBytes bytes offset)) := by
  refine ⟨Scan.finds_iff, fun hn hz offset => ?_⟩
  rw [kind.sitsInBytes_iff]
  exact mem_findOffsets_iff hn hz bytes offset

/-- Overlapping hits count for the end of a string, also of the last one, which nothing ends. -/
theorem found_offsets_are_matching_starts_in_tail :
    ([97, 97] : List UInt8) ≠ [] ∧ 0 ∉ ([97, 97] : List UInt8) ∧
      Scan.Finds .endsWith [97, 97] [97, 97, 97, 0, 120, 97, 97] [0, 4] ∧
        StartsString [97, 97, 97, 0, 120, 97, 97] 4 ∧
          MatchKind.endsWith.SitsInBytes [97, 97]
            (stringBytes [97, 97, 97, 0, 120, 97, 97] 4) := by
  have hn : ([97, 97] : List UInt8) ≠ [] := by decide
  have hz : 0 ∉ ([97, 97] : List UInt8) := by decide
  obtain ⟨hfinds, hexact⟩ :=
    found_offsets_are_matching_starts [97, 97, 97, 0, 120, 97, 97] [97, 97] .endsWith
  exact ⟨hn, hz, (hfinds [0, 4]).mpr (by decide), (hexact hn hz 4).mp (by decide)⟩

end ColumnQuery
