import ColumnQuery.Proofs.Reading

/-! # Scalars behind keys

The key of a row is read at the kind of its column, and the member of an entity at the kind that it
is declared with. Both reads see the same scalars, and they give the same keys exactly if every
scalar gives the same key at both kinds. -/

namespace ColumnQuery

/-! ## Keys of scalars -/

namespace IntKind

variable {k : IntKind} {n : Int}

theorem wrap_eq_self_iff : k.wrap n = n ↔ k.Holds n :=
  ⟨fun h => h ▸ k.wrap_holds n, wrap_eq_self⟩

/-- Every kind but one is part of the keys. -/
theorem Holds.i64 (h : k.Holds n) (hk : k ≠ .u64) : IntKind.Holds .i64 n := by
  cases k with
  | u64 => contradiction
  | _ =>
      simp only [Holds, least, greatest, isSigned, count] at *
      simp at *
      omega

end IntKind

namespace Scalar

variable {s s' : Scalar} {kind : ScalarKind} {k kf : IntKind} {n : Int}

theorem eq_int_of_kind (h : s.kind = .int k) : ∃ n hn, s = .int k n hn := by
  cases s with
  | int k' n hn =>
      obtain rfl : k' = k := by simpa [Scalar.kind] using h
      exact ⟨n, hn, rfl⟩
  | _ => cases h

theorem isNumeric_of_convert (h : s.convert kind = some s') :
    s.kind.isNumeric = kind.isNumeric := by
  have hsome := isSome_convert s kind
  rw [h] at hsome
  simpa using hsome.symm

theorem exists_convert (kind : ScalarKind) (h : s.kind.isNumeric = kind.isNumeric) :
    ∃ s', s.convert kind = some s' :=
  Option.isSome_iff_exists.mp (by rw [isSome_convert, h, beq_self_eq_true])

/-- Key that a scalar gives when it is read at a kind. -/
def keyAt (kind : ScalarKind) (s : Scalar) : Option Int :=
  (s.convert kind).bind key?

theorem keyAt_of_convert (h : s.convert kind = some s') :
    s.keyAt kind = (Value.scalar s').key? := by
  rw [keyAt, h, Option.bind_some]
  rfl

theorem keyAt_int (hn : kf.Holds n) :
    (Scalar.int kf n hn).keyAt (.int k) =
      (some (k.wrap n)).filter fun n => decide (IntKind.Holds .i64 n) := rfl

/-- No float is a key. -/
theorem keyAt_of_not_integer {kind : ScalarKind} (hkind : kind.isInteger = false) (s : Scalar) :
    s.keyAt kind = none := by
  cases hs : s.convert kind with
  | none => simp [keyAt, hs]
  | some s' =>
      obtain rfl := kind_of_convert hs
      rw [keyAt, hs, Option.bind_some]
      cases s' <;> first | rfl | cases hkind

/-- A number gives a key at every kind of integer that is part of the keys. -/
theorem isSome_keyAt (hs : s.kind.isNumeric = true) (hk : k ≠ .u64) :
    (s.keyAt (.int k)).isSome = true := by
  obtain ⟨s', hs'⟩ := exists_convert (.int k) hs
  obtain ⟨n, hn, rfl⟩ := eq_int_of_kind (kind_of_convert hs')
  rw [keyAt, hs', Option.bind_some, key?, int?, Option.filter_some_pos]
  · rfl
  · exact decide_eq_true (hn.i64 hk)

/-- An integer gives its own key at another kind exactly if the kind holds it. -/
theorem keyAt_eq_iff (hn : kf.Holds n) :
    (Scalar.int kf n hn).keyAt (.int k) = (Scalar.int kf n hn).keyAt (.int kf) ↔ k.Holds n := by
  rw [keyAt_int, keyAt_int, IntKind.wrap_eq_self hn]
  constructor
  · intro h
    by_cases hkey : IntKind.Holds .i64 n
    · -- The key is the integer itself.
      have hwrap : IntKind.Holds .i64 (k.wrap n) ∧ k.wrap n = n := by
        simpa [Option.filter, hkey] using h
      exact IntKind.wrap_eq_self_iff.mp hwrap.2
    · -- There is no key, which only happens at the kind that the integer has.
      have hwrap : ¬ IntKind.Holds .i64 (k.wrap n) := by simpa [Option.filter, hkey] using h
      have hk : k = .u64 := by
        by_contra hne
        exact hwrap ((k.wrap_holds n).i64 hne)
      have hkf : kf = .u64 := by
        by_contra hne
        exact hkey (hn.i64 hne)
      rwa [hk, ← hkf]
  · intro hk
    rw [IntKind.wrap_eq_self hk]

variable {items items' : List Scalar}

/-- Scalars that have been converted have the keys at their new kind. -/
theorem keys_of_mapM (h : items.mapM (convert · kind) = some items') :
    (items'.map Value.scalar).filterMap Value.key? = items.filterMap (keyAt kind) ∧
      ∀ s ∈ items, s.kind.isNumeric = kind.isNumeric := by
  induction items generalizing items' with
  | nil =>
      obtain rfl := Option.some.inj h
      exact ⟨rfl, by simp⟩
  | cons s items ih =>
      rw [List.mapM_cons] at h
      obtain ⟨s', hs, h⟩ := Option.bind_eq_some_iff.mp h
      obtain ⟨rest, hrest, h⟩ := Option.bind_eq_some_iff.mp h
      obtain rfl := Option.some.inj h
      obtain ⟨hkeys, hnumeric⟩ := ih hrest
      refine ⟨?_, List.forall_mem_cons.mpr ⟨isNumeric_of_convert hs, hnumeric⟩⟩
      rw [List.map_cons, List.filterMap_cons, List.filterMap_cons, hkeys, keyAt_of_convert hs]

/-- Scalars can be converted if they are numbers together with the kind. -/
theorem exists_mapM (kind : ScalarKind)
    (h : ∀ s ∈ items, s.kind.isNumeric = kind.isNumeric) :
    ∃ items', items.mapM (convert · kind) = some items' := by
  induction items with
  | nil => exact ⟨[], rfl⟩
  | cons s items ih =>
      obtain ⟨hs, hitems⟩ := List.forall_mem_cons.mp h
      obtain ⟨rest, hrest⟩ := ih hitems
      obtain ⟨s', hs'⟩ := exists_convert kind hs
      exact ⟨s' :: rest, by rw [List.mapM_cons, hs', hrest]; rfl⟩

end Scalar

/-! ## Scalars of a row -/

def Cell.held : Cell → List Scalar
  | .scalar s => [s]
  | .scalars items => items
  | _ => []

/-- Scalars that a row holds for a field: those in its cell or, for a single field that is an id or
lies on the column of one, its id. -/
def Table.scalarsFor (t : Table) (h : RowHandle) (f : Field) : List Scalar :=
  if !f.isArray && (f.isId || (t.columns[f.column]?.join).any (·.isId)) then [.ofInt .i32 h.id]
  else
    match t.stored h with
    | .ok row => (row.cells[f.column]?.getD .empty).held
    | .error _ => []

namespace Table

variable {t : Table} {h : RowHandle} {f : Field} {k : ScalarKind} {v : Value}

/-- Reads of a column, once one of them has succeeded. -/
theorem read_iff_answer? {kind : ReadKind} (hr : t.read h f.column kind = .ok v) :
    ∃ row g, t.stored h = .ok row ∧ t.columns[f.column]? = some (some g) ∧ row.id = h.id ∧
      ∀ kind v, t.read h f.column kind = .ok v ↔ t.answer? row g f.column kind = some v := by
  obtain ⟨row, g, hs, hg, -⟩ := read_eq_ok_iff.mp hr
  refine ⟨row, g, hs, hg, (stored_eq_ok_iff.mp hs).2, fun kind v => ?_⟩
  rw [read_eq_ok_iff]
  constructor
  · rintro ⟨row', g', hs', hg', ha'⟩
    obtain rfl := Except.ok.inj (hs.symm.trans hs')
    obtain rfl := Option.some.inj (Option.some.inj (hg.symm.trans hg'))
    exact ha'
  · exact fun ha' => ⟨row, g, hs, hg, ha'⟩

/-- A column that is read as a scalar holds one, and reads of any kind see it. -/
theorem scalarsFor_of_read (hsingle : f.isArray = false) (hid : f.isId = false)
    (hr : t.read h f.column (.scalar k) = .ok v) :
    ∃ s, t.scalarsFor h f = [s] ∧ ∀ k v, t.read h f.column (.scalar k) = .ok v ↔
      (s.convert k).map Value.scalar = some v := by
  obtain ⟨row, g, hs, hg, hrow, hread⟩ := read_iff_answer? hr
  have ha := (hread _ _).mp hr
  simp only [hread, scalarsFor, hsingle, hid, hg, hs, Option.join_some, Option.any_some,
    Bool.not_false, Bool.true_and, Bool.false_or]
  unfold answer? at ha ⊢
  cases hgid : g.isId with
  | true => exact ⟨.ofInt .i32 h.id, rfl, fun k v => by rw [hrow]; rfl⟩
  | false =>
      rw [hgid, if_neg Bool.false_ne_true] at ha
      generalize row.cells[f.column]?.getD .empty = cell at ha ⊢
      cases cell with
      | scalar s => exact ⟨s, rfl, fun k v => Iff.rfl⟩
      | _ => cases ha

/-- A column that is read as an array holds scalars, and reads of any kind see them. -/
theorem scalarsFor_of_readArray (harray : f.isArray = true)
    (hr : t.read h f.column (.array k f.elementCount) = .ok v) :
    ∀ k v, t.read h f.column (.array k f.elementCount) = .ok v ↔
      ((t.scalarsFor h f).mapM (Scalar.convert · k)).map
        (fun items => Value.array (items.map .scalar)) = some v := by
  obtain ⟨row, g, hs, hg, -, hread⟩ := read_iff_answer? hr
  have ha := (hread _ _).mp hr
  simp only [hread, scalarsFor, harray, hs, Bool.not_true, Bool.false_and, Bool.false_eq_true,
    if_false]
  unfold answer? at ha ⊢
  cases hgid : g.isId with
  | true =>
      rw [hgid, if_pos rfl] at ha
      cases ha
  | false =>
      rw [hgid, if_neg Bool.false_ne_true] at ha
      simp only [Bool.false_eq_true, if_false]
      generalize row.cells[f.column]?.getD .empty = cell at ha ⊢
      cases cell with
      | scalars items =>
          simp only [Cell.read?] at ha ⊢
          split at ha
          · rename_i hcount
            intro k v
            rw [if_pos hcount, Cell.held]
          · cases ha
      | _ => cases ha

end Table

/-! ## Both reads of a key -/

/-- Kind at which the keys in a field are read from rows. A row id has thirty-two bits, and a field
of anything but integers has no keys. -/
def Field.keyKind? (f : Field) : Option IntKind :=
  if f.isId && !f.isArray then some .i32
  else
    match f.kind with
    | .scalar (.int k) => some k
    | _ => none

theorem Field.keyKind?_of_int (f : Field) {k : IntKind} (hk : f.kind = .scalar (.int k))
    (hid : (f.isId && !f.isArray) = false) : f.keyKind? = some k := by
  simp [keyKind?, hk, hid]

theorem Field.exists_keyKind? (f : Field) {k : IntKind} (hk : f.kind = .scalar (.int k)) :
    ∃ k, f.keyKind? = some k := by
  cases hid : f.isId && !f.isArray with
  | true => exact ⟨.i32, by simp [keyKind?, hid]⟩
  | false => exact ⟨k, f.keyKind?_of_int hk hid⟩

theorem Field.keyKind?_of_not_int (f : Field) (hk : ¬ ∃ k, f.kind = .scalar (.int k))
    (hid : (f.isId && !f.isArray) = false) : f.keyKind? = none := by
  unfold keyKind?
  rw [hid, if_neg Bool.false_ne_true]
  split
  · exact absurd ⟨_, ‹_›⟩ hk
  · rfl

/-- Key that a scalar gives when it is read from a row. -/
def Field.keyIn (f : Field) (s : Scalar) : Option Int :=
  f.keyKind?.bind fun k => s.keyAt (.int k)

theorem Field.keyIn_of_some {f : Field} {k : IntKind} (hk : f.keyKind? = some k) :
    f.keyIn = Scalar.keyAt (.int k) := by
  funext s
  rw [keyIn, hk, Option.bind_some]

theorem Field.keyIn_of_none {f : Field} (hk : f.keyKind? = none) (s : Scalar) :
    f.keyIn s = none := by
  rw [keyIn, hk, Option.bind_none]

theorem filterMap_eq_iff_of_isSome {α β : Type} {f g : α → Option β} {xs : List α}
    (hf : ∀ x ∈ xs, (f x).isSome = true) :
    xs.filterMap f = xs.filterMap g ↔ ∀ x ∈ xs, f x = g x := by
  refine ⟨fun h => ?_, List.filterMap_congr⟩
  induction xs with
  | nil => simp
  | cons x xs ih =>
      obtain ⟨hx, hxs⟩ := List.forall_mem_cons.mp hf
      obtain ⟨y, hy⟩ := Option.isSome_iff_exists.mp hx
      rw [List.filterMap_cons_some hy] at h
      cases hgx : g x with
      | none =>
          -- Then `g` gives too few.
          have hlength : (xs.filterMap f).length = xs.length := by
            rw [List.filterMap_length_eq_length]
            exact hxs
          have hless := List.length_filterMap_le g xs
          rw [List.filterMap_cons_none hgx] at h
          have := congrArg List.length h
          rw [List.length_cons] at this
          omega
      | some z =>
          rw [List.filterMap_cons_some hgx] at h
          obtain ⟨rfl, htail⟩ := List.cons.inj h
          exact List.forall_mem_cons.mpr ⟨hy.trans hgx.symm, ih hxs htail⟩

theorem filterMap_eq_iff_of_none {α β : Type} {f g : α → Option β} {xs : List α}
    (hf : ∀ x ∈ xs, f x = none) : xs.filterMap f = xs.filterMap g ↔ ∀ x ∈ xs, f x = g x := by
  rw [List.filterMap_eq_nil_iff.mpr hf, eq_comm, List.filterMap_eq_nil_iff]
  exact forall₂_congr fun x hx => by rw [hf x hx, eq_comm]

/-- Numbers give the same keys at a kind and in a field exactly if each of them does: at all kinds
but one no number is left out, so that keys cannot take each other's place. -/
theorem Field.keys_eq_iff (f : Field) (kind : ScalarKind) {items : List Scalar}
    (hitems : ∀ s ∈ items, s.kind.isNumeric = true) :
    items.filterMap (Scalar.keyAt kind) = items.filterMap f.keyIn ↔
      ∀ s ∈ items, s.keyAt kind = f.keyIn s := by
  have hsymm : (items.filterMap f.keyIn = items.filterMap (Scalar.keyAt kind) ↔
      ∀ s ∈ items, f.keyIn s = s.keyAt kind) →
      (items.filterMap (Scalar.keyAt kind) = items.filterMap f.keyIn ↔
        ∀ s ∈ items, s.keyAt kind = f.keyIn s) := by
    intro h
    rw [eq_comm, h]
    exact forall₂_congr fun s _ => eq_comm
  cases hf : f.keyKind? with
  | none => exact hsymm (filterMap_eq_iff_of_none fun s _ => keyIn_of_none hf s)
  | some kf =>
      have hin := keyIn_of_some hf
      by_cases hkf : kf = .u64
      · by_cases hkind : kind = .int kf
        · simp [hin, hkind]
        · cases kind with
          | int k =>
              have hk : k ≠ .u64 := fun h => hkind (by rw [h, hkf])
              exact filterMap_eq_iff_of_isSome fun s hs => Scalar.isSome_keyAt (hitems s hs) hk
          | _ => exact filterMap_eq_iff_of_none fun s _ => Scalar.keyAt_of_not_integer rfl s
      · rw [hin] at hsymm ⊢
        exact hsymm (filterMap_eq_iff_of_isSome fun s hs => Scalar.isSome_keyAt (hitems s hs) hkf)

namespace Table

variable {t : Table} {h : RowHandle} {f : Field} {m : MemberDef} {k : ScalarKind} {v : Value}

/-- A field of anything but integers has no key. -/
theorem readKey_of_not_int (hk : ¬ ∃ k, f.kind = .scalar (.int k)) (hid : f.isId = false) :
    t.readKey h f = .ok none := by
  unfold readKey
  rw [hid, if_neg Bool.false_ne_true]
  split
  · exact absurd ⟨_, ‹_›⟩ hk
  · rfl

theorem readKeyArray_of_not_int (hk : ¬ ∃ k, f.kind = .scalar (.int k)) :
    t.readKeyArray h f = .ok [] := by
  unfold readKeyArray
  split
  · exact absurd ⟨_, ‹_›⟩ hk
  · rfl

theorem readMember_of_scalarKind? (hk : m.type.scalarKind? = some k) :
    t.readMember h m f = if f.isId then (Value.scalar (.ofInt .i32 h.id)).convert k
      else t.read h f.column (.scalar k) := by
  rw [readMember]
  rcases MemberType.scalar_of_scalarKind? hk with he | he <;> rw [he]

theorem readMember_of_array {shape : CollectionShape}
    (hk : m.type = .array (.scalar k) shape ∨ m.type = .array (.enum k) shape) :
    t.readMember h m f = (t.read h f.column (.array k f.elementCount)).map shape.wrap := by
  rw [readMember]
  rcases hk with he | he <;> rw [he]

/-- A single member that is a number can be read where the key of a row can be. -/
theorem exists_readMember_of_readKey (hsingle : f.isArray = false) {kf : IntKind}
    (hkf : f.kind = .scalar (.int kf)) (hk : m.type.scalarKind? = some k)
    (hnumeric : k.isNumeric = true) {key : Option Int} (hr : t.readKey h f = .ok key) :
    ∃ v, t.readMember h m f = .ok v := by
  rw [readMember_of_scalarKind? hk]
  cases hid : f.isId with
  | true =>
      obtain ⟨s, hs⟩ := Scalar.exists_convert (s := .ofInt .i32 h.id) k hnumeric.symm
      exact ⟨.scalar s, by simp only [if_true, Value.convert, hs]⟩
  | false =>
      simp only [readKey, hid, hkf, hsingle, Bool.false_eq_true, if_false] at hr
      obtain ⟨w, hw, -⟩ := map_eq_ok_iff.mp hr
      obtain ⟨s, -, hread⟩ := scalarsFor_of_read hsingle hid hw
      obtain ⟨s₁, hs₁, -⟩ := Option.map_eq_some_iff.mp ((hread _ _).mp hw)
      obtain ⟨s₂, hs₂⟩ :=
        Scalar.exists_convert k ((Scalar.isNumeric_of_convert hs₁).trans hnumeric.symm)
      exact ⟨.scalar s₂, (hread _ _).mpr (by rw [hs₂, Option.map_some])⟩

/-- A member that is an array of numbers can be read where the keys of a row can be. -/
theorem exists_readMember_of_readKeyArray (harray : f.isArray = true) {kf : IntKind}
    (hkf : f.kind = .scalar (.int kf)) {shape : CollectionShape}
    (hk : m.type = .array (.scalar k) shape ∨ m.type = .array (.enum k) shape)
    (hnumeric : k.isNumeric = true) {keys : List Int} (hr : t.readKeyArray h f = .ok keys) :
    ∃ v, t.readMember h m f = .ok v := by
  rw [readMember_of_array hk]
  simp only [readKeyArray, hkf] at hr
  obtain ⟨w, hw, -⟩ := map_eq_ok_iff.mp hr
  have hreads := scalarsFor_of_readArray harray hw
  obtain ⟨stored, hstored, -⟩ := Option.map_eq_some_iff.mp ((hreads _ _).mp hw)
  have hkinds := (Scalar.keys_of_mapM hstored).2
  obtain ⟨items, hitems⟩ :=
    Scalar.exists_mapM k fun s hs => (hkinds s hs).trans hnumeric.symm
  have hread : t.read h f.column (.array k f.elementCount) = .ok (.array (items.map .scalar)) :=
    (hreads _ _).mpr (by rw [hitems, Option.map_some])
  exact ⟨_, by rw [hread, ok_map]⟩

/-- A single member that is read as a number holds a scalar, and the row sees the same one. Its id
is the key of an id field. -/
theorem keys_of_single (hsingle : f.isArray = false) (hk : m.type.scalarKind? = some k)
    (hnumeric : k.isNumeric = true) (hr : t.readMember h m f = .ok v) :
    ∃ s s' key, t.scalarsFor h f = [s] ∧ s.kind.isNumeric = true ∧ v = .scalar s' ∧
      v.key? = s.keyAt k ∧ t.readKey h f = .ok key ∧
        (IntKind.Holds .i32 h.id → key = f.keyIn s) := by
  rw [readMember_of_scalarKind? hk] at hr
  cases hid : f.isId with
  | true =>
      rw [hid, if_pos rfl] at hr
      obtain ⟨s', hs'⟩ := Scalar.exists_convert (s := .ofInt .i32 h.id) k hnumeric.symm
      simp only [Value.convert, hs'] at hr
      obtain rfl := Except.ok.inj hr
      refine ⟨.ofInt .i32 h.id, s', some h.id, by simp [scalarsFor, hsingle, hid], rfl, rfl,
        (Scalar.keyAt_of_convert hs').symm, by rw [readKey, hid, if_pos rfl], fun hrow => ?_⟩
      have hkind : f.keyKind? = some .i32 := by simp [Field.keyKind?, hsingle, hid]
      rw [Field.keyIn_of_some hkind, Scalar.ofInt_eq hrow, Scalar.keyAt_int,
        IntKind.wrap_eq_self hrow, Option.filter_some_pos]
      exact decide_eq_true (hrow.i64 (by decide))
  | false =>
      rw [hid, if_neg Bool.false_ne_true] at hr
      obtain ⟨s, hs, hread⟩ := scalarsFor_of_read hsingle hid hr
      obtain ⟨s', hs', rfl⟩ := Option.map_eq_some_iff.mp ((hread _ _).mp hr)
      have hsnumeric : s.kind.isNumeric = true := (Scalar.isNumeric_of_convert hs').trans hnumeric
      refine ⟨s, s', f.keyIn s, hs, hsnumeric, rfl, (Scalar.keyAt_of_convert hs').symm, ?_,
        fun _ => rfl⟩
      by_cases hint : ∃ kf, f.kind = .scalar (.int kf)
      · obtain ⟨kf, hkf⟩ := hint
        obtain ⟨s'', hs''⟩ := Scalar.exists_convert (.int kf) hsnumeric
        have hw := (hread (.int kf) (.scalar s'')).mpr (by rw [hs'', Option.map_some])
        rw [Field.keyIn_of_some (f.keyKind?_of_int hkf (by simp [hid])), Scalar.keyAt, hs'']
        simp only [readKey, hid, hkf, hsingle, Bool.false_eq_true, if_false, hw, ok_map]
        rfl
      · rw [readKey_of_not_int hint hid,
          Field.keyIn_of_none (f.keyKind?_of_not_int hint (by simp [hid]))]

/-- A member that is read as an array of numbers holds scalars, and the row sees the same ones. -/
theorem keys_of_array (harray : f.isArray = true) {shape : CollectionShape}
    (hk : m.type = .array (.scalar k) shape ∨ m.type = .array (.enum k) shape)
    (hnumeric : k.isNumeric = true) (hr : t.readMember h m f = .ok v) :
    (∀ s ∈ t.scalarsFor h f, s.kind.isNumeric = true) ∧
      (∃ items, v.items? = some items ∧
        items.filterMap Value.key? = (t.scalarsFor h f).filterMap (Scalar.keyAt k)) ∧
        t.readKeyArray h f = .ok ((t.scalarsFor h f).filterMap f.keyIn) := by
  rw [readMember_of_array hk] at hr
  obtain ⟨w, hw, rfl⟩ := map_eq_ok_iff.mp hr
  have hreads := scalarsFor_of_readArray harray hw
  obtain ⟨items, hitems, rfl⟩ := Option.map_eq_some_iff.mp ((hreads _ _).mp hw)
  obtain ⟨hkeys, hkinds⟩ := Scalar.keys_of_mapM hitems
  have hkinds : ∀ s ∈ t.scalarsFor h f, s.kind.isNumeric = true :=
    fun s hs => (hkinds s hs).trans hnumeric
  refine ⟨hkinds, ?_, ?_⟩
  · exact ⟨items.map .scalar, by cases shape <;> rfl, hkeys⟩
  · by_cases hint : ∃ kf, f.kind = .scalar (.int kf)
    · obtain ⟨kf, hkf⟩ := hint
      obtain ⟨stored, hstored⟩ := Scalar.exists_mapM (.int kf) hkinds
      have hread : t.read h f.column (.array (.int kf) f.elementCount) = _ :=
        (hreads _ _).mpr (by rw [hstored, Option.map_some])
      rw [Field.keyIn_of_some (f.keyKind?_of_int hkf (by simp [harray])),
        ← (Scalar.keys_of_mapM hstored).1]
      simp only [readKeyArray, hkf, hread, ok_map]
      rfl
    · have hnone : ∀ s ∈ t.scalarsFor h f, f.keyIn s = none := fun s _ =>
        Field.keyIn_of_none (f.keyKind?_of_not_int hint (by simp [harray])) s
      rw [readKeyArray_of_not_int hint, List.filterMap_eq_nil_iff.mpr hnone]

end Table

end ColumnQuery
