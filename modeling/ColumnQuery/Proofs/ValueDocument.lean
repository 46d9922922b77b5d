import ColumnQuery.Expr.Document
import ColumnQuery.Proofs.JsonText
import ColumnQuery.Proofs.NumberText
import Mathlib.Data.List.Nodup

/-! # Documents of values

A value without floats is decoded from its document, wherever the document is nested no deeper than
the decoder descends; and the document of a decoded value is never nested deeper. -/

namespace ColumnQuery

open Json

/-! ## Depth -/

namespace Json

mutual

/-- How deep the arrays and objects of a document are nested. -/
def depth : Json → Nat
  | .array items => depthOfItems items + 1
  | .object entries => depthOfEntries entries + 1
  | _ => 0

def depthOfItems : List Json → Nat
  | [] => 0
  | j :: rest => max (depth j) (depthOfItems rest)

def depthOfEntries : List (List StringUnit × Json) → Nat
  | [] => 0
  | (_, j) :: rest => max (depth j) (depthOfEntries rest)

end

variable {d : Nat} {items : List Json} {entries : List (String × Json)}

theorem depth_array_le_iff :
    (Json.array items).depth ≤ d ↔ ∃ e, d = e + 1 ∧ ∀ j ∈ items, j.depth ≤ e := by
  have hitems : ∀ (items : List Json) (e : Nat),
      depthOfItems items ≤ e ↔ ∀ j ∈ items, j.depth ≤ e := by
    intro items e
    induction items with
    | nil => simp [depthOfItems]
    | cons j items ih => rw [depthOfItems, Nat.max_le, ih, List.forall_mem_cons]
  cases d with
  | zero => simp [depth]
  | succ d => simp [depth, hitems]

theorem ofEntries_eq (entries : List (String × Json)) :
    ofEntries entries = .object (entries.map fun e => (unitsOf e.1, e.2)) := rfl

theorem depth_ofEntries_le_iff :
    (ofEntries entries).depth ≤ d ↔ ∃ e, d = e + 1 ∧ ∀ entry ∈ entries, entry.2.depth ≤ e := by
  have hentries : ∀ (entries : List (String × Json)) (e : Nat),
      depthOfEntries (entries.map fun e => (unitsOf e.1, e.2)) ≤ e ↔
        ∀ entry ∈ entries, entry.2.depth ≤ e := by
    intro entries e
    induction entries with
    | nil => simp [depthOfEntries]
    | cons entry entries ih =>
        rw [List.map_cons, depthOfEntries, Nat.max_le, ih, List.forall_mem_cons]
  cases d with
  | zero => simp [depth, ofEntries_eq]
  | succ d =>
      simp only [depth, ofEntries_eq, hentries, Nat.add_le_add_iff_right,
        Nat.add_right_cancel_iff, exists_eq_left']

theorem depth_tagged_le_iff {tag : String} {j : Json} :
    (tagged tag j).depth ≤ d ↔ ∃ e, d = e + 1 ∧ j.depth ≤ e := by
  have htagged : tagged tag j = ofEntries [(tag, j)] := rfl
  rw [htagged, depth_ofEntries_le_iff]
  simp

theorem depth_structured_le_iff {tag : String} :
    (tagged tag (ofEntries entries)).depth ≤ d ↔
      ∃ e, d = e + 1 + 1 ∧ ∀ entry ∈ entries, entry.2.depth ≤ e := by
  rw [depth_tagged_le_iff]
  constructor
  · rintro ⟨_, rfl, h⟩
    obtain ⟨e, rfl, hentries⟩ := depth_ofEntries_le_iff.mp h
    exact ⟨e, rfl, hentries⟩
  · rintro ⟨e, rfl, hentries⟩
    exact ⟨e + 1, rfl, depth_ofEntries_le_iff.mpr ⟨e, rfl, hentries⟩⟩

@[simp] theorem depth_ofString (s : String) : (ofString s).depth = 0 := rfl

@[simp] theorem depth_ofInt (n : Int) : (ofInt n).depth = 0 := rfl

def ofPair {α : Type} (f : α → Json) (p : String × α) : Json :=
  .array [.ofString p.1, f p.2]

section

variable {α : Type} {f : α → Json} {xs : List α} {p : String × α}

theorem depth_array_map_le_iff :
    (Json.array (xs.map f)).depth ≤ d ↔ ∃ e, d = e + 1 ∧ ∀ x ∈ xs, (f x).depth ≤ e := by
  rw [depth_array_le_iff]
  simp only [List.forall_mem_map]

theorem depth_ofPair_le_iff : (ofPair f p).depth ≤ d ↔ ∃ e, d = e + 1 ∧ (f p.2).depth ≤ e := by
  rw [ofPair, depth_array_le_iff]
  simp

end

/-! ## What can be read -/

theorem Readable.ofString (s : String) : Readable (.ofString s) :=
  .string s.toList

theorem Readable.ofEntries (h : ∀ entry ∈ entries, Readable entry.2) :
    Readable (.ofEntries entries) := by
  have hread := Readable.object (entries.map fun e => (e.1.toList, e.2)) ?_
  · rw [List.map_map] at hread
    exact hread
  · intro e he
    obtain ⟨entry, hentry, rfl⟩ := List.mem_map.mp he
    exact h entry hentry

theorem Readable.tagged {tag : String} {j : Json} (h : Readable j) : Readable (.tagged tag j) :=
  Readable.ofEntries (List.forall_mem_singleton.mpr h : ∀ entry ∈ [(tag, j)], Readable entry.2)

theorem Readable.array_map {α : Type} {f : α → Json} {xs : List α}
    (h : ∀ x ∈ xs, Readable (f x)) : Readable (.array (xs.map f)) :=
  .array _ (List.forall_mem_map.mpr h)

theorem Readable.ofPair {α : Type} {f : α → Json} {p : String × α} (h : Readable (f p.2)) :
    Readable (ofPair f p) :=
  .array _ (by simpa [Readable.ofString] using h)

theorem Readable.ofInt (n : Int) : Readable (.ofInt n) := by
  rw [ofInt_eq]
  refine .number _ ⟨?_, by rw [ofChars?_intChars]; rfl⟩
  have hnumber : ∀ c ∈ Nat.toDigits 10 n.natAbs, isNumberChar c = true := by
    intro c hc
    simp [isNumberChar, isDigit_of_mem hc]
  rw [intChars]
  split
  · exact ⟨'-', _, rfl, rfl, hnumber⟩
  · obtain ⟨c, cs, hcs⟩ : ∃ c cs, Nat.toDigits 10 n.natAbs = c :: cs :=
      List.exists_cons_of_ne_nil Nat.toDigits_ne_nil
    have hc : c ∈ Nat.toDigits 10 n.natAbs := by simp [hcs]
    rw [hcs] at hnumber
    exact ⟨c, cs, hcs, by simp [isDigit_of_mem hc], (List.forall_mem_cons.mp hnumber).2⟩

/-! ## What is read back -/

theorem asText?_reread (s : String) : (reread (.ofString s)).asText? = some s := by
  rw [Json.ofString, reread, asText?, textOf?_reread]

theorem asTagged?_reread_ofString (s : String) :
    (reread (.ofString s)).asTagged? = some (s, none) := by
  simp [Json.ofString, reread, asTagged?, textOf?_reread]

theorem asTagged?_reread_tagged (tag : String) (j : Json) :
    (reread (.tagged tag j)).asTagged? = some (tag, some (reread j)) := by
  simp [tagged, reread, rereadEntries, asTagged?, textOf?_reread]

theorem tagDepth_reread_tagged (tag : String) (j : Json) :
    (reread (.tagged tag j)).tagDepth (d + 1) = some d := by
  simp [tagged, reread, tagDepth]

theorem lookup_map_of_nodup {α β : Type} {f : α → β} {entries : List (String × α)}
    (hn : (entries.map (·.1)).Nodup) : ∀ entry ∈ entries,
      (entries.map fun e => (e.1, f e.2)).lookup entry.1 = some (f entry.2) := by
  induction entries with
  | nil => simp
  | cons first entries ih =>
      obtain ⟨hfirst, hn⟩ := List.nodup_cons.mp hn
      intro entry hentry
      rw [List.map_cons, List.lookup_cons]
      rcases List.mem_cons.mp hentry with rfl | hentry
      · simp
      · have hne : (entry.1 == first.1) = false := by
          rw [beq_eq_false_iff_ne]
          intro he
          exact hfirst (List.mem_map.mpr ⟨entry, hentry, he⟩)
        rw [hne]
        exact ih hn entry hentry

/-- Where a tag comes with a payload, the decoder enters an object. -/
theorem pos_of_tagDepth {j payload : Json} {e : Nat} {tag : String}
    (hdepth : j.tagDepth d = some e) (htag : j.asTagged? = some (tag, some payload)) : 0 < d := by
  cases j with
  | object entries =>
      simp only [tagDepth] at hdepth
      split at hdepth
      · cases hdepth
      · omega
  | string units =>
      simp only [asTagged?, Option.map_eq_some_iff] at htag
      obtain ⟨_, -, h⟩ := htag
      cases h
  | _ => cases htag

theorem collect?_eq (names : List String) (entries : List (List StringUnit × Json)) :
    collect? names entries =
      (entries.mapM fun e => (textOf? e.1).map (·, e.2)) >>= fun read =>
        if names.any fun name => 1 < read.countP (·.1 == name) then none
        else some (names.map fun name => read.lookup name) := rfl

/-- The contents of a structure are read back by their names. -/
theorem completeStructure?_reread (entries : List (String × Json))
    (hn : (entries.map (·.1)).Nodup) :
    (reread (.ofEntries entries)).completeStructure? (entries.map (·.1)) =
      some (entries.map fun entry => reread entry.2) := by
  have hnames : ((rereadEntries (entries.map fun e => (unitsOf e.1, e.2))).mapM
      fun e => (textOf? e.1).map (·, e.2)) =
        some (entries.map fun e => (e.1, reread e.2)) := by
    rw [rereadEntries_eq, List.map_map]
    induction entries with
    | nil => rfl
    | cons entry entries ih =>
        simp [textOf?_reread, ih (List.nodup_cons.mp hn).2]
  have honce : (entries.map (·.1)).any (fun name =>
      1 < (entries.map fun e => (e.1, reread e.2)).countP (·.1 == name)) = false := by
    rw [List.any_eq_false]
    intro name _
    have hcount : (entries.map fun e => (e.1, reread e.2)).countP (·.1 == name) =
        (entries.map (·.1)).count name := by
      rw [List.count, List.countP_map, List.countP_map]
      rfl
    simpa [hcount] using List.nodup_iff_count_le_one.mp hn name
  have hlookup : (entries.map (·.1)).map
      (fun name => (entries.map fun e => (e.1, reread e.2)).lookup name) =
        (entries.map fun entry => reread entry.2).map some := by
    rw [List.map_map, List.map_map]
    exact List.map_congr_left (lookup_map_of_nodup hn)
  rw [ofEntries_eq, reread, completeStructure?, structure?, collect?_eq, hnames,
    Option.bind_eq_bind, Option.bind_some, honce, if_neg Bool.false_ne_true, hlookup,
    Option.bind_some]
  generalize entries.map (fun entry => reread entry.2) = contents
  induction contents with
  | nil => rfl
  | cons j contents ih => simp [ih]

theorem mapM_reread {α : Type} {f : α → Json} {g : Json → Option α} {xs : List α}
    (h : ∀ x ∈ xs, g (reread (f x)) = some x) : (rereadItems (xs.map f)).mapM g = some xs := by
  induction xs with
  | nil => rfl
  | cons x xs ih =>
      obtain ⟨hx, hxs⟩ := List.forall_mem_cons.mp h
      simp [rereadItems, hx, ih hxs]

theorem exists_of_mapM_eq_some {α β : Type} {g : α → Option β} {xs : List α} {ys : List β}
    (h : xs.mapM g = some ys) : ∀ y ∈ ys, ∃ x ∈ xs, g x = some y := by
  induction xs generalizing ys with
  | nil =>
      obtain rfl : [] = ys := by simpa using h
      simp
  | cons x xs ih =>
      rw [List.mapM_cons] at h
      obtain ⟨y, hy, h⟩ := Option.bind_eq_some_iff.mp h
      obtain ⟨ys', hys, h⟩ := Option.bind_eq_some_iff.mp h
      obtain rfl := Option.some.inj h
      refine List.forall_mem_cons.mpr ⟨⟨x, List.mem_cons_self, hy⟩, fun z hz => ?_⟩
      obtain ⟨w, hw, hg⟩ := ih hys z hz
      exact ⟨w, List.mem_cons_of_mem x hw, hg⟩

theorem pair?_eq_some_iff {α : Type} {decode : Json → Option α} {j : Json} {p : String × α} :
    pair? decode j = some p ↔
      ∃ name a, j = .array [name, a] ∧ name.asText? = some p.1 ∧ decode a = some p.2 := by
  obtain ⟨name, a⟩ := p
  constructor
  · intro h
    unfold pair? at h
    split at h
    · rename_i name' j'
      obtain ⟨_, hname, h⟩ := Option.bind_eq_some_iff.mp h
      obtain ⟨_, ha, h⟩ := Option.bind_eq_some_iff.mp h
      obtain ⟨rfl, rfl⟩ := Prod.mk.inj (Option.some.inj h)
      exact ⟨name', j', rfl, hname, ha⟩
    · cases h
  · rintro ⟨name', j', rfl, hname, ha⟩
    simp_all [pair?]

theorem pair?_reread {α : Type} {f : α → Json} {decode : Json → Option α} {p : String × α}
    (h : decode (reread (f p.2)) = some p.2) : pair? decode (reread (ofPair f p)) = some p :=
  pair?_eq_some_iff.mpr ⟨_, _, rfl, asText?_reread p.1, h⟩

end Json

/-! ## Scalars -/

theorem ScalarKind.ofTag?_tag (k : ScalarKind) : ScalarKind.ofTag? k.tag = some k := by
  rcases k with _ | k | _ | _
  · decide
  · cases k <;> decide
  · decide
  · decide

theorem ScalarKind.ofJson?_reread (d : Nat) (k : ScalarKind) :
    ScalarKind.ofJson? d (reread (.ofString k.tag)) = some k := by
  have hdepth : (reread (.ofString k.tag)).tagDepth d = some d := rfl
  simp [ScalarKind.ofJson?, hdepth, asTagged?_reread_ofString, ScalarKind.ofTag?_tag,
    isUnitPayload]

namespace Scalar

variable {s : Scalar} {d : Nat} {j : Json}

theorem readable_toJson (h : s.kind.isFloat = false) : Readable s.toJson := by
  cases s with
  | bool b => exact (Readable.bool b).tagged
  | int k n hn => exact (Readable.ofInt n).tagged
  | f32 x => cases h
  | f64 x => cases h

theorem depth_toJson (s : Scalar) : s.toJson.depth = 1 := by
  have hfloat : ∀ tag text, (tagged tag (.ofFloatText text)).depth = 1 := by
    intro tag text
    rw [Json.ofFloatText]
    split <;> rfl
  cases s with
  | bool b => rfl
  | int k n hn => rfl
  | f32 x => exact hfloat _ _
  | f64 x => exact hfloat _ _

/-- A scalar that is not a float is decoded from its document. -/
theorem ofJson?_reread (h : s.kind.isFloat = false) (d : Nat) :
    Scalar.ofJson? (d + 1) (reread s.toJson) = some s := by
  unfold Scalar.toJson Scalar.ofJson?
  rw [tagDepth_reread_tagged, asTagged?_reread_tagged]
  cases s with
  | bool b => simp [ScalarKind.ofTag?_tag, Scalar.kind, ofPayload?, reread, asBool?]
  | int k n hn =>
      have hint : (reread (.ofInt n)).asInt? = some n := asInt?_ofInt_of_holds hn
      simp [ScalarKind.ofTag?_tag, Scalar.kind, ofPayload?, hint, ofInt?, hn]
  | f32 x => cases h
  | f64 x => cases h

theorem depth_of_ofJson? (h : Scalar.ofJson? d j = some s) : s.toJson.depth ≤ d := by
  unfold Scalar.ofJson? at h
  obtain ⟨_, hdepth, h⟩ := Option.bind_eq_some_iff.mp h
  obtain ⟨⟨tag, payload⟩, htag, h⟩ := Option.bind_eq_some_iff.mp h
  obtain ⟨kind, -, h⟩ := Option.bind_eq_some_iff.mp h
  obtain ⟨payload, rfl, -⟩ := Option.bind_eq_some_iff.mp h
  rw [s.depth_toJson]
  exact pos_of_tagDepth hdepth htag

end Scalar

/-! ## Values -/

namespace Value

/-- No scalar in the value is a float. -/
inductive FloatFree : Value → Prop where
  | null : FloatFree .null
  | scalar (s : Scalar) (h : s.kind.isFloat = false) : FloatFree (.scalar s)
  | char (c : Char) : FloatFree (.char c)
  | string (s : String) : FloatFree (.string s)
  | array (items : List Value) (h : ∀ v ∈ items, FloatFree v) : FloatFree (.array items)
  | collection (items : List Value) (h : ∀ v ∈ items, FloatFree v) : FloatFree (.collection items)
  | entity (type : String) (fields : List (String × Value))
      (h : ∀ field ∈ fields, FloatFree field.2) : FloatFree (.entity type fields)
  | record (fields : List (String × Value)) (h : ∀ field ∈ fields, FloatFree field.2) :
      FloatFree (.record fields)

theorem itemsToJson_eq (items : List Value) : itemsToJson items = items.map toJson := by
  induction items with
  | nil => rfl
  | cons v items ih => rw [itemsToJson, List.map_cons, ih]

theorem fieldsToJson_eq (fields : List (String × Value)) :
    fieldsToJson fields = fields.map (ofPair toJson) := by
  induction fields with
  | nil => rfl
  | cons field fields ih =>
      rw [fieldsToJson, List.map_cons, ih]
      rfl

variable {v : Value} {d : Nat}

/-- The document of a value without floats can be read. -/
theorem FloatFree.readable (h : FloatFree v) : Readable v.toJson := by
  induction h with
  | null => exact .ofString "Null"
  | scalar s h => exact (Scalar.readable_toJson h).tagged
  | char c => exact (Readable.ofString _).tagged
  | string s => exact (Readable.ofString s).tagged
  | array items h ih =>
      rw [toJson, itemsToJson_eq]
      exact (Readable.array_map ih).tagged
  | collection items h ih =>
      rw [toJson, itemsToJson_eq]
      exact (Readable.array_map ih).tagged
  | entity type fields h ih =>
      have hfields := Readable.array_map fun field hfield => (ih field hfield).ofPair
      rw [toJson, fieldsToJson_eq]
      exact (Readable.ofEntries (by simpa [Readable.ofString] using hfields)).tagged
  | record fields h ih =>
      rw [toJson, fieldsToJson_eq]
      exact (Readable.array_map fun field hfield => (ih field hfield).ofPair).tagged

theorem itemsOf?_reread {items : List Value}
    (h : ∀ v ∈ items, ∀ d, v.toJson.depth ≤ d → ofJson? d (reread v.toJson) = some v)
    (hd : (Json.array (itemsToJson items)).depth ≤ d) :
    itemsOf? d (reread (.array (itemsToJson items))) = some items := by
  rw [itemsToJson_eq] at hd ⊢
  obtain ⟨e, rfl, hitems⟩ := depth_array_map_le_iff.mp hd
  rw [reread, itemsOf?]
  exact mapM_reread fun v hv => h v hv e (hitems v hv)

theorem fieldsOf?_reread {fields : List (String × Value)}
    (h : ∀ field ∈ fields, ∀ d, field.2.toJson.depth ≤ d →
      ofJson? d (reread field.2.toJson) = some field.2)
    (hd : (Json.array (fieldsToJson fields)).depth ≤ d) :
    fieldsOf? d (reread (.array (fieldsToJson fields))) = some fields := by
  rw [fieldsToJson_eq] at hd ⊢
  obtain ⟨e, rfl, hfields⟩ := depth_array_map_le_iff.mp hd
  rw [reread, fieldsOf?]
  refine mapM_reread fun field hfield => ?_
  obtain ⟨e, rfl, hfield'⟩ := depth_ofPair_le_iff.mp (hfields field hfield)
  rw [fieldOf?]
  exact pair?_reread (h field hfield e hfield')

/-- A value without floats is decoded from its document. -/
theorem FloatFree.ofJson?_reread (h : FloatFree v) (hd : v.toJson.depth ≤ d) :
    ofJson? d (reread v.toJson) = some v := by
  induction h generalizing d with
  | null =>
      cases d with
      | zero => rw [toJson, ofJson?, asText?_reread, if_pos rfl]
      | succ d => simp [toJson, ofJson?, asTagged?_reread_ofString, isUnitPayload]
  | scalar s h =>
      obtain ⟨e, rfl, hs⟩ := depth_tagged_le_iff.mp hd
      rw [s.depth_toJson] at hs
      obtain ⟨e, rfl⟩ := Nat.exists_eq_add_of_le' hs
      simp [toJson, ofJson?, asTagged?_reread_tagged, Scalar.ofJson?_reread h]
  | char c =>
      obtain ⟨e, rfl, -⟩ := depth_tagged_le_iff.mp hd
      simp [toJson, ofJson?, asTagged?_reread_tagged, asChar?, asText?_reread]
  | string s =>
      obtain ⟨e, rfl, -⟩ := depth_tagged_le_iff.mp hd
      simp [toJson, ofJson?, asTagged?_reread_tagged, asText?_reread]
  | array items h ih =>
      obtain ⟨e, rfl, hitems⟩ := depth_tagged_le_iff.mp hd
      simp [toJson, ofJson?, asTagged?_reread_tagged,
        itemsOf?_reread (fun v hv _ => ih v hv) hitems]
  | collection items h ih =>
      obtain ⟨e, rfl, hitems⟩ := depth_tagged_le_iff.mp hd
      simp [toJson, ofJson?, asTagged?_reread_tagged,
        itemsOf?_reread (fun v hv _ => ih v hv) hitems]
  | entity type fields h ih =>
      obtain ⟨e, rfl, hcontents⟩ := depth_structured_le_iff.mp hd
      have hfields := fieldsOf?_reread (fun field hfield _ => ih field hfield)
        (hcontents ("fields", .array (fieldsToJson fields)) (by simp))
      have hstructure := completeStructure?_reread
        [("entity", .ofString type), ("fields", .array (fieldsToJson fields))] (by simp)
      simp only [List.map_cons, List.map_nil] at hstructure
      simp [toJson, ofJson?, asTagged?_reread_tagged, entityOf?, hstructure, asText?_reread,
        hfields]
  | record fields h ih =>
      obtain ⟨e, rfl, hfields⟩ := depth_tagged_le_iff.mp hd
      simp [toJson, ofJson?, asTagged?_reread_tagged,
        fieldsOf?_reread (fun field hfield _ => ih field hfield) hfields]

section

variable {j : Json}

theorem depth_of_itemsOf? {items : List Value}
    (hdepth : ∀ e < d, ∀ j v, ofJson? e j = some v → v.toJson.depth ≤ e)
    (h : itemsOf? d j = some items) : (Json.array (itemsToJson items)).depth ≤ d := by
  unfold itemsOf? at h
  split at h
  · rename_i e given
    rw [itemsToJson_eq]
    refine depth_array_map_le_iff.mpr ⟨e, rfl, fun v hv => ?_⟩
    obtain ⟨j', -, hj'⟩ := exists_of_mapM_eq_some h v hv
    exact hdepth e (by omega) j' v hj'
  · cases h

theorem depth_of_fieldsOf? {fields : List (String × Value)}
    (hdepth : ∀ e < d, ∀ j v, ofJson? e j = some v → v.toJson.depth ≤ e)
    (h : fieldsOf? d j = some fields) : (Json.array (fieldsToJson fields)).depth ≤ d := by
  unfold fieldsOf? at h
  split at h
  · rename_i e given
    rw [fieldsToJson_eq]
    refine depth_array_map_le_iff.mpr ⟨e, rfl, fun field hfield => ?_⟩
    obtain ⟨j', -, hj'⟩ := exists_of_mapM_eq_some h field hfield
    cases e with
    | zero => cases hj'
    | succ e =>
        obtain ⟨_, a, rfl, -, ha⟩ := pair?_eq_some_iff.mp hj'
        exact depth_ofPair_le_iff.mpr ⟨e, rfl, hdepth e (by omega) a field.2 ha⟩
  · cases h

theorem depth_of_entityOf?
    (hdepth : ∀ e < d, ∀ j v, ofJson? e j = some v → v.toJson.depth ≤ e)
    (h : entityOf? d j = some v) : v.toJson.depth ≤ d + 1 := by
  unfold entityOf? at h
  split at h
  · cases h
  · rename_i e
    obtain ⟨contents, -, h⟩ := Option.bind_eq_some_iff.mp h
    split at h
    · obtain ⟨type, -, h⟩ := Option.bind_eq_some_iff.mp h
      obtain ⟨fields, hfields, h⟩ := Option.bind_eq_some_iff.mp h
      obtain rfl := Option.some.inj h
      have hlt : ∀ e' < e, ∀ j v, ofJson? e' j = some v → v.toJson.depth ≤ e' :=
        fun e' he' => hdepth e' (by omega)
      refine depth_structured_le_iff.mpr ⟨e, rfl, ?_⟩
      simpa using depth_of_fieldsOf? hlt hfields
    · cases h

/-- The document of a decoded value is nested no deeper than the decoder descends. -/
theorem depth_of_ofJson? (h : ofJson? d j = some v) : v.toJson.depth ≤ d := by
  induction d using Nat.strongRecOn generalizing j v with
  | ind d ih =>
      cases d with
      | zero =>
          rw [ofJson?] at h
          split at h
          · obtain rfl := Option.some.inj h
            exact Nat.le_refl 0
          · cases h
      | succ d =>
          have hdepth : ∀ e < d, ∀ j v, ofJson? e j = some v → v.toJson.depth ≤ e :=
            fun e he j v => ih e (by omega)
          rw [ofJson?] at h
          obtain ⟨⟨tag, payload⟩, -, h⟩ := Option.bind_eq_some_iff.mp h
          split at h
          · split at h
            · obtain rfl := Option.some.inj h
              exact Nat.zero_le _
            · cases h
          · obtain ⟨s, hs, rfl⟩ := Option.map_eq_some_iff.mp h
            exact depth_tagged_le_iff.mpr ⟨d, rfl, Scalar.depth_of_ofJson? hs⟩
          · obtain ⟨c, -, rfl⟩ := Option.map_eq_some_iff.mp h
            exact depth_tagged_le_iff.mpr ⟨d, rfl, Nat.zero_le d⟩
          · obtain ⟨s, -, rfl⟩ := Option.map_eq_some_iff.mp h
            exact depth_tagged_le_iff.mpr ⟨d, rfl, Nat.zero_le d⟩
          · obtain ⟨items, hitems, rfl⟩ := Option.map_eq_some_iff.mp h
            exact depth_tagged_le_iff.mpr ⟨d, rfl, depth_of_itemsOf? hdepth hitems⟩
          · obtain ⟨items, hitems, rfl⟩ := Option.map_eq_some_iff.mp h
            exact depth_tagged_le_iff.mpr ⟨d, rfl, depth_of_itemsOf? hdepth hitems⟩
          · exact depth_of_entityOf? hdepth h
          · obtain ⟨fields, hfields, rfl⟩ := Option.map_eq_some_iff.mp h
            exact depth_tagged_le_iff.mpr ⟨d, rfl, depth_of_fieldsOf? hdepth hfields⟩
          · cases h

end

end Value

end ColumnQuery
