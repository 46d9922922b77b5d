import ColumnQuery.Proofs.ValueDocument

/-! # Documents of expressions

An expression whose constants are free of floats is decoded from its text exactly if the document is
nested no deeper than the decoder descends. Whatever is decoded has such a document, so a text that
is accepted and written anew decodes to the same expression. -/

namespace ColumnQuery

open Json

/-! ## Operators and methods -/

theorem BinaryOp.find?_tag (op : BinaryOp) :
    BinaryOp.all.find? (·.tag == op.tag) = some op := by
  rcases op with op | op | op <;> cases op <;> decide

theorem BinaryOp.ofJson?_reread (d : Nat) (op : BinaryOp) :
    BinaryOp.ofJson? d (reread (.ofString op.tag)) = some op := by
  have hdepth : (reread (.ofString op.tag)).tagDepth d = some d := rfl
  simp [BinaryOp.ofJson?, hdepth, asTagged?_reread_ofString, BinaryOp.find?_tag, isUnitPayload]

namespace Method

variable {m : Method} {d : Nat}

theorem readable_toJson (m : Method) : Readable m.toJson := by
  cases m with
  | custom name => exact (Readable.ofString name).tagged
  | _ => exact .ofString _

/-- A method is decoded from its document, be it known or custom. -/
theorem ofJson?_reread (hd : m.toJson.depth ≤ d) : Method.ofJson? d (reread m.toJson) = some m := by
  cases m with
  | custom name =>
      obtain ⟨e, rfl, -⟩ := depth_tagged_le_iff.mp hd
      simp [Method.ofJson?, toJson, tagDepth_reread_tagged, asTagged?_reread_tagged,
        asText?_reread]
  | _ =>
      rw [Method.ofJson?, toJson, asTagged?_reread_ofString]
      · rfl
      · simp

theorem depth_of_ofJson? {j : Json} (h : Method.ofJson? d j = some m) : m.toJson.depth ≤ d := by
  cases m with
  | custom name =>
      unfold Method.ofJson? at h
      obtain ⟨_, hdepth, h⟩ := Option.bind_eq_some_iff.mp h
      obtain ⟨tagged, htag, h⟩ := Option.bind_eq_some_iff.mp h
      split at h
      · obtain ⟨payload, rfl, -⟩ := Option.bind_eq_some_iff.mp h
        exact pos_of_tagDepth hdepth htag
      · obtain ⟨method, hknown, h⟩ := Option.bind_eq_some_iff.mp h
        split at h
        · obtain rfl := Option.some.inj h
          have hmem := List.mem_of_find?_eq_some hknown
          simp [known] at hmem
        · cases h
  | _ => exact Nat.zero_le d

end Method

/-! ## Expressions -/

namespace Expr

/-- No constant of the expression has a scalar that is a float. -/
inductive FloatFree : Expr → Prop where
  | source (entity : String) : FloatFree (.source entity)
  | parameter (name : String) : FloatFree (.parameter name)
  | constant (v : Value) (h : v.FloatFree) : FloatFree (.constant v)
  | member (target : Expr) (name : String) (h : FloatFree target) : FloatFree (.member target name)
  | convert (operand : Expr) (kind : ScalarKind) (h : FloatFree operand) :
      FloatFree (.convert operand kind)
  | not (operand : Expr) (h : FloatFree operand) : FloatFree (.not operand)
  | binary (op : BinaryOp) (left right : Expr) (hl : FloatFree left) (hr : FloatFree right) :
      FloatFree (.binary op left right)
  | call (method : Method) (target : Expr) (args : List Expr) (ht : FloatFree target)
      (ha : ∀ e ∈ args, FloatFree e) : FloatFree (.call method target args)
  | conditional (test ifTrue ifFalse : Expr) (h : FloatFree test) (ht : FloatFree ifTrue)
      (hf : FloatFree ifFalse) : FloatFree (.conditional test ifTrue ifFalse)
  | record (members : List (String × Expr)) (h : ∀ m ∈ members, FloatFree m.2) :
      FloatFree (.record members)
  | array (items : List Expr) (h : ∀ e ∈ items, FloatFree e) : FloatFree (.array items)
  | lambda (parameter : String) (body : Expr) (h : FloatFree body) :
      FloatFree (.lambda parameter body)

theorem listToJson_eq (items : List Expr) : listToJson items = items.map toJson := by
  induction items with
  | nil => rfl
  | cons e items ih => rw [listToJson, List.map_cons, ih]

theorem membersToJson_eq (members : List (String × Expr)) :
    membersToJson members = members.map (ofPair toJson) := by
  induction members with
  | nil => rfl
  | cons m members ih =>
      rw [membersToJson, List.map_cons, ih]
      rfl

variable {e : Expr} {d : Nat}

/-- The document of an expression without floats can be read. -/
theorem FloatFree.readable (h : FloatFree e) : Readable e.toJson := by
  induction h with
  | source entity => exact (Readable.ofString entity).tagged
  | parameter name => exact (Readable.ofString name).tagged
  | constant v h => exact h.readable.tagged
  | member target name h ih =>
      exact (Readable.ofEntries (by simpa [Readable.ofString] using ih)).tagged
  | convert operand kind h ih =>
      exact (Readable.ofEntries (by simpa [Readable.ofString] using ih)).tagged
  | not operand h ih => exact ih.tagged
  | binary op left right hl hr ihl ihr =>
      exact (Readable.ofEntries (by simpa [Readable.ofString] using ⟨ihl, ihr⟩)).tagged
  | call method target args ht ha iht iha =>
      have hargs := Readable.array_map iha
      rw [toJson, listToJson_eq]
      exact (Readable.ofEntries (by simpa using ⟨method.readable_toJson, iht, hargs⟩)).tagged
  | conditional test ifTrue ifFalse h ht hf ih iht ihf =>
      exact (Readable.ofEntries (by simpa using ⟨ih, iht, ihf⟩)).tagged
  | record members h ih =>
      rw [toJson, membersToJson_eq]
      exact (Readable.array_map fun m hm => (ih m hm).ofPair).tagged
  | array items h ih =>
      rw [toJson, listToJson_eq]
      exact (Readable.array_map ih).tagged
  | lambda parameter body h ih =>
      exact (Readable.ofEntries (by simpa [Readable.ofString] using ih)).tagged

theorem listOf?_reread {items : List Expr}
    (h : ∀ e ∈ items, ∀ d, e.toJson.depth ≤ d → ofJson? d (reread e.toJson) = some e)
    (hd : (Json.array (listToJson items)).depth ≤ d) :
    listOf? d (reread (.array (listToJson items))) = some items := by
  rw [listToJson_eq] at hd ⊢
  obtain ⟨d, rfl, hitems⟩ := depth_array_map_le_iff.mp hd
  rw [reread, listOf?]
  exact mapM_reread fun e he => h e he d (hitems e he)

theorem membersOf?_reread {members : List (String × Expr)}
    (h : ∀ m ∈ members, ∀ d, m.2.toJson.depth ≤ d → ofJson? d (reread m.2.toJson) = some m.2)
    (hd : (Json.array (membersToJson members)).depth ≤ d) :
    membersOf? d (reread (.array (membersToJson members))) = some members := by
  rw [membersToJson_eq] at hd ⊢
  obtain ⟨d, rfl, hmembers⟩ := depth_array_map_le_iff.mp hd
  rw [reread, membersOf?]
  refine mapM_reread fun m hm => ?_
  obtain ⟨d, rfl, hm'⟩ := depth_ofPair_le_iff.mp (hmembers m hm)
  rw [memberOf?]
  exact pair?_reread (h m hm d hm')

/-- An expression without floats is decoded from its document. -/
theorem FloatFree.ofJson?_reread (h : FloatFree e) (hd : e.toJson.depth ≤ d) :
    ofJson? d (reread e.toJson) = some e := by
  induction h generalizing d with
  | source entity =>
      obtain ⟨d, rfl, -⟩ := depth_tagged_le_iff.mp hd
      simp [toJson, ofJson?, asTagged?_reread_tagged, asText?_reread]
  | parameter name =>
      obtain ⟨d, rfl, -⟩ := depth_tagged_le_iff.mp hd
      simp [toJson, ofJson?, asTagged?_reread_tagged, asText?_reread]
  | constant v h =>
      obtain ⟨d, rfl, hv⟩ := depth_tagged_le_iff.mp hd
      simp [toJson, ofJson?, asTagged?_reread_tagged, h.ofJson?_reread hv]
  | not operand h ih =>
      obtain ⟨d, rfl, hoperand⟩ := depth_tagged_le_iff.mp hd
      simp [toJson, ofJson?, asTagged?_reread_tagged, ih hoperand]
  | record members h ih =>
      obtain ⟨d, rfl, hmembers⟩ := depth_tagged_le_iff.mp hd
      simp [toJson, ofJson?, asTagged?_reread_tagged,
        membersOf?_reread (fun m hm _ => ih m hm) hmembers]
  | array items h ih =>
      obtain ⟨d, rfl, hitems⟩ := depth_tagged_le_iff.mp hd
      simp [toJson, ofJson?, asTagged?_reread_tagged, listOf?_reread (fun e he _ => ih e he) hitems]
  | member target name h ih =>
      obtain ⟨d, rfl, hcontents⟩ := depth_structured_le_iff.mp hd
      have hstructure := completeStructure?_reread
        [("target", target.toJson), ("member", .ofString name)] (by simp)
      have htarget := ih (hcontents ("target", target.toJson) (by simp))
      simp only [List.map_cons, List.map_nil] at hstructure
      simp [toJson, ofJson?, structuredOf?, contentNames, asTagged?_reread_tagged, hstructure,
        htarget, asText?_reread]
  | convert operand kind h ih =>
      obtain ⟨d, rfl, hcontents⟩ := depth_structured_le_iff.mp hd
      have hstructure := completeStructure?_reread
        [("operand", operand.toJson), ("kind", .ofString kind.tag)] (by simp)
      have hoperand := ih (hcontents ("operand", operand.toJson) (by simp))
      simp only [List.map_cons, List.map_nil] at hstructure
      simp [toJson, ofJson?, structuredOf?, contentNames, asTagged?_reread_tagged, hstructure,
        hoperand, ScalarKind.ofJson?_reread]
  | binary op left right hl hr ihl ihr =>
      obtain ⟨d, rfl, hcontents⟩ := depth_structured_le_iff.mp hd
      have hstructure := completeStructure?_reread
        [("op", .ofString op.tag), ("left", left.toJson), ("right", right.toJson)] (by simp)
      have hleft := ihl (hcontents ("left", left.toJson) (by simp))
      have hright := ihr (hcontents ("right", right.toJson) (by simp))
      simp only [List.map_cons, List.map_nil] at hstructure
      simp [toJson, ofJson?, structuredOf?, contentNames, asTagged?_reread_tagged, hstructure,
        BinaryOp.ofJson?_reread, hleft, hright]
  | call method target args ht ha iht iha =>
      obtain ⟨d, rfl, hcontents⟩ := depth_structured_le_iff.mp hd
      have hstructure := completeStructure?_reread
        [("method", method.toJson), ("target", target.toJson),
          ("args", .array (listToJson args))] (by simp)
      have hmethod := Method.ofJson?_reread (hcontents ("method", method.toJson) (by simp))
      have htarget := iht (hcontents ("target", target.toJson) (by simp))
      have hargs := listOf?_reread (fun e he _ => iha e he)
        (hcontents ("args", .array (listToJson args)) (by simp))
      simp only [List.map_cons, List.map_nil] at hstructure
      simp [toJson, ofJson?, structuredOf?, contentNames, asTagged?_reread_tagged, hstructure,
        hmethod, htarget, hargs]
  | conditional test ifTrue ifFalse h ht hf ih iht ihf =>
      obtain ⟨d, rfl, hcontents⟩ := depth_structured_le_iff.mp hd
      have hstructure := completeStructure?_reread
        [("test", test.toJson), ("if_true", ifTrue.toJson), ("if_false", ifFalse.toJson)] (by simp)
      have htest := ih (hcontents ("test", test.toJson) (by simp))
      have htrue := iht (hcontents ("if_true", ifTrue.toJson) (by simp))
      have hfalse := ihf (hcontents ("if_false", ifFalse.toJson) (by simp))
      simp only [List.map_cons, List.map_nil] at hstructure
      simp [toJson, ofJson?, structuredOf?, contentNames, asTagged?_reread_tagged, hstructure,
        htest, htrue, hfalse]
  | lambda parameter body h ih =>
      obtain ⟨d, rfl, hcontents⟩ := depth_structured_le_iff.mp hd
      have hstructure := completeStructure?_reread
        [("parameter", .ofString parameter), ("body", body.toJson)] (by simp)
      have hbody := ih (hcontents ("body", body.toJson) (by simp))
      simp only [List.map_cons, List.map_nil] at hstructure
      simp [toJson, ofJson?, structuredOf?, contentNames, asTagged?_reread_tagged, hstructure,
        asText?_reread, hbody]

section

variable {j : Json}

theorem depth_of_listOf? {items : List Expr}
    (hdepth : ∀ d' < d, ∀ j e, ofJson? d' j = some e → e.toJson.depth ≤ d')
    (h : listOf? d j = some items) : (Json.array (listToJson items)).depth ≤ d := by
  unfold listOf? at h
  split at h
  · rename_i d' given
    rw [listToJson_eq]
    refine depth_array_map_le_iff.mpr ⟨d', rfl, fun e he => ?_⟩
    obtain ⟨j', -, hj'⟩ := exists_of_mapM_eq_some h e he
    exact hdepth d' (by omega) j' e hj'
  · cases h

theorem depth_of_membersOf? {members : List (String × Expr)}
    (hdepth : ∀ d' < d, ∀ j e, ofJson? d' j = some e → e.toJson.depth ≤ d')
    (h : membersOf? d j = some members) : (Json.array (membersToJson members)).depth ≤ d := by
  unfold membersOf? at h
  split at h
  · rename_i d' given
    rw [membersToJson_eq]
    refine depth_array_map_le_iff.mpr ⟨d', rfl, fun m hm => ?_⟩
    obtain ⟨j', -, hj'⟩ := exists_of_mapM_eq_some h m hm
    cases d' with
    | zero => cases hj'
    | succ d' =>
        obtain ⟨_, a, rfl, -, ha⟩ := pair?_eq_some_iff.mp hj'
        exact depth_ofPair_le_iff.mpr ⟨d', rfl, hdepth d' (by omega) a m.2 ha⟩
  · cases h

theorem depth_of_structuredOf? {tag : String}
    (hdepth : ∀ d' < d, ∀ j e, ofJson? d' j = some e → e.toJson.depth ≤ d')
    (h : structuredOf? tag d j = some e) : e.toJson.depth ≤ d + 1 := by
  unfold structuredOf? at h
  split at h
  · cases h
  · rename_i d
    obtain ⟨contents, -, h⟩ := Option.bind_eq_some_iff.mp h
    have hnode : ∀ (tag : String) (entries : List (String × Json)),
        (∀ entry ∈ entries, entry.2.depth ≤ d) →
          (tagged tag (.ofEntries entries)).depth ≤ d + 1 + 1 := fun _ _ hentries =>
      depth_structured_le_iff.mpr ⟨d, rfl, hentries⟩
    -- Each part has been decoded two levels further down.
    have hexpr : ∀ {j e}, ofJson? d j = some e → e.toJson.depth ≤ d :=
      fun {j e} => hdepth d (by omega) j e
    split at h
    · obtain ⟨target, htarget, h⟩ := Option.bind_eq_some_iff.mp h
      obtain ⟨name, -, h⟩ := Option.bind_eq_some_iff.mp h
      obtain rfl := Option.some.inj h
      exact hnode _ _ (by simpa using hexpr htarget)
    · obtain ⟨operand, hoperand, h⟩ := Option.bind_eq_some_iff.mp h
      obtain ⟨kind, -, h⟩ := Option.bind_eq_some_iff.mp h
      obtain rfl := Option.some.inj h
      exact hnode _ _ (by simpa using hexpr hoperand)
    · obtain ⟨op, -, h⟩ := Option.bind_eq_some_iff.mp h
      obtain ⟨left, hleft, h⟩ := Option.bind_eq_some_iff.mp h
      obtain ⟨right, hright, h⟩ := Option.bind_eq_some_iff.mp h
      obtain rfl := Option.some.inj h
      exact hnode _ _ (by simpa using ⟨hexpr hleft, hexpr hright⟩)
    · obtain ⟨method, hmethod, h⟩ := Option.bind_eq_some_iff.mp h
      obtain ⟨target, htarget, h⟩ := Option.bind_eq_some_iff.mp h
      obtain ⟨args, hargs, h⟩ := Option.bind_eq_some_iff.mp h
      obtain rfl := Option.some.inj h
      have hlist := depth_of_listOf? (fun d' hd' => hdepth d' (by omega)) hargs
      exact hnode _ _ (by simpa using ⟨Method.depth_of_ofJson? hmethod, hexpr htarget, hlist⟩)
    · obtain ⟨test, htest, h⟩ := Option.bind_eq_some_iff.mp h
      obtain ⟨ifTrue, htrue, h⟩ := Option.bind_eq_some_iff.mp h
      obtain ⟨ifFalse, hfalse, h⟩ := Option.bind_eq_some_iff.mp h
      obtain rfl := Option.some.inj h
      exact hnode _ _ (by simpa using ⟨hexpr htest, hexpr htrue, hexpr hfalse⟩)
    · obtain ⟨name, -, h⟩ := Option.bind_eq_some_iff.mp h
      obtain ⟨body, hbody, h⟩ := Option.bind_eq_some_iff.mp h
      obtain rfl := Option.some.inj h
      exact hnode _ _ (by simpa using hexpr hbody)
    · cases h

/-- The document of a decoded expression is nested no deeper than the decoder descends. -/
theorem depth_of_ofJson? (h : ofJson? d j = some e) : e.toJson.depth ≤ d := by
  induction d using Nat.strongRecOn generalizing j e with
  | ind d ih =>
      cases d with
      | zero => cases h
      | succ d =>
          have hdepth : ∀ d' < d, ∀ j e, ofJson? d' j = some e → e.toJson.depth ≤ d' :=
            fun d' hd' j e => ih d' (by omega)
          rw [ofJson?] at h
          obtain ⟨⟨tag, payload⟩, -, h⟩ := Option.bind_eq_some_iff.mp h
          split at h
          · obtain ⟨entity, -, rfl⟩ := Option.map_eq_some_iff.mp h
            exact depth_tagged_le_iff.mpr ⟨d, rfl, Nat.zero_le d⟩
          · obtain ⟨name, -, rfl⟩ := Option.map_eq_some_iff.mp h
            exact depth_tagged_le_iff.mpr ⟨d, rfl, Nat.zero_le d⟩
          · obtain ⟨v, hv, rfl⟩ := Option.map_eq_some_iff.mp h
            exact depth_tagged_le_iff.mpr ⟨d, rfl, Value.depth_of_ofJson? hv⟩
          · obtain ⟨operand, hoperand, rfl⟩ := Option.map_eq_some_iff.mp h
            exact depth_tagged_le_iff.mpr ⟨d, rfl, ih d (by omega) hoperand⟩
          · obtain ⟨members, hmembers, rfl⟩ := Option.map_eq_some_iff.mp h
            exact depth_tagged_le_iff.mpr ⟨d, rfl, depth_of_membersOf? hdepth hmembers⟩
          · obtain ⟨items, hitems, rfl⟩ := Option.map_eq_some_iff.mp h
            exact depth_tagged_le_iff.mpr ⟨d, rfl, depth_of_listOf? hdepth hitems⟩
          · exact depth_of_structuredOf? hdepth h
          · cases h

end

/-! ## Texts -/

/-- An expression without floats is decoded from its text exactly if its document is nested no
deeper than the decoder descends; so the expression of an accepted text is decoded again from the
text that it is written as. -/
theorem text_round_trip :
    (∀ e : Expr, e.FloatFree → (ofText? e.toText = some e ↔ e.toJson.depth ≤ maxDepth)) ∧
      ∀ (text : String) (e : Expr), ofText? text = some e → e.FloatFree →
        ofText? e.toText = some e := by
  have hiff : ∀ e : Expr, e.FloatFree →
      (ofText? e.toText = some e ↔ e.toJson.depth ≤ maxDepth) := by
    intro e he
    rw [ofText?, toText, parse?_text he.readable, Option.bind_some]
    exact ⟨depth_of_ofJson?, he.ofJson?_reread⟩
  refine ⟨hiff, fun text e h he => (hiff e he).mpr ?_⟩
  obtain ⟨j, -, hj⟩ := Option.bind_eq_some_iff.mp h
  exact depth_of_ofJson? hj

/-- A predicate with a custom method and with constants that take every escape. -/
def escaped : Expr :=
  .lambda "x\n" (.binary (.logical .and)
    (.call (.custom "Où\"\\") (.parameter "x\n")
      [.constant (.record [("a", .char '\x01'),
        ("a", .scalar (.ofInt .i64 (-9223372036854775808)))])])
    (.not (.convert (.constant (.entity "T" [("ids", .array [.null, .string "péché\x1f\t"])]))
      (.int .u64))))

theorem floatFree_escaped : escaped.FloatFree := by
  refine .lambda _ _ (.binary _ _ _ (.call _ _ _ (.parameter _) ?_) (.not _ (.convert _ _ ?_)))
  · refine List.forall_mem_singleton.mpr (.constant _ (.record _ ?_))
    exact List.forall_mem_cons.mpr ⟨.char _, List.forall_mem_singleton.mpr (.scalar _ rfl)⟩
  · refine .constant _ (.entity _ _ (List.forall_mem_singleton.mpr (.array _ ?_)))
    exact List.forall_mem_cons.mpr ⟨.null, List.forall_mem_singleton.mpr (.string _)⟩

theorem text_round_trip_of_escaped :
    ofText? escaped.toText = some escaped ∧
      ∀ text, ofText? text = some escaped → ofText? escaped.toText = some escaped :=
  ⟨(text_round_trip.1 escaped floatFree_escaped).mpr (by decide),
    fun text h => text_round_trip.2 text escaped h floatFree_escaped⟩

end Expr

end ColumnQuery
