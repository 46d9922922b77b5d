import ColumnQuery.Exchange.Schema
import ColumnQuery.Proofs.ValueDocument

/-! # Documents of bundles

A bundle is read back from the bytes in which it is stored. Each part of a bundle is read from its
document, and documents are read from their texts. -/

namespace ColumnQuery

open Json

/-! ## Entries -/

theorem Json.field?_reread (entries : List (String × Json)) (name : String) :
    (reread (.ofEntries entries)).field? name = (entries.lookup name).map reread := by
  rw [ofEntries_eq, reread, rereadEntries_eq, field?, named]
  induction entries with
  | nil => rfl
  | cons entry entries ih =>
      obtain ⟨key, j⟩ := entry
      simp only [List.map_cons, List.filterMap_cons, textOf?_reread, Option.map_some,
        List.lookup_cons]
      cases name == key with
      | true => rfl
      | false => exact ih

/-- A string has no entries. -/
theorem Json.field?_reread_ofString (s name : String) :
    (reread (.ofString s)).field? name = none := rfl

/-! ## Types -/

theorem CollectionShape.ofExchanged?_reread (s : CollectionShape) :
    ofExchanged? (reread s.exchanged) = some s := by
  rw [ofExchanged?, exchanged, asText?_reread]
  cases s <;> rfl

theorem ScalarKind.ofExchanged?_reread (k : ScalarKind) :
    ofExchanged? (reread k.exchanged) = some k := by
  rw [ofExchanged?, exchanged, asText?_reread]
  rcases k with _ | k | _ | _
  · decide
  · cases k <;> decide
  · decide
  · decide

theorem StoredKind.ofExchanged?_reread (k : ScalarKind) :
    ofExchanged? (reread k.exchanged) = some (.scalar k) := by
  rw [ofExchanged?, ScalarKind.exchanged, asText?_reread]
  rcases k with _ | k | _ | _
  · decide
  · cases k <;> decide
  · decide
  · decide

theorem ElementType.ofExchanged?_reread (t : ElementType) :
    ofExchanged? (reread t.exchanged) = some t := by
  cases t with
  | scalar k =>
      have hnone : (reread k.exchanged).field? "enum" = none := field?_reread_ofString k.name "enum"
      rw [ofExchanged?, exchanged, hnone, StoredKind.ofExchanged?_reread]
      rfl
  | enum k =>
      rw [ofExchanged?, exchanged, field?_reread]
      exact congrArg (Option.map _) k.ofExchanged?_reread
  | string =>
      rw [ofExchanged?, exchanged, field?_reread_ofString, StoredKind.ofExchanged?, asText?_reread]
      rfl

/-- No type of an element is taken for that of an array. -/
theorem ElementType.field?_array (t : ElementType) :
    (reread t.exchanged).field? "array" = none := by
  cases t with
  | enum k => rw [exchanged, field?_reread]; rfl
  | _ => rfl

theorem MemberType.ofExchanged?_reread (t : MemberType) :
    ofExchanged? (reread t.exchanged) = some t := by
  cases t with
  | array element shape =>
      have hcontents : ∀ name, (reread (MemberType.array element shape).exchanged).field? name =
          ([("array", element.exchanged), ("shape", shape.exchanged)].lookup name).map reread :=
        field?_reread _
      have harray := hcontents "array"
      have hshape := hcontents "shape"
      simp only [List.lookup_cons, String.reduceBEq, Option.map_some, beq_self_eq_true]
        at harray hshape
      simp [ofExchanged?, harray, hshape, element.ofExchanged?_reread, shape.ofExchanged?_reread]
  | scalar k | enum k | string =>
      rw [ofExchanged?, exchanged, ElementType.field?_array, ElementType.ofExchanged?_reread]
      rfl

/-! ## Entities -/

theorem NavigationDef.ofExchanged?_reread (n : NavigationDef) :
    ofExchanged? (reread n.exchanged) = some n := by
  obtain ⟨name, target, kind⟩ := n
  rw [ofExchanged?, exchanged]
  cases kind with
  | foreignKey member =>
      simp [NavigationKind.entries, text?, field?_reread, List.lookup_cons, asText?_reread]
  | sharedPrimaryKey =>
      simp [NavigationKind.entries, text?, field?_reread, List.lookup_cons, asText?_reread]
  | keyArray member shape | dependents member shape =>
      simp [NavigationKind.entries, text?, field?_reread, List.lookup_cons, asText?_reread,
        shape.ofExchanged?_reread]

theorem EntityDef.ofExchanged?_reread (d : EntityDef) :
    ofExchanged? (reread d.exchanged) = some d := by
  have hmembers : (rereadItems (d.members.map fun m =>
      Json.array [.ofString m.name, m.type.exchanged])).mapM (pair? MemberType.ofExchanged?) =
        some (d.members.map fun m => (m.name, m.type)) := by
    have hpairs : ∀ p ∈ d.members.map fun m => (m.name, m.type),
        pair? MemberType.ofExchanged? (reread (ofPair MemberType.exchanged p)) = some p :=
      fun p _ => pair?_reread p.2.ofExchanged?_reread
    have h := mapM_reread hpairs
    rwa [List.map_map] at h
  have hnavigations : (rereadItems (d.navigations.map (·.exchanged))).mapM
      NavigationDef.ofExchanged? = some d.navigations :=
    mapM_reread fun n _ => n.ofExchanged?_reread
  simp [ofExchanged?, exchanged, text?, list?, field?_reread, List.lookup_cons, asText?_reread,
    reread, items?, hmembers, hnavigations, Function.comp_def]

/-- A bundle whose version fits a word is read from its document. -/
theorem SchemaBundle.ofExchanged?_reread {b : SchemaBundle} (h : b.version < wordCount) :
    ofExchanged? (reread b.exchanged) = some b := by
  have hversion : (reread (.ofInt b.version)).asInt? = some (b.version : Int) :=
    asInt?_ofInt (by omega) (by rw [wordCount] at h; omega)
  have hentities : (rereadItems (b.entities.map (·.exchanged))).mapM EntityDef.ofExchanged? =
      some b.entities :=
    mapM_reread fun d _ => d.ofExchanged?_reread
  simp [ofExchanged?, exchanged, nat?, list?, field?_reread, List.lookup_cons, hversion,
    reread, items?, hentities]

/-! ## Texts -/

theorem ElementType.readable_exchanged (t : ElementType) : Readable t.exchanged := by
  cases t with
  | scalar k => exact .ofString k.name
  | enum k =>
      exact .ofEntries (List.forall_mem_singleton.mpr (Readable.ofString k.name))
  | string => exact .ofString "string"

theorem MemberType.readable_exchanged (t : MemberType) : Readable t.exchanged := by
  cases t with
  | array element shape =>
      refine .ofEntries ?_
      simpa [CollectionShape.exchanged, Readable.ofString] using element.readable_exchanged
  | scalar k => exact (ElementType.scalar k).readable_exchanged
  | enum k => exact (ElementType.enum k).readable_exchanged
  | string => exact ElementType.string.readable_exchanged

theorem NavigationDef.readable_exchanged (n : NavigationDef) : Readable n.exchanged := by
  refine .ofEntries ?_
  cases n.kind <;> simp [NavigationKind.entries, CollectionShape.exchanged, Readable.ofString]

theorem EntityDef.readable_exchanged (d : EntityDef) : Readable d.exchanged := by
  have hmembers := Readable.array_map fun m (_ : m ∈ d.members) =>
    Readable.ofPair (p := (m.name, m.type)) m.type.readable_exchanged
  have hnavigations := Readable.array_map fun n (_ : n ∈ d.navigations) => n.readable_exchanged
  refine .ofEntries ?_
  simp only [List.forall_mem_cons, Readable.ofString, true_and]
  exact ⟨hmembers, hnavigations, by simp⟩

theorem SchemaBundle.readable_exchanged (b : SchemaBundle) : Readable b.exchanged := by
  have hentities := Readable.array_map fun d (_ : d ∈ b.entities) => d.readable_exchanged
  refine .ofEntries ?_
  simp only [List.forall_mem_cons, Readable.ofInt, true_and]
  exact ⟨hentities, by simp⟩

/-- A bundle is read back from the bytes in which it is stored. -/
theorem SchemaBundle.ofBytes?_toBytes {b : SchemaBundle} (h : b.version < wordCount) :
    ofBytes? b.toBytes = some b := by
  rw [ofBytes?, toBytes, Text.fromUTF8?_bytes]
  show (parse? b.exchanged.text >>= ofExchanged?) = some b
  rw [parse?_text b.readable_exchanged, Option.bind_eq_bind, Option.bind_some,
    ofExchanged?_reread h]

end ColumnQuery
