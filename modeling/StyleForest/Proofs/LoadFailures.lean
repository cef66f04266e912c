import Mathlib.Data.List.Sort
import StyleForest.Proofs.ByteOrder
import StyleForest.Proofs.LastValues
import StyleForest.Proofs.Loading

/-!
# Failures of loading

An attribute whose value is null is as good as missing (`Attributes.ofFields_without`), while a name
that is not allowed is refused whatever its value is, the first one in the order of the bytes
(`Attributes.ofFields_of_unknown`). A node is built before the nodes below it and after the nodes
before it, so a document fails with the attributes of its first failing node in pre-order
(`NodeDocument.failure?_loadForest`).
-/

namespace StyleForest

open Json (Value)

/-- The fields but those of one name. -/
def fieldsWithout (name : String) (fields : List (String × Value)) : List (String × Value) :=
  fields.filter fun field => field.1 ≠ name

/-- Only the fields of the name are removed. -/
theorem mem_fieldsWithout {name : String} {fields : List (String × Value)}
    {field : String × Value} :
    field ∈ fieldsWithout name fields ↔ field ∈ fields ∧ field.1 ≠ name := by
  simp [fieldsWithout]

namespace FieldMap

/-- A field that is looked up has the last value of its name. -/
theorem getElem?_ofFields (fields : List (String × Value)) (name : String) :
    (ofFields fields)[name]? = lastValue? fields name :=
  getElem?_insertMany fields name

/-- Without the fields of a name the look-ups of other names stay. -/
theorem getElem?_without (fields : List (String × Value)) (removed name : String) :
    (ofFields (fieldsWithout removed fields))[name]? =
      if name = removed then none else (ofFields fields)[name]? := by
  rw [getElem?_ofFields, getElem?_ofFields, fieldsWithout, lastValue?_filter_ne]

/-- The fields of a map are in the order of their names. -/
theorem pairwise_lt_toList (fields : FieldMap) :
    fields.toList.Pairwise fun first second => first.1 < second.1 :=
  (Std.TreeMap.ordered_keys_toList (t := fields)).imp compareOfLessAndEq_eq_lt.1

/-- The fields of a name may be removed before or after the fields are ordered. -/
theorem toList_without (fields : List (String × Value)) (name : String) :
    (ofFields (fieldsWithout name fields)).toList =
      fieldsWithout name (ofFields fields).toList := by
  have : Std.Irrefl fun first second : String × Value => first.1 < second.1 :=
    ⟨fun _ => String.lt_irrefl _⟩
  have : Std.Antisymm fun first second : String × Value => first.1 < second.1 :=
    ⟨fun _ _ hlt hgt => absurd hlt (String.lt_asymm hgt)⟩
  -- lists in the same strict order are told apart by what they hold
  refine (pairwise_lt_toList _).eq_of_mem_iff ((pairwise_lt_toList _).filter _) ?_
  rintro ⟨key, value⟩
  rw [Std.TreeMap.mem_toList_iff_getElem?_eq_some, getElem?_without, mem_fieldsWithout,
    Std.TreeMap.mem_toList_iff_getElem?_eq_some]
  by_cases hkey : key = name
  · simp [hkey]
  · simp [hkey]

/-- Among ordered fields the first one with a property has the least name. -/
theorem lt_of_find? {fields : List (String × Value)} {wanted : String × Value → Bool}
    (hordered : fields.Pairwise fun first second => first.1 < second.1)
    {found other : String × Value} (hfind : fields.find? wanted = some found)
    (hmem : other ∈ fields) (hwanted : wanted other = true) (hne : other.1 ≠ found.1) :
    found.1 < other.1 := by
  obtain ⟨-, before, after, rfl, hbefore⟩ := List.find?_eq_some_iff_append.1 hfind
  obtain ⟨-, hrest, -⟩ := List.pairwise_append.1 hordered
  rcases List.mem_append.1 hmem with hearlier | hlater
  · have hunwanted := hbefore other hearlier
    rw [hwanted] at hunwanted
    cases hunwanted
  · rcases List.mem_cons.1 hlater with rfl | hlater
    · exact absurd rfl hne
    · exact (List.pairwise_cons.1 hrest).1 other hlater

end FieldMap

namespace Attributes

/-- The name is that of a field and not one that an attribute of a node can have. -/
def Unknown (fields : List (String × Value)) (name : String) : Prop :=
  name ∈ fields.map Prod.fst ∧ name ∉ allowedAttributes

variable {fields : List (String × Value)} {path name : String} {location : Location}

/-- The attributes that the fields beside the source give. -/
def ofOthers (path : String) (source : Location) (others : List (String × Value)) :
    Except LoadError Attributes :=
  match others.find? fun (name, _) => !allowedAttributes.contains name with
  | some (name, _) => .error (.style ⟨.invalidAttribute name allowedAttributes, some source⟩)
  | none => do
    let pairs ← others.mapM fun (name, value) => pairOf? path name value
    (ofPairs (("__source", .source source) :: pairs.filterMap id)).mapError LoadError.style

private theorem ofFields_eq (fields : List (String × Value)) (path : String) :
    ofFields fields path = (sourceOf (FieldMap.ofFields fields) path >>= fun source =>
      ofOthers path source (fieldsWithout "__source" (FieldMap.ofFields fields).toList)) :=
  rfl

/-- A null field is of no matter to the source. -/
theorem sourceOf_without (hnull : (FieldMap.ofFields fields)[name]? = some .null) :
    sourceOf (FieldMap.ofFields (fieldsWithout name fields)) path =
      sourceOf (FieldMap.ofFields fields) path := by
  unfold sourceOf
  rw [FieldMap.getElem?_without]
  by_cases hname : "__source" = name
  · subst hname
    rw [if_pos rfl, hnull]
  · rw [if_neg hname]

/-- Fields that are null and have an allowed name are passed over. -/
theorem ofOthers_without {others : List (String × Value)} (hname : name ∈ allowedAttributes)
    (hnull : ∀ value, (name, value) ∈ others → value = .null) (source : Location) :
    ofOthers path source (fieldsWithout name others) = ofOthers path source others := by
  have hfind : ((fieldsWithout name others).find? fun (key, _) =>
        !allowedAttributes.contains key) =
      others.find? fun (key, _) => !allowedAttributes.contains key := by
    rw [fieldsWithout, List.find?_filter]
    congr 1
    funext ⟨key, value⟩
    by_cases hkey : key = name
    · simp [hkey, hname]
    · simp [hkey]
  rw [ofOthers, ofOthers, hfind]
  split
  · rfl
  · refine mapM_filter_bind ?_ fun pairs =>
      (ofPairs (("__source", .source source) :: pairs)).mapError LoadError.style
    rintro ⟨key, value⟩ hfield hkey
    obtain rfl : key = name := by simpa using hkey
    rw [hnull value hfield]
    rfl

/-- An allowed attribute whose value is null is as good as missing. -/
theorem ofFields_without (hname : name ∈ allowedAttributes)
    (hnull : (FieldMap.ofFields fields)[name]? = some .null) :
    ofFields (fieldsWithout name fields) path = ofFields fields path := by
  rw [ofFields_eq, ofFields_eq, sourceOf_without hnull]
  refine bind_congr fun source => ?_
  rw [FieldMap.toList_without, fieldsWithout, fieldsWithout, List.filter_comm]
  refine ofOthers_without hname (fun value hfield => ?_) source
  have hmem := Std.TreeMap.mem_toList_iff_getElem?_eq_some.1 (mem_fieldsWithout.1 hfield).1
  exact Option.some.inj (hmem.symm.trans hnull)

/-- A name that is not allowed is found among the fields beside the source. -/
theorem unknown_iff : Unknown fields name ↔
    name ∉ allowedAttributes ∧
      ∃ value, (name, value) ∈ fieldsWithout "__source" (FieldMap.ofFields fields).toList := by
  have hmem (value : Value) : (name, value) ∈ (FieldMap.ofFields fields).toList ↔
      lastValue? fields name = some value := by
    rw [Std.TreeMap.mem_toList_iff_getElem?_eq_some, FieldMap.getElem?_ofFields]
  constructor
  · rintro ⟨hname, hallowed⟩
    obtain ⟨field, hfield, rfl⟩ := List.mem_map.1 hname
    obtain ⟨value, hvalue⟩ := exists_lastValue? hfield
    refine ⟨hallowed, value, mem_fieldsWithout.2 ⟨(hmem value).2 hvalue, fun hsource => ?_⟩⟩
    exact hallowed (hsource ▸ by decide)
  · rintro ⟨hallowed, value, hvalue⟩
    have hlast := (hmem value).1 (mem_fieldsWithout.1 hvalue).1
    exact ⟨List.mem_map.2 ⟨_, mem_of_lastValue? hlast, rfl⟩, hallowed⟩

/-- A name that is not allowed is refused, the first one in the order of the bytes. -/
theorem ofFields_of_unknown (hsource : SourceIn (FieldMap.ofFields fields) path location)
    (hunknown : ∃ name, Unknown fields name) :
    ∃ name, Unknown fields name ∧
      (∀ other, Unknown fields other → other ≠ name → Text.bytes name < Text.bytes other) ∧
      ofFields fields path =
        .error (.style ⟨.invalidAttribute name allowedAttributes, some location⟩) := by
  have hordered : (fieldsWithout "__source" (FieldMap.ofFields fields).toList).Pairwise
      fun first second => first.1 < second.1 :=
    (FieldMap.pairwise_lt_toList _).filter _
  rw [ofFields_eq, sourceOf_eq_ok_iff.2 hsource]
  simp only [unknown_iff] at hunknown ⊢
  generalize fieldsWithout "__source" (FieldMap.ofFields fields).toList = others at *
  cases hfind : others.find? fun (name, _) => !allowedAttributes.contains name with
  | none =>
    obtain ⟨name, hname, value, hmem⟩ := hunknown
    have hnone := List.find?_eq_none.1 hfind (name, value) hmem
    simp [hname] at hnone
  | some found =>
    obtain ⟨name, value⟩ := found
    have hallowed : name ∉ allowedAttributes := by simpa using List.find?_some hfind
    refine ⟨name, ⟨hallowed, value, List.mem_of_find?_eq_some hfind⟩, ?_, ?_⟩
    · rintro other ⟨hother, later, hmem⟩ hne
      exact Text.bytes_lt_bytes
        (FieldMap.lt_of_find? hordered hfind hmem (by simpa using hother) hne)
    · change ofOthers path location _ = _
      rw [ofOthers, hfind]

end Attributes

namespace NodeDocument

/-- The attributes of a node that are not checked yet. -/
def attributes : NodeDocument → List (String × Value)
  | .mk _ attributes _ => attributes

mutual

/-- A node and the nodes below it in pre-order. -/
def preorder : NodeDocument → List NodeDocument
  | .mk element attributes children => .mk element attributes children :: preorderAll children

/-- The nodes among the children of a node, each before the nodes below it. -/
def preorderAll : List (String ⊕ NodeDocument) → List NodeDocument
  | [] => []
  | .inl _ :: rest => preorderAll rest
  | .inr document :: rest => document.preorder ++ preorderAll rest

end

/-- What is wrong with the attributes of a node. -/
def attributesFailure? (path : String) (document : NodeDocument) : Option LoadError :=
  failure? (Attributes.ofFields document.attributes path)

variable {path : String}

mutual

/-- A node fails with the attributes of the first failing node in pre-order. -/
theorem failure?_build : ∀ document : NodeDocument,
    failure? (document.build path) = document.preorder.findSome? (attributesFailure? path)
  | .mk element fields children => by
    have hbelow (attributes : Attributes) :=
      failure?_bind_pure (buildAll path children) (Node.ofItems element attributes)
    rw [build, failure?_bind hbelow, failure?_buildAll children, preorder, findSome?_cons_eq_or,
      attributesFailure?, attributes]

/-- Children fail with the first failing node among them and below them. -/
theorem failure?_buildAll : ∀ children : List (String ⊕ NodeDocument),
    failure? (buildAll path children) =
      (preorderAll children).findSome? (attributesFailure? path)
  | [] => rfl
  | .inl text :: rest => by
    rw [buildAll, failure?_bind_pure (buildAll path rest) (NodeItem.text text :: ·),
      failure?_buildAll rest, preorderAll]
  | .inr document :: rest => by
    have hrest (node : Node) := failure?_bind_pure (buildAll path rest) (NodeItem.node node :: ·)
    rw [buildAll, failure?_bind hrest, failure?_build document, failure?_buildAll rest,
      preorderAll, List.findSome?_append]

end

/-- The nodes of a forest in pre-order. -/
def preorderOf (documents : List NodeDocument) : List NodeDocument :=
  documents.flatMap preorder

variable {text : String} {documents : List NodeDocument}

/-- A forest fails with the attributes of the first failing node in pre-order. -/
theorem failure?_loadForest (h : readDocument text path = .ok documents) :
    failure? (loadForest text path) =
      (preorderOf documents).findSome? (attributesFailure? path) := by
  have hload : loadForest text path = documents.mapM (NodeDocument.build path) := by
    rw [loadForest, h]
    rfl
  rw [hload, failure?_mapM, preorderOf, findSome?_flatMap]
  simp only [failure?_build]

/-- Loading a forest fails with the first node in pre-order whose attributes cannot be read. -/
theorem loadForest_eq_error_iff (h : readDocument text path = .ok documents) {error : LoadError} :
    loadForest text path = .error error ↔
      ∃ before node after, preorderOf documents = before ++ node :: after ∧
        (∀ earlier ∈ before, ∃ attributes,
          Attributes.ofFields earlier.attributes path = .ok attributes) ∧
        Attributes.ofFields node.attributes path = .error error := by
  rw [← failure?_eq_some_iff, failure?_loadForest h, List.findSome?_eq_some_iff]
  simp only [attributesFailure?, failure?_eq_some_iff, failure?_eq_none_iff]
  constructor
  · rintro ⟨before, node, after, hnodes, hfails, hbefore⟩
    exact ⟨before, node, after, hnodes, hbefore, hfails⟩
  · rintro ⟨before, node, after, hnodes, hbefore, hfails⟩
    exact ⟨before, node, after, hnodes, hfails, hbefore⟩

/-- Loading a forest fails exactly when the attributes of some node cannot be read. -/
theorem exists_loadForest_eq_error_iff (h : readDocument text path = .ok documents) :
    (∃ error, loadForest text path = .error error) ↔
      ∃ node ∈ preorderOf documents, ∃ error,
        Attributes.ofFields node.attributes path = .error error := by
  simp only [← failure?_eq_some_iff, ← Option.isSome_iff_exists, failure?_loadForest h,
    List.findSome?_isSome_iff, attributesFailure?]

end NodeDocument

/-- An attribute that is null is as good as missing, and a name that is not allowed is refused
whatever the values are, the first one in the order of the bytes. A document of the right shape
fails when the attributes of a node do, with the first failing node in pre-order. -/
theorem load_failures (path : String) :
    (∀ fields name, name ∈ allowedAttributes → (FieldMap.ofFields fields)[name]? = some .null →
      Attributes.ofFields (fieldsWithout name fields) path = Attributes.ofFields fields path) ∧
    (∀ fields location, Attributes.SourceIn (FieldMap.ofFields fields) path location →
      (∃ name, Attributes.Unknown fields name) →
      ∃ name, Attributes.Unknown fields name ∧
        (∀ other, Attributes.Unknown fields other → other ≠ name →
          Text.bytes name < Text.bytes other) ∧
        Attributes.ofFields fields path =
          .error (.style ⟨.invalidAttribute name allowedAttributes, some location⟩)) ∧
    ∀ text documents, readDocument text path = .ok documents →
      ((∃ error, loadForest text path = .error error) ↔
        ∃ node ∈ NodeDocument.preorderOf documents, ∃ error,
          Attributes.ofFields node.attributes path = .error error) ∧
      ∀ error, loadForest text path = .error error ↔
        ∃ before node after, NodeDocument.preorderOf documents = before ++ node :: after ∧
          (∀ earlier ∈ before, ∃ attributes,
            Attributes.ofFields earlier.attributes path = .ok attributes) ∧
          Attributes.ofFields node.attributes path = .error error :=
  ⟨fun _ _ => Attributes.ofFields_without, fun _ _ => Attributes.ofFields_of_unknown,
    fun _ _ h => ⟨NodeDocument.exists_loadForest_eq_error_iff h, fun _ =>
      NodeDocument.loadForest_eq_error_iff h⟩⟩

/-- A null width is passed over, a class with a capital letter is refused before a null identifier,
and of two failing paragraphs the first one is reported. -/
theorem first_paragraph_fails :
    let card : List (String × Value) := [("minWidth", .null), ("className", .string "card")]
    let named : List (String × Value) := [("id", .null), ("Class", .boolean true),
      ("__source", .object [("lineNumber", .number (.natural 4))])]
    let text := "[\x7b\"element\": \"div\", \"children\": [" ++
      "\x7b\"element\": \"p\", \"attrs\": \x7b\"id\": null\x7d\x7d, " ++
      "\x7b\"element\": \"p\", \"attrs\": \x7b\"minWidth\": true\x7d\x7d]\x7d]"
    Attributes.ofFields [("className", .string "card")] "a.json" =
        Attributes.ofFields card "a.json" ∧
      Attributes.ofFields named "a.json" =
        .error (.style ⟨.invalidAttribute "Class" allowedAttributes, some ⟨"a.json", 4, 0⟩⟩) ∧
      ∃ documents, readDocument text "a.json" = .ok documents ∧
        ∃ before node after, NodeDocument.preorderOf documents = before ++ node :: after ∧
          (∀ earlier ∈ before, ∃ attributes,
            Attributes.ofFields earlier.attributes "a.json" = .ok attributes) ∧
          Attributes.ofFields node.attributes "a.json" =
            .error (.style ⟨.invalidAttribute "id" allowedAttributes, some ⟨"a.json", 0, 0⟩⟩) := by
  intro card named text
  obtain ⟨hnull, hunknown, hdocument⟩ := load_failures "a.json"
  refine ⟨?_, ?_, ?_⟩
  · have hfield : (FieldMap.ofFields card)["minWidth"]? = some .null := by
      rw [FieldMap.getElem?_ofFields]
      rfl
    exact hnull card "minWidth" (by decide) hfield
  · have hsource : Attributes.SourceIn (FieldMap.ofFields named) "a.json" ⟨"a.json", 4, 0⟩ := by
      refine Or.inr ⟨[("lineNumber", .number (.natural 4))], ?_, ?_, ?_, ?_⟩
      · rw [FieldMap.getElem?_ofFields]
        rfl
      · rw [FieldMap.getElem?_ofFields]
        exact Or.inl ⟨Or.inl rfl, rfl⟩
      · rw [FieldMap.getElem?_ofFields]
        exact Or.inr rfl
      · rw [FieldMap.getElem?_ofFields]
        exact Or.inl ⟨rfl, rfl⟩
    have hclass : Attributes.Unknown named "Class" := ⟨by simp [named], by decide⟩
    obtain ⟨name, ⟨hname, hallowed⟩, hfirst, herror⟩ :=
      hunknown named _ hsource ⟨"Class", hclass⟩
    have hname : name = "id" ∨ name = "Class" ∨ name = "__source" := by
      simpa [named] using hname
    obtain rfl | rfl | rfl := hname
    · exact absurd (hfirst "Class" hclass (by decide)) (by decide +kernel)
    · exact herror
    · exact absurd (by decide) hallowed
  · have hread : (readDocument text "a.json").isOk = true := by decide +kernel
    have hload : (match loadForest text "a.json" with
        | .error (.style error) => some error
        | _ => none) =
        some ⟨.invalidAttribute "id" allowedAttributes, some ⟨"a.json", 0, 0⟩⟩ := by
      decide +kernel
    -- from here on the text is of no matter, and must not be unfolded
    clear_value text
    cases hdocuments : readDocument text "a.json" with
    | error error =>
      rw [hdocuments] at hread
      cases hread
    | ok documents =>
      refine ⟨documents, rfl, ((hdocument text documents hdocuments).2 _).1 ?_⟩
      split at hload
      · next hfails => rw [hfails, Option.some.inj hload]
      · cases hload

end StyleForest
