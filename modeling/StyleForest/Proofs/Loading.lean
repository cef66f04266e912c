import StyleForest.Document.Load
import StyleForest.Forest.Compiler
import StyleForest.Proofs.Failures
import StyleForest.Proofs.Steps

/-!
# Loaded forests

A document that is accepted is loaded as it is written: its nodes are nested and ordered as in the
document, the texts among the children of a node are joined, and every node knows where it was
written (`NodeDocument.Mirrors`). The attributes of a node are checked when it is loaded and once
more when it is placed in a table. What passes the first check passes the second, so loaded forests,
in any number and order, are never refused for an attribute (`loaded_forests`).
-/

namespace StyleForest

open Json (Value)

private theorem exists_of_mem_forall₂ {α β : Type} {R : α → β → Prop} {left : List α}
    {right : List β} (h : left.Forall₂ R right) : ∀ b ∈ right, ∃ a, R a b := by
  induction h with
  | nil => simp
  | cons hfirst _ ih => exact List.forall_mem_cons.2 ⟨⟨_, hfirst⟩, ih⟩

/-! ## Where a node is written -/

namespace Location

/-- A line or a column is a natural number, and zero if the field is missing. -/
def WordIn (field : Option Value) (word : UInt32) : Prop :=
  field = none ∧ word = 0 ∨ field = some (.number (.natural word.toNat))

/-- A file is a string, and the document itself if the field is missing or null. -/
def FileIn (field : Option Value) (path file : String) : Prop :=
  (field = none ∨ field = some .null) ∧ file = path ∨ field = some (.string file)

/-- The location that the fields of a source describe in the document at a path. -/
structure DescribedBy (fields : FieldMap) (path : String) (location : Location) : Prop where
  file : FileIn fields["fileName"]? path location.file
  line : WordIn fields["lineNumber"]? location.line
  column : WordIn fields["columnNumber"]? location.column

/-- A word is read exactly when the field holds one. -/
theorem wordOf_eq_ok_iff {field : Option Value} {word : UInt32} :
    wordOf field = .ok word ↔ WordIn field word := by
  fun_cases wordOf field with
  | case1 => simp [WordIn, eq_comm]
  | case2 n hn =>
    have hword : UInt32.ofNat n = word ↔ n = word.toNat := by
      constructor
      · rintro rfl
        rw [UInt32.toNat_ofNat_of_lt' hn]
      · rintro rfl
        exact UInt32.ofNat_toNat
    simp [WordIn, hword]
  | case3 n hn =>
    have hword : n ≠ word.toNat := fun h => hn (h ▸ word.toNat_lt)
    simp [WordIn, hword]
  | case4 n => simp [WordIn]
  | case5 value hnatural _ =>
    have hvalue (n : Nat) : value ≠ .number (.natural n) := fun h => hnatural n h
    simp [WordIn, hvalue]

/-- A file name is read exactly when the field holds one, and stands for the path otherwise. -/
theorem exists_fileOf_iff {field : Option Value} {path file : String} :
    (∃ named, fileOf field = .ok named ∧ named.getD path = file) ↔ FileIn field path file := by
  fun_cases fileOf field with
  | case1 => simp [FileIn, eq_comm]
  | case2 => simp [FileIn, eq_comm]
  | case3 name => simp [FileIn]
  | case4 value hnull hstring =>
    have hvalue : value ≠ .null ∧ value ≠ .string file := ⟨hnull, fun h => hstring file h⟩
    simp [FileIn, hvalue]

/-- The fields of a source are read when each of them is missing or has the right shape. -/
theorem ofFields_eq_ok_iff {fields : FieldMap} {path : String} {location : Location} :
    ofFields fields path = .ok location ↔ DescribedBy fields path location := by
  simp only [ofFields, bind_eq_ok_iff, wordOf_eq_ok_iff]
  constructor
  · rintro ⟨column, hcolumn, named, hnamed, line, hline, ⟨⟩⟩
    exact ⟨exists_fileOf_iff.1 ⟨named, hnamed, rfl⟩, hline, hcolumn⟩
  · rintro ⟨hfile, hline, hcolumn⟩
    obtain ⟨named, hnamed, hname⟩ := exists_fileOf_iff.2 hfile
    refine ⟨location.column, hcolumn, named, hnamed, location.line, hline, ?_⟩
    rw [hname]
    rfl

end Location

/-! ## Attributes -/

namespace Attributes

/-- Where a node of the document at a path is written: where its source says, and somewhere in the
document if it has none. -/
def SourceIn (fields : FieldMap) (path : String) (location : Location) : Prop :=
  (fields["__source"]? = none ∨ fields["__source"]? = some .null) ∧ location = ⟨path, 0, 0⟩ ∨
    ∃ source, fields["__source"]? = some (.object source) ∧
      Location.DescribedBy (FieldMap.ofFields source) path location

/-- A source is read exactly when the fields hold one. -/
theorem sourceOf_eq_ok_iff {fields : FieldMap} {path : String} {location : Location} :
    sourceOf fields path = .ok location ↔ SourceIn fields path location := by
  unfold SourceIn
  fun_cases sourceOf fields path with
  | case1 h => simp [h, eq_comm]
  | case2 h => simp [h, eq_comm]
  | case3 source h =>
    rw [mapError_eq_ok_iff, Location.ofFields_eq_ok_iff]
    simp [h]
  | case4 value hnull hobject h =>
    have hvalue : value ≠ .null := fun heq => hnull heq
    have hfields (source : List (String × Value)) : value ≠ .object source :=
      fun heq => hobject source heq
    simp [h, hvalue, hfields]

/-- Setting an attribute leaves the source. -/
theorem source_of_set {attributes changed : Attributes} {name : String} {value : AttributeValue}
    (h : attributes.set name value = .ok changed) : changed.source = attributes.source := by
  unfold Attributes.set at h
  split at h
  · cases h
    rfl
  · cases h
    rfl
  · obtain ⟨width, -, ⟨⟩⟩ := bind_eq_ok_iff.1 h
    rfl
  · obtain ⟨width, -, ⟨⟩⟩ := bind_eq_ok_iff.1 h
    rfl
  · cases h
    rfl
  · split at h
    · cases h
    · cases h

private theorem source_of_foldlM_set {attributes changed : Attributes}
    {pairs : List (String × AttributeValue)}
    (h : pairs.foldlM (fun attributes (name, value) => attributes.set name value) attributes =
      .ok changed) : changed.source = attributes.source := by
  induction pairs generalizing attributes with
  | nil =>
    cases h
    rfl
  | cons pair rest ih =>
    rw [List.foldlM_cons, bind_eq_ok_iff] at h
    obtain ⟨next, hset, hrest⟩ := h
    rw [ih hrest, source_of_set hset]

/-- Attributes that pairs describe have the last source among the pairs, and pass their check. -/
theorem of_ofPairs {pairs : List (String × AttributeValue)} {attributes : Attributes}
    (h : ofPairs pairs = .ok attributes) :
    attributes.source = lastSource? pairs ∧ attributes.validate = .ok () := by
  simp only [ofPairs, bind_eq_ok_iff] at h
  obtain ⟨_, hpairs, ⟨⟩, hvalid, ⟨⟩⟩ := h
  exact ⟨source_of_foldlM_set hpairs, hvalid⟩

/-- A source is the last one if no later pair has its name. -/
theorem lastSource?_cons {location : Location} {pairs : List (String × AttributeValue)}
    (h : ∀ pair ∈ pairs, pair.1 ≠ "__source") :
    lastSource? (("__source", .source location) :: pairs) = some location := by
  unfold lastSource?
  rw [List.foldl_cons]
  induction pairs with
  | nil => rfl
  | cons pair rest ih =>
    obtain ⟨hpair, hrest⟩ := List.forall_mem_cons.1 h
    rw [List.foldl_cons]
    split
    · exact absurd rfl hpair
    · exact ih hrest

private theorem fst_of_pairOf? {path name : String} {value : Value} {pair : String × AttributeValue}
    (h : pairOf? path name value = .ok (some pair)) : pair.1 = name := by
  unfold pairOf? at h
  split at h <;> cases h
  · rfl
  · rfl

/-- No field but the source itself becomes a source. -/
theorem fst_ne_source_of_pairs {path : String} {fields : List (String × Value)}
    {pairs : List (Option (String × AttributeValue))}
    (h : fields.Forall₂ (fun field pair => pairOf? path field.1 field.2 = .ok pair) pairs)
    (hfields : ∀ field ∈ fields, field.1 ≠ "__source") :
    ∀ pair ∈ pairs.filterMap id, pair.1 ≠ "__source" := by
  induction h with
  | nil => simp
  | @cons field pair _ _ hpair _ ih =>
    obtain ⟨hfield, hrest⟩ := List.forall_mem_cons.1 hfields
    cases pair with
    | none => exact ih hrest
    | some pair =>
      simp only [List.filterMap_cons, id, List.forall_mem_cons]
      exact ⟨fst_of_pairOf? hpair ▸ hfield, ih hrest⟩

/-- Attributes that are loaded know where they are written, and pass their check. -/
theorem of_ofFields {fields : List (String × Value)} {path : String} {attributes : Attributes}
    (h : ofFields fields path = .ok attributes) :
    (∃ location, attributes.source = some location ∧
      SourceIn (FieldMap.ofFields fields) path location) ∧ attributes.validate = .ok () := by
  simp only [ofFields, bind_eq_ok_iff] at h
  obtain ⟨location, hsource, hrest⟩ := h
  split at hrest
  · cases hrest
  · obtain ⟨pairs, hpairs, hattributes⟩ := bind_eq_ok_iff.1 hrest
    obtain ⟨hlast, hvalid⟩ := of_ofPairs (mapError_eq_ok_iff.1 hattributes)
    have hnames := fst_ne_source_of_pairs (mapM_eq_ok_iff.1 hpairs) (by simp)
    rw [lastSource?_cons hnames] at hlast
    exact ⟨⟨location, hlast, sourceOf_eq_ok_iff.1 hsource⟩, hvalid⟩

end Attributes

/-! ## Nodes -/

/-- The text that an item is. -/
def NodeItem.text? : NodeItem → Option String
  | .text words => some words
  | .node _ => none

/-- The node that an item is. -/
def NodeItem.node? : NodeItem → Option Node
  | .text _ => none
  | .node tree => some tree

private theorem Node.ofItems_eq (element : String) (attributes : Attributes)
    (items : List NodeItem) :
    Node.ofItems element attributes items =
      .mk element attributes (String.join (items.filterMap NodeItem.text?))
        (items.filterMap NodeItem.node?) :=
  rfl

namespace NodeDocument

/-- A node is what a document at a path says: it has the element, the joined texts, and for each
node among the children of the document one child, in order. It knows where it is written and passes
the check of its attributes. -/
inductive Mirrors (path : String) : NodeDocument → Node → Prop
  | mk {element : String} {fields : List (String × Value)} {items : List (String ⊕ NodeDocument)}
      {attributes : Attributes} {children : List Node} (location : Location)
      (source : attributes.source = some location)
      (written : Attributes.SourceIn (FieldMap.ofFields fields) path location)
      (valid : attributes.validate = .ok ())
      (below : List.Forall₂ (Mirrors path) (items.filterMap Sum.getRight?) children) :
      Mirrors path (.mk element fields items)
        (.mk element attributes (String.join (items.filterMap Sum.getLeft?)) children)

variable {path : String}

mutual

/-- A node is built as its document says. -/
theorem mirrors_of_build :
    ∀ (document : NodeDocument) {node : Node}, document.build path = .ok node →
      document.Mirrors path node
  | .mk element fields items, node, h => by
    simp only [build, bind_eq_ok_iff] at h
    obtain ⟨attributes, hattributes, built, hbuilt, ⟨⟩⟩ := h
    obtain ⟨⟨location, hsource, hwritten⟩, hvalid⟩ := Attributes.of_ofFields hattributes
    obtain ⟨htexts, hnodes⟩ := mirrors_of_buildAll items hbuilt
    rw [Node.ofItems_eq, htexts]
    exact .mk location hsource hwritten hvalid hnodes

/-- The children of a node are built in order, and the texts between them are kept. -/
theorem mirrors_of_buildAll :
    ∀ (items : List (String ⊕ NodeDocument)) {built : List NodeItem},
      buildAll path items = .ok built →
        built.filterMap NodeItem.text? = items.filterMap Sum.getLeft? ∧
          (items.filterMap Sum.getRight?).Forall₂ (Mirrors path) (built.filterMap NodeItem.node?)
  | [], built, h => by
    cases h
    exact ⟨rfl, .nil⟩
  | .inl text :: rest, built, h => by
    simp only [buildAll, bind_eq_ok_iff] at h
    obtain ⟨later, hlater, ⟨⟩⟩ := h
    obtain ⟨htexts, hnodes⟩ := mirrors_of_buildAll rest hlater
    simp only [List.filterMap_cons, NodeItem.text?, NodeItem.node?, Sum.getLeft?_inl,
      Sum.getRight?_inl, htexts, hnodes, and_self]
  | .inr document :: rest, built, h => by
    simp only [buildAll, bind_eq_ok_iff] at h
    obtain ⟨node, hnode, later, hlater, ⟨⟩⟩ := h
    obtain ⟨htexts, hnodes⟩ := mirrors_of_buildAll rest hlater
    simp only [List.filterMap_cons, NodeItem.text?, NodeItem.node?, Sum.getLeft?_inr,
      Sum.getRight?_inr]
    exact ⟨htexts, .cons (mirrors_of_build document hnode) hnodes⟩

end

/-- A document is loaded when it can be read and each of its nodes can be built. -/
theorem mirrors_of_loadForest {text path : String} {forest : List Node}
    (h : loadForest text path = .ok forest) :
    ∃ documents, readDocument text path = .ok documents ∧
      documents.Forall₂ (Mirrors path) forest := by
  simp only [loadForest, bind_eq_ok_iff, mapM_eq_ok_iff] at h
  obtain ⟨documents, hread, hbuilt⟩ := h
  exact ⟨documents, hread, hbuilt.imp fun document _ => mirrors_of_build document⟩

end NodeDocument

/-! ## Placing loaded nodes -/

/-- The node is what some document says. -/
def Node.IsLoaded (node : Node) : Prop :=
  ∃ path, ∃ document : NodeDocument, document.Mirrors path node

/-- The children of a loaded node are loaded. -/
theorem Node.IsLoaded.of_child {parent child : Node} (h : parent.IsLoaded)
    (hchild : child ∈ parent.children) : child.IsLoaded := by
  obtain ⟨path, _, hmirrors⟩ := h
  obtain ⟨_, _, _, _, hbelow⟩ := hmirrors
  exact ⟨path, exists_of_mem_forall₂ hbelow child hchild⟩

/-- A loaded node passes the check of its attributes. -/
theorem Node.IsLoaded.validate {node : Node} (h : node.IsLoaded) :
    node.attributes.validate = .ok () := by
  obtain ⟨_, _, hmirrors⟩ := h
  obtain ⟨_, _, _, hvalid, _⟩ := hmirrors
  exact hvalid

/-- The nodes of a loaded forest are loaded. -/
theorem isLoaded_of_mem_lineages {forest : List Node} (h : ∀ root ∈ forest, root.IsLoaded)
    {lineage : Lineage} (hmem : lineage ∈ lineages forest) : lineage.node.IsLoaded := by
  obtain ⟨root, hroot, hhead, hchain⟩ := mem_lineages_iff.1 hmem
  have hfirst (hne : lineage.nodes ≠ []) : (lineage.nodes.head hne).IsLoaded := by
    rw [List.head?_eq_some_head hne, Option.some.injEq] at hhead
    exact hhead ▸ h root hroot
  -- a loaded node has loaded children, down the chain from the root
  exact hchain.induction Node.IsLoaded lineage.nodes (fun _ _ hparent hloaded =>
    hloaded.of_child hparent) hfirst lineage.node (List.mem_append_right _ List.mem_cons_self)

/-! ## Faults of attributes -/

/-- The fault is one of the attributes of a node. -/
def Fault.concernsAttributes : Fault → Bool
  | .invalidAttribute .. | .invalidAttributeValue .. => true
  | _ => false

variable {table left : StyleTable} {error : StyleError}

/-- A conflict of two entries does not concern attributes. -/
theorem concernsAttributes_of_conflict? {path : Path} {control candidate : Entry}
    (h : control.conflict? path candidate = some error) :
    error.fault.concernsAttributes = false := by
  unfold Entry.conflict? at h
  split at h
  · simp only [Option.or_eq_some_iff, Option.map_eq_some_iff] at h
    obtain (⟨property, -, rfl⟩ | ⟨-, pair, -, rfl⟩) | ⟨-, pair, -, rfl⟩ := h
    · rfl
    · rfl
    · rfl
  · cases h

/-- A conflict of two paths does not concern attributes. -/
theorem concernsAttributes_of_inconsistency? (h : table.inconsistency? = some error) :
    error.fault.concernsAttributes = false := by
  obtain ⟨comparison, -, hconflict⟩ := List.exists_of_findSome?_eq_some h
  exact concernsAttributes_of_conflict? hconflict

/-- Declarations that cannot be read do not concern attributes. -/
theorem concernsAttributes_of_readBlock {path : Path} {element text : String}
    {source : Option Location} (h : readBlock path element text source = .error error) :
    error.fault.concernsAttributes = false := by
  unfold readBlock at h
  split at h
  · next reason _ =>
    cases h
    cases reason with
    | duplicate => rfl
    | overridden => rfl
    | malformed => rfl
    | unterminated => rfl
  · split at h
    · cases h
    · cases h
      rfl

/-- An entry that cannot be filed does not concern attributes. -/
theorem concernsAttributes_of_filing {path : Path} {entry : Entry}
    (h : table.filing path entry = .error error) : error.fault.concernsAttributes = false := by
  unfold StyleTable.filing at h
  split at h
  · cases h
  · split at h
    · cases h
    · split at h
      · next found hfound =>
        cases h
        obtain ⟨existing, -, hconflict⟩ := List.exists_of_findSome?_eq_some hfound
        exact concernsAttributes_of_conflict? hconflict
      · cases h

/-- A failure of registering does not concern attributes. -/
theorem concernsAttributes_of_register {path : Path} {element text : String} {range : Breakpoint}
    {source : Option Location} (h : table.register path element text range source = .error error) :
    error.fault.concernsAttributes = false := by
  simp only [StyleTable.register, bind_eq_error_iff] at h
  obtain hread | ⟨block, -, hfiling | ⟨filing, -, ⟨⟩⟩⟩ := h
  · exact concernsAttributes_of_readBlock hread
  · exact concernsAttributes_of_filing hfiling

/-- A scope within a scope does not concern attributes. -/
theorem concernsAttributes_of_breakpoint {visit : Visit} (h : visit.breakpoint = .error error) :
    error.fault.concernsAttributes = false := by
  unfold Visit.breakpoint at h
  split at h <;> cases h
  rfl

/-- A subclass in the wrong place does not concern attributes. -/
theorem concernsAttributes_of_subclassBase {parent : Option Path} {fragment : Fragment}
    {source : Option Location} (h : subclassBase parent fragment source = .error error) :
    error.fault.concernsAttributes = false := by
  unfold subclassBase at h
  split at h
  · split at h
    · cases h
      rfl
    · split at h
      · cases h
        rfl
      · cases h
  · cases h

/-- A failure of copying a base does not concern attributes. -/
theorem concernsAttributes_of_prepare {visit : Visit} {placement : Placement}
    (h : table.prepare visit placement = .error error) :
    error.fault.concernsAttributes = false := by
  unfold StyleTable.prepare at h
  split at h
  · revert h
    fun_cases StyleTable.cloneBase with
    | case1 => exact nofun
    | case2 =>
      rintro ⟨⟩
      rfl
  · cases h

/-- The check of the attributes is the only one that finds a fault in them. -/
theorem validate_of_placement {visit : Visit} (h : visit.placement = .error error)
    (hfault : error.fault.concernsAttributes = true) :
    visit.attributes.validate = .error error := by
  simp only [Visit.placement, bind_eq_error_iff] at h
  obtain hinvalid | ⟨_, -, hrange | ⟨range, -, hbase | ⟨base, -, ⟨⟩⟩⟩⟩ := h
  · exact hinvalid
  · rw [concernsAttributes_of_breakpoint hrange] at hfault
    cases hfault
  · rw [concernsAttributes_of_subclassBase hbase] at hfault
    cases hfault

/-- A node that is refused for an attribute fails the check of its attributes. -/
theorem validate_of_place {visit : Visit} (h : (table.place visit).failure = some error)
    (hfault : error.fault.concernsAttributes = true) :
    visit.attributes.validate = .error error := by
  unfold StyleTable.place at h
  split at h
  · next hplacement =>
    cases h
    exact validate_of_placement hplacement hfault
  · split at h
    · next hprepare =>
      cases h
      rw [concernsAttributes_of_prepare hprepare] at hfault
      cases hfault
    · split at h
      · next hregister =>
        cases h
        rw [concernsAttributes_of_register hregister] at hfault
        cases hfault
      · cases h

/-- A forest that is refused for an attribute has a node that fails the check of its attributes. -/
theorem exists_validate_of_compile {forest : List Node} (h : compile forest = .error error)
    (hfault : error.fault.concernsAttributes = true) :
    ∃ lineage ∈ lineages forest, lineage.node.attributes.validate = .error error := by
  unfold compile Progress.finish at h
  split at h
  · next found hfound =>
    cases h
    rcases Option.or_eq_some_iff.1 hfound with hfailure | ⟨-, hinconsistent⟩
    · have hrun : assembleForest forest = ⟨(assembleForest forest).table, some error⟩ := by
        rw [← hfailure]
      obtain ⟨before, failing, after, reached, hvisits, -, hplace⟩ := Progress.exists_failing hrun
      have hmem : failing ∈ (lineages forest).map Lineage.visit := by
        rw [← visitsOfAll_eq_map, hvisits]
        exact List.mem_append_right before List.mem_cons_self
      obtain ⟨lineage, hlineage, rfl⟩ := List.mem_map.1 hmem
      have hrefused : (reached.place lineage.visit).failure = some error := by rw [hplace]
      exact ⟨lineage, hlineage, validate_of_place hrefused hfault⟩
    · rw [concernsAttributes_of_inconsistency? hinconsistent] at hfault
      cases hfault
  · cases h

/-- The forest of each document is loaded as it is written, and together loaded forests are never
refused for an attribute. -/
theorem loaded_forests {inputs : List (String × String)} {forests : List (List Node)}
    (h : inputs.Forall₂ (fun input forest => loadForest input.1 input.2 = .ok forest) forests) :
    inputs.Forall₂ (fun input forest => ∃ documents, readDocument input.1 input.2 = .ok documents ∧
      documents.Forall₂ (NodeDocument.Mirrors input.2) forest) forests ∧
    ∀ error, compile forests.flatten = .error error → error.fault.concernsAttributes = false := by
  have hloaded := h.imp fun _ _ => NodeDocument.mirrors_of_loadForest
  refine ⟨hloaded, fun error herror => ?_⟩
  have hroots : ∀ root ∈ forests.flatten, root.IsLoaded := by
    intro root hroot
    obtain ⟨forest, hforest, hmem⟩ := List.mem_flatten.1 hroot
    obtain ⟨⟨_, path⟩, documents, -, hmirrors⟩ := exists_of_mem_forall₂ hloaded forest hforest
    exact ⟨path, exists_of_mem_forall₂ hmirrors root hmem⟩
  rw [← Bool.not_eq_true]
  intro hfault
  obtain ⟨lineage, hmem, hinvalid⟩ := exists_validate_of_compile herror hfault
  rw [(isLoaded_of_mem_lineages hroots hmem).validate] at hinvalid
  cases hinvalid

/-- A card with a paragraph between its declarations is loaded twice. The two forests together are
refused, but not for an attribute. -/
theorem loaded_card_twice :
    let card := "[\x7b\"element\": \"div\", \"attrs\": \x7b\"className\": \"card\", " ++
      "\"__source\": \x7b\"lineNumber\": 3\x7d\x7d, \"children\": [\"color: \", " ++
      "\x7b\"element\": \"p\", \"attrs\": \x7b\"minWidth\": 600\x7d, " ++
      "\"children\": [\"padding: 8px;\"]\x7d, \"red;\"]\x7d]"
    ∃ forest, loadForest card "card.json" = .ok forest ∧
      (∃ documents, readDocument card "card.json" = .ok documents ∧
        documents.Forall₂ (NodeDocument.Mirrors "card.json") forest) ∧
      ∃ error, compile (forest ++ forest) = .error error ∧
        error.fault.concernsAttributes = false := by
  intro card
  have hresult : ((loadForest card "card.json").toOption.map fun forest =>
      (compile (forest ++ forest)).isOk) = some false := by
    decide +kernel
  -- from here on the text is of no matter, and must not be unfolded
  clear_value card
  cases hload : loadForest card "card.json" with
  | error error =>
    rw [hload] at hresult
    cases hresult
  | ok forest =>
    have hinputs : [(card, "card.json"), (card, "card.json")].Forall₂
        (fun input forest => loadForest input.1 input.2 = .ok forest) [forest, forest] :=
      .cons hload (.cons hload .nil)
    obtain ⟨hmirrors, hfaults⟩ := loaded_forests hinputs
    obtain ⟨hfirst, -⟩ := List.forall₂_cons.1 hmirrors
    have htwice : [forest, forest].flatten = forest ++ forest := by simp
    rw [htwice] at hfaults
    cases hcompile : compile (forest ++ forest) with
    | error error => exact ⟨forest, rfl, hfirst, error, hcompile, hfaults error hcompile⟩
    | ok sheet =>
      rw [hload, Except.toOption, Option.map_some, hcompile] at hresult
      cases hresult

end StyleForest
