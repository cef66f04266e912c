import StyleForest.Proofs.PropertyNames
import StyleForest.Proofs.Readable

/-!
# Repeated merging

A merge changes the look-up of a name in one of three ways: it takes the incoming declaration, it
replaces the value of the own one, or it leaves what was there (`Block.named?_merge`). When one
block after another is merged into a first one, the value of a name is therefore the last one it was
given, the value it remembers is the first one, and the names stand in the order in which they
appear first. Merging is associative, so blocks may be merged into each other before.
-/

namespace StyleForest

/-- A list without repetitions loses nothing when they are removed. -/
theorem eraseDups_of_nodup {α : Type} [BEq α] [LawfulBEq α] {list : List α} (h : list.Nodup) :
    list.eraseDups = list := by
  induction list with
  | nil => rfl
  | cons a rest ih =>
    obtain ⟨ha, hrest⟩ := List.nodup_cons.1 h
    have hkept : rest.filter (fun b => !b == a) = rest := by
      rw [List.filter_eq_self]
      intro b hb
      simpa using ne_of_mem_of_not_mem hb ha
    rw [List.eraseDups_cons, hkept, ih hrest]

namespace Declaration

/-- The declaration of a name that was given these values one after the other. The last one stands,
and the first one is remembered if there is another. -/
def ofValues? (name : String) (values : List String) : Option Declaration :=
  values.getLast?.map fun last =>
    { property := name, value := last,
      replaced := if 2 ≤ values.length then values.head? else none }

/-- A further value is declared if it is the first one, and replaces the value otherwise. -/
theorem ofValues?_concat (name : String) (values : List String) (value : String) :
    ofValues? name (values ++ [value]) =
      some ((ofValues? name values).elim { property := name, value } (·.replaceValue value)) := by
  rw [ofValues?, List.getLast?_concat, Option.map_some]
  cases values with
  | nil => rfl
  | cons first later =>
    cases later with
    | nil => rfl
    | cons second later => simp [ofValues?, replaceValue, List.getLast?_cons]

end Declaration

namespace Block

/-- The declaration with exactly this name. -/
def named? (block : Block) (name : String) : Option Declaration :=
  block.declarations.find? fun declaration => declaration.property = name

/-- The values that the blocks give a name, in order. -/
def valuesOf (blocks : List Block) (name : String) : List String :=
  blocks.filterMap fun block => (block.named? name).map Declaration.value

/-- All names of the blocks in the order in which they appear first, each declared with the values
that the blocks give it. -/
def collected (blocks : List Block) : Block :=
  ⟨(blocks.flatMap properties).eraseDups.filterMap fun name =>
    Declaration.ofValues? name (valuesOf blocks name)⟩

/-- Absorbing a declaration changes the look-up of its name only. -/
theorem find?_absorb (incoming : Declaration) (declarations : List Declaration) (name : String) :
    (absorb incoming declarations).find? (fun declaration => declaration.property = name) =
      if incoming.property = name then
        some ((declarations.find? fun declaration => declaration.property = name).elim incoming
          (·.replaceValue incoming.value))
      else
        declarations.find? fun declaration => declaration.property = name := by
  induction declarations with
  | nil =>
    by_cases hname : incoming.property = name
    · simp [absorb, hname]
    · simp [absorb, hname]
  | cons declaration rest ih =>
    unfold absorb
    by_cases hsame : declaration.property = incoming.property
    · by_cases hname : incoming.property = name
      · simp [hsame, hname, Declaration.replaceValue]
      · simp [hsame, hname, Declaration.replaceValue]
    · rw [if_neg hsame]
      by_cases hname : declaration.property = name
      · subst hname
        simp [Ne.symm hsame]
      · simp [hname, ih]

/-- What a merge makes of the look-up of a name. -/
theorem named?_merge {block other : Block} (hother : other.properties.Nodup) (name : String) :
    (block.merge other).named? name =
      (other.named? name).elim (block.named? name) fun incoming =>
        some ((block.named? name).elim incoming (·.replaceValue incoming.value)) := by
  obtain ⟨own⟩ := block
  obtain ⟨incoming⟩ := other
  simp only [named?, merge, properties] at hother ⊢
  induction incoming generalizing own with
  | nil => rfl
  | cons first rest ih =>
    obtain ⟨hfirst, hrest⟩ := List.nodup_cons.1 hother
    rw [List.foldl_cons, ih _ hrest, find?_absorb]
    by_cases hname : first.property = name
    · have hlater : rest.find? (fun declaration => declaration.property = name) = none := by
        simpa [List.find?_eq_none, ← hname] using hfirst
      simp [hname, hlater]
    · simp [hname]

/-- A block in which no name stands twice holds what look-up finds for its names. -/
theorem declarations_eq_filterMap {block : Block} (h : block.properties.Nodup) :
    block.declarations = block.properties.filterMap block.named? := by
  have hfound : ∀ declaration ∈ block.declarations,
      block.named? declaration.property = some declaration := fun declaration hmem => by
    obtain ⟨found, hfound⟩ : ∃ found, block.named? declaration.property = some found :=
      Option.isSome_iff_exists.1 (List.find?_isSome.2 ⟨declaration, hmem, by simp⟩)
    have hname : found.property = declaration.property := by simpa using List.find?_some hfound
    rw [hfound, List.inj_on_of_nodup_map h (List.mem_of_find?_eq_some hfound) hmem hname]
  rw [properties, List.filterMap_map]
  exact (List.filterMap_some.symm.trans (List.filterMap_congr hfound).symm)

/-- The last block adds its value of the name, if it has one. -/
theorem valuesOf_concat (blocks : List Block) (block : Block) (name : String) :
    valuesOf (blocks ++ [block]) name =
      valuesOf blocks name ++ ((block.named? name).map Declaration.value).toList := by
  simp only [valuesOf, List.filterMap_append, List.filterMap_cons, List.filterMap_nil]
  cases block.named? name with
  | none => rfl
  | some declaration => rfl

/-- The names of merged blocks stand in the order in which they appear first. -/
theorem properties_foldl_merge {first : Block} (hfirst : first.properties.Nodup)
    (rest : List Block) :
    (rest.foldl merge first).properties = ((first :: rest).flatMap properties).eraseDups := by
  induction rest using List.reverseRecOn with
  | nil => simp [eraseDups_of_nodup hfirst]
  | append_singleton rest last ih =>
    have hnew : last.properties.removeAll ((first :: rest).flatMap properties).eraseDups =
        last.properties.removeAll ((first :: rest).flatMap properties) :=
      List.filter_congr fun name _ => by simp [List.mem_eraseDups]
    rw [List.foldl_concat, properties_merge, ih, ← List.cons_append, List.flatMap_append,
      List.flatMap_singleton, List.eraseDups_append, hnew]

/-- A declaration that remembers nothing is told by its name and its value. -/
theorem eq_of_named? {block : Block} {name : String} {declaration : Declaration}
    (hplain : ∀ declaration ∈ block.declarations, declaration.replaced = none)
    (h : block.named? name = some declaration) :
    declaration = { property := name, value := declaration.value } := by
  have hname : declaration.property = name := by simpa using List.find?_some h
  have hreplaced := hplain declaration (List.mem_of_find?_eq_some h)
  obtain ⟨property, value, replaced⟩ := declaration
  subst hname hreplaced
  rfl

/-- In merged blocks that remember nothing, look-up of a name finds the declaration of the values
that the blocks give it. -/
theorem named?_foldl_merge {first : Block} {rest : List Block}
    (hnames : ∀ block ∈ first :: rest, block.properties.Nodup)
    (hplain : ∀ block ∈ first :: rest, ∀ declaration ∈ block.declarations,
      declaration.replaced = none) (name : String) :
    (rest.foldl merge first).named? name =
      Declaration.ofValues? name (valuesOf (first :: rest) name) := by
  induction rest using List.reverseRecOn with
  | nil =>
    cases h : first.named? name with
    | none => simp [valuesOf, h, Declaration.ofValues?]
    | some declaration =>
      have hdeclared := eq_of_named? (hplain first List.mem_cons_self) h
      simp [valuesOf, h, Declaration.ofValues?, ← hdeclared]
  | append_singleton rest last ih =>
    rw [← List.cons_append, List.forall_mem_append, List.forall_mem_singleton] at hnames hplain
    rw [List.foldl_concat, named?_merge hnames.2, ih hnames.1 hplain.1, ← List.cons_append,
      valuesOf_concat]
    cases h : last.named? name with
    | none => simp
    | some declaration =>
      rw [Option.map_some, Option.toList_some, Declaration.ofValues?_concat, Option.elim_some,
        ← eq_of_named? hplain.2 h]

/-- Blocks that were read are merged to the block that collects their names and values. -/
theorem foldl_merge_eq_collected {first : Block} {rest : List Block}
    (hread : ∀ block ∈ first :: rest, ∃ text, Block.parse text = .ok block) :
    rest.foldl merge first = collected (first :: rest) := by
  have hnames : ∀ block ∈ first :: rest, block.properties.Nodup := fun block hmem => by
    obtain ⟨text, htext⟩ := hread block hmem
    exact (distinctNames_of_parse htext).nodup
  have hplain : ∀ block ∈ first :: rest, ∀ declaration ∈ block.declarations,
      declaration.replaced = none := fun block hmem declaration hdeclaration => by
    obtain ⟨text, htext⟩ := hread block hmem
    exact (readable_of_parse htext hdeclaration).2
  have hmerged : (rest.foldl merge first).properties.Nodup :=
    List.foldlRecOn (motive := fun merged => merged.properties.Nodup) rest merge
      (hnames first List.mem_cons_self) fun _ hnodup block _ => nodup_merge hnodup block
  rw [collected, ← properties_foldl_merge (hnames first List.mem_cons_self)]
  simp only [← named?_foldl_merge hnames hplain]
  rw [← declarations_eq_filterMap hmerged]

/-- The block after one declaration is merged into it. -/
def assign (block : Block) (incoming : Declaration) : Block :=
  ⟨absorb incoming block.declarations⟩

private theorem merge_nil (block : Block) : block.merge ⟨[]⟩ = block :=
  rfl

/-- A merge assigns the first declaration and then the others. -/
theorem merge_cons (block : Block) (first : Declaration) (rest : List Declaration) :
    block.merge ⟨first :: rest⟩ = (block.assign first).merge ⟨rest⟩ :=
  rfl

/-- A merge assigns the last declaration after the others. -/
theorem merge_concat (block : Block) (incoming : List Declaration) (last : Declaration) :
    block.merge ⟨incoming ++ [last]⟩ = (block.merge ⟨incoming⟩).assign last := by
  rw [merge, List.foldl_concat]
  rfl

/-- An assignment adds its name. -/
theorem mem_properties_assign {block : Block} {incoming : Declaration} {name : String} :
    name ∈ (block.assign incoming).properties ↔
      name ∈ block.properties ∨ name = incoming.property := by
  rw [← merge_nil (block.assign incoming), ← merge_cons, mem_properties_merge]
  simp [properties]

/-- A declaration that is assigned after one of its name could have replaced the value of that one
before. -/
theorem assign_assign_of_eq {earlier later : Declaration} (h : earlier.property = later.property)
    (block : Block) :
    (block.assign earlier).assign later = block.assign (earlier.replaceValue later.value) := by
  obtain ⟨declarations⟩ := block
  simp only [assign, mk.injEq]
  induction declarations with
  | nil => simp [absorb, h]
  | cons declaration rest ih =>
    by_cases hsame : declaration.property = earlier.property
    · simp [absorb, hsame, h, Declaration.replaceValue]
    · simpa [absorb, hsame, ← h, Declaration.replaceValue] using ih

/-- Declarations with different names can be assigned in either order if one of the names is there
already. -/
theorem assign_comm {earlier later : Declaration} (hne : earlier.property ≠ later.property)
    {block : Block} (hmem : later.property ∈ block.properties) :
    (block.assign earlier).assign later = (block.assign later).assign earlier := by
  obtain ⟨declarations⟩ := block
  simp only [assign, mk.injEq, properties] at hmem ⊢
  induction declarations with
  | nil => cases hmem
  | cons declaration rest ih =>
    by_cases hlater : declaration.property = later.property
    · simp [absorb, hlater, Declaration.replaceValue, Ne.symm hne]
    · have hrest : later.property ∈ rest.map Declaration.property := by
        simpa [Ne.symm hlater] using hmem
      by_cases hearlier : declaration.property = earlier.property
      · simp [absorb, hearlier, Declaration.replaceValue, hne]
      · simp [absorb, hlater, hearlier, ih hrest]

/-- A value can be assigned to a declared name after a block without the name is merged. -/
theorem merge_assign_left {incoming : Declaration} {block other : Block}
    (hother : incoming.property ∉ other.properties)
    (hblock : incoming.property ∈ block.properties) :
    (block.assign incoming).merge other = (block.merge other).assign incoming := by
  obtain ⟨added⟩ := other
  induction added generalizing block with
  | nil => rfl
  | cons first rest ih =>
    simp only [properties, List.map_cons, List.mem_cons, not_or] at hother
    rw [merge_cons, merge_cons, ← assign_comm (Ne.symm hother.1) hblock,
      ih (mem_properties_assign.2 (Or.inl hblock)) hother.2]

/-- A declaration can be assigned to the incoming block, if no name stands twice there, or to the
merged one. -/
theorem merge_assign_right {incoming : Declaration} {other : Block}
    (hother : other.properties.Nodup) (block : Block) :
    block.merge (other.assign incoming) = (block.merge other).assign incoming := by
  obtain ⟨added⟩ := other
  induction added generalizing block with
  | nil => rfl
  | cons first rest ih =>
    obtain ⟨hfirst, hrest⟩ := List.nodup_cons.1 hother
    by_cases hsame : first.property = incoming.property
    · have hassign : assign ⟨first :: rest⟩ incoming =
          ⟨first.replaceValue incoming.value :: rest⟩ := by
        rw [assign, absorb, if_pos hsame]
      rw [hassign, merge_cons, merge_cons, ← assign_assign_of_eq hsame,
        merge_assign_left (hsame ▸ hfirst) (mem_properties_assign.2 (Or.inr hsame.symm))]
    · have hassign : assign ⟨first :: rest⟩ incoming =
          ⟨first :: (assign ⟨rest⟩ incoming).declarations⟩ := by
        rw [assign, absorb, if_neg hsame]
        rfl
      rw [hassign, merge_cons, merge_cons]
      exact ih (block.assign first) hrest

/-- Merging is associative when no name stands twice in the block in the middle. -/
theorem merge_assoc {other : Block} (hother : other.properties.Nodup) (block third : Block) :
    (block.merge other).merge third = block.merge (other.merge third) := by
  obtain ⟨incoming⟩ := third
  induction incoming using List.reverseRecOn with
  | nil => rfl
  | append_singleton incoming last ih =>
    rw [merge_concat, merge_concat, ih, merge_assign_right (nodup_merge hother _)]

/-- Blocks that were read and are merged into the first of them, one after the other, give the names
of all blocks in the order in which they appear first. Each name has the last value that a block
gives it, and remembers the first one if at least two blocks give it one. And merging any blocks is
associative, what they remember included, when no name stands twice in the middle one. -/
theorem merges_collect_and_associate :
    (∀ (first : Block) (rest : List Block),
      (∀ block ∈ first :: rest, ∃ text, Block.parse text = .ok block) →
        rest.foldl merge first = collected (first :: rest)) ∧
    ∀ block other third : Block, other.properties.Nodup →
      (block.merge other).merge third = block.merge (other.merge third) :=
  ⟨fun _ _ hread => foldl_merge_eq_collected hread,
    fun block _ third hother => merge_assoc hother block third⟩

/-- Three texts are merged that declare a color, the third one in capitals, and two of them a
display. And a block that remembers a color is merged between two others. -/
theorem colors_are_merged :
    let first : Block := ⟨[{ property := "color", value := "red" },
      { property := "display", value := "block" }]⟩
    let second : Block := ⟨[{ property := "opacity", value := "0.5" },
      { property := "color", value := "blue" }]⟩
    let third : Block := ⟨[{ property := "display", value := "none" },
      { property := "color", value := "green" }]⟩
    let remembering : Block := ⟨[{ property := "color", value := "blue", replaced := some "cyan" }]⟩
    Block.parse "color: red; display: block" = .ok first ∧
      Block.parse "opacity: 0.5; color: blue;" = .ok second ∧
      Block.parse "DISPLAY: none; COLOR: green" = .ok third ∧
      [second, third].foldl merge first = collected [first, second, third] ∧
      collected [first, second, third] =
        ⟨[{ property := "color", value := "green", replaced := some "red" },
          { property := "display", value := "none", replaced := some "block" },
          { property := "opacity", value := "0.5" }]⟩ ∧
      remembering.properties.Nodup ∧
      (second.merge remembering).merge third = second.merge (remembering.merge third) := by
  intro first second third remembering
  have hfirst : Block.parse "color: red; display: block" = .ok first := by decide +kernel
  have hsecond : Block.parse "opacity: 0.5; color: blue;" = .ok second := by decide +kernel
  have hthird : Block.parse "DISPLAY: none; COLOR: green" = .ok third := by decide +kernel
  have hread : ∀ block ∈ [first, second, third], ∃ text, Block.parse text = .ok block := by
    simp only [List.forall_mem_cons, List.not_mem_nil, false_imp_iff, implies_true, and_true]
    exact ⟨⟨_, hfirst⟩, ⟨_, hsecond⟩, ⟨_, hthird⟩⟩
  have hnames : remembering.properties.Nodup := List.nodup_singleton _
  exact ⟨hfirst, hsecond, hthird, merges_collect_and_associate.1 first [second, third] hread,
    by decide +kernel, hnames,
    merges_collect_and_associate.2 second remembering third hnames⟩

end Block

end StyleForest
