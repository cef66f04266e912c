import Mathlib.Data.List.Nodup
import StyleForest.Proofs.Verdict

/-!
# Property names of an edited block

A block is edited by reading a text, by pushing declarations, and by merging another block that
was edited in the same way. No edit makes a block declare one name twice. A push also refuses a
name that is declared in another letter case, but a merge compares names as they are spelled. So
look-up, which ignores letter case, sees every declaration as long as every block that is merged
spells its names as the block does (`BlockEdit.distinctNames_iff_spelledLike`).
-/

namespace StyleForest

namespace Block

/-- No two declarations have names that agree up to letter case. -/
def DistinctNames (block : Block) : Prop :=
  block.properties.Pairwise fun earlier later => Text.sameName earlier later = false

instance (block : Block) : Decidable block.DistinctNames :=
  inferInstanceAs (Decidable (block.properties.Pairwise _))

/-- The incoming names differ up to letter case, and one that agrees with a declared name up to
letter case is that name. -/
structure SpelledLike (incoming block : Block) : Prop where
  distinctNames : incoming.DistinctNames
  eq_of_sameName : ∀ name ∈ incoming.properties, ∀ declared ∈ block.properties,
    Text.sameName name declared = true → name = declared

/-- Names are distinct when they are different in lower case. -/
theorem distinctNames_iff_nodup_lower {block : Block} :
    block.DistinctNames ↔ (block.properties.map Text.lower).Nodup := by
  simp only [DistinctNames, List.Nodup, List.pairwise_map, ← Bool.not_eq_true, Text.sameName_iff,
    ne_eq]

/-- Distinct names are different. -/
theorem DistinctNames.nodup {block : Block} (h : block.DistinctNames) : block.properties.Nodup :=
  (distinctNames_iff_nodup_lower.1 h).of_map

/-- Among names that each stand once, being different up to letter case means that those that
agree are equal. -/
theorem distinctNames_iff_of_nodup {block : Block} (h : block.properties.Nodup) :
    block.DistinctNames ↔
      ∀ name ∈ block.properties, ∀ other ∈ block.properties,
        Text.sameName name other = true → name = other := by
  simp only [distinctNames_iff_nodup_lower, List.nodup_map_iff_inj_on h, Text.sameName_iff]

/-- Look-up ignores letter case, so it sees every declaration exactly when no two names agree up to
letter case. -/
theorem distinctNames_iff_get? {block : Block} (h : block.properties.Nodup) :
    block.DistinctNames ↔
      ∀ declaration ∈ block.declarations,
        block.get? declaration.property = some declaration := by
  rw [distinctNames_iff_of_nodup h]
  simp only [properties, List.forall_mem_map]
  constructor
  · intro heq declaration hmem
    obtain ⟨found, hfound⟩ : ∃ found, block.get? declaration.property = some found :=
      Option.isSome_iff_exists.1 (List.find?_isSome.2 ⟨declaration, hmem, Text.sameName_refl _⟩)
    have hdeclared : found ∈ block.declarations := List.mem_of_find?_eq_some hfound
    have hsame : Text.sameName found.property declaration.property = true := by
      simpa using List.find?_some hfound
    rw [hfound, List.inj_on_of_nodup_map h hdeclared hmem
      (heq found hdeclared declaration hmem hsame)]
  · intro hget declaration hmem other hother hsame
    have hcase : block.get? declaration.property = block.get? other.property := by
      simp only [get?, Text.sameName, Text.sameName_iff.1 hsame]
    rw [hget declaration hmem, hget other hother] at hcase
    exact congrArg Declaration.property (Option.some.inj hcase)

/-- A block that is read has distinct names. -/
theorem distinctNames_of_parse {text : String} {block : Block} (h : Block.parse text = .ok block) :
    block.DistinctNames := by
  obtain ⟨_, _, _, hpairwise⟩ := parse_eq_ok_iff.1 h
  exact List.pairwise_map.2 (hpairwise.imp fun hprecede => hprecede.1)

/-- A block that is read has its names in lower case. -/
theorem lower_of_parse {text : String} {block : Block} (h : Block.parse text = .ok block) :
    ∀ name ∈ block.properties, Text.lower name = name := by
  obtain ⟨_, _, hspelled, _⟩ := parse_eq_ok_iff.1 h
  exact List.forall_mem_map.2 (lower_property_of_forall₂ (map_declaration?_eq_iff.1 hspelled))

/-- A push appends a name that agrees with no declared one up to letter case. -/
theorem sameName_eq_false_of_push {block pushed : Block} {declaration : Declaration}
    (h : block.push declaration = .ok pushed) :
    ∀ name ∈ block.properties, Text.sameName name declaration.property = false := by
  obtain ⟨hprecede, _⟩ := push_eq_ok_iff_mayPrecede.1 h
  exact List.forall_mem_map.2 fun earlier hmem => (hprecede earlier hmem).1

/-- A push makes no name of a block stand twice. -/
theorem nodup_of_push {block pushed : Block} {declaration : Declaration}
    (hblock : block.properties.Nodup) (h : block.push declaration = .ok pushed) :
    pushed.properties.Nodup := by
  rw [properties_of_push h, ← List.concat_eq_append]
  refine hblock.concat fun hmem => ?_
  have hdiffer := sameName_eq_false_of_push h _ hmem
  rw [Text.sameName_refl] at hdiffer
  cases hdiffer

/-- A push keeps names distinct. -/
theorem DistinctNames.of_push {block pushed : Block} {declaration : Declaration}
    (hblock : block.DistinctNames) (h : block.push declaration = .ok pushed) :
    pushed.DistinctNames := by
  rw [DistinctNames, properties_of_push h, List.pairwise_append]
  refine ⟨hblock, List.pairwise_singleton .., fun name hname other hother => ?_⟩
  rw [List.mem_singleton.1 hother]
  exact sameName_eq_false_of_push h name hname

/-- A merge makes no name stand twice, even if the incoming block declares one twice. -/
theorem nodup_merge {block : Block} (hblock : block.properties.Nodup) (other : Block) :
    (block.merge other).properties.Nodup := by
  obtain ⟨own⟩ := block
  obtain ⟨incoming⟩ := other
  simp only [properties, merge] at hblock ⊢
  induction incoming generalizing own with
  | nil => exact hblock
  | cons first rest ih =>
    refine ih _ ?_
    rw [properties_absorb]
    split
    case isTrue => exact hblock
    case isFalse hnew => exact List.concat_eq_append ▸ hblock.concat hnew

/-- A merge keeps names different up to letter case exactly when the incoming block spells its names
as the block does. -/
theorem DistinctNames.merge_iff {block other : Block} (hblock : block.DistinctNames)
    (hother : other.properties.Nodup) :
    (block.merge other).DistinctNames ↔ other.SpelledLike block := by
  have hown := (distinctNames_iff_of_nodup hblock.nodup).1 hblock
  rw [distinctNames_iff_of_nodup (nodup_merge hblock.nodup other)]
  simp only [mem_properties_merge]
  constructor
  · intro h
    exact ⟨(distinctNames_iff_of_nodup hother).2 fun name hname second hsecond =>
        h name (Or.inr hname) second (Or.inr hsecond),
      fun name hname declared hdeclared => h name (Or.inr hname) declared (Or.inl hdeclared)⟩
  · rintro ⟨hdistinct, hcross⟩
    have hincoming := (distinctNames_iff_of_nodup hother).1 hdistinct
    rintro name (hname | hname) second (hsecond | hsecond) hsame
    · exact hown name hname second hsecond hsame
    · exact (hcross second hsecond name hname (Text.sameName_comm name second ▸ hsame)).symm
    · exact hcross name hname second hsecond hsame
    · exact hincoming name hname second hsecond hsame

end Block

/-- An edit of a block. -/
inductive BlockEdit where
  /-- Reads the text in place of the block. -/
  | parse (text : String)
  | push (declaration : Declaration)
  /-- Merges the block that the edits make of the empty one. -/
  | merge (edits : List BlockEdit)

namespace BlockEdit

mutual

/-- The block after an edit. An edit that fails leaves the block as it was. -/
def apply (block : Block) : BlockEdit → Block
  | .parse text => (Block.parse text).toOption.getD block
  | .push declaration => (block.push declaration).toOption.getD block
  | .merge edits => block.merge (applyAll .empty edits)

/-- The block after all edits in order. -/
def applyAll (block : Block) : List BlockEdit → Block
  | [] => block
  | edit :: rest => applyAll (apply block edit) rest

end

mutual

/-- The declarations that an edit pushes, to the block or to one that is merged into it. -/
def pushed : BlockEdit → List Declaration
  | .parse _ => []
  | .push declaration => [declaration]
  | .merge edits => pushedAll edits

/-- The declarations that the edits push. -/
def pushedAll : List BlockEdit → List Declaration
  | [] => []
  | edit :: rest => pushed edit ++ pushedAll rest

end

/-- Edits in a row act one after the other. -/
theorem applyAll_append (block : Block) (first second : List BlockEdit) :
    applyAll block (first ++ second) = applyAll (applyAll block first) second := by
  induction first generalizing block with
  | nil => rw [List.nil_append, applyAll]
  | cons edit rest ih => rw [List.cons_append, applyAll, applyAll, ih]

private theorem pushedAll_append (first second : List BlockEdit) :
    pushedAll (first ++ second) = pushedAll first ++ pushedAll second := by
  induction first with
  | nil => rw [List.nil_append, pushedAll, List.nil_append]
  | cons edit rest ih => rw [List.cons_append, pushedAll, pushedAll, ih, List.append_assoc]

private theorem apply_parse (block : Block) (text : String) :
    (parse text).apply block = block ∨ Block.parse text = .ok ((parse text).apply block) := by
  unfold apply
  cases Block.parse text with
  | error error => exact Or.inl rfl
  | ok read => exact Or.inr rfl

private theorem apply_push (block : Block) (declaration : Declaration) :
    (push declaration).apply block = block ∨
      block.push declaration = .ok ((push declaration).apply block) := by
  unfold apply
  cases block.push declaration with
  | error error => exact Or.inl rfl
  | ok pushed => exact Or.inr rfl

/-- A condition on blocks that no edit breaks, as long as every pushed declaration is as it should
be. -/
structure Kept (P : Block → Prop) (Q : Declaration → Prop) : Prop where
  empty : P .empty
  parse : ∀ {text : String} {block : Block}, Block.parse text = .ok block → P block
  push : ∀ {block pushed : Block} {declaration : Declaration}, P block → Q declaration →
    block.push declaration = .ok pushed → P pushed
  merge : ∀ {block other : Block}, P block → P other → P (block.merge other)

section

variable {P : Block → Prop} {Q : Declaration → Prop}

mutual

/-- A condition that edits keep is kept by every single one. -/
theorem Kept.of_apply (h : Kept P Q) {block : Block} (hblock : P block) :
    ∀ edit : BlockEdit, (∀ declaration ∈ pushed edit, Q declaration) → P (edit.apply block)
  | .parse text, _ => by
    rcases apply_parse block text with hsame | hread
    · rwa [hsame]
    · exact h.parse hread
  | .push declaration, hpushed => by
    rcases apply_push block declaration with hsame | hpush
    · rwa [hsame]
    · exact h.push hblock (hpushed declaration (by simp [pushed])) hpush
  | .merge edits, hpushed => by
    rw [pushed] at hpushed
    rw [apply]
    exact h.merge hblock (h.of_applyAll h.empty edits hpushed)

/-- What every edit keeps holds of the block after all of them. -/
theorem Kept.of_applyAll (h : Kept P Q) {block : Block} (hblock : P block) :
    ∀ edits : List BlockEdit, (∀ declaration ∈ pushedAll edits, Q declaration) →
      P (applyAll block edits)
  | [], _ => by
    rw [applyAll]
    exact hblock
  | edit :: rest, hpushed => by
    rw [pushedAll, List.forall_mem_append] at hpushed
    rw [applyAll]
    exact h.of_applyAll (h.of_apply hblock edit hpushed.1) rest hpushed.2

end

end

/-- No edit makes a name stand twice. -/
theorem kept_nodup : Kept (fun block => block.properties.Nodup) fun _ => True where
  empty := List.nodup_nil
  parse h := (Block.distinctNames_of_parse h).nodup
  push hblock _ h := Block.nodup_of_push hblock h
  merge hblock _ := Block.nodup_merge hblock _

/-- Names in lower case stay so when only such names are pushed. -/
theorem kept_lower :
    Kept (fun block => ∀ name ∈ block.properties, Text.lower name = name)
      fun declaration => Text.lower declaration.property = declaration.property where
  empty := by simp [Block.empty, Block.properties]
  parse h := Block.lower_of_parse h
  push hblock hdeclaration h := by
    rw [Block.properties_of_push h, List.forall_mem_append, List.forall_mem_singleton]
    exact ⟨hblock, hdeclaration⟩
  merge hblock hother := by
    intro name hmem
    rcases Block.mem_properties_merge.1 hmem with hmem | hmem
    · exact hblock name hmem
    · exact hother name hmem

/-- After any edits no name stands twice. -/
theorem nodup_applyAll (edits : List BlockEdit) :
    (applyAll .empty edits).properties.Nodup :=
  kept_nodup.of_applyAll kept_nodup.empty edits fun _ _ => trivial

/-- Only a merge of a block that spells its names in another way can make two names of the block
agree up to letter case. -/
theorem distinctNames_apply_iff {block : Block} (hblock : block.DistinctNames)
    (edit : BlockEdit) :
    (edit.apply block).DistinctNames ↔
      ∀ edits, edit = .merge edits → (applyAll .empty edits).SpelledLike block := by
  cases edit with
  | parse text =>
    refine iff_of_true ?_ (fun _ h => by cases h)
    rcases apply_parse block text with hsame | hread
    · rwa [hsame]
    · exact Block.distinctNames_of_parse hread
  | push declaration =>
    refine iff_of_true ?_ (fun _ h => by cases h)
    rcases apply_push block declaration with hsame | hpush
    · rwa [hsame]
    · exact hblock.of_push hpush
  | merge edits =>
    rw [apply, hblock.merge_iff (nodup_applyAll edits)]
    simp only [merge.injEq, forall_eq']

/-- Names are different at every point exactly when every merge so far kept them so. -/
theorem distinctNames_throughout_iff (edits : List BlockEdit) :
    (∀ before, before <+: edits → (applyAll .empty before).DistinctNames) ↔
      ∀ before merged, before ++ [.merge merged] <+: edits →
        (applyAll .empty merged).SpelledLike (applyAll .empty before) := by
  induction edits using List.reverseRecOn with
  | nil =>
    refine iff_of_true (fun before h => ?_) (fun before merged h => ?_)
    · rw [List.prefix_nil.1 h, applyAll]
      exact List.Pairwise.nil
    · simp at h
  | append_singleton earlier edit ih =>
    have hlast : applyAll .empty (earlier ++ [edit]) = edit.apply (applyAll .empty earlier) := by
      rw [applyAll_append, applyAll, applyAll]
    simp only [List.prefix_concat_iff, or_imp, forall_and, forall_eq, hlast, ih]
    -- The last edit is judged by itself, for a block that the edits before it left in order.
    refine and_congr_left fun hearlier => ?_
    have hdistinct : (applyAll .empty earlier).DistinctNames :=
      ih.2 hearlier earlier (List.prefix_refl _)
    rw [distinctNames_apply_iff hdistinct]
    constructor
    · intro h before merged heq
      obtain ⟨rfl, hedit⟩ := List.append_inj' heq rfl
      exact h merged (List.singleton_inj.1 hedit).symm
    · rintro h merged rfl
      exact h earlier merged rfl

/-- At every point of a sequence of edits no name stands twice in the block, so look-up sees every
declaration exactly when no two names agree up to letter case. This is so at every point exactly
when each block that is merged spells its names as the block does at that time. It is always so
when all pushed names are in lower case, as the names that are read from texts are. -/
theorem distinctNames_iff_spelledLike (edits : List BlockEdit) :
    (∀ before, before <+: edits →
      (applyAll .empty before).properties.Nodup ∧
      ((applyAll .empty before).DistinctNames ↔
        ∀ declaration ∈ (applyAll .empty before).declarations,
          (applyAll .empty before).get? declaration.property = some declaration)) ∧
    ((∀ before, before <+: edits → (applyAll .empty before).DistinctNames) ↔
      ∀ before merged, before ++ [.merge merged] <+: edits →
        (applyAll .empty merged).SpelledLike (applyAll .empty before)) ∧
    ((∀ declaration ∈ pushedAll edits,
        Text.lower declaration.property = declaration.property) →
      ∀ before, before <+: edits → (applyAll .empty before).DistinctNames) := by
  refine ⟨fun before _ => ⟨nodup_applyAll before,
    Block.distinctNames_iff_get? (nodup_applyAll before)⟩, distinctNames_throughout_iff edits, ?_⟩
  rintro hlower before ⟨after, rfl⟩
  rw [pushedAll_append, List.forall_mem_append] at hlower
  have hnames := kept_lower.of_applyAll kept_lower.empty before hlower.1
  refine (Block.distinctNames_iff_of_nodup (nodup_applyAll before)).2
    fun name hname other hother hsame => ?_
  rw [← hnames name hname, ← hnames other hother]
  exact Text.sameName_iff.1 hsame

/-- A block is read that declares a color under a name in capitals, and one that is pushed in lower
case is merged into it: the block declares one color. -/
theorem merged_color_is_seen :
    let edits : List BlockEdit :=
      [.parse "COLOR: red;", .merge [.push { property := "color", value := "blue" }]]
    (applyAll .empty edits).properties = ["color"] ∧
      (∀ declaration ∈ pushedAll edits,
        Text.lower declaration.property = declaration.property) ∧
      (applyAll .empty edits).DistinctNames := by
  intro edits
  have hproperties : (applyAll .empty edits).properties = ["color"] := by decide +kernel
  have hlower : ∀ declaration ∈ pushedAll edits,
      Text.lower declaration.property = declaration.property := by decide +kernel
  exact ⟨hproperties, hlower,
    (distinctNames_iff_spelledLike edits).2.2 hlower edits (List.prefix_refl _)⟩

/-- A color is pushed under a name with a capital, and one under the name in lower case is merged
into it. The block then declares both, and look-up under either name finds the first one only. -/
theorem merged_color_is_hidden :
    let edits : List BlockEdit :=
      [.push { property := "Color", value := "red" },
        .merge [.push { property := "color", value := "blue" }]]
    let block := applyAll .empty edits
    block.properties = ["Color", "color"] ∧ ¬block.DistinctNames ∧
      block.get? "color" = some { property := "Color", value := "red" } := by
  decide +kernel

end BlockEdit

end StyleForest
