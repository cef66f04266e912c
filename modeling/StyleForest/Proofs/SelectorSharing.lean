import StyleForest.Proofs.Descent
import StyleForest.Proofs.Lineage
import StyleForest.Proofs.Merging
import StyleForest.Proofs.SelectorText

/-!
# Paths that share a selector

No two paths of a table have one selector text, with one exception: the first fragments of two
paths differ in that the class of the one has a blank where the class of the other has a dot. A
dot is found in first fragments only, because no subclass stands below another node, and a copy
changes nothing but the first fragment of a path. So every path of a table is of the form
`Path.Grown`, and what is below the first fragment can be read off the text.
-/

namespace StyleForest

namespace Fragment

/-- Names of letters and digits, classes without quotes, and pseudo suffixes of a colon with
letters and hyphens end nothing in a selector. -/
theorem delimited_of_plain {fragment : Fragment}
    (helement : ∀ c ∈ fragment.element.toList, c.isAlphanum = true)
    (hclass : ∀ className, fragment.className = some className → '"' ∉ className.toList)
    (hpseudo : ∀ suffix, fragment.pseudo = some suffix → ∃ name, suffix.toList = ':' :: name ∧
      ∀ c ∈ name, c.isAlpha = true ∨ c = '-') :
    fragment.Delimited where
  element c hc := by
    have halphanum := helement c hc
    constructor
    · rintro rfl
      exact absurd halphanum (by decide)
    · rintro rfl
      exact absurd halphanum (by decide)
  className := hclass
  pseudo suffix hsuffix := by
    obtain ⟨name, htext, hname⟩ := hpseudo suffix hsuffix
    rw [htext]
    refine ⟨rfl, fun hblank => ?_⟩
    rcases List.mem_cons.1 hblank with hcolon | hmem
    · exact absurd hcolon (by decide)
    · exact absurd (hname ' ' hmem) (by decide)

/-- A class without dots is its own attribute value. -/
theorem classValue_of_not_mem {className : String} (h : '.' ∉ className.toList) :
    classValue className = className := by
  have hsame : className.toList.map (fun c => if c = '.' then ' ' else c) = className.toList := by
    refine (List.map_congr_left fun c hc => ?_).trans (List.map_id' _)
    exact if_neg fun hdot : c = '.' => h (hdot ▸ hc)
  rw [classValue, hsame, String.ofList_toList]

/-- A class without blanks is got back from its attribute value by writing dots for blanks. -/
theorem className_of_classValue {className : String} (h : ' ' ∉ className.toList) :
    String.ofList ((classValue className).toList.map fun c => if c = ' ' then '.' else c) =
      className := by
  have hback : (className.toList.map (fun c => if c = '.' then ' ' else c)).map
      (fun c => if c = ' ' then '.' else c) = className.toList := by
    rw [List.map_map]
    refine (List.map_congr_left fun c hc => ?_).trans (List.map_id' _)
    by_cases hdot : c = '.'
    · simp [hdot]
    · have hblank : c ≠ ' ' := fun hblank => h (hblank ▸ hc)
      simp [hdot, hblank]
  rw [classValue, String.toList_ofList, hback, String.ofList_toList]

/-- Fragments that are shown alike are equal when their classes are told apart by their values. -/
theorem Alike.eq_of_classValue {left right : Fragment} (h : left.Alike right)
    (hclass : ∀ leftName rightName, left.className = some leftName →
      right.className = some rightName → classValue leftName = classValue rightName →
      leftName = rightName) : left = right := by
  obtain ⟨element, leftClass, pseudo⟩ := left
  obtain ⟨_, rightClass, _⟩ := right
  obtain ⟨rfl, hvalues, rfl⟩ := h
  rw [Fragment.mk.injEq]
  refine ⟨rfl, ?_, rfl⟩
  cases leftClass with
  | none =>
    cases rightClass with
    | none => rfl
    | some rightName => simp at hvalues
  | some leftName =>
    cases rightClass with
    | none => simp at hvalues
    | some rightName =>
      exact congrArg some (hclass leftName rightName rfl rfl (Option.some.inj hvalues))

/-- Fragments without a base class that are shown alike are equal. -/
theorem Alike.eq_of_plain {left right : Fragment} (h : left.Alike right)
    (hleft : left.subclass? = none) (hright : right.subclass? = none) : left = right := by
  refine h.eq_of_classValue fun leftName rightName hl hr hvalue => ?_
  rwa [classValue_of_not_mem (subclass?_eq_none_iff.1 hleft leftName hl),
    classValue_of_not_mem (subclass?_eq_none_iff.1 hright rightName hr)] at hvalue

/-- Fragments whose classes have no blanks are equal when they are shown alike. -/
theorem Alike.eq_of_unblanked {left right : Fragment} (h : left.Alike right)
    (hleft : ∀ className, left.className = some className → ' ' ∉ className.toList)
    (hright : ∀ className, right.className = some className → ' ' ∉ className.toList) :
    left = right := by
  refine h.eq_of_classValue fun leftName rightName hl hr hvalue => ?_
  rw [← className_of_classValue (hleft leftName hl), hvalue,
    className_of_classValue (hright rightName hr)]

end Fragment

/-- The path has a first fragment, all its fragments meet the condition, and none below the first
one is a subclass. -/
def Path.Grown (C : Fragment → Prop) (path : Path) : Prop :=
  ∃ first below, path = ⟨first :: below⟩ ∧ C first ∧
    ∀ fragment ∈ below, C fragment ∧ fragment.subclass? = none

namespace Path.Grown

variable {C : Fragment → Prop}

/-- A path of one fragment is grown. -/
theorem root {fragment : Fragment} (h : C fragment) : (Path.root fragment).Grown C :=
  ⟨fragment, [], rfl, h, by simp⟩

/-- A grown path stays so below a plain fragment. -/
theorem child {path : Path} (hpath : path.Grown C) {fragment : Fragment} (h : C fragment)
    (hplain : fragment.subclass? = none) : (path.child fragment).Grown C := by
  obtain ⟨first, below, rfl, hfirst, hbelow⟩ := hpath
  refine ⟨first, below ++ [fragment], rfl, hfirst, fun other hother => ?_⟩
  rcases List.mem_append.1 hother with hmem | hlast
  · exact hbelow other hmem
  · rw [List.mem_singleton.1 hlast]
    exact ⟨h, hplain⟩

/-- A grown path stays so under another first fragment. -/
theorem rebase {path : Path} (hpath : path.Grown C) {target : Fragment} (h : C target) :
    (path.rebase target).Grown C := by
  obtain ⟨first, below, rfl, _, hbelow⟩ := hpath
  exact ⟨target, below, rfl, h, hbelow⟩

/-- All fragments of a grown path meet the condition. -/
theorem forall_fragments {path : Path} (hpath : path.Grown C) :
    ∀ fragment ∈ path.fragments, C fragment := by
  obtain ⟨first, below, rfl, hfirst, hbelow⟩ := hpath
  intro fragment hmem
  rcases List.mem_cons.1 hmem with rfl | hmem
  · exact hfirst
  · exact (hbelow fragment hmem).1

end Path.Grown

/-- What the fragments of all nodes meet, the fragments of all paths that are assembled meet. -/
theorem grown_of_assembleForest {C : Fragment → Prop} {forest : List Node}
    (h : ∀ lineage ∈ lineages forest, C lineage.node.fragment) {path : Path}
    (hpath : (assembleForest forest).table.contains path = true) : path.Grown C := by
  have hvisits : ∀ visit ∈ Node.visitsOfAll none none forest, C visit.fragment :=
    (forall_fragment_visitsOfAll_iff C).2 h
  refine Progress.path_run_induction (fun visit hmem hparent => ?_)
    (fun visit hmem origin base horigin _ => horigin.rebase (hvisits visit hmem))
    (parentsFirst_visitsOfAll (by simp) forest) (fun other hother => ?_) hpath
  · rw [Visit.path]
    cases hcase : visit.parent with
    | none => exact .root (hvisits visit hmem)
    | some parent =>
      obtain ⟨hgrown, hplain⟩ := hparent parent hcase
      exact hgrown.child (hvisits visit hmem) hplain
  · simp [Progress.start] at hother

/-- Alike fragments without a base class, one by one, are the same fragments. -/
theorem eq_of_forall₂_alike_of_plain {left right : List Fragment}
    (h : left.Forall₂ Fragment.Alike right) (hleft : ∀ fragment ∈ left, fragment.subclass? = none)
    (hright : ∀ fragment ∈ right, fragment.subclass? = none) : left = right := by
  induction h with
  | nil => rfl
  | cons halike _ ih =>
    rw [halike.eq_of_plain (hleft _ List.mem_cons_self) (hright _ List.mem_cons_self),
      ih (fun fragment hmem => hleft fragment (List.mem_cons_of_mem _ hmem))
        (fun fragment hmem => hright fragment (List.mem_cons_of_mem _ hmem))]

/-- Two grown paths have one selector text exactly when they agree below their first fragments and
these are shown alike. -/
theorem Path.Grown.render_eq_iff {left right : Path} (hleft : left.Grown Fragment.Delimited)
    (hright : right.Grown Fragment.Delimited) :
    (Selector.ofPath left).render = (Selector.ofPath right).render ↔
      ∃ first second below, left = ⟨first :: below⟩ ∧ right = ⟨second :: below⟩ ∧
        first.Alike second := by
  rw [Selector.render_ofPath_eq_iff_alike hleft.forall_fragments hright.forall_fragments]
  obtain ⟨first, leftBelow, rfl, _, hleftBelow⟩ := hleft
  obtain ⟨second, rightBelow, rfl, _, hrightBelow⟩ := hright
  constructor
  · intro h
    obtain ⟨halike, hrest⟩ := List.forall₂_cons.1 h
    have hsame : leftBelow = rightBelow := eq_of_forall₂_alike_of_plain hrest
      (fun fragment hmem => (hleftBelow fragment hmem).2)
      (fun fragment hmem => (hrightBelow fragment hmem).2)
    exact ⟨first, second, leftBelow, rfl, by rw [hsame], halike⟩
  · rintro ⟨_, _, below, hl, hr, halike⟩
    cases hl
    cases hr
    exact List.forall₂_cons.2 ⟨halike, List.forall₂_same.2 fun fragment _ => .refl fragment⟩

section Assembled

variable {forest : List Node} (hdelimited : ∀ lineage ∈ lineages forest,
  lineage.node.fragment.Delimited) {left right : Path}
  (hleft : (assembleForest forest).table.contains left = true)
  (hright : (assembleForest forest).table.contains right = true)

include hdelimited hleft hright

/-- Two assembled paths have one selector text exactly when they agree below their first fragments
and these are shown alike. -/
theorem render_eq_iff_of_assembleForest :
    (Selector.ofPath left).render = (Selector.ofPath right).render ↔
      ∃ first second below, left = ⟨first :: below⟩ ∧ right = ⟨second :: below⟩ ∧
        first.Alike second :=
  (grown_of_assembleForest hdelimited hleft).render_eq_iff
    (grown_of_assembleForest hdelimited hright)

/-- Without blanks in class names the paths of a table can be told from their selector texts. -/
theorem eq_of_render_eq_of_unblanked
    (hblank : ∀ lineage ∈ lineages forest, ∀ className,
      lineage.node.attributes.className = some className → ' ' ∉ className.toList)
    (h : (Selector.ofPath left).render = (Selector.ofPath right).render) : left = right := by
  have hunblanked {path : Path} (hpath : (assembleForest forest).table.contains path = true) :
      ∀ fragment ∈ path.fragments, ∀ className, fragment.className = some className →
        ' ' ∉ className.toList :=
    (grown_of_assembleForest hblank hpath).forall_fragments
  obtain ⟨first, second, below, rfl, rfl, halike⟩ :=
    (render_eq_iff_of_assembleForest hdelimited hleft hright).1 h
  rw [halike.eq_of_unblanked (hunblanked hleft first List.mem_cons_self)
    (hunblanked hright second List.mem_cons_self)]

end Assembled

/-- After a compilation no two paths of the table have one selector text, exactly when no two
that agree below their first fragments differ there by dots for blanks alone; a class name with a
blank is needed for that. -/
theorem Compiler.selectors_distinct_iff (compiler : Compiler) (forest : List Node)
    (hdelimited : ∀ lineage ∈ lineages forest, lineage.node.fragment.Delimited) :
    let table := (compiler.compile forest).2.table
    ((∀ left right : Path, table.contains left = true → table.contains right = true →
        (Selector.ofPath left).render = (Selector.ofPath right).render → left = right) ↔
      ∀ (first second : Fragment) (below : List Fragment),
        table.contains ⟨first :: below⟩ = true → table.contains ⟨second :: below⟩ = true →
        first.Alike second → first = second) ∧
    ((∀ lineage ∈ lineages forest, ∀ className,
        lineage.node.attributes.className = some className → ' ' ∉ className.toList) →
      ∀ left right : Path, table.contains left = true → table.contains right = true →
        (Selector.ofPath left).render = (Selector.ofPath right).render → left = right) := by
  rw [compiler.table_compile]
  refine ⟨⟨fun h first second below hfirst hsecond halike => ?_,
    fun h left right hleft hright hrender => ?_⟩, fun hblank left right hleft hright hrender => ?_⟩
  · have hsame := h _ _ hfirst hsecond
      ((render_eq_iff_of_assembleForest hdelimited hfirst hsecond).2
        ⟨first, second, below, rfl, rfl, halike⟩)
    rw [Path.mk.injEq] at hsame
    exact List.head_eq_of_cons_eq hsame
  · obtain ⟨first, second, below, rfl, rfl, halike⟩ :=
      (render_eq_iff_of_assembleForest hdelimited hleft hright).1 hrender
    rw [h first second below hleft hright halike]
  · exact eq_of_render_eq_of_unblanked hdelimited hleft hright hblank hrender

/-- A large button keeps what is inside a button: four paths, four selector texts. -/
theorem Compiler.button_selectors_distinct :
    let forest := [
      Node.mk "button" { className := "primary" } "color: red;"
        [Node.mk "span" { pseudo := ":hover" } "margin: 0;" []],
      Node.mk "button" { className := "primary.large" } "padding: 8px;" []]
    let table := (Compiler.new.compile forest).2.table
    (∀ lineage ∈ lineages forest, lineage.node.fragment.Delimited) ∧
      (Compiler.new.compile forest).1.isOk = true ∧
      ∀ left right : Path, table.contains left = true → table.contains right = true →
        (Selector.ofPath left).render = (Selector.ofPath right).render → left = right := by
  intro forest table
  have hdelimited : ∀ lineage ∈ lineages forest, lineage.node.fragment.Delimited := by
    have hplain : ∀ lineage ∈ lineages forest,
        (∀ c ∈ lineage.node.fragment.element.toList, c.isAlphanum = true) ∧
        (∀ className, lineage.node.fragment.className = some className →
          '"' ∉ className.toList) ∧
        ∀ suffix, lineage.node.fragment.pseudo = some suffix →
          suffix = ":hover" := by
      simp [forest, lineages, Node.lineagesOfAll, Node.lineages, Node.fragment, Node.attributes,
        Node.element]
    intro lineage hmem
    obtain ⟨helement, hclass, hpseudo⟩ := hplain lineage hmem
    refine Fragment.delimited_of_plain helement hclass fun suffix hsuffix => ?_
    rw [hpseudo suffix hsuffix]
    have hletters : "hover".toList.all Char.isAlpha = true := by decide
    exact ⟨"hover".toList, rfl, fun c hc => Or.inl (List.all_eq_true.1 hletters c hc)⟩
  have hblank : ∀ lineage ∈ lineages forest, ∀ className,
      lineage.node.attributes.className = some className → ' ' ∉ className.toList := by
    simp [forest, lineages, Node.lineagesOfAll, Node.lineages, Node.attributes]
  exact ⟨hdelimited, by decide +kernel,
    (Compiler.new.selectors_distinct_iff forest hdelimited).2 hblank⟩

/-- A large button written as a subclass and one written with two classes compile together, and
one selector text stands for both. -/
theorem Compiler.large_buttons_share_selector :
    let forest := [
      Node.mk "button" { className := "primary" } "" [],
      Node.mk "button" { className := "primary.large" } "color: red;" [],
      Node.mk "button" { className := "primary large" } "color: blue;" []]
    let table := (Compiler.new.compile forest).2.table
    let subclass := Path.root { element := "button", className := "primary.large" }
    let both := Path.root { element := "button", className := "primary large" }
    (Compiler.new.compile forest).1.isOk = true ∧ subclass ≠ both ∧
      table.contains subclass = true ∧ table.contains both = true ∧
      (Selector.ofPath subclass).render = (Selector.ofPath both).render := by
  decide +kernel

end StyleForest
