import Mathlib.Data.List.Forall2
import StyleForest.Selector.Basic

/-!
# The text of a selector

The text of a selector can be read back: the element ends where the class part opens, the value of
the class where a quote follows, and the pseudo suffix at a blank. So two paths have one selector
text exactly when their fragments agree one by one in what a selector shows of them
(`Selector.render_ofPath_eq_iff_alike`). A selector shows a blank for each dot of a class name, so a
class that is written with a blank and one that is written with a dot are told apart by their
fragments only.
-/

namespace StyleForest

/-- When what precedes a stop is free of stops on both sides, equal texts are cut at one place. -/
theorem append_inj_of_stop {α : Type} (stop : α → Bool) {first second x y : List α}
    (hfirst : ∀ c ∈ first, stop c = false) (hsecond : ∀ c ∈ second, stop c = false)
    (hx : ∀ c, x.head? = some c → stop c = true) (hy : ∀ c, y.head? = some c → stop c = true)
    (h : first ++ x = second ++ y) : first = second ∧ x = y := by
  rcases List.append_eq_append_iff.1 h with ⟨between, hsplit, hrest⟩ | ⟨between, hsplit, hrest⟩
  · cases between with
    | nil => exact ⟨by rw [hsplit, List.append_nil], hrest⟩
    | cons c between =>
      have hgo : stop c = false := hsecond c (by rw [hsplit]; simp)
      rw [hx c (by rw [hrest]; rfl)] at hgo
      cases hgo
  · cases between with
    | nil => exact ⟨by rw [hsplit, List.append_nil], hrest.symm⟩
    | cons c between =>
      have hgo : stop c = false := hfirst c (by rw [hsplit]; simp)
      rw [hy c (by rw [hrest]; rfl)] at hgo
      cases hgo

namespace Fragment

/-- A selector shows the fragments alike: element and pseudo suffix are equal, and the classes are
equal when blanks stand for dots. -/
structure Alike (left right : Fragment) : Prop where
  element : left.element = right.element
  className : left.className.map classValue = right.className.map classValue
  pseudo : left.pseudo = right.pseudo

/-- A selector shows a fragment like itself. -/
theorem Alike.refl (fragment : Fragment) : fragment.Alike fragment :=
  ⟨rfl, rfl, rfl⟩

/-- No part of the fragment holds a character that ends it in a selector. Names of letters and
digits, pseudo suffixes of a colon with letters and hyphens, and classes without quotes are of
this kind. -/
structure Delimited (fragment : Fragment) : Prop where
  element : ∀ c ∈ fragment.element.toList, c ≠ ':' ∧ c ≠ '['
  className : ∀ className, fragment.className = some className → '"' ∉ className.toList
  pseudo : ∀ suffix, fragment.pseudo = some suffix →
    suffix.toList.head? = some ':' ∧ ' ' ∉ suffix.toList

/-- What stands for the class of a fragment in a selector. -/
def classText (fragment : Fragment) : List Char :=
  match fragment.className with
  | none => ":not([class])".toList
  | some className => "[class=\"".toList ++ ((classValue className).toList ++ "\"]".toList)

/-- What stands for the pseudo suffix of a fragment in a selector. -/
def pseudoText (fragment : Fragment) : List Char :=
  (fragment.pseudo.getD "").toList

/-- The text of the parts that match a fragment. -/
def selectorText (fragment : Fragment) : List Char :=
  fragment.selectorParts.flatMap fun part => (Selector.render.renderPart part).toList

/-- A fragment is shown by its element, its class and its pseudo suffix. -/
theorem selectorText_eq (fragment : Fragment) :
    fragment.selectorText =
      fragment.element.toList ++ (fragment.classText ++ fragment.pseudoText) := by
  have htype : (Selector.render.renderPart (.type fragment.element)).toList =
      fragment.element.toList := rfl
  have hlacks : (Selector.render.renderPart (.lacks "class")).toList = ":not([class])".toList := by
    decide
  have hequals (value : String) : (Selector.render.renderPart (.equals "class" value)).toList =
      "[class=\"".toList ++ (value.toList ++ "\"]".toList) := by
    simp [Selector.render.renderPart]
  have hpseudo : (fragment.pseudo.map SelectorPart.pseudo).toList.flatMap
      (fun part => (Selector.render.renderPart part).toList) = fragment.pseudoText := by
    cases hsuffix : fragment.pseudo with
    | none => simp [pseudoText, hsuffix]
    | some suffix => simp [pseudoText, hsuffix, Selector.render.renderPart]
  rw [selectorText, selectorParts, List.flatMap_append, hpseudo, classText, ← List.append_assoc]
  cases hclass : fragment.className with
  | none => simp only [List.flatMap_cons, List.flatMap_nil, List.append_nil, htype, hlacks]
  | some className =>
    simp only [List.flatMap_cons, List.flatMap_nil, List.append_nil, htype, hequals]

/-- Fragments that are alike have the same text. -/
theorem Alike.selectorText_eq {left right : Fragment} (h : left.Alike right) :
    left.selectorText = right.selectorText := by
  have hclass : left.classText = right.classText := by
    have hvalues := h.className
    unfold classText
    cases hleft : left.className with
    | none =>
      cases hright : right.className with
      | none => rfl
      | some className => simp [hleft, hright] at hvalues
    | some className =>
      cases hright : right.className with
      | none => simp [hleft, hright] at hvalues
      | some other =>
        rw [hleft, hright, Option.map_some, Option.map_some, Option.some.injEq] at hvalues
        simp only [hvalues]
  rw [Fragment.selectorText_eq, Fragment.selectorText_eq, h.element, hclass, pseudoText, h.pseudo,
    pseudoText]

private theorem head?_classText (fragment : Fragment) :
    fragment.classText.head? = some ':' ∨ fragment.classText.head? = some '[' := by
  unfold classText
  cases fragment.className with
  | none => exact Or.inl rfl
  | some className => exact Or.inr rfl

/-- Writing blanks for dots brings no quote into a class. -/
theorem quote_not_mem_classValue {className : String} (h : '"' ∉ className.toList) :
    '"' ∉ (classValue className).toList := by
  rw [classValue, String.toList_ofList, List.mem_map]
  rintro ⟨c, hmem, hquote⟩
  by_cases hdot : c = '.'
  · rw [if_pos hdot] at hquote
    cases hquote
  · rw [if_neg hdot] at hquote
    exact h (hquote ▸ hmem)

/-- The class part of a fragment ends with its bracket, so what follows can be told from it. -/
theorem classText_append_inj {left right : Fragment} (hleft : left.Delimited)
    (hright : right.Delimited) {x y : List Char}
    (h : left.classText ++ x = right.classText ++ y) :
    left.className.map classValue = right.className.map classValue ∧ x = y := by
  unfold classText at h
  cases hl : left.className with
  | none =>
    cases hr : right.className with
    | none =>
      simp only [hl, hr] at h
      exact ⟨rfl, List.append_cancel_left h⟩
    | some other => simp [hl, hr] at h
  | some className =>
    cases hr : right.className with
    | none => simp [hl, hr] at h
    | some other =>
      simp only [hl, hr, List.append_assoc, List.append_cancel_left_eq] at h
      have hfree := quote_not_mem_classValue (hleft.className className hl)
      have hfree' := quote_not_mem_classValue (hright.className other hr)
      obtain ⟨hvalue, hrest⟩ := append_inj_of_stop (· == '"')
        (fun c hc => beq_eq_false_iff_ne.2 fun hquote => hfree (hquote ▸ hc))
        (fun c hc => beq_eq_false_iff_ne.2 fun hquote => hfree' (hquote ▸ hc))
        (fun c hc => by cases hc; rfl) (fun c hc => by cases hc; rfl) h
      exact ⟨congrArg some (String.toList_inj.1 hvalue), List.append_cancel_left hrest⟩

/-- The pseudo suffix of a fragment ends at a blank or at the end of the text. -/
theorem pseudoText_append_inj {left right : Fragment} (hleft : left.Delimited)
    (hright : right.Delimited) {x y : List Char} (hx : ∀ c, x.head? = some c → c = ' ')
    (hy : ∀ c, y.head? = some c → c = ' ') (h : left.pseudoText ++ x = right.pseudoText ++ y) :
    left.pseudo = right.pseudo ∧ x = y := by
  have hfree {fragment : Fragment} (hfragment : fragment.Delimited) :
      ∀ c ∈ fragment.pseudoText, (c == ' ') = false := by
    intro c hc
    rw [beq_eq_false_iff_ne]
    rintro rfl
    cases hsuffix : fragment.pseudo with
    | none => simp [pseudoText, hsuffix] at hc
    | some suffix =>
      rw [pseudoText, hsuffix, Option.getD_some] at hc
      exact (hfragment.pseudo suffix hsuffix).2 hc
  obtain ⟨htext, hrest⟩ := append_inj_of_stop (· == ' ') (hfree hleft) (hfree hright)
    (fun c hc => beq_iff_eq.2 (hx c hc)) (fun c hc => beq_iff_eq.2 (hy c hc)) h
  refine ⟨?_, hrest⟩
  -- A suffix has its colon, so no suffix is told from an empty one.
  have hcolon {fragment : Fragment} (hfragment : fragment.Delimited) {suffix : String}
      (hsuffix : fragment.pseudo = some suffix) : suffix.toList ≠ [] := by
    intro hnil
    have hhead := (hfragment.pseudo suffix hsuffix).1
    rw [hnil] at hhead
    cases hhead
  unfold pseudoText at htext
  cases hl : left.pseudo with
  | none =>
    cases hr : right.pseudo with
    | none => rfl
    | some other =>
      rw [hl, hr] at htext
      exact absurd htext.symm (hcolon hright hr)
  | some suffix =>
    cases hr : right.pseudo with
    | none =>
      rw [hl, hr] at htext
      exact absurd htext (hcolon hleft hl)
    | some other =>
      rw [hl, hr] at htext
      exact congrArg some (String.toList_inj.1 htext)

/-- The selector text of a fragment can be cut off what follows it, and shows what the fragment
is up to blanks for dots. -/
theorem selectorText_append_inj {left right : Fragment} (hleft : left.Delimited)
    (hright : right.Delimited) {x y : List Char} (hx : ∀ c, x.head? = some c → c = ' ')
    (hy : ∀ c, y.head? = some c → c = ' ') (h : left.selectorText ++ x = right.selectorText ++ y) :
    left.Alike right ∧ x = y := by
  have hfree {fragment : Fragment} (hfragment : fragment.Delimited) :
      ∀ c ∈ fragment.element.toList, (c == ':' || c == '[') = false := by
    intro c hc
    obtain ⟨hcolon, hbracket⟩ := hfragment.element c hc
    rw [beq_eq_false_iff_ne.2 hcolon, beq_eq_false_iff_ne.2 hbracket, Bool.or_false]
  have hopens (fragment : Fragment) (rest : List Char) :
      ∀ c, (fragment.classText ++ rest).head? = some c → (c == ':' || c == '[') = true := by
    intro c hc
    rcases fragment.head?_classText with hhead | hhead
    · rw [List.head?_append, hhead] at hc
      cases hc
      rfl
    · rw [List.head?_append, hhead] at hc
      cases hc
      rfl
  rw [selectorText_eq, selectorText_eq, List.append_assoc, List.append_assoc, List.append_assoc,
    List.append_assoc] at h
  obtain ⟨helement, hclassRest⟩ :=
    append_inj_of_stop (fun c => c == ':' || c == '[') (hfree hleft) (hfree hright)
      (hopens left _) (hopens right _) h
  obtain ⟨hclass, hpseudoRest⟩ := classText_append_inj hleft hright hclassRest
  obtain ⟨hpseudo, hrest⟩ := pseudoText_append_inj hleft hright hx hy hpseudoRest
  exact ⟨⟨String.toList_inj.1 helement, hclass, hpseudo⟩, hrest⟩

private theorem selectorText_ne_nil (fragment : Fragment) : fragment.selectorText ≠ [] := by
  intro hnil
  rw [selectorText_eq, List.append_eq_nil_iff, List.append_eq_nil_iff] at hnil
  rcases fragment.head?_classText with hhead | hhead
  · rw [hnil.2.1] at hhead
    cases hhead
  · rw [hnil.2.1] at hhead
    cases hhead

end Fragment

namespace Selector

/-- What follows the first fragment in the text of a selector. -/
def belowText (fragments : List Fragment) : List Char :=
  fragments.flatMap fun fragment => " > ".toList ++ fragment.selectorText

private theorem flatMap_intercalate {α β : Type} (f : α → List β) (separator : List α)
    (lists : List (List α)) :
    (separator.intercalate lists).flatMap f =
      (separator.flatMap f).intercalate (lists.map fun list => list.flatMap f) := by
  induction lists with
  | nil => rfl
  | cons first rest ih =>
    cases rest with
    | nil => simp
    | cons second rest =>
      rw [List.intercalate_cons_cons, List.flatMap_append, List.flatMap_append, ih]
      simp only [List.map_cons, List.intercalate_cons_cons]

/-- The text of a selector is the text of its fragments with a combinator between any two. -/
theorem toList_render_ofPath (path : Path) :
    (ofPath path).render.toList =
      " > ".toList.intercalate (path.fragments.map Fragment.selectorText) := by
  rw [render, String.toList_join, List.flatMap_map, ofPath, flatMap_intercalate, List.map_map]
  rfl

/-- A selector is the text of its first fragment and the one of the fragments below. -/
theorem intercalate_selectorText (fragment : Fragment) (below : List Fragment) :
    " > ".toList.intercalate ((fragment :: below).map Fragment.selectorText) =
      fragment.selectorText ++ belowText below := by
  induction below generalizing fragment with
  | nil => simp [belowText]
  | cons child below ih =>
    rw [List.map_cons, List.map_cons, List.intercalate_cons_cons, ← List.map_cons, ih child,
      belowText, belowText, List.flatMap_cons, List.append_assoc, List.append_assoc]

private theorem head?_belowText {fragments : List Fragment} {c : Char}
    (h : (belowText fragments).head? = some c) : c = ' ' := by
  cases fragments with
  | nil => simp [belowText] at h
  | cons fragment below =>
    cases h
    rfl

/-- What is below the first fragments reads alike only if it is alike, fragment by fragment. -/
theorem forall₂_alike_of_belowText {left right : List Fragment}
    (hleft : ∀ fragment ∈ left, fragment.Delimited)
    (hright : ∀ fragment ∈ right, fragment.Delimited) (h : belowText left = belowText right) :
    left.Forall₂ Fragment.Alike right := by
  induction left generalizing right with
  | nil =>
    cases right with
    | nil => exact .nil
    | cons fragment below => simp [belowText] at h
  | cons first rest ih =>
    cases right with
    | nil => simp [belowText] at h
    | cons second others =>
      rw [belowText, belowText, List.flatMap_cons, List.flatMap_cons, List.append_assoc,
        List.append_assoc, List.append_cancel_left_eq] at h
      obtain ⟨halike, hrest⟩ := Fragment.selectorText_append_inj (hleft first List.mem_cons_self)
        (hright second List.mem_cons_self) (fun _ => head?_belowText) (fun _ => head?_belowText) h
      exact .cons halike (ih (fun fragment hmem => hleft fragment (List.mem_cons_of_mem _ hmem))
        (fun fragment hmem => hright fragment (List.mem_cons_of_mem _ hmem)) hrest)

/-- Fragments that are alike one by one have the same texts. -/
theorem map_selectorText_of_alike {left right : List Fragment}
    (h : left.Forall₂ Fragment.Alike right) :
    left.map Fragment.selectorText = right.map Fragment.selectorText := by
  induction h with
  | nil => rfl
  | cons halike _ ih => rw [List.map_cons, List.map_cons, halike.selectorText_eq, ih]

/-- Two paths have one selector text exactly when their fragments are alike one by one. -/
theorem render_ofPath_eq_iff_alike {left right : Path}
    (hleft : ∀ fragment ∈ left.fragments, fragment.Delimited)
    (hright : ∀ fragment ∈ right.fragments, fragment.Delimited) :
    (ofPath left).render = (ofPath right).render ↔
      left.fragments.Forall₂ Fragment.Alike right.fragments := by
  obtain ⟨leftFragments⟩ := left
  obtain ⟨rightFragments⟩ := right
  rw [← String.toList_inj, toList_render_ofPath, toList_render_ofPath]
  constructor
  · intro h
    cases leftFragments with
    | nil =>
      cases rightFragments with
      | nil => exact .nil
      | cons second below =>
        rw [intercalate_selectorText, List.map_nil, List.intercalate_nil, eq_comm,
          List.append_eq_nil_iff] at h
        exact absurd h.1 second.selectorText_ne_nil
    | cons first rest =>
      cases rightFragments with
      | nil =>
        rw [intercalate_selectorText, List.map_nil, List.intercalate_nil,
          List.append_eq_nil_iff] at h
        exact absurd h.1 first.selectorText_ne_nil
      | cons second below =>
        rw [intercalate_selectorText, intercalate_selectorText] at h
        obtain ⟨halike, hbelow⟩ := Fragment.selectorText_append_inj
          (hleft first List.mem_cons_self) (hright second List.mem_cons_self)
          (fun _ => head?_belowText) (fun _ => head?_belowText) h
        exact .cons halike (forall₂_alike_of_belowText
          (fun fragment hmem => hleft fragment (List.mem_cons_of_mem _ hmem))
          (fun fragment hmem => hright fragment (List.mem_cons_of_mem _ hmem)) hbelow)
  · intro h
    rw [map_selectorText_of_alike h]

end Selector

end StyleForest
