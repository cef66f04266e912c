import StyleForest.Proofs.Acceptance
import StyleForest.Proofs.Braces
import StyleForest.Proofs.FiledBlocks
import StyleForest.Proofs.SelectorSharing

/-!
# The braces of a stylesheet

A rule opens one block, and a media query one around it. When names are plain, nothing else in a
stylesheet has a brace outside strings, groups and comments than the words of properties and
values, which are written as they were read. So the opening braces count the rules and the media
queries, and those in words besides (`Compiler.braces_of_compile`).
-/

namespace StyleForest

open Lexeme

namespace Contributes

/-- Texts without braces contribute nothing between separators without braces. -/
theorem intercalate {separator : List Char} {texts : List (List Char)}
    (hseparator : Contributes separator []) (h : ∀ text ∈ texts, Contributes text []) :
    Contributes (separator.intercalate texts) [] := by
  induction texts with
  | nil => exact nil
  | cons first rest ih =>
    obtain ⟨hfirst, hrest⟩ := List.forall_mem_cons.1 h
    cases rest with
    | nil => simpa using hfirst
    | cons second rest =>
      rw [List.intercalate_cons_cons]
      exact (hfirst.append hseparator).append (ih hrest)

end Contributes

namespace Fragment

/-- The names of the fragment consist of ASCII letters, digits and the characters `-`, `_`, `.` and
`:`. -/
def isPlain (fragment : Fragment) : Bool :=
  (fragment.element :: (fragment.className.toList ++ fragment.pseudo.toList)).all fun name =>
    name.toList.all isNameChar

/-- A plain fragment has an element, a class and a pseudo suffix of plain characters. -/
theorem isPlain_iff {fragment : Fragment} :
    fragment.isPlain = true ↔
      fragment.element.toList.all isNameChar = true ∧
        (∀ className, fragment.className = some className →
          className.toList.all isNameChar = true) ∧
        ∀ suffix, fragment.pseudo = some suffix → suffix.toList.all isNameChar = true := by
  rw [isPlain, List.all_cons, Bool.and_eq_true]
  refine and_congr Iff.rfl ?_
  rw [List.all_eq_true, List.forall_mem_append]
  simp only [Option.mem_toList]

/-- The value of a plain class is a string without escapes. -/
theorem contributes_classText {fragment : Fragment}
    (h : ∀ className, fragment.className = some className →
      className.toList.all isNameChar = true) : Contributes fragment.classText [] := by
  unfold classText
  cases hclass : fragment.className with
  | none =>
    have hnot : Contributes ":not".toList [] := .name (by decide)
    have hgroup : Contributes ('(' :: ("[class]".toList ++ [')'])) [] := .group (by decide)
    exact hnot.append hgroup
  | some className =>
    have hopen : Contributes "[class=".toList [] := .word (by decide)
    have hclose : Contributes [']'] [] := .word (by decide)
    have hvalue : Contributes ('"' :: ((classValue className).toList ++ ['"'])) [] := by
      refine .quoted fun c hmem => ?_
      rw [classValue, String.toList_ofList] at hmem
      obtain ⟨d, hd, rfl⟩ := List.mem_map.1 hmem
      have hname := List.all_eq_true.1 (h className hclass) d hd
      split
      · decide
      · exact ⟨ne_of_isNameChar hname (by decide), ne_of_isNameChar hname (by decide)⟩
    have hall := (hopen.append hvalue).append hclose
    simpa using hall

/-- The text of a plain fragment contributes no braces. -/
theorem contributes_selectorText {fragment : Fragment} (h : fragment.isPlain = true) :
    Contributes fragment.selectorText [] := by
  obtain ⟨helement, hclass, hpseudo⟩ := isPlain_iff.1 h
  have hsuffix : Contributes fragment.pseudoText [] := by
    unfold pseudoText
    cases hcase : fragment.pseudo with
    | none => exact .nil
    | some suffix => exact .name (hpseudo suffix hcase)
  rw [selectorText_eq]
  exact (Contributes.name helement).append ((contributes_classText hclass).append hsuffix)

end Fragment

/-- The selector of plain fragments contributes nothing. -/
theorem Selector.contributes_render {path : Path}
    (h : ∀ fragment ∈ path.fragments, fragment.isPlain = true) :
    Contributes (Selector.ofPath path).render.toList [] := by
  have hblank : Contributes [' '] [] := .blank rfl
  have hchild : Contributes ['>'] [] := .word (by decide)
  rw [toList_render_ofPath]
  refine .intercalate ((hblank.append hchild).append hblank) ?_
  rw [List.forall_mem_map]
  exact fun fragment hmem => Fragment.contributes_selectorText (h fragment hmem)

namespace Breakpoint

/-- A condition is a group of letters, digits and a colon. -/
theorem contributes_condition {label : List Char} (hlabel : label.all isGroupChar = true)
    (bound : UInt32) :
    Contributes ('(' :: (label ++ (toString bound).toList ++ ['p', 'x'] ++ [')'])) [] := by
  have hdigits : (toString bound).toList.all isGroupChar = true := by
    refine List.all_eq_true.2 fun c hc => ?_
    have hdigit : c.isDigit = true := by
      have hmem : c ∈ Nat.toDigits 10 bound.toNat := by
        rw [← Nat.toList_repr]
        exact hc
      exact Nat.isDigit_of_mem_toDigits (by decide) (by decide) hmem
    have hname : isNameChar c = true := by simp [isNameChar, Char.isAlphanum, hdigit]
    simp (disch := decide) [isGroupChar, isQuote, ne_of_isNameChar hname]
  refine .group ?_
  rw [List.all_append, List.all_append, hlabel, hdigits]
  rfl

/-- A media query contributes no braces. -/
theorem contributes_mediaQuery {range : Breakpoint} {query : String}
    (h : range.mediaQuery? = some query) : Contributes query.toList [] := by
  have hcondition : ∀ condition ∈ range.conditions, Contributes condition.toList [] := by
    have hmin : "min-width:".toList.all isGroupChar = true := by decide
    have hmax : "max-width:".toList.all isGroupChar = true := by decide
    have hlower (bound : UInt32) :
        Contributes ("(min-width:" ++ toString bound ++ "px)").toList [] := by
      simpa using contributes_condition hmin bound
    have hupper (bound : UInt32) :
        Contributes ("(max-width:" ++ toString bound ++ "px)").toList [] := by
      simpa using contributes_condition hmax bound
    intro condition hmem
    rcases List.mem_append.1 hmem with hmem | hmem
    · split at hmem
      · cases hmem
      · rw [List.mem_singleton.1 hmem]
        exact hlower range.min
    · obtain ⟨bound, _, rfl⟩ := Option.map_eq_some_iff.1 (Option.mem_toList.1 hmem)
      exact hupper bound
  have hblank : Contributes [' '] [] := .blank rfl
  have hand : Contributes "and".toList [] := .name (by decide)
  unfold mediaQuery? at h
  split at h
  · cases h
  · cases h
    rw [String.toList_intercalate]
    refine .intercalate ((hblank.append hand).append hblank) ?_
    rw [List.forall_mem_map]
    exact hcondition

end Breakpoint

/-- The braces of a rule: its own, those of its media query around them, and those of its
declarations between them. -/
def ruleBraces (range : Breakpoint) (block : Block) : List Char :=
  let inner := '\x7b' :: (block.declarations.flatMap Declaration.braces ++ ['\x7d'])
  if range.isUnbounded then inner else '\x7b' :: (inner ++ ['\x7d'])

/-- Every declaration of the block contributes its braces. -/
def Block.Contributing (block : Block) : Prop :=
  ∀ declaration ∈ block.declarations,
    Contributes declaration.render.toList declaration.braces

namespace Rule

variable {rule : Rule} (hselector : Contributes rule.selector.render.toList [])
  (hblock : rule.block.Contributing)

private theorem contributes_open : Contributes " \x7b".toList ['\x7b'] := by
  have hblank : Contributes [' '] [] := .blank rfl
  have hbrace : Contributes ['\x7b'] ['\x7b'] := .letter (by decide)
  exact hblank.append hbrace

private theorem contributes_close : Contributes "\x7d\n".toList ['\x7d'] := by
  have hbrace : Contributes ['\x7d'] ['\x7d'] := .letter (by decide)
  have hfeed : Contributes ['\n'] [] := .blank rfl
  exact hbrace.append hfeed

/-- An indent contributes no braces. -/
theorem contributes_indent (depth : Nat) : Contributes (indent depth).toList [] :=
  .blanks (isBlank_of_mem_indent depth)

include hblock in
/-- The body of a rule contributes the braces of its declarations. -/
theorem contributes_body (depth : Nat) :
    Contributes (rule.body depth).toList (rule.block.declarations.flatMap Declaration.braces) := by
  have hfeed : Contributes ['\n'] [] := .blank rfl
  have hlines : Contributes
      (rule.block.declarations.flatMap fun declaration =>
        (indent (depth + 1)).toList ++ declaration.render.toList ++ ['\n'])
      (rule.block.declarations.flatMap Declaration.braces) := by
    refine .flatMap fun declaration hmem => ?_
    have hline := ((contributes_indent (depth + 1)).append (hblock declaration hmem)).append hfeed
    rwa [List.nil_append, List.append_nil] at hline
  have hbody : (rule.body depth).toList = ['\n'] ++ (rule.block.declarations.flatMap
      fun declaration => (indent (depth + 1)).toList ++ declaration.render.toList ++ ['\n']) ++
        (indent depth).toList := by
    simp [body, String.toList_join, List.flatMap_map]
  have hall := (hfeed.append hlines).append (contributes_indent depth)
  rwa [← hbody, List.nil_append, List.append_nil] at hall

include hselector hblock in
/-- A rule contributes its own pair of braces around the ones of its declarations. -/
theorem contributes_lines (depth : Nat) :
    Contributes (String.join ((rule.lines depth).map (· ++ "\n"))).toList
      ('\x7b' :: (rule.block.declarations.flatMap Declaration.braces ++ ['\x7d'])) := by
  rw [join_lines, String.toList_append, String.toList_append, String.toList_append,
    String.toList_append]
  exact ((((contributes_indent depth).append hselector).append contributes_open).append
    (contributes_body hblock depth)).append contributes_close

include hselector hblock in
/-- A rule contributes its braces. -/
theorem contributes_render :
    Contributes rule.render.toList (ruleBraces rule.breakpoint rule.block) := by
  unfold render allLines ruleBraces
  cases hquery : rule.breakpoint.mediaQuery? with
  | none =>
    rw [if_pos (Breakpoint.mediaQuery?_eq_none_iff.1 hquery)]
    exact contributes_lines hselector hblock 0
  | some query =>
    have hbounded : ¬rule.breakpoint.isUnbounded = true := by
      rw [← Breakpoint.mediaQuery?_eq_none_iff, hquery]
      nofun
    have hmedia : Contributes "@media ".toList [] := by
      have hword : Contributes "@media".toList [] := .word (by decide)
      have hblank : Contributes [' '] [] := .blank rfl
      exact hword.append hblank
    have hfeed : Contributes ['\n'] [] := .blank rfl
    -- The rule stands one level deeper between the braces of its media query.
    have htext : (String.join ((["@media " ++ query ++ " \x7b"] ++ rule.lines 1 ++ ["\x7d"]).map
        (· ++ "\n"))).toList = "@media ".toList ++ query.toList ++ " \x7b".toList ++ ['\n'] ++
          (String.join ((rule.lines 1).map (· ++ "\n"))).toList ++ "\x7d\n".toList := by
      simp [String.toList_join]
    have hquerySkipped := Breakpoint.contributes_mediaQuery hquery
    rw [if_neg hbounded, htext]
    exact ((((hmedia.append hquerySkipped).append contributes_open).append hfeed).append
      (contributes_lines hselector hblock 1)).append contributes_close

end Rule

namespace StyleTable

/-- All entries of a table, in order. -/
def entries (table : StyleTable) : List Entry :=
  table.toList.flatMap fun row => row.2.entries

/-- The entries of a table are the ones of its lists. -/
theorem mem_entries {table : StyleTable} {entry : Entry} :
    entry ∈ table.entries ↔ ∃ path list, table.get? path = some list ∧ entry ∈ list.entries := by
  simp only [entries, List.mem_flatMap, Prod.exists, get?_eq_some_iff]

/-- A stylesheet contributes the braces of the entries that are not empty. -/
theorem contributes_stylesheet {table : StyleTable}
    (hpaths : ∀ (path : Path) (list : EntryList), table.get? path = some list →
      ∀ fragment ∈ path.fragments, fragment.isPlain = true)
    (hblocks : ∀ entry ∈ table.entries, entry.block.Contributing) :
    Contributes table.stylesheet.toList
      ((table.entries.filter fun entry => !entry.block.isEmpty).flatMap fun entry =>
        ruleBraces entry.breakpoint entry.block) := by
  have hrules : Contributes (table.rules.flatMap fun rule => rule.render.toList)
      (table.rules.flatMap fun rule => ruleBraces rule.breakpoint rule.block) := by
    refine .flatMap fun rule hrule => ?_
    obtain ⟨⟨path, list⟩, hrow, hmem⟩ := List.mem_flatMap.1 hrule
    obtain ⟨entry, hentry, rfl⟩ := List.mem_map.1 hmem
    have found : table.get? path = some list := get?_eq_some_iff.2 hrow
    exact Rule.contributes_render (Selector.contributes_render (hpaths path list found))
      (hblocks entry (mem_entries.2 ⟨path, list, found, (List.mem_filter.1 hentry).1⟩))
  have htext : table.stylesheet.toList = table.rules.flatMap fun rule => rule.render.toList := by
    rw [stylesheet, String.toList_join, List.flatMap_map]
  have hbraces : (table.rules.flatMap fun rule => ruleBraces rule.breakpoint rule.block) =
      (table.entries.filter fun entry => !entry.block.isEmpty).flatMap fun entry =>
        ruleBraces entry.breakpoint entry.block := by
    simp only [rules, entries, List.filter_flatMap, List.flatMap_assoc, List.flatMap_map]
  rwa [← htext, hbraces] at hrules

end StyleTable

/-- The opening braces of rules: one for each rule, one more for each media query, and those in the
words of declarations. -/
theorem count_ruleBraces (entries : List Entry) :
    (entries.flatMap fun entry => ruleBraces entry.breakpoint entry.block).count '\x7b' =
      entries.length + entries.countP (fun entry => !entry.breakpoint.isUnbounded) +
        (entries.flatMap fun entry =>
          entry.block.declarations.flatMap Declaration.braces).count '\x7b' := by
  have hone (range : Breakpoint) (block : Block) :
      (ruleBraces range block).count '\x7b' = 1 + (if !range.isUnbounded then 1 else 0) +
        (block.declarations.flatMap Declaration.braces).count '\x7b' := by
    unfold ruleBraces
    cases range.isUnbounded with
    | true => simp [Nat.add_comm]
    | false => simp; omega
  induction entries with
  | nil => rfl
  | cons entry rest ih =>
    simp only [List.flatMap_cons, List.count_append, List.length_cons, List.countP_cons, hone, ih]
    omega

/-- The braces are matched: with `depth` blocks open, every closing brace closes one of them, at
most `limit` are open at any time, and none is left open. -/
def nests (limit : Nat) : Nat → List Char → Bool
  | depth, [] => depth == 0
  | depth, c :: rest =>
    if c = '\x7b' then decide (depth < limit) && nests limit (depth + 1) rest
    else if c = '\x7d' then decide (0 < depth) && nests limit (depth - 1) rest
    else nests limit depth rest

/-- Matched braces inside open blocks leave these open. -/
theorem nests_append {limit bound depth opened : Nat} {inner : List Char} (rest : List Char)
    (h : nests limit depth inner = true) (hbound : limit + opened ≤ bound) :
    nests bound (depth + opened) (inner ++ rest) = nests bound opened rest := by
  -- The blocks opened by `inner` itself lie on top of the `opened` ones, so their depth is general.
  induction inner generalizing depth with
  | nil =>
    obtain rfl : depth = 0 := beq_iff_eq.1 h
    rw [Nat.zero_add, List.nil_append]
  | cons c inner ih =>
    rw [nests] at h
    rw [List.cons_append, nests]
    split at h
    · next hopen =>
      obtain ⟨hdepth, hrest⟩ := Bool.and_eq_true_iff.1 h
      have hroom : depth + opened < bound := by
        have := of_decide_eq_true hdepth
        omega
      rw [if_pos hopen, decide_eq_true hroom, Bool.true_and, Nat.add_right_comm, ih hrest]
    · next hopen =>
      rw [if_neg hopen]
      split at h
      · next hclose =>
        obtain ⟨hdepth, hrest⟩ := Bool.and_eq_true_iff.1 h
        have hsome : 0 < depth := of_decide_eq_true hdepth
        have hless : depth + opened - 1 = depth - 1 + opened := by omega
        rw [if_pos hclose, decide_eq_true (by omega), Bool.true_and, hless, ih hrest]
      · next hclose =>
        rw [if_neg hclose, ih h]

/-- Rules nest at most two deep around the braces of their declarations, if these are matched. -/
theorem nests_ruleBraces {limit : Nat} {entries : List Entry}
    (h : ∀ entry ∈ entries,
      nests limit 0 (entry.block.declarations.flatMap Declaration.braces) = true) :
    nests (limit + 2) 0 (entries.flatMap fun entry => ruleBraces entry.breakpoint entry.block) =
      true := by
  induction entries with
  | nil => rfl
  | cons entry rest ih =>
    obtain ⟨hfirst, hrest⟩ := List.forall_mem_cons.1 h
    rw [List.flatMap_cons, ruleBraces]
    cases entry.breakpoint.isUnbounded with
    | true =>
      have hinner := nests_append ('\x7d' :: rest.flatMap fun entry =>
        ruleBraces entry.breakpoint entry.block) hfirst (Nat.le_succ (limit + 1))
      rw [Nat.zero_add] at hinner
      simpa [nests, hinner] using ih hrest
    | false =>
      have hinner := nests_append ('\x7d' :: '\x7d' :: rest.flatMap fun entry =>
        ruleBraces entry.breakpoint entry.block) hfirst (Nat.le_refl (limit + 2))
      rw [Nat.zero_add] at hinner
      simpa [nests, hinner] using ih hrest

/-- A compilation that succeeds gives the stylesheet of the table it leaves. -/
theorem Compiler.stylesheet_of_compile {compiler after : Compiler} {forest : List Node}
    {css : String} (h : compiler.compile forest = (.ok css, after)) :
    after.table = (assembleForest forest).table ∧ css = after.table.stylesheet := by
  have hafter : after.table = (assembleForest forest).table := by
    rw [← compiler.table_compile, h]
  have hcss : StyleForest.compile forest = .ok css := by
    rw [← compiler.fst_compile, h]
  refine ⟨hafter, ?_⟩
  rw [StyleForest.compile, Progress.finish] at hcss
  split at hcss
  · cases hcss
  · rw [hafter]
    exact (Except.ok.inj hcss).symm

/-- Among plain names, and without an end of a comment in a replaced value, the braces of a
stylesheet are those of one rule for each entry that is not empty. So the opening braces count the
rules, the media queries and the opening braces in words of declarations; and if the braces in the
words of each block are matched, those of the stylesheet are, and nest two deeper at most. -/
theorem Compiler.braces_of_compile (compiler : Compiler) (forest : List Node)
    (hplain : ∀ lineage ∈ lineages forest, lineage.node.fragment.isPlain = true)
    {css : String} {after : Compiler} (h : compiler.compile forest = (.ok css, after))
    (hclosing : ∀ entry ∈ after.table.entries, ∀ declaration ∈ entry.block.declarations,
      ∀ first, declaration.replaced = some first → NoClosing first.toList) :
    let written := after.table.entries.filter fun entry => !entry.block.isEmpty
    let braces := written.flatMap fun entry => ruleBraces entry.breakpoint entry.block
    braces? css.toList = some braces ∧
      braces.count '\x7b' =
        written.length + written.countP (fun entry => !entry.breakpoint.isUnbounded) +
          (written.flatMap fun entry =>
            entry.block.declarations.flatMap Declaration.braces).count '\x7b' ∧
      ∀ limit,
        (∀ entry ∈ written,
          nests limit 0 (entry.block.declarations.flatMap Declaration.braces) = true) →
        nests (limit + 2) 0 braces = true := by
  intro written braces
  obtain ⟨hafter, rfl⟩ := stylesheet_of_compile h
  have hpaths (path : Path) (list : EntryList) (found : after.table.get? path = some list) :
      ∀ fragment ∈ path.fragments, fragment.isPlain = true := by
    refine (grown_of_assembleForest hplain ?_).forall_fragments
    rw [← hafter, StyleTable.contains_eq_isSome_get?, found, Option.isSome_some]
  have hblocks : ∀ entry ∈ after.table.entries, entry.block.Contributing := by
    intro entry hentry declaration hmem
    obtain ⟨path, list, found, hlist⟩ := StyleTable.mem_entries.1 hentry
    have hcomposed := composed_of_assembleForest forest path list (hafter ▸ found) entry hlist
    exact (hcomposed.readable declaration hmem).contributes (hclosing entry hentry declaration hmem)
  exact ⟨(StyleTable.contributes_stylesheet hpaths hblocks).braces?_eq, count_ruleBraces written,
    fun limit => nests_ruleBraces⟩

/-- A large button that turns the red of its base to blue, with a padding on wide viewports: two
rules for all widths, and one inside a media query. -/
theorem Compiler.button_braces :
    let forest := [
      Node.mk "button" { className := "primary" } "color: red;" [],
      Node.mk "button" { className := "primary.large" } "color: blue;" [],
      Node.mk "button" { className := "primary.large", minWidth := some 600 } "padding: 4px;" []]
    let compiled := Compiler.new.compile forest
    let declarations := compiled.2.table.entries.flatMap fun entry => entry.block.declarations
    let braces := "\x7b\x7d\x7b\x7d\x7b\x7b\x7d\x7d".toList
    (∀ lineage ∈ lineages forest, lineage.node.fragment.isPlain = true) ∧
      compiled.1.isOk = true ∧ declarations.filterMap Declaration.replaced = ["red"] ∧
      ∀ css, compiled.1 = .ok css →
        braces? css.toList = some braces ∧ nests 2 0 braces = true := by
  intro forest compiled declarations braces
  have hplain : ∀ lineage ∈ lineages forest, lineage.node.fragment.isPlain = true := by
    decide +kernel
  obtain ⟨hok, hreplaced, hrules⟩ : compiled.1.isOk = true ∧
      declarations.filterMap Declaration.replaced = ["red"] ∧
      ((compiled.2.table.entries.filter fun entry => !entry.block.isEmpty).flatMap fun entry =>
        ruleBraces entry.breakpoint entry.block) = braces := by
    decide +kernel
  have hclosing : ∀ entry ∈ compiled.2.table.entries, ∀ declaration ∈ entry.block.declarations,
      ∀ first, declaration.replaced = some first → NoClosing first.toList := by
    intro entry hentry declaration hmem first hfirst
    have hred : first ∈ ["red"] := by
      rw [← hreplaced]
      exact List.mem_filterMap.2 ⟨declaration, List.mem_flatMap.2 ⟨entry, hentry, hmem⟩, hfirst⟩
    rw [List.mem_singleton.1 hred]
    exact noClosing_of_not_mem (by decide)
  refine ⟨hplain, hok, hreplaced, fun css hcss => ?_⟩
  obtain ⟨hbraces, -, hnests⟩ :=
    Compiler.new.braces_of_compile forest hplain (Prod.ext hcss rfl) hclosing
  rw [hrules] at hbraces hnests
  exact ⟨hbraces, hnests 0 (by decide +kernel)⟩

/-- A brace in a value is written as it is: the stylesheet of one rule has two opening braces, and
only one of them is closed. -/
theorem Compiler.brace_in_value_is_not_closed :
    let forest := [Node.mk "p" {} "color: \x7b;" []]
    let compiled := Compiler.new.compile forest
    let written := compiled.2.table.entries.filter fun entry => !entry.block.isEmpty
    let css := "p:not([class]) \x7b\n  color: \x7b;\n\x7d\n"
    let braces := "\x7b\x7b\x7d".toList
    (∀ lineage ∈ lineages forest, lineage.node.fragment.isPlain = true) ∧
      compiled.1.toOption = some css ∧ braces? css.toList = some braces ∧
      nests 2 0 braces = false ∧
      braces.count '\x7b' ≠
        written.length + written.countP fun entry => !entry.breakpoint.isUnbounded := by
  decide +kernel

/-- An end of a comment in a replaced value leaves a string open in the stylesheet. -/
example :
    let forest := [
      Node.mk "a" { className := "b" } "content: \"*/\";" [],
      Node.mk "a" { className := "b.c" } "content: \"x\";" []]
    (Compiler.new.compile forest).1.toOption.map (fun css => braces? css.toList) =
      some none := by
  decide +kernel

end StyleForest
