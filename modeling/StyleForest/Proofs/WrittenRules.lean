import StyleForest.Forest.Stylesheet
import StyleForest.Proofs.MediaQuery
import StyleForest.Text.Lines

/-!
# What a stylesheet says

A stylesheet lists rules: a selector, a range of widths and declarations as they are written.
Nothing in these texts is escaped, so braces, semicolons and the words of a media query may stand in
any of them. The layout tells the rules apart all the same. A rule is closed by a line that is less
indented than its declarations, and a selector cannot pass for a media query, because it has a
bracket or is empty. So two tables without line feeds have one stylesheet exactly when they list the
same rules (`StyleTable.stylesheet_eq_iff`).
-/

namespace StyleForest

/-- A rule as a stylesheet shows it. -/
structure WrittenRule where
  selector : String
  breakpoint : Breakpoint
  /-- The declarations as they are written, in order. -/
  declarations : List String
  deriving DecidableEq, Repr

/-- What the entries of a table with a block that is not empty say, in table and entry order. -/
def StyleTable.writtenRules (table : StyleTable) : List WrittenRule :=
  table.toList.flatMap fun (path, list) =>
    (list.entries.filter fun entry => !entry.block.isEmpty).map fun entry =>
      { selector := (Selector.ofPath path).render
        breakpoint := entry.breakpoint
        declarations := entry.block.declarations.map Declaration.render }

namespace WrittenRule

open Rule (indent)

variable {rule other : WrittenRule}

/-- The lines of a rule at a depth, without its media query. -/
def body (rule : WrittenRule) (depth : Nat) : List String :=
  (indent depth ++ rule.selector ++ " \x7b") ::
    (rule.declarations.map (indent (depth + 1) ++ ·) ++ [indent depth ++ "\x7d"])

/-- The lines of a rule. -/
def lines (rule : WrittenRule) : List String :=
  match rule.breakpoint.mediaQuery? with
  | none => rule.body 0
  | some query => ("@media " ++ query ++ " \x7b") :: (rule.body 1 ++ ["\x7d"])

/-- The line that closes a rule is less indented than its declarations. -/
theorem indent_append_ne_close (depth : Nat) (text : String) :
    indent (depth + 1) ++ text ≠ indent depth ++ "\x7d" := by
  intro h
  have hindent : (indent (depth + 1)).toList = (indent depth).toList ++ [' ', ' '] := by
    simp [indent, Nat.mul_add, List.replicate_add]
  have hlists := congrArg String.toList h
  rw [String.toList_append, String.toList_append, hindent, List.append_assoc,
    List.append_cancel_left_eq] at hlists
  cases hlists

/-- The lines of a rule tell its selector and its declarations, and where they end. -/
theorem body_append_inj {depth : Nat} {x y : List String}
    (h : rule.body depth ++ x = other.body depth ++ y) :
    rule.selector = other.selector ∧ rule.declarations = other.declarations ∧ x = y := by
  rw [body, body, List.cons_append, List.cons_append, List.cons.injEq] at h
  obtain ⟨hopen, hrest⟩ := h
  have hselector : rule.selector = other.selector := by
    rwa [String.append_left_inj, String.append_right_inj] at hopen
  have hindented (declarations : List String) :
      ∀ line ∈ declarations.map (indent (depth + 1) ++ ·),
        (line == indent depth ++ "\x7d") = false := by
    rw [List.forall_mem_map]
    exact fun text _ => beq_eq_false_iff_ne.2 (indent_append_ne_close depth text)
  have hclose (rest : List String) :
      ∀ line, ([indent depth ++ "\x7d"] ++ rest).head? = some line →
        (line == indent depth ++ "\x7d") = true := by
    rintro _ ⟨⟩
    exact beq_self_eq_true _
  rw [List.append_assoc, List.append_assoc] at hrest
  -- the declarations end at the first line that is the closing one
  obtain ⟨hlines, hafter⟩ := append_inj_of_stop (· == indent depth ++ "\x7d")
    (hindented rule.declarations) (hindented other.declarations) (hclose x) (hclose y) hrest
  have hinjective : Function.Injective (indent (depth + 1) ++ ·) :=
    fun _ _ => (String.append_right_inj _).1
  exact ⟨hselector, hinjective.list_map hlines, List.append_cancel_left hafter⟩

/-- A selector is no media query: it has a bracket, or it is empty. -/
def SelectsElements (rule : WrittenRule) : Prop :=
  rule.selector = "" ∨ '[' ∈ rule.selector.toList

/-- No rule for all widths opens as a media query does. -/
theorem SelectsElements.not_media (h : rule.SelectsElements) {range : Breakpoint} {query : String}
    (hquery : range.mediaQuery? = some query) :
    indent 0 ++ rule.selector ++ " \x7b" ≠ "@media " ++ query ++ " \x7b" := by
  intro hopen
  have hselector : rule.selector = "@media " ++ query := by
    have hindent : indent 0 = "" := rfl
    rwa [String.append_left_inj, hindent, String.empty_append] at hopen
  rcases h with hempty | hbracket
  · rw [hempty, ← String.toList_inj, String.toList_append] at hselector
    simp at hselector
  · rw [hselector, String.toList_append, List.mem_append] at hbracket
    rcases hbracket with hmedia | hmem
    · revert hmedia
      decide
    · have hchar := Breakpoint.isQueryChar_of_mem_mediaQuery? hquery hmem
      revert hchar
      decide

/-- The lines of a rule tell what the rule says, and where it ends. -/
theorem lines_append_inj (hrule : rule.SelectsElements) (hother : other.SelectsElements)
    {x y : List String} (h : rule.lines ++ x = other.lines ++ y) : rule = other ∧ x = y := by
  have heq (hselector : rule.selector = other.selector)
      (hquery : rule.breakpoint.mediaQuery? = other.breakpoint.mediaQuery?)
      (hdeclarations : rule.declarations = other.declarations) : rule = other := by
    obtain ⟨selector, range, declarations⟩ := rule
    obtain rfl : selector = other.selector := hselector
    obtain rfl : range = other.breakpoint := Breakpoint.mediaQuery?_injective hquery
    obtain rfl : declarations = other.declarations := hdeclarations
    rfl
  unfold lines at h
  cases hquery : rule.breakpoint.mediaQuery? with
  | none =>
    cases hquery' : other.breakpoint.mediaQuery? with
    | none =>
      rw [hquery, hquery'] at h
      obtain ⟨hselector, hdeclarations, hrest⟩ := body_append_inj h
      exact ⟨heq hselector (hquery.trans hquery'.symm) hdeclarations, hrest⟩
    | some query =>
      rw [hquery, hquery'] at h
      exact absurd (List.cons.inj h).1 (hrule.not_media hquery')
  | some query =>
    cases hquery' : other.breakpoint.mediaQuery? with
    | none =>
      rw [hquery, hquery'] at h
      exact absurd (List.cons.inj h).1.symm (hother.not_media hquery)
    | some query' =>
      simp only [hquery, hquery', List.cons_append, List.append_assoc, List.cons.injEq,
        String.append_left_inj, String.append_right_inj] at h
      obtain ⟨rfl, hbody⟩ := h
      obtain ⟨hselector, hdeclarations, hrest⟩ := body_append_inj hbody
      exact ⟨heq hselector (hquery.trans hquery'.symm) hdeclarations, (List.cons.inj hrest).2⟩

private theorem lines_ne_nil (rule : WrittenRule) : rule.lines ≠ [] := by
  unfold lines
  split
  · exact List.cons_ne_nil _ _
  · exact List.cons_ne_nil _ _

/-- The lines of rules tell what the rules say, one by one. -/
theorem eq_of_flatMap_lines {rules others : List WrittenRule}
    (hrules : ∀ rule ∈ rules, rule.SelectsElements)
    (hothers : ∀ rule ∈ others, rule.SelectsElements)
    (h : rules.flatMap lines = others.flatMap lines) : rules = others := by
  induction rules generalizing others with
  | nil =>
    cases others with
    | nil => rfl
    | cons other rest =>
      rw [List.flatMap_nil, List.flatMap_cons, eq_comm, List.append_eq_nil_iff] at h
      exact absurd h.1 other.lines_ne_nil
  | cons rule rules ih =>
    obtain ⟨hrule, hlater⟩ := List.forall_mem_cons.1 hrules
    cases others with
    | nil =>
      rw [List.flatMap_nil, List.flatMap_cons, List.append_eq_nil_iff] at h
      exact absurd h.1 rule.lines_ne_nil
    | cons other others =>
      obtain ⟨hother, hlater'⟩ := List.forall_mem_cons.1 hothers
      rw [List.flatMap_cons, List.flatMap_cons] at h
      obtain ⟨hsame, hrest⟩ := lines_append_inj hrule hother h
      rw [hsame, ih hlater hlater' hrest]

end WrittenRule

namespace Fragment

/-- Neither name nor suffix of the fragment has a line feed. -/
structure OneLine (fragment : Fragment) : Prop where
  element : '\n' ∉ fragment.element.toList
  className : ∀ className ∈ fragment.className, '\n' ∉ className.toList
  pseudo : ∀ suffix ∈ fragment.pseudo, '\n' ∉ suffix.toList

/-- A fragment without line feeds has none in its text. -/
theorem OneLine.selectorText {fragment : Fragment} (h : fragment.OneLine) :
    '\n' ∉ fragment.selectorText := by
  have hclass : '\n' ∉ fragment.classText := by
    unfold classText
    cases hclass : fragment.className with
    | none => decide
    | some className =>
      have hvalue : '\n' ∉ (classValue className).toList := by
        rw [classValue, String.toList_ofList, List.mem_map]
        rintro ⟨c, hmem, hfeed⟩
        by_cases hdot : c = '.'
        · rw [if_pos hdot] at hfeed
          cases hfeed
        · rw [if_neg hdot] at hfeed
          exact h.className className hclass (hfeed ▸ hmem)
      simp [hvalue]
  have hpseudo : '\n' ∉ fragment.pseudoText := by
    unfold pseudoText
    cases hsuffix : fragment.pseudo with
    | none => simp
    | some suffix => exact h.pseudo suffix hsuffix
  rw [selectorText_eq]
  simp [h.element, hclass, hpseudo]

private theorem bracket_mem_selectorText (fragment : Fragment) : '[' ∈ fragment.selectorText := by
  have hclass : '[' ∈ fragment.classText := by
    unfold classText
    cases fragment.className with
    | none => decide
    | some className => exact List.mem_append_left _ (by decide)
  rw [selectorText_eq]
  simp [hclass]

end Fragment

namespace Selector

/-- The selector of a path has a bracket, or it is empty. -/
theorem render_eq_empty_or_bracket_mem (path : Path) :
    (ofPath path).render = "" ∨ '[' ∈ (ofPath path).render.toList := by
  obtain ⟨fragments⟩ := path
  cases fragments with
  | nil => exact Or.inl rfl
  | cons fragment below =>
    rw [toList_render_ofPath, intercalate_selectorText]
    exact Or.inr (List.mem_append_left _ fragment.bracket_mem_selectorText)

/-- A path without line feeds has none in its selector. -/
theorem feed_not_mem_render {path : Path} (h : ∀ fragment ∈ path.fragments, fragment.OneLine) :
    '\n' ∉ (ofPath path).render.toList := by
  obtain ⟨fragments⟩ := path
  cases fragments with
  | nil => simp [toList_render_ofPath]
  | cons fragment below =>
    obtain ⟨hfirst, hbelow⟩ := List.forall_mem_cons.1 h
    rw [toList_render_ofPath, intercalate_selectorText, List.mem_append, belowText,
      List.mem_flatMap]
    rintro (hmem | ⟨child, hchild, hmem⟩)
    · exact hfirst.selectorText hmem
    · rcases List.mem_append.1 hmem with hmem | hmem
      · revert hmem
        decide
      · exact (hbelow child hchild).selectorText hmem

end Selector

/-- Neither property nor value of the declaration has a line feed, nor has the value it has
replaced. -/
structure Declaration.OneLine (declaration : Declaration) : Prop where
  property : '\n' ∉ declaration.property.toList
  value : '\n' ∉ declaration.value.toList
  replaced : ∀ first ∈ declaration.replaced, '\n' ∉ first.toList

/-- A declaration without line feeds is shown without any. -/
theorem Declaration.OneLine.render {declaration : Declaration} (h : declaration.OneLine) :
    '\n' ∉ declaration.render.toList := by
  have htext (text : String) : toString text = text := rfl
  have hlast := h.replaced
  unfold Declaration.render
  cases hreplaced : declaration.replaced with
  | none => simp [htext, h.property, h.value]
  | some first =>
    have hfirst : '\n' ∉ first.toList := hlast first hreplaced
    simp [htext, h.property, h.value, hfirst]

/-- The lines of a rule without line feeds have none. -/
theorem WrittenRule.feed_not_mem_lines {rule : WrittenRule}
    (hselector : '\n' ∉ rule.selector.toList)
    (hdeclarations : ∀ text ∈ rule.declarations, '\n' ∉ text.toList) :
    ∀ line ∈ rule.lines, '\n' ∉ line.toList := by
  have hindent (depth : Nat) : '\n' ∉ (Rule.indent depth).toList := by
    simp [Rule.indent, List.mem_replicate]
  have hbody (depth : Nat) : ∀ line ∈ rule.body depth, '\n' ∉ line.toList := by
    intro line hmem
    rcases List.mem_cons.1 hmem with rfl | hmem
    · simp [hindent depth, hselector]
    · rcases List.mem_append.1 hmem with hmem | hmem
      · obtain ⟨text, htext, rfl⟩ := List.mem_map.1 hmem
        simp [hindent (depth + 1), hdeclarations text htext]
      · obtain rfl := List.mem_singleton.1 hmem
        simp [hindent depth]
  unfold WrittenRule.lines
  cases hquery : rule.breakpoint.mediaQuery? with
  | none => exact hbody 0
  | some query =>
    have hfree : '\n' ∉ query.toList := fun hmem => by
      have hchar := Breakpoint.isQueryChar_of_mem_mediaQuery? hquery hmem
      revert hchar
      decide
    intro line hmem
    rcases List.mem_cons.1 hmem with rfl | hmem
    · simp [hfree]
    · rcases List.mem_append.1 hmem with hmem | hmem
      · exact hbody 1 line hmem
      · obtain rfl := List.mem_singleton.1 hmem
        decide

/-- What a rule says. -/
def Rule.written (rule : Rule) : WrittenRule where
  selector := rule.selector.render
  breakpoint := rule.breakpoint
  declarations := rule.block.declarations.map Declaration.render

/-- The lines of a rule are those of what it says. -/
theorem Rule.allLines_eq (rule : Rule) : rule.allLines = rule.written.lines := by
  have hbody (depth : Nat) : rule.lines depth = rule.written.body depth := by
    simp [Rule.lines, WrittenRule.body, Rule.written]
  have hrange : rule.written.breakpoint = rule.breakpoint := rfl
  rw [Rule.allLines, WrittenRule.lines, hrange]
  cases rule.breakpoint.mediaQuery? with
  | none => exact hbody 0
  | some query => simp [hbody]

/-- The text of a rule is what it says, line by line. -/
theorem Rule.toList_render (rule : Rule) :
    rule.render.toList = (rule.written.lines.map String.toList).flatMap (· ++ ['\n']) := by
  rw [Rule.render, Rule.allLines_eq, String.toList_join, List.flatMap_map, List.flatMap_map]
  simp

namespace StyleTable

variable {table other : StyleTable}

/-- The rules of a table say what its entries say. -/
theorem map_written_rules (table : StyleTable) :
    table.rules.map Rule.written = table.writtenRules := by
  simp only [rules, writtenRules, List.map_flatMap, List.map_map]
  rfl

/-- A stylesheet is written line by line. -/
theorem toList_stylesheet (table : StyleTable) :
    table.stylesheet.toList =
      ((table.writtenRules.flatMap WrittenRule.lines).map String.toList).flatMap
        (· ++ ['\n']) := by
  have htext : table.stylesheet.toList = table.rules.flatMap fun rule => rule.render.toList := by
    rw [stylesheet, String.toList_join, List.flatMap_map]
  simp only [htext, Rule.toList_render, ← map_written_rules, List.flatMap_map, List.map_flatMap,
    List.flatMap_assoc]

/-- What a table says comes from its entries. -/
theorem exists_of_mem_writtenRules {rule : WrittenRule} (h : rule ∈ table.writtenRules) :
    ∃ row ∈ table.toList, ∃ entry ∈ row.2.entries,
      rule.selector = (Selector.ofPath row.1).render ∧
        rule.declarations = entry.block.declarations.map Declaration.render := by
  obtain ⟨row, hrow, hrule⟩ := List.mem_flatMap.1 h
  obtain ⟨entry, hentry, rfl⟩ := List.mem_map.1 hrule
  exact ⟨row, hrow, entry, List.mem_of_mem_filter hentry, rfl, rfl⟩

/-- The selectors of the written rules select elements. -/
theorem selectsElements_of_mem_writtenRules (table : StyleTable) :
    ∀ rule ∈ table.writtenRules, rule.SelectsElements := by
  intro rule hrule
  obtain ⟨row, -, _, -, hselector, -⟩ := exists_of_mem_writtenRules hrule
  rw [WrittenRule.SelectsElements, hselector]
  exact Selector.render_eq_empty_or_bracket_mem row.1

/-- No name, property or value in the table has a line feed. -/
structure OneLine (table : StyleTable) : Prop where
  fragments : ∀ row ∈ table.toList, ∀ fragment ∈ row.1.fragments, fragment.OneLine
  declarations : ∀ row ∈ table.toList, ∀ entry ∈ row.2.entries,
    ∀ declaration ∈ entry.block.declarations, declaration.OneLine

/-- The empty table has no line feeds. -/
theorem oneLine_empty : empty.OneLine := ⟨by simp, by simp⟩

/-- A table stays without line feeds when an entry list without line feeds is filed. -/
theorem OneLine.insert (h : table.OneLine) {path : Path} {list : EntryList}
    (hpath : ∀ fragment ∈ path.fragments, fragment.OneLine)
    (hlist : ∀ entry ∈ list.entries, ∀ declaration ∈ entry.block.declarations,
      declaration.OneLine) : (table.insert path list).OneLine := by
  have hrows (row) (hrow : row ∈ (table.insert path list).toList) :
      row = (path, list) ∨ row ∈ table.toList := by
    have hfound := get?_eq_some_iff.2 hrow
    rw [get?_insert] at hfound
    by_cases hsame : row.1 = path
    · rw [if_pos hsame, Option.some.injEq] at hfound
      exact Or.inl (Prod.ext hsame hfound.symm)
    · rw [if_neg hsame] at hfound
      exact Or.inr (get?_eq_some_iff.1 hfound)
  constructor
  · intro row hrow
    rcases hrows row hrow with rfl | hold
    · exact hpath
    · exact h.fragments row hold
  · intro row hrow
    rcases hrows row hrow with rfl | hold
    · exact hlist
    · exact h.declarations row hold

/-- A table without line feeds has its lines back when its stylesheet is cut at the line feeds. -/
theorem OneLine.cutLines_stylesheet (h : table.OneLine) :
    Text.cutLines table.stylesheet.toList =
      ((table.writtenRules.flatMap WrittenRule.lines).map String.toList, []) := by
  rw [toList_stylesheet]
  apply Text.cutLines_flatMap
  rw [List.forall_mem_map]
  intro line hline
  obtain ⟨rule, hrule, hmem⟩ := List.mem_flatMap.1 hline
  obtain ⟨row, hrow, entry, hentry, hselector, hdeclarations⟩ :=
    exists_of_mem_writtenRules hrule
  refine WrittenRule.feed_not_mem_lines ?_ ?_ line hmem
  · rw [hselector]
    exact Selector.feed_not_mem_render (h.fragments row hrow)
  · rw [hdeclarations, List.forall_mem_map]
    exact fun declaration hmem => (h.declarations row hrow entry hentry declaration hmem).render

/-- Two tables without line feeds have one stylesheet exactly when they list the same rules: the
same selectors for the same ranges with the same declarations, in the same order. -/
theorem stylesheet_eq_iff (htable : table.OneLine) (hother : other.OneLine) :
    table.stylesheet = other.stylesheet ↔ table.writtenRules = other.writtenRules := by
  constructor
  · intro h
    have hcut := congrArg (fun css => (Text.cutLines css.toList).1) h
    simp only [htable.cutLines_stylesheet, hother.cutLines_stylesheet] at hcut
    have hinjective : Function.Injective String.toList := fun _ _ => String.toList_inj.1
    exact WrittenRule.eq_of_flatMap_lines table.selectsElements_of_mem_writtenRules
      other.selectsElements_of_mem_writtenRules (hinjective.list_map hcut)
  · intro h
    rw [← String.toList_inj, toList_stylesheet, toList_stylesheet, h]

/-- A value that looks like the end of a rule and a media query is told from one, and a path without
declarations leaves no trace. -/
theorem stylesheet_eq_of_empty_block :
    let value := "red; \x7d @media (min-width:600px) \x7b"
    let table := empty.insert (.root { element := "p" })
      (.single ⟨⟨[{ property := "color", value }]⟩, .unbounded, none⟩)
    let other := table.insert (.root { element := "div" }) (.single ⟨.empty, .unbounded, none⟩)
    table.OneLine ∧ other.OneLine ∧ table.toList ≠ other.toList ∧
      table.stylesheet = other.stylesheet := by
  intro value table other
  have hroot (element : String) (h : '\n' ∉ element.toList) :
      ∀ fragment ∈ (Path.root { element }).fragments, fragment.OneLine := by
    simpa [Path.root] using Fragment.OneLine.mk h (by simp) (by simp)
  have htable : table.OneLine := by
    refine oneLine_empty.insert (hroot "p" (by decide)) ?_
    simpa [EntryList.single] using Declaration.OneLine.mk (by decide) (by decide) (by simp)
  have hother : other.OneLine :=
    htable.insert (hroot "div" (by decide)) (by simp [EntryList.single, Block.empty])
  exact ⟨htable, hother, by decide +kernel,
    (stylesheet_eq_iff htable hother).2 (by decide +kernel)⟩

end StyleTable

end StyleForest
