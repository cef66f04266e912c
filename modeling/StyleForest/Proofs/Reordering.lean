import StyleForest.Proofs.Acceptance
import StyleForest.Proofs.Footprint
import StyleForest.Proofs.Merging

/-!
# The order of independent trees

Two neighbouring trees with different roots, neither of which is a subclass of the root of the
other, can change places in a forest (`Compiler.compile_swap`). The tables that the two orders lead
to have the same list for every path. What is assembled later cannot tell them apart, and neither
can the check of the finished table; only the order of the rows, and with it the order of the rules
in the stylesheet, can differ.
-/

namespace StyleForest

namespace StyleTable

/-- The tables have the same list for every path. -/
abbrev SameLists : StyleTable → StyleTable → Prop :=
  AgreeOn fun _ => True

variable {left right : StyleTable}

/-- Tables with the same lists place every visit alike. -/
theorem SameLists.placingLaw (visit : Visit) : PlacingLaw SameLists visit :=
  AgreeOn.placingLaw trivial fun _ _ => ⟨trivial, fun _ _ _ => trivial⟩

/-- Tables with the same lists have the same rows in some order. -/
theorem SameLists.perm_toList (h : SameLists left right) : left.toList.Perm right.toList := by
  have hnodup (table : StyleTable) : table.toList.Nodup :=
    List.Nodup.of_map Prod.fst table.nodup_paths
  rw [List.perm_ext_iff_of_nodup (hnodup left) (hnodup right)]
  rintro ⟨path, list⟩
  rw [← get?_eq_some_iff, ← get?_eq_some_iff, h path trivial]

/-- Tables with the same lists have the same rules in some order. -/
theorem SameLists.perm_rules (h : SameLists left right) : left.rules.Perm right.rules :=
  h.perm_toList.flatMap_right _

/-- The check of a table depends on its lists alone when it finds nothing. -/
theorem SameLists.inconsistency?_eq_none_iff (h : SameLists left right) :
    left.inconsistency? = none ↔ right.inconsistency? = none := by
  rw [inconsistency?_eq_scan?, inconsistency?_eq_scan?, scan?_eq_none_iff, scan?_eq_none_iff]
  simp only [h _ trivial]

end StyleTable

open StyleTable (SameLists)

namespace Progress

/-- A tree that comes after a success is assembled into the table that it has left. -/
theorem run_visits_of_running {progress : Progress} (h : progress.failure = none) (node : Node) :
    progress.run (node.visits none none) = progress.table.assemble node none none := by
  have hstart : progress = .start progress.table := by rw [start, ← h]
  rw [hstart]
  rfl

/-- A tree fails in a run as it does by itself, unless the run has failed before. -/
theorem failure_run_visits (progress : Progress) (node : Node) :
    (progress.run (node.visits none none)).failure =
      progress.failure.or (progress.table.assemble node none none).failure := by
  cases hfailure : progress.failure with
  | some error => rw [run_of_failure (by rw [hfailure]; rfl), hfailure, Option.some_or]
  | none => rw [run_visits_of_running hfailure, Option.none_or]

/-- Both works have failed, or both stand at tables with the same lists. -/
def Alike (left right : Progress) : Prop :=
  (left.failure.isSome = true ∧ right.failure.isSome = true) ∨ left.Related SameLists right

/-- Works that stand alike stand alike after placing the same nodes. -/
theorem Alike.run {left right : Progress} (h : left.Alike right) (visits : List Visit) :
    (left.run visits).Alike (right.run visits) := by
  rcases h with ⟨hleft, hright⟩ | hrelated
  · rw [run_of_failure hleft, run_of_failure hright]
    exact Or.inl ⟨hleft, hright⟩
  · exact Or.inr (hrelated.run fun visit _ => SameLists.placingLaw visit)

/-- Independent trees lead to the same lists in either order, or fail in either order. -/
theorem alike_run_of_independent {first second : Node} (h : first.Independent second)
    (progress : Progress) :
    ((progress.run (first.visits none none)).run (second.visits none none)).Alike
      ((progress.run (second.visits none none)).run (first.visits none none)) := by
  cases hfailure : progress.failure with
  | some error =>
    have hsome : progress.failure.isSome = true := by rw [hfailure]; rfl
    simp only [run_of_failure hsome]
    exact Or.inl ⟨hsome, hsome⟩
  | none =>
    rw [run_visits_of_running hfailure, run_visits_of_running hfailure]
    have hfirst := (StyleTable.related_assemble_of_independent h progress.table).failure
    have hsecond := (StyleTable.related_assemble_of_independent h.symm progress.table).failure
    have hcomm := StyleTable.get?_assemble_comm h progress.table
    generalize progress.table.assemble first none none = one at hfirst hsecond hcomm ⊢
    generalize progress.table.assemble second none none = two at hfirst hsecond hcomm ⊢
    -- Each tree fails after the other exactly when it fails by itself.
    have hone : (one.run (second.visits none none)).failure = one.failure.or two.failure := by
      rw [failure_run_visits, ← hsecond]
    have htwo : (two.run (first.visits none none)).failure = two.failure.or one.failure := by
      rw [failure_run_visits, ← hfirst]
    by_cases hend : one.failure = none ∧ two.failure = none
    · refine Or.inr ⟨by rw [hone, htwo, hend.1, hend.2], fun path _ => ?_⟩
      rw [run_visits_of_running hend.1, run_visits_of_running hend.2, hcomm path]
    · rw [← Option.or_eq_none_iff, ← Ne, ← Option.isSome_iff_ne_none] at hend
      refine Or.inl ⟨hone ▸ hend, ?_⟩
      rw [htwo, Option.isSome_or, Bool.or_comm, ← Option.isSome_or]
      exact hend

end Progress

/-- A forest with independent neighbours is assembled into the same lists when they have changed
places, or fails before and after. -/
theorem alike_assembleForest_of_independent {first second : Node} (h : first.Independent second)
    (before after : List Node) :
    (assembleForest (before ++ first :: second :: after)).Alike
      (assembleForest (before ++ second :: first :: after)) := by
  simp only [assembleForest_append, Node.visitsOfAll, Progress.run_append]
  exact (Progress.alike_run_of_independent h _).run _

/-- A work that is accepted has given the stylesheet of its table. -/
theorem Progress.finish_eq_ok_of_isOk {progress : Progress} (h : progress.finish.isOk = true) :
    progress.finish = .ok progress.table.stylesheet := by
  obtain ⟨hend, hconsistent⟩ := isOk_finish_iff.1 h
  rw [finish, hend, hconsistent]
  rfl

/-- Two neighbouring trees with different roots, neither of which is a subclass of the root of the
other, can change places: the forest compiles in one order when it does in the other. Then every
path has the same list, and the two stylesheets are written from the same rules up to order. -/
theorem Compiler.compile_swap (compiler : Compiler) {first second : Node}
    (h : first.Independent second) (before after : List Node) :
    let one := compiler.compile (before ++ first :: second :: after)
    let two := compiler.compile (before ++ second :: first :: after)
    one.1.isOk = two.1.isOk ∧
      (one.1.isOk = true →
        (∀ path, one.2.table.get? path = two.2.table.get? path) ∧
        one.1 = .ok one.2.table.stylesheet ∧ two.1 = .ok two.2.table.stylesheet ∧
        one.2.table.rules.Perm two.2.table.rules) := by
  simp only [compiler.fst_compile, compiler.table_compile, StyleForest.compile]
  have halike := alike_assembleForest_of_independent h before after
  generalize assembleForest (before ++ first :: second :: after) = left at halike ⊢
  generalize assembleForest (before ++ second :: first :: after) = right at halike ⊢
  have hsame : left.finish.isOk = true ↔ right.finish.isOk = true := by
    rw [Progress.isOk_finish_iff, Progress.isOk_finish_iff]
    rcases halike with ⟨hleft, hright⟩ | hrelated
    · rw [Option.isSome_iff_ne_none] at hleft hright
      simp only [hleft, hright, false_and]
    · rw [hrelated.failure, hrelated.table.inconsistency?_eq_none_iff]
  refine ⟨Bool.eq_iff_iff.2 hsame, fun hok => ?_⟩
  have hend := (Progress.isOk_finish_iff.1 hok).1
  rcases halike with ⟨hleft, _⟩ | hrelated
  · rw [hend] at hleft
    cases hleft
  · exact ⟨fun path => hrelated.table path trivial, Progress.finish_eq_ok_of_isOk hok,
      Progress.finish_eq_ok_of_isOk (hsame.1 hok), hrelated.table.perm_rules⟩

/-- Two sizes of a button, both copied from one base, change places in front of a tree that merges
into one of them. -/
theorem Compiler.button_sizes_swap :
    let base := Node.mk "button" { className := "primary" } "color: red;"
      [Node.mk "span" {} "margin: 0;" []]
    let large := Node.mk "button" { className := "primary.large" } "padding: 8px;" []
    let small := Node.mk "button" { className := "primary.small" } "padding: 2px;"
      [Node.mk "span" {} "margin: 1px;" []]
    let thick := Node.mk "button" { className := "primary.large" } "border: 2px;" []
    let one := Compiler.new.compile [base, large, small, thick]
    let two := Compiler.new.compile [base, small, large, thick]
    large.Independent small ∧ one.1.isOk = true ∧ two.1.isOk = true ∧
      (∀ path, one.2.table.get? path = two.2.table.get? path) ∧
      one.2.table.rules.Perm two.2.table.rules := by
  intro base large small thick one two
  have hindependent : large.Independent small :=
    ⟨by decide, by decide +kernel, by decide +kernel⟩
  have hok : one.1.isOk = true := by decide +kernel
  obtain ⟨hsame, hlists⟩ := Compiler.new.compile_swap hindependent [base] [thick]
  obtain ⟨hget, _, _, hrules⟩ := hlists hok
  exact ⟨hindependent, hok, hsame ▸ hok, hget, hrules⟩

end StyleForest
