import StyleForest.Proofs.Compatibility
import StyleForest.Proofs.Placement

/-!
# Immutability of declared properties

A list that was not copied from a base class only ever grows by entries that conflict with none
of its entries. So in every reachable table any two of its entries are compatible, whatever
trees were assembled before and whether that succeeded or failed.
-/

namespace StyleForest.StyleTable

/-- Any two entries of a list that was not copied are compatible. -/
def OwnCompatible (table : StyleTable) : Prop :=
  ∀ (path : Path) (list : EntryList), table.get? path = some list → list.cloned = false →
    list.Compatible

/-- The lists of the empty table are free of conflicts. -/
theorem ownCompatible_empty : OwnCompatible empty := by
  intro path list found
  simp at found

/-- Copies are marked, so copying adds no list to those in question. -/
theorem OwnCompatible.cloneBase {table cloned : StyleTable} {base target : Fragment}
    {source : Option Location} (hclone : table.cloneBase base target source = .ok cloned)
    (h : table.OwnCompatible) : cloned.OwnCompatible := by
  intro path list found hown
  rcases get?_cloneBase_cases hclone found with hold | ⟨_, origin, old, _, _, _, rfl⟩
  · exact h path list hold hown
  · simp [EntryList.clone] at hown

/-- An entry is appended only if it conflicts with no entry of the list. -/
theorem OwnCompatible.file {table : StyleTable} {path : Path} {entry : Entry} {filing : Filing}
    (hfiling : table.filing path entry = .ok filing) (h : table.OwnCompatible) :
    (table.file path entry filing).OwnCompatible := by
  intro other list found hown
  rw [get?_file] at found
  by_cases hother : other = path
  · rw [if_pos hother] at found
    cases filing with
    | opened =>
      cases found
      exact EntryList.compatible_single entry
    | merged =>
      obtain ⟨old, hold, hcloned, _⟩ := filing_eq_ok_iff.1 hfiling
      rw [hold] at found
      cases found
      exact absurd (hcloned.symm.trans hown) (by simp)
    | appended =>
      obtain ⟨old, hold, _, hfree⟩ := filing_eq_ok_iff.1 hfiling
      rw [hold] at found
      cases found
      refine EntryList.compatible_push_iff.2 ⟨h path old hold hown, fun existing hmem => ?_⟩
      exact Entry.conflict?_eq_none_iff.1 (hfree existing hmem)
  · rw [if_neg hother] at found
    exact h other list found hown

/-- Placing a node keeps the lists that are not copies free of conflicts. -/
theorem OwnCompatible.place (table : StyleTable) (visit : Visit) (h : table.OwnCompatible) :
    (table.place visit).table.OwnCompatible :=
  place_induction OwnCompatible.cloneBase OwnCompatible.file table visit h

/-- In every reachable table the lists that are not copies are free of conflicts. -/
theorem Reachable.ownCompatible {table : StyleTable} (h : Reachable table) :
    table.OwnCompatible :=
  h.induction ownCompatible_empty OwnCompatible.place

/-- In every reachable table, two entries at different positions of a list that was not copied
share no property and reset no property of each other when their ranges overlap. -/
theorem Reachable.own_entries_compatible {table : StyleTable} (hreach : Reachable table)
    {path : Path} {list : EntryList} (found : table.get? path = some list)
    (hown : list.cloned = false) {i j : Nat} {left right : Entry} (hne : i ≠ j)
    (hleft : list.entries[i]? = some left) (hright : list.entries[j]? = some right)
    (hoverlap : left.breakpoint.overlaps right.breakpoint = true) :
    left.block.Compatible right.block :=
  EntryList.compatible_iff_getElem?.1 (hreach.ownCompatible path list found hown)
    i j left right hne hleft hright hoverlap

/-- Three trees for one path: the second adds an entry for a range within that of the first, and
the third is refused because it sets the property of the first again. -/
theorem note_entries_compatible :
    let first := Node.mk "p" { className := "note" } "color: red;" []
    let second := Node.mk "p" { className := "note", minWidth := some 600 } "margin-top: 8px;" []
    let third := Node.mk "p" { className := "note" } "Color: blue;" []
    let one := (empty.assemble first none none).table
    let two := (one.assemble second none none).table
    let three := two.assemble third none none
    three.failure.isSome = true ∧
      ∃ (list : EntryList) (left right : Entry),
        three.table.get? (Path.root { element := "p", className := "note" }) = some list ∧
        list.cloned = false ∧ list.entries[0]? = some left ∧ list.entries[1]? = some right ∧
        left.breakpoint.overlaps right.breakpoint = true ∧
        left.block.Compatible right.block := by
  intro first second third one two three
  let list : EntryList :=
    ⟨[⟨⟨[{ property := "color", value := "red" }]⟩, ⟨0, none⟩, none⟩,
      ⟨⟨[{ property := "margin-top", value := "8px" }]⟩, ⟨600, none⟩, none⟩], false⟩
  have hreach : Reachable three.table := .assemble third (.assemble second (.assemble first .empty))
  have found : three.table.get? (Path.root { element := "p", className := "note" }) =
      some list := by
    decide +kernel
  exact ⟨by decide +kernel, list, _, _, found, rfl, rfl, rfl, by decide,
    hreach.own_entries_compatible found rfl (by decide : 0 ≠ 1) rfl rfl (by decide)⟩

end StyleForest.StyleTable
