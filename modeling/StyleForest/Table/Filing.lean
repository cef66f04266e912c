import StyleForest.Declaration.Reading
import StyleForest.Table.Basic
import StyleForest.Table.Conflict

/-!
# Filing declarations

A block of declarations is filed under the path of its node. A new path is opened with it. A
list copied from a base class takes it into the entry of the same range. In all other cases it
must not conflict with any entry of the list, and is appended. A refused block leaves the
table as it was, because the decision is taken before anything is changed.
-/

namespace StyleForest

/-- How an entry is filed. -/
inductive Filing where
  /-- The path is new. -/
  | opened
  /-- The block is folded into the entry copied from a base class. -/
  | merged
  /-- The entry is appended to the list of the path. -/
  | appended
  deriving DecidableEq, Repr

/-- Reads the declaration text of a node; its element must be able to use every property. -/
def readBlock (path : Path) (element text : String) (source : Option Location) :
    Except StyleError Block :=
  match Block.parse text with
  | .error error => .error (StyleError.ofBlockError error path.render source)
  | .ok block =>
    match block.properties.find? fun property => !Property.usableOn element property with
    | none => .ok block
    | some property =>
      let allowed := (Property.allowedElements? property).getD []
      .error ⟨.elementPropertyMismatch path.render element property allowed, source⟩

/-- A block is read when its text is one and the element can use every property of it. -/
theorem readBlock_eq_ok_iff {path : Path} {element text : String} {source : Option Location}
    {block : Block} :
    readBlock path element text source = .ok block ↔
      Block.parse text = .ok block ∧
        ∀ property ∈ block.properties, Property.usableOn element property = true := by
  unfold readBlock
  cases Block.parse text with
  | error error => simp
  | ok parsed =>
    simp only [Except.ok.injEq]
    split
    · next hf =>
      have usable : ∀ property ∈ parsed.properties, Property.usableOn element property = true := by
        simpa using hf
      rw [Except.ok.injEq]
      exact ⟨fun h => ⟨h, h ▸ usable⟩, And.left⟩
    · next property hf =>
      have hmem := List.mem_of_find?_eq_some hf
      have hnot := List.find?_some hf
      refine ⟨nofun, ?_⟩
      rintro ⟨rfl, usable⟩
      simp [usable property hmem] at hnot

namespace StyleTable

/-- Decides how an entry is filed, or refuses it because of the first entry of the list that
it conflicts with. -/
def filing (table : StyleTable) (path : Path) (entry : Entry) : Except StyleError Filing :=
  match table.get? path with
  | none => .ok .opened
  | some list =>
    if list.cloned && list.hasRange entry.breakpoint then
      .ok .merged
    else
      match list.entries.findSome? fun existing => existing.conflict? path entry with
      | some error => .error error
      | none => .ok .appended

/-- Files an entry as decided. -/
def file (table : StyleTable) (path : Path) (entry : Entry) : Filing → StyleTable
  | .opened => table.insert path (EntryList.single entry)
  | .merged => table.modify path fun list => list.mergeAt entry.breakpoint entry.block
  | .appended => table.modify path fun list => list.push entry

/-- Reads the declaration text of a node and files it under its path. -/
def register (table : StyleTable) (path : Path) (element text : String) (range : Breakpoint)
    (source : Option Location) : Except StyleError StyleTable := do
  let block ← readBlock path element text source
  let entry : Entry := { block, breakpoint := range, source }
  let filing ← table.filing path entry
  return table.file path entry filing

variable {table : StyleTable} {path : Path} {entry : Entry}

/-- An entry opens a path that has no list, is merged into a copied list that has an entry for
its range, and is appended to any other list if it conflicts with no entry there. -/
theorem filing_eq_ok_iff {filing : Filing} :
    table.filing path entry = .ok filing ↔
      match filing with
      | .opened => table.get? path = none
      | .merged => ∃ list, table.get? path = some list ∧ list.cloned = true ∧
          list.hasRange entry.breakpoint = true
      | .appended => ∃ list, table.get? path = some list ∧
          ¬(list.cloned = true ∧ list.hasRange entry.breakpoint = true) ∧
          ∀ existing ∈ list.entries, existing.conflict? path entry = none := by
  fun_cases StyleTable.filing table path entry with
  | case1 hg => cases filing <;> simp [hg]
  | case2 list hg hm =>
    rw [Bool.and_eq_true] at hm
    cases filing <;> simp [hg, hm]
  | case3 list hg hm error he =>
    rw [Bool.and_eq_true] at hm
    have hf : ¬ ∀ existing ∈ list.entries, existing.conflict? path entry = none := by
      rw [← List.findSome?_eq_none_iff, he]
      nofun
    cases filing <;> simp [hg, hm, hf]
  | case4 list hg hm hf =>
    rw [Bool.and_eq_true] at hm
    rw [List.findSome?_eq_none_iff] at hf
    cases filing with
    | opened => simp [hg]
    | merged => simp [hg, hm]
    | appended => simpa only [hg, Option.some.injEq, exists_eq_left', true_iff] using ⟨hm, hf⟩

/-- Filing an entry changes the list of its path alone. -/
theorem get?_file (table : StyleTable) (path other : Path) (entry : Entry) (filing : Filing) :
    (table.file path entry filing).get? other =
      if other = path then
        match filing with
        | .opened => some (EntryList.single entry)
        | .merged => (table.get? path).map fun list => list.mergeAt entry.breakpoint entry.block
        | .appended => (table.get? path).map fun list => list.push entry
      else table.get? other := by
  cases filing with
  | opened => exact get?_insert ..
  | merged => exact get?_modify ..
  | appended => exact get?_modify ..

end StyleTable

end StyleForest
