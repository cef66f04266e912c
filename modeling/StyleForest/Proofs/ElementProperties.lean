import StyleForest.Proofs.FiledBlocks

/-!
# Elements and their properties

Some properties belong to certain elements only. The check is made once, when the declarations of a
node are read, and it is made against the element of that node. A block stays with an element that
can use it: a subclass has the element of its base, so a path has the same last element after it is
moved, and a merge brings together properties that were read for one path. So in every reachable
table every property is one that the last element of its path can use.
-/

namespace StyleForest

/-- The base of a subclass has the element of the subclass. -/
theorem Fragment.element_of_base? {fragment base : Fragment} (h : fragment.base? = some base) :
    base.element = fragment.element := by
  obtain ⟨_, _, rfl⟩ := Option.map_eq_some_iff.1 h
  rfl

namespace Path

/-- The path ends in a fragment with this element. -/
def EndsIn (path : Path) (element : String) : Prop :=
  ∃ fragment, path.fragments.getLast? = some fragment ∧ fragment.element = element

/-- The path of a visit ends in the element of the visit. -/
theorem endsIn_visit (visit : Visit) : visit.path.EndsIn visit.element := by
  refine ⟨visit.fragment, ?_, rfl⟩
  unfold Visit.path under
  cases visit.parent with
  | none => rfl
  | some parent => exact List.getLast?_concat ..

/-- A path has one last element. -/
theorem EndsIn.eq {path : Path} {left right : String} (hleft : path.EndsIn left)
    (hright : path.EndsIn right) : left = right := by
  obtain ⟨last, hlast, rfl⟩ := hleft
  obtain ⟨other, hother, rfl⟩ := hright
  rw [hlast, Option.some.injEq] at hother
  rw [hother]

/-- A path that is moved from one fragment to another with the same element ends in the element it
ended in. -/
theorem EndsIn.rebase {path : Path} {element : String} {base target : Fragment}
    (h : path.EndsIn element) (hstart : path.startsWith base = true)
    (hsame : base.element = target.element) : (path.rebase target).EndsIn element := by
  obtain ⟨fragments⟩ := path
  obtain ⟨last, hlast, rfl⟩ := h
  rw [startsWith, beq_iff_eq] at hstart
  obtain ⟨below, rfl⟩ := List.head?_eq_some_iff.1 hstart
  cases below with
  | nil =>
    -- The fragment that is replaced is the last one.
    cases hlast
    exact ⟨target, rfl, hsame.symm⟩
  | cons next rest => exact ⟨last, hlast, rfl⟩

end Path

/-- The path ends in an element that can use every property of the block. -/
def Path.CanUse (path : Path) (block : Block) : Prop :=
  ∃ element, path.EndsIn element ∧
    ∀ property ∈ block.properties, Property.usableOn element property = true

/-- What is read for a visit can be used at its path, and copying and merging keep that. -/
theorem StyleTable.blockLaw_canUse : BlockLaw Path.CanUse where
  read {visit _} hread := ⟨visit.element, Path.endsIn_visit visit, (readBlock_eq_ok_iff.1 hread).2⟩
  copy hbase hstart := by
    rintro ⟨element, hends, husable⟩
    exact ⟨element, hends.rebase hstart (Fragment.element_of_base? hbase), husable⟩
  merge {visit old block} hread := by
    rintro ⟨element, hends, husable⟩
    refine ⟨element, hends, fun property hproperty => ?_⟩
    rcases Block.mem_properties_merge.1 hproperty with hold | hnew
    · exact husable property hold
    · rw [hends.eq (Path.endsIn_visit visit)]
      exact (readBlock_eq_ok_iff.1 hread).2 property hnew

/-- In every reachable table, each path has a last fragment, and the element of that fragment can
use every property of every entry of the path. -/
theorem StyleTable.Reachable.properties_usable {table : StyleTable} (hreach : Reachable table)
    {path : Path} {list : EntryList} (found : table.get? path = some list) {entry : Entry}
    (hentry : entry ∈ list.entries) :
    ∃ fragment, path.fragments.getLast? = some fragment ∧
      ∀ property ∈ entry.block.properties,
        Property.usableOn fragment.element property = true := by
  obtain ⟨_, ⟨fragment, hlast, rfl⟩, husable⟩ :=
    blockLaw_canUse.reachable hreach path list found entry hentry
  exact ⟨fragment, hlast, husable⟩

/-- A wide table starts from a copy of a plain one and merges a property of tables into it. Its cell
asks for a property of lists and is refused; the cell copied from the plain table stays. -/
theorem StyleTable.wide_table_properties_usable :
    let plain := Node.mk "table" { className := "plain" } "border-collapse: collapse;"
      [Node.mk "td" {} "empty-cells: hide;" []]
    let wide := Node.mk "table" { className := "plain.wide" } "border-spacing: 2px;"
      [Node.mk "td" {} "list-style: none;" []]
    let one := (empty.assemble plain none none).table
    let two := one.assemble wide none none
    two.failure.isSome = true ∧
      ∃ (list : EntryList) (entry : Entry),
        two.table.get? (Path.root wide.fragment) = some list ∧ entry ∈ list.entries ∧
        entry.block.properties = ["border-collapse", "border-spacing"] ∧
        ∃ fragment, (Path.root wide.fragment).fragments.getLast? = some fragment ∧
          ∀ property ∈ entry.block.properties,
            Property.usableOn fragment.element property = true := by
  intro plain wide one two
  let entry : Entry :=
    ⟨⟨[{ property := "border-collapse", value := "collapse" },
      { property := "border-spacing", value := "2px" }]⟩, ⟨0, none⟩, none⟩
  have hreach : Reachable two.table := .assemble wide (.assemble plain .empty)
  have found : two.table.get? (Path.root wide.fragment) = some ⟨[entry], true⟩ := by
    decide +kernel
  exact ⟨by decide +kernel, _, entry, found, List.mem_cons_self, rfl,
    hreach.properties_usable found List.mem_cons_self⟩

end StyleForest
