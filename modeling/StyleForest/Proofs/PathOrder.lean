import StyleForest.Proofs.Growth
import StyleForest.Proofs.SelectorSharing

/-!
# What stands above a path

A path rests on the path of its parent and, when it starts with a subclass, on the base of that
subclass. A walk files a node after its parent, and copying a base moves paths without changing
their order; so in every reachable table a path stands below all paths it rests on, also after a
walk that failed. Dots are found in the first fragment of a path only, one at most, and only paths
that start with a subclass have copied lists.
-/

namespace StyleForest

namespace Fragment

/-- The class of the fragment has one dot at most. -/
def Shallow (fragment : Fragment) : Prop :=
  ∀ className, fragment.className = some className → className.toList.count '.' ≤ 1

/-- Only a subclass has a base. -/
theorem base?_eq_none_iff {fragment : Fragment} :
    fragment.base? = none ↔ fragment.subclass? = none :=
  Option.map_eq_none_iff

/-- A fragment has a base exactly when its class has a dot. -/
theorem base?_isSome_iff {fragment : Fragment} :
    fragment.base?.isSome = true ↔
      ∃ className, fragment.className = some className ∧ '.' ∈ className.toList := by
  rw [Option.isSome_iff_ne_none, Ne, base?_eq_none_iff, subclass?_eq_none_iff]
  simp only [not_forall, not_not, exists_prop]

/-- A fragment with a class `base.sub` has the class `base` for its base. -/
theorem base?_of_className {fragment : Fragment} {base sub : String}
    (hclass : fragment.className = some (base ++ "." ++ sub)) (hbase : '.' ∉ base.toList) :
    fragment.base? = some { element := fragment.element, className := base } := by
  have hsplit : splitAtDot? (base ++ "." ++ sub).toList = some (base.toList, sub.toList) :=
    splitAtDot?_eq_some_iff.2 ⟨by simp, hbase⟩
  rw [base?, subclass?, hclass, Option.bind_eq_bind, Option.bind_some, hsplit]
  simp

private theorem shallow_of_plain {fragment : Fragment} (h : fragment.subclass? = none) :
    fragment.Shallow := by
  intro className hclass
  rw [List.count_eq_zero_of_not_mem (subclass?_eq_none_iff.1 h className hclass)]
  exact Nat.zero_le 1

/-- A class that is cut at a dot has one dot when there is none behind the cut. -/
theorem shallow_of_subclass? {fragment : Fragment} {halves : String × String}
    (h : fragment.subclass? = some halves) (hdeep : '.' ∉ halves.2.toList) :
    fragment.Shallow := by
  obtain ⟨className, hclass, hcut⟩ := Option.bind_eq_some_iff.1 h
  obtain ⟨⟨before, after⟩, hsplit, heq⟩ := Option.bind_eq_some_iff.1 hcut
  cases heq
  obtain ⟨htext, hbefore⟩ := splitAtDot?_eq_some_iff.1 hsplit
  intro other hother
  rw [hclass, Option.some.injEq] at hother
  rw [← hother, htext, List.count_append, List.count_cons_self,
    List.count_eq_zero_of_not_mem hbefore, List.count_eq_zero_of_not_mem (by simpa using hdeep)]

end Fragment

/-- A visit that is accepted has one dot in its class at most. -/
theorem Visit.shallow_of_placement {visit : Visit} {placement : Placement}
    (h : visit.placement = .ok placement) : visit.fragment.Shallow := by
  rcases subclassBase_eq_ok_iff.1 (placement_eq_ok_iff.1 h).2.2 with
    ⟨hplain, _⟩ | ⟨_, _, halves, hsub, hdeep⟩
  · exact Fragment.shallow_of_plain hplain
  · exact Fragment.shallow_of_subclass? hsub hdeep

/-- The other path is the path of the parent, or the path of the base when the path starts with a
subclass. -/
def Path.RestsOn (path other : Path) : Prop :=
  (other.fragments ≠ [] ∧ ∃ fragment, path = other.child fragment) ∨
    ∃ first below base, path = ⟨first :: below⟩ ∧ first.base? = some base ∧ other = root base

namespace StyleTable

variable {table prepared : StyleTable} {visit : Visit}

/-- The row of the first path stands above the row of the second. -/
def Precedes (table : StyleTable) (first second : Path) : Prop :=
  ∃ i j : Nat, i < j ∧ table.paths[i]? = some first ∧ table.paths[j]? = some second

/-- A path stands above another when the two are found in this order. -/
theorem precedes_iff_sublist {first second : Path} :
    table.Precedes first second ↔ [first, second].Sublist table.paths := by
  rw [List.cons_sublist_iff]
  constructor
  · rintro ⟨i, j, hij, hfirst, hsecond⟩
    refine ⟨table.paths.take j, table.paths.drop j, (List.take_append_drop ..).symm, ?_, ?_⟩
    · exact List.mem_of_getElem? ((List.getElem?_take_of_lt hij).trans hfirst)
    · refine List.singleton_sublist.2 (List.mem_of_getElem? (i := 0) ?_)
      rw [List.getElem?_drop, Nat.add_zero, hsecond]
  · rintro ⟨upper, lower, hsplit, hfirst, hsecond⟩
    obtain ⟨i, hi⟩ := List.mem_iff_getElem?.1 hfirst
    obtain ⟨j, hj⟩ := List.mem_iff_getElem?.1 (List.singleton_sublist.1 hsecond)
    obtain ⟨hbound, _⟩ := List.getElem?_eq_some_iff.1 hi
    refine ⟨i, upper.length + j, by omega, ?_, ?_⟩
    · rw [hsplit, List.getElem?_append_left hbound, hi]
    · rw [hsplit, List.getElem?_append_right (Nat.le_add_right ..), Nat.add_sub_cancel_left, hj]

/-- A path that stands above another one is in the table. -/
theorem Precedes.contains_first {first second : Path} (h : table.Precedes first second) :
    table.contains first = true := by
  obtain ⟨i, _, _, hfirst, _⟩ := h
  exact contains_iff_mem_paths.2 (List.mem_of_getElem? hfirst)

/-- Rows that are there keep their places when the table grows. -/
theorem GrowsTo.getElem?_paths {later : StyleTable} (h : table.GrowsTo later) {i : Nat}
    {path : Path} (hpath : table.paths[i]? = some path) : later.paths[i]? = some path := by
  rw [paths, List.getElem?_map, Option.map_eq_some_iff] at hpath ⊢
  obtain ⟨⟨_, list⟩, hrow, rfl⟩ := hpath
  obtain ⟨grown, hgrown, _⟩ := h.rows i _ list hrow
  exact ⟨_, hgrown, rfl⟩

/-- A path that stands above another one stays there when the table grows. -/
theorem Precedes.of_growsTo {later : StyleTable} {first second : Path}
    (h : table.Precedes first second) (hgrows : table.GrowsTo later) :
    later.Precedes first second := by
  obtain ⟨i, j, hij, hfirst, hsecond⟩ := h
  exact ⟨i, j, hij, hgrows.getElem?_paths hfirst, hgrows.getElem?_paths hsecond⟩

/-- A path that a table gains stands below all those it had. -/
theorem GrowsTo.precedes_of_new {later : StyleTable} (h : table.GrowsTo later) {old new : Path}
    (hold : table.contains old = true) (habsent : table.contains new = false)
    (hnew : later.contains new = true) : later.Precedes old new := by
  obtain ⟨i, hi⟩ := List.mem_iff_getElem?.1 (contains_iff_mem_paths.1 hold)
  obtain ⟨j, hj⟩ := List.mem_iff_getElem?.1 (contains_iff_mem_paths.1 hnew)
  refine ⟨i, j, Nat.lt_of_not_le fun hle => ?_, h.getElem?_paths hi, hj⟩
  -- Otherwise the new path would stand among the rows that keep their places.
  have hbound : i < table.paths.length := (List.getElem?_eq_some_iff.1 hi).1
  have hrow := List.getElem?_eq_getElem (l := table.paths) (i := j) (by omega)
  rw [h.getElem?_paths hrow, Option.some.injEq] at hj
  have hfiled : table.contains new = true :=
    contains_iff_mem_paths.2 (hj ▸ List.getElem_mem _)
  rw [habsent] at hfiled
  cases hfiled

/-- Copying adds the moved paths that are not filed, in the order of their originals. -/
theorem paths_cloneBase {cloned : StyleTable} {base target : Fragment} {source : Option Location}
    (h : table.cloneBase base target source = .ok cloned) :
    cloned.paths = table.paths ++
      (table.paths.filter fun path =>
        path.startsWith base && !table.contains (path.rebase target)).map fun path =>
          path.rebase target := by
  rw [paths, toList_cloneBase h, List.map_append, List.map_map, paths, List.filter_map,
    List.map_map]
  rfl

/-- Paths that are moved stand in the order of their originals. -/
theorem precedes_rebase {cloned : StyleTable} {base target : Fragment} {source : Option Location}
    (h : table.cloneBase base target source = .ok cloned) {first second : Path}
    (horder : table.Precedes first second) (hfirst : first.startsWith base = true)
    (hsecond : second.startsWith base = true)
    (hfirstNew : table.contains (first.rebase target) = false)
    (hsecondNew : table.contains (second.rebase target) = false) :
    cloned.Precedes (first.rebase target) (second.rebase target) := by
  rw [precedes_iff_sublist] at horder ⊢
  have hkept := horder.filter fun path =>
    path.startsWith base && !table.contains (path.rebase target)
  have hmoved := hkept.map fun path : Path => path.rebase target
  simp only [List.filter_cons, hfirst, hsecond, hfirstNew, hsecondNew, Bool.not_false,
    Bool.and_self, if_true, List.filter_nil, List.map_cons, List.map_nil] at hmoved
  rw [paths_cloneBase h]
  exact hmoved.trans (List.sublist_append_right ..)

/-- Every path stands below what it rests on, and copies are found below subclasses only. -/
structure Grounded (table : StyleTable) : Prop where
  /-- Only the first fragment of a path can have a dot in its class, and one at most. -/
  shallow : ∀ {path : Path}, table.contains path = true → path.Grown Fragment.Shallow
  above : ∀ {path other : Path}, table.contains path = true → path.RestsOn other →
    table.Precedes other path
  marks : ∀ {path : Path} {list : EntryList}, table.get? path = some list → list.cloned = true →
    ∃ first below base, path = ⟨first :: below⟩ ∧ first.base? = some base

/-- The empty table is grounded. -/
theorem grounded_empty : empty.Grounded where
  shallow hpath := by simp at hpath
  above hpath := by simp at hpath
  marks found := by simp at found

/-- A moved path stands below what it rests on: either that was there before, or it was moved with
the path. -/
theorem Grounded.precedes_moved {cloned : StyleTable} {base target : Fragment}
    {source : Option Location} (h : table.Grounded) (hbase : target.base? = some base)
    (hclone : table.cloneBase base target source = .ok cloned) {origin other : Path}
    (horigin : table.contains origin = true) (hstart : origin.startsWith base = true)
    (hnew : table.contains (origin.rebase target) = false)
    (hmoved : cloned.contains (origin.rebase target) = true)
    (hrests : (origin.rebase target).RestsOn other) :
    cloned.Precedes other (origin.rebase target) := by
  have hgrows := growsTo_cloneBase hclone
  obtain ⟨first, below, rfl, _⟩ := h.shallow horigin
  obtain rfl : first = base := by simpa [Path.startsWith] using hstart
  rcases hrests with ⟨hne, fragment, hchild⟩ | ⟨_, _, _, hfirst, hown, rfl⟩
  · obtain ⟨target', upper, hother⟩ := List.exists_cons_of_ne_nil hne
    obtain ⟨rfl, rfl⟩ : target = target' ∧ below = upper ++ [fragment] := by
      simpa [Path.rebase, Path.child, hother] using hchild
    obtain rfl : other = Path.rebase ⟨first :: upper⟩ target := by
      rw [← Path.mk.injEq] at hother
      exact hother
    have horder : table.Precedes ⟨first :: upper⟩ ⟨first :: (upper ++ [fragment])⟩ :=
      h.above horigin (Or.inl ⟨by simp, fragment, rfl⟩)
    cases hparent : table.contains (Path.rebase ⟨first :: upper⟩ target) with
    | true => exact hgrows.precedes_of_new hparent hnew hmoved
    | false =>
      exact precedes_rebase hclone horder (by simp [Path.startsWith]) hstart hparent hnew
  · obtain ⟨rfl, rfl⟩ : target = _ ∧ below = _ := by simpa [Path.rebase] using hfirst
    rw [hbase, Option.some.injEq] at hown
    rw [← hown]
    exact hgrows.precedes_of_new (cloneBase_eq_ok_iff.1 hclone).1 hnew hmoved

/-- Copying a base below a subclass of it keeps a table grounded. -/
theorem Grounded.of_prepared (h : table.Grounded) (hshallow : visit.fragment.Shallow)
    (hprepared : table.Prepared visit prepared) : prepared.Grounded := by
  cases hprepared with
  | plain => exact h
  | @copied base _ _ hbase hclone =>
    refine ⟨fun hpath => ?_, fun {path other} hpath hrests => ?_, fun found hmark => ?_⟩
    · rcases exists_origin_of_cloneBase hclone hpath with hkept | ⟨origin, horigin, _, rfl⟩
      · exact h.shallow hkept
      · exact (h.shallow horigin).rebase hshallow
    · cases hkept : table.contains path with
      | true => exact (h.above hkept hrests).of_growsTo (growsTo_cloneBase hclone)
      | false =>
        rcases exists_origin_of_cloneBase hclone hpath with hold | ⟨origin, horigin, hstart, rfl⟩
        · rw [hkept] at hold
          cases hold
        · exact h.precedes_moved hbase hclone horigin hstart hkept hpath hrests
    · rcases get?_cloneBase_cases hclone found with hold | ⟨_, origin, _, _, hstart, rfl, _⟩
      · exact h.marks hold hmark
      · have hmoved := Path.startsWith_rebase hstart visit.fragment
        rw [Path.startsWith, beq_iff_eq] at hmoved
        obtain ⟨below, hfragments⟩ := List.head?_eq_some_iff.1 hmoved
        exact ⟨visit.fragment, below, base, by rw [← hfragments], hbase⟩

/-- Filing under a path keeps a table grounded when all that the path rests on is filed. -/
theorem Grounded.file {path : Path} {entry : Entry} {filing : Filing} (h : table.Grounded)
    (hfiling : table.filing path entry = .ok filing) (hshallow : path.Grown Fragment.Shallow)
    (hrests : ∀ other, path.RestsOn other → table.contains other = true) :
    (table.file path entry filing).Grounded := by
  have hgrows := growsTo_file hfiling
  refine ⟨fun hpath => ?_, fun {other lower} hpath habove => ?_, fun found hmark => ?_⟩
  · rcases (contains_file_iff hfiling).1 hpath with rfl | hold
    · exact hshallow
    · exact h.shallow hold
  · cases hold : table.contains other with
    | true => exact (h.above hold habove).of_growsTo hgrows
    | false =>
      rcases (contains_file_iff hfiling).1 hpath with rfl | hkept
      · exact hgrows.precedes_of_new (hrests lower habove) hold hpath
      · rw [hold] at hkept
        cases hkept
  · rw [get?_file] at found
    split at found
    · next hpath =>
      subst hpath
      cases filing with
      | opened =>
        cases found
        cases hmark
      | merged =>
        obtain ⟨old, hold, rfl⟩ := Option.map_eq_some_iff.1 found
        exact h.marks hold hmark
      | appended =>
        obtain ⟨old, hold, rfl⟩ := Option.map_eq_some_iff.1 found
        exact h.marks hold hmark
    · exact h.marks found hmark

/-- The base of a subclass is filed in every table in which the subclass is filed. -/
theorem Prepared.contains_base {base : Fragment} (h : table.Prepared visit prepared)
    (hbase : visit.fragment.base? = some base) :
    visit.parent = none ∧ prepared.contains (Path.root base) = true := by
  cases h with
  | plain hplain =>
    rw [Fragment.base?, hplain] at hbase
    cases hbase
  | copied htop hfound hclone =>
    rw [hbase, Option.some.injEq] at hfound
    rw [← hfound] at hclone
    exact ⟨htop, contains_of_cloneBase hclone (cloneBase_eq_ok_iff.1 hclone).1⟩

section Visited

variable (hknown : ∀ parent, visit.parent = some parent → prepared.contains parent = true)

include hknown

/-- The path of a node has a dot in its first fragment only. -/
theorem Grounded.shallow_path (h : prepared.Grounded) (hshallow : visit.fragment.Shallow)
    (hprepared : table.Prepared visit prepared) : visit.path.Grown Fragment.Shallow := by
  rw [Visit.path]
  cases hparent : visit.parent with
  | none => exact .root hshallow
  | some parent =>
    cases hprepared with
    | plain hplain => exact (h.shallow (hknown parent hparent)).child hshallow hplain
    | copied htop => cases htop.symm.trans hparent

/-- When a node comes to be filed, all that its path rests on is filed. -/
theorem Grounded.contains_of_restsOn (h : prepared.Grounded)
    (hprepared : table.Prepared visit prepared) {other : Path}
    (hrests : visit.path.RestsOn other) : prepared.contains other = true := by
  rw [Visit.path] at hrests
  cases hparent : visit.parent with
  | none =>
    rw [hparent] at hrests
    rcases hrests with ⟨hne, fragment, hchild⟩ | ⟨first, below, base, hfirst, hbase, rfl⟩
    · obtain ⟨hempty, _⟩ := List.append_inj' (congrArg Path.fragments hchild : [] ++ _ = _) rfl
      exact absurd hempty.symm hne
    · cases hfirst
      exact (hprepared.contains_base hbase).2
  | some parent =>
    have hfiled := hknown parent hparent
    rw [hparent] at hrests
    rcases hrests with ⟨_, fragment, hchild⟩ | ⟨first, below, base, hfirst, hbase, rfl⟩
    · obtain ⟨hsame, _⟩ := List.append_inj' (congrArg Path.fragments hchild) rfl
      obtain rfl : parent = other := congrArg Path.mk hsame
      exact hfiled
    · -- The parent has the same first fragment, so it rests on the base too.
      obtain ⟨top, upper, rfl, _⟩ := h.shallow hfiled
      obtain ⟨rfl, _⟩ : top = first ∧ _ := List.cons.inj (congrArg Path.fragments hfirst)
      exact (h.above hfiled (Or.inr ⟨top, upper, base, rfl, hbase, rfl⟩)).contains_first

end Visited

/-- Placing a node whose parent is filed keeps a table grounded. -/
theorem Grounded.place (h : table.Grounded)
    (hparent : ∀ parent, visit.parent = some parent → table.contains parent = true) :
    (table.place visit).table.Grounded := by
  cases hplacement : visit.placement with
  | error error =>
    have hrefused : table.place visit = ⟨table, some error⟩ := by rw [StyleTable.place, hplacement]
    rw [hrefused]
    exact h
  | ok placement =>
    have hshallow := Visit.shallow_of_placement hplacement
    have houtcome := outcome_place table visit
    generalize table.place visit = progress at houtcome ⊢
    cases houtcome with
    | refused error => exact h
    | stopped error hprepared => exact h.of_prepared hshallow hprepared
    | @filed prepared entry filing harrival hfiling =>
      have hprepared := prepared_of_arrival harrival
      have hgrounded := h.of_prepared hshallow hprepared
      have hknown : ∀ parent, visit.parent = some parent → prepared.contains parent = true := by
        intro parent hsome
        rw [hprepared.eq_of_parent (by rw [hsome]; rfl)]
        exact hparent parent hsome
      exact hgrounded.file hfiling (hgrounded.shallow_path hknown hshallow hprepared)
        fun other => hgrounded.contains_of_restsOn hknown hprepared

/-- Every reachable table is grounded, whether the walks that led to it failed or not. -/
theorem Reachable.grounded (h : Reachable table) : table.Grounded := by
  induction h with
  | empty => exact grounded_empty
  | assemble node _ ih =>
    exact Progress.table_run_induction_of_parents (fun _ _ _ hparent hkept => hkept.place hparent)
      (parentsFirst_visits (by simp) node) ih

/-- In a grounded table a class with a dot is the one of a first fragment and has no second dot. -/
theorem Grounded.dot_first (h : table.Grounded) {path : Path} {i : Nat} {fragment : Fragment}
    {className : String} (hpath : table.contains path = true)
    (hfragment : path.fragments[i]? = some fragment) (hclass : fragment.className = some className)
    (hdot : '.' ∈ className.toList) : i = 0 ∧ className.toList.count '.' = 1 := by
  have hgrown := h.shallow hpath
  have hfew := hgrown.forall_fragments fragment (List.mem_of_getElem? hfragment) className hclass
  refine ⟨?_, Nat.le_antisymm hfew (List.count_pos_iff.2 hdot)⟩
  obtain ⟨first, below, rfl, _, hbelow⟩ := hgrown
  cases i with
  | zero => rfl
  | succ i =>
    have hplain := (hbelow fragment (List.mem_of_getElem? hfragment)).2
    exact absurd hdot (Fragment.subclass?_eq_none_iff.1 hplain className hclass)

/-- In every reachable table each path that is not at the top stands below the path of its parent.
A dot is found in the class of a first fragment only, and no class has two. Every path that starts
with a subclass stands below the base of the subclass, and only such a path has a copied list. -/
theorem Reachable.paths_in_order (hreach : Reachable table) :
    (∀ path, table.contains path = true → 1 < path.size →
      table.Precedes ⟨path.fragments.dropLast⟩ path) ∧
    (∀ (path : Path) (i : Nat) (fragment : Fragment) (className : String),
      table.contains path = true → path.fragments[i]? = some fragment →
      fragment.className = some className → '.' ∈ className.toList →
      i = 0 ∧ className.toList.count '.' = 1) ∧
    (∀ (element base sub : String) (pseudo : Option String) (below : List Fragment),
      let first : Fragment := { element, className := base ++ "." ++ sub, pseudo }
      table.contains ⟨first :: below⟩ = true →
      table.Precedes (Path.root { element, className := base }) ⟨first :: below⟩) ∧
    ∀ (path : Path) (list : EntryList), table.get? path = some list → list.cloned = true →
      ∃ first className, path.fragments.head? = some first ∧
        first.className = some className ∧ className.toList.count '.' = 1 := by
  have hgrounded := hreach.grounded
  refine ⟨fun path hpath hsize => ?_, fun path i fragment className hpath hfragment hclass hdot =>
    hgrounded.dot_first hpath hfragment hclass hdot, fun element base sub pseudo below => ?_,
    fun path list found hmark => ?_⟩
  · have hne : path.fragments ≠ [] := List.ne_nil_of_length_pos (Nat.zero_lt_of_lt hsize)
    refine hgrounded.above hpath (Or.inl ⟨?_, path.fragments.getLast hne, ?_⟩)
    · exact List.ne_nil_of_length_pos (by rw [List.length_dropLast]; exact Nat.sub_pos_of_lt hsize)
    · rw [Path.child, List.dropLast_append_getLast]
  · intro first hpath
    have hfew : (base ++ "." ++ sub).toList.count '.' = 1 :=
      (hgrounded.dot_first (i := 0) hpath rfl rfl (by simp)).2
    have hplain : '.' ∉ base.toList := by
      rw [← List.count_eq_zero]
      simp only [String.toList_append, List.count_append] at hfew
      have hmiddle : ".".toList.count '.' = 1 := by decide
      omega
    exact hgrounded.above hpath
      (Or.inr ⟨first, below, _, rfl, Fragment.base?_of_className rfl hplain, rfl⟩)
  · obtain ⟨first, below, base, rfl, hbase⟩ := hgrounded.marks found hmark
    have hfiled : table.contains ⟨first :: below⟩ = true := contains_of_get? found
    obtain ⟨className, hclass, hdot⟩ := Fragment.base?_isSome_iff.1 (by rw [hbase]; rfl)
    exact ⟨first, className, rfl, hclass,
      (hgrounded.dot_first (i := 0) hfiled rfl hclass hdot).2⟩

/-- A large button whose second part is refused: its copied parts stand below their parents and
below the button. -/
theorem large_button_paths_in_order :
    let button := Node.mk "button" { className := "primary" } "color: red;"
      [Node.mk "span" {} "margin: 0;" [Node.mk "em" {} "" []]]
    let large := Node.mk "button" { className := "primary.large" } "padding: 8px;"
      [Node.mk "span" {} "bold" []]
    let one := (empty.assemble button none none).table
    let two := one.assemble large none none
    let span : Fragment := { element := "span" }
    let em : Fragment := { element := "em" }
    two.failure.isSome = true ∧
      two.table.Precedes ⟨[large.fragment, span]⟩ ⟨[large.fragment, span, em]⟩ ∧
      two.table.Precedes (Path.root button.fragment) ⟨[large.fragment, span, em]⟩ ∧
      ∃ list, two.table.get? ⟨[large.fragment, span, em]⟩ = some list ∧ list.cloned = true ∧
        ∃ first className, [large.fragment, span, em].head? = some first ∧
          first.className = some className ∧ className.toList.count '.' = 1 := by
  intro button large one two span em
  have hreach : Reachable two.table := .assemble large (.assemble button .empty)
  obtain ⟨hparents, _, hbases, hmarks⟩ := hreach.paths_in_order
  let path : Path := ⟨[large.fragment, span, em]⟩
  have hpath : two.table.contains path = true := by decide +kernel
  have found : two.table.get? path = some ⟨[⟨⟨[]⟩, ⟨0, none⟩, none⟩], true⟩ := by decide +kernel
  refine ⟨by decide +kernel, hparents path hpath (by decide), ?_, _, found, rfl,
    hmarks path _ found rfl⟩
  exact hbases "button" "primary" "large" none [span, em] hpath

end StyleTable

end StyleForest
