import StyleForest.Machine.FileTree
import StyleForest.Proofs.Steps

/-!
# Files that are written

Two paths may lead to one file, and a path may stop leading anywhere when a file is created on its
way. Reading and writing still act as on a map from places to texts: after a text has been written
to the place that a path leads to, all paths to that place have the text, and all other paths have
the text they had before (`FileTree.replaces_put`).
-/

namespace StyleForest.FileTree

variable {tree : FileTree} {place here next : Place} {path name text : String}

/-- The later files have a text at all paths that lead to the place, and what there was at all other
paths. -/
def Replaces (tree : FileTree) (place : Place) (text : String) (later : FileTree) : Prop :=
  ∀ path content : String, later.read path = .ok content ↔
    tree.resolve path = .ok place ∧ content = text ∨
      tree.resolve path ≠ .ok place ∧ tree.read path = .ok content

/-- A put adds its place to the files. -/
theorem isFile_put (other : Place) :
    (tree.put place text).isFile other = (decide (place = other) || tree.isFile other) := by
  rw [Bool.eq_iff_iff]
  simp [isFile, put, Std.TreeMap.contains_insert]

/-- A step along a path leads on from directories only, so a new file stands in no way. -/
theorem enter_put_eq_ok_iff (h : tree.isDirectory place = false) :
    (tree.put place text).enter here name = .ok next ↔ tree.enter here name = .ok next := by
  have hdirectory : (tree.put place text).isDirectory here = tree.isDirectory here := rfl
  have hfollow : (tree.put place text).follow (here.enter name) = tree.follow (here.enter name) :=
    rfl
  rw [enter, enter, isFile_put, hdirectory, hfollow]
  by_cases hhere : place = here
  · -- no step leads on from the place, be there a file or not
    subst hhere
    cases tree.isFile place with
    | true => simp
    | false => simp [h]
  · simp [hhere]

/-- Paths lead to the same places when a file is created. -/
theorem resolve_put_eq_ok_iff (h : tree.isDirectory place = false) :
    (tree.put place text).resolve path = .ok next ↔ tree.resolve path = .ok next := by
  have hstart : (tree.put place text).startOf path = tree.startOf path := rfl
  have hnames (names : List String) (here : Place) :
      names.foldlM (tree.put place text).enter here = .ok next ↔
        names.foldlM tree.enter here = .ok next := by
    induction names generalizing here with
    | nil => rfl
    | cons name rest ih => simp only [List.foldlM_cons, bind_eq_ok_iff, enter_put_eq_ok_iff h, ih]
  simp only [resolve, bind_eq_ok_iff, hstart, hnames]

/-- Writing goes to the place that the path leads to, which is no directory. -/
theorem resolve_of_target (h : tree.target path = .ok place) :
    tree.resolve path = .ok place ∧ tree.isDirectory place = false := by
  unfold target at h
  split at h
  · obtain ⟨found, hfound, hplace⟩ := bind_eq_ok_iff.1 h
    cases hdirectory : tree.isDirectory found with
    | true =>
      rw [hdirectory, if_pos rfl] at hplace
      cases hplace
    | false =>
      have hsame : found = place := by
        rw [hdirectory, if_neg Bool.false_ne_true] at hplace
        split at hplace
        · exact Except.ok.inj hplace
        · split at hplace
          · cases hplace
          · exact Except.ok.inj hplace
      exact hsame ▸ ⟨hfound, hdirectory⟩
  · obtain ⟨parent, -, ⟨⟩⟩ := bind_eq_ok_iff.1 h

/-- A text that is written is read at all paths that lead to its place, and every other path has the
text it had. -/
theorem replaces_put (h : tree.isDirectory place = false) (text : String) :
    tree.Replaces place text (tree.put place text) := by
  intro path content
  have hfile (other : Place) : (tree.put place text).files[other]? =
      if place = other then some (.text text) else tree.files[other]? := by
    simp [put, Std.TreeMap.getElem?_insert]
  have hdirectory (other : Place) :
      (tree.put place text).isDirectory other = tree.isDirectory other := rfl
  simp only [read, bind_eq_ok_iff, resolve_put_eq_ok_iff h, hfile, hdirectory]
  constructor
  · rintro ⟨found, hfound, hcontent⟩
    by_cases hsame : place = found
    · subst hsame
      rw [if_pos rfl] at hcontent
      exact Or.inl ⟨hfound, (Except.ok.inj hcontent).symm⟩
    · rw [if_neg hsame] at hcontent
      refine Or.inr ⟨?_, found, hfound, hcontent⟩
      rw [hfound, ne_eq, Except.ok.injEq]
      exact Ne.symm hsame
  · rintro (⟨hplace, rfl⟩ | ⟨hother, found, hfound, hcontent⟩)
    · exact ⟨place, hplace, by rw [if_pos rfl]⟩
    · have hsame : place ≠ found := fun heq => hother (heq ▸ hfound)
      exact ⟨found, hfound, by rwa [if_neg hsame]⟩

end StyleForest.FileTree
