/-!
# Lines

A line ends at a line feed, with a carriage return before it if there is one. What follows
the last line feed is a line too unless it is empty, and keeps its carriage return.
-/

namespace StyleForest.Text

/-- Cuts a text at its line feeds: the lines that end in one, and what follows the last. -/
def cutLines : List Char → List (List Char) × List Char
  | [] => ([], [])
  | c :: rest =>
    let (ended, tail) := cutLines rest
    if c = '\n' then
      ([] :: ended, tail)
    else
      match ended with
      | [] => ([], c :: tail)
      | line :: ended => ((c :: line) :: ended, tail)

/-- A line without the carriage return at its end. -/
def dropReturn (line : List Char) : List Char :=
  if line.getLast? = some '\r' then line.dropLast else line

/-- The lines of a text without what ends them. -/
def lines (text : List Char) : List (List Char) :=
  let (ended, tail) := cutLines text
  ended.map dropReturn ++ if tail.isEmpty then [] else [tail]

/-- Cutting loses nothing but the line feeds. -/
theorem flatMap_cutLines (text : List Char) :
    (cutLines text).1.flatMap (· ++ ['\n']) ++ (cutLines text).2 = text := by
  fun_induction cutLines text <;> simp_all

/-- A line without a line feed in it is cut off at the one behind it. -/
theorem cutLines_append {line : List Char} (h : '\n' ∉ line) (rest : List Char) :
    cutLines (line ++ '\n' :: rest) = (line :: (cutLines rest).1, (cutLines rest).2) := by
  induction line with
  | nil => simp [cutLines]
  | cons c line ih =>
    have hc : c ≠ '\n' := fun heq => h (heq ▸ List.mem_cons_self)
    rw [List.cons_append, cutLines, ih fun hmem => h (List.mem_cons_of_mem c hmem)]
    simp [hc]

/-- Lines that are written down one after the other are cut apart again. -/
theorem cutLines_flatMap {lines : List (List Char)} (h : ∀ line ∈ lines, '\n' ∉ line) :
    cutLines (lines.flatMap (· ++ ['\n'])) = (lines, []) := by
  induction lines with
  | nil => rfl
  | cons line rest ih =>
    obtain ⟨hline, hrest⟩ := List.forall_mem_cons.1 h
    rw [List.flatMap_cons, List.append_assoc, List.singleton_append, cutLines_append hline,
      ih hrest]

end StyleForest.Text
