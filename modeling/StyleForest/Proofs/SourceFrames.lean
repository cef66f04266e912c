import StyleForest.Proofs.LastValues
import StyleForest.Report.Frame

/-!
# Messages with their frames

A message is shown with a frame for its location and one for the earlier declaration it collides
with, if that stands elsewhere. What a frame shows of a file is described without reading it: a line
is what stands behind the lines before it, up to what ends it (`Text.LineAt`), and the mark is as
far in as the place of its column in the line above it. A message is rendered as its frames describe
it, and in no other way (`StyleError.renderWith_eq_iff`).
-/

namespace StyleForest

namespace Text

/-- A line ends at a line feed, with a carriage return before it if there is one, or with the text
unless nothing is left. -/
inductive Ends (line : List Char) : List Char → Prop
  | feed {rest : List Char} : line.getLast? ≠ some '\r' → Ends line ('\n' :: rest)
  | returnFeed {rest : List Char} : Ends line ('\r' :: '\n' :: rest)
  | text : line ≠ [] → Ends line []

/-- The text has a line behind a number of earlier ones. -/
def LineAt (text : List Char) (index : Nat) (line : List Char) : Prop :=
  ∃ (earlier : List (List Char)) (rest : List Char), earlier.length = index ∧
    (∀ line ∈ earlier, '\n' ∉ line) ∧
    text = earlier.flatMap (· ++ ['\n']) ++ (line ++ rest) ∧ '\n' ∉ line ∧ Ends line rest

/-- The first line ends at the first line feed, without a carriage return in front of it. -/
theorem lines_append {line : List Char} (h : '\n' ∉ line) (rest : List Char) :
    lines (line ++ '\n' :: rest) = dropReturn line :: lines rest := by
  simp only [lines, cutLines_append h, List.map_cons, List.cons_append]

private theorem cutLines_of_not_mem {tail : List Char} (h : '\n' ∉ tail) :
    cutLines tail = ([], tail) := by
  induction tail with
  | nil => rfl
  | cons c rest ih =>
    have hc : c ≠ '\n' := fun heq => h (heq ▸ List.mem_cons_self)
    simp [cutLines, ih fun hmem => h (List.mem_cons_of_mem c hmem), hc]

/-- A text without line feeds is one line, unless it is empty. -/
theorem lines_of_not_mem {line : List Char} (h : '\n' ∉ line) (hne : line ≠ []) :
    lines line = [line] := by
  simp [lines, cutLines_of_not_mem h, hne]

/-- The first line of a text is what stands before the rest that ends it. -/
theorem head?_lines_of_ends {line rest : List Char} (hline : '\n' ∉ line) (h : Ends line rest) :
    (lines (line ++ rest)).head? = some line := by
  cases h with
  | feed hreturn =>
    rw [lines_append hline, dropReturn, if_neg hreturn]
    rfl
  | @returnFeed rest =>
    have hreturn : '\n' ∉ line ++ ['\r'] := by simp [hline]
    have htext : line ++ '\r' :: '\n' :: rest = (line ++ ['\r']) ++ '\n' :: rest := by simp
    rw [htext, lines_append hreturn]
    simp [dropReturn]
  | text hne => rw [List.append_nil, lines_of_not_mem hline hne, List.head?_cons]

/-- A line that is cut off at a line feed ends there, with the carriage return before it. -/
theorem exists_ends_dropReturn {first : List Char} (h : '\n' ∉ first) (rest : List Char) :
    ∃ ending, first ++ '\n' :: rest = dropReturn first ++ ending ∧ '\n' ∉ dropReturn first ∧
      Ends (dropReturn first) ending := by
  unfold dropReturn
  split
  · next hreturn =>
    obtain ⟨start, rfl⟩ := List.getLast?_eq_some_iff.1 hreturn
    simp only [List.mem_append, not_or] at h
    exact ⟨'\r' :: '\n' :: rest, by simp, by simpa using h.1, .returnFeed⟩
  · next hreturn => exact ⟨'\n' :: rest, rfl, h, .feed hreturn⟩

/-- A text has no line, or one that no line feed ends, or a first line in front of others. -/
theorem lines_cases (text : List Char) :
    lines text = [] ∨ ('\n' ∉ text ∧ text ≠ [] ∧ lines text = [text]) ∨
      ∃ first rest, text = first ++ '\n' :: rest ∧ '\n' ∉ first ∧
        lines text = dropReturn first :: lines rest := by
  by_cases hfeed : '\n' ∈ text
  · obtain ⟨first, rest, rfl, hfirst⟩ := List.eq_append_cons_of_mem hfeed
    exact Or.inr (Or.inr ⟨first, rest, rfl, hfirst, lines_append hfirst rest⟩)
  · by_cases hne : text = []
    · exact Or.inl (hne ▸ rfl)
    · exact Or.inr (Or.inl ⟨hfeed, hne, lines_of_not_mem hfeed hne⟩)

/-- A line that is found stands in the text at its index. -/
theorem lineAt_of_getElem?_lines {text : List Char} {index : Nat} {line : List Char}
    (h : (lines text)[index]? = some line) : LineAt text index line := by
  induction index generalizing text with
  | zero =>
    rcases lines_cases text with hlines | ⟨hfeed, hne, hlines⟩ | ⟨first, rest, rfl, hfirst, hlines⟩
    · rw [hlines] at h
      cases h
    · rw [hlines] at h
      cases h
      exact ⟨[], [], rfl, by simp, by simp, hfeed, .text hne⟩
    · rw [hlines] at h
      cases h
      obtain ⟨ending, htext, hline, hends⟩ := exists_ends_dropReturn hfirst rest
      exact ⟨[], ending, rfl, by simp, htext, hline, hends⟩
  | succ index ih =>
    rcases lines_cases text with hlines | ⟨hfeed, hne, hlines⟩ | ⟨first, rest, rfl, hfirst, hlines⟩
    · rw [hlines] at h
      cases h
    · rw [hlines] at h
      cases h
    · rw [hlines, List.getElem?_cons_succ] at h
      obtain ⟨earlier, ending, hlength, hearlier, rfl, hline, hends⟩ := ih h
      exact ⟨first :: earlier, ending, by simp [hlength],
        List.forall_mem_cons.2 ⟨hfirst, hearlier⟩, by simp, hline, hends⟩

/-- The lines of a text are found behind the lines before them. -/
theorem getElem?_lines_iff {text : List Char} {index : Nat} {line : List Char} :
    (lines text)[index]? = some line ↔ LineAt text index line := by
  refine ⟨lineAt_of_getElem?_lines, ?_⟩
  rintro ⟨earlier, rest, rfl, hearlier, rfl, hline, hends⟩
  induction earlier with
  | nil =>
    rw [List.flatMap_nil, List.nil_append, List.length_nil, ← List.head?_eq_getElem?]
    exact head?_lines_of_ends hline hends
  | cons first earlier ih =>
    obtain ⟨hfirst, hlater⟩ := List.forall_mem_cons.1 hearlier
    rw [List.flatMap_cons, List.append_assoc, List.append_assoc, List.singleton_append,
      lines_append hfirst, List.length_cons, List.getElem?_cons_succ]
    exact ih hlater

end Text

namespace SourceMaps

/-- The maps after the texts of files have been put down, a later one in the place of an earlier one
of the same path. -/
def ofFiles (files : List (String × String)) : SourceMaps :=
  files.foldl (fun maps (path, text) => maps.insert path text) empty

variable {files : List (String × String)} {location : Location}

/-- The text of a file is the last one that is given for its path. -/
theorem getElem?_texts_ofFiles (path : String) :
    (ofFiles files).texts[path]? = lastValue? files path := by
  have htexts : (ofFiles files).texts = (∅ : Std.TreeMap String String).insertMany files := by
    induction files using List.reverseRecOn with
    | nil => rfl
    | append_singleton files file ih =>
      rw [Std.TreeMap.insertMany_append, Std.TreeMap.insertMany_list_singleton, ← ih, ofFiles,
        List.foldl_append]
      rfl
  rw [htexts, getElem?_insertMany]

end SourceMaps

/-- The line that a location points at: its number is known, and so is the file, whose last text has
that line. -/
def SourceLine (files : List (String × String)) (location : Location) (line : String) : Prop :=
  1 ≤ location.line.toNat ∧ ∃ text, lastValue? files location.file = some text ∧
    Text.LineAt text.toList (location.line.toNat - 1) line.toList

/-- What stands before a source line: its number and a bar. -/
def Location.margin (location : Location) : String :=
  s!"  {location.line} | "

/-- The text that a frame adds to a message. Without a source line it is the location alone. The
line stands behind its margin. The mark, for a column that is known, has as many blanks before it as
there are characters before that column in the line above. -/
inductive Framed (files : List (String × String)) (label : String) (location : Location) :
    String → Prop
  | unseen : (∀ line, ¬SourceLine files location line) →
      Framed files label location s!"\n  {label} {location.render}"
  | unmarked {line : String} : SourceLine files location line → location.column = 0 →
      Framed files label location s!"\n  {label} {location.render}\n{location.margin}{line}"
  | marked {line blanks : String} : SourceLine files location line → 0 < location.column.toNat →
      (∀ c ∈ blanks.toList, c = ' ') →
      blanks.length = location.margin.length + (location.column.toNat - 1) →
      Framed files label location
        s!"\n  {label} {location.render}\n{location.margin}{line}\n{blanks}^"

/-- The text of the frame of a location that may be missing. -/
inductive FramedIfKnown (files : List (String × String)) (label : String) :
    Option Location → String → Prop
  | unknown : FramedIfKnown files label none ""
  | known {location : Location} {text : String} :
      Framed files label location text → FramedIfKnown files label (some location) text

/-- The location of the earlier declaration, if it stands elsewhere than the error. -/
def StyleError.elsewhere? (error : StyleError) : Option Location :=
  error.related.filter fun related => error.location ≠ some related

section

variable {files : List (String × String)} {location : Location}

/-- A line is found exactly when the files have it. -/
theorem SourceMaps.line?_eq_some_iff {line : String} :
    (SourceMaps.ofFiles files).line? location = some line ↔ SourceLine files location line := by
  have hword : location.line = 0 ↔ ¬1 ≤ location.line.toNat := by
    rw [← UInt32.toNat_inj]
    simp
  unfold line? SourceLine
  split
  · next hzero => simp [hword.1 hzero]
  · next hnumber =>
    simp only [bind, Option.bind_eq_some_iff, getElem?_texts_ofFiles, Text.getElem?_lines_iff,
      pure, Option.some.injEq, not_not.1 (mt hword.2 hnumber), true_and]
    refine exists_congr fun text => and_congr_right fun _ => ⟨?_, fun h => ⟨_, h, ?_⟩⟩
    · rintro ⟨_, hline, rfl⟩
      rwa [String.toList_ofList]
    · rw [String.ofList_toList]

/-- The lines that are added to a text stand behind a line feed each. -/
theorem intercalate_cons_eq (first : String) (rest : List String) :
    "\n".intercalate (first :: rest) = first ++ String.join (rest.map ("\n" ++ ·)) := by
  induction rest generalizing first with
  | nil => simp
  | cons second rest ih =>
    rw [String.intercalate_cons_cons, ih, List.map_cons, String.join_cons]
    simp only [String.append_assoc]

/-- Blanks of one number are one text. -/
theorem eq_ofList_replicate {blanks : String} {n : Nat} (h : ∀ c ∈ blanks.toList, c = ' ')
    (hlength : blanks.length = n) : blanks = String.ofList (List.replicate n ' ') := by
  rw [← String.toList_inj, String.toList_ofList]
  exact List.eq_replicate_iff.2 ⟨by rw [String.length_toList, hlength], h⟩

/-- A text in a row of texts stands for itself. -/
theorem toString_string (text : String) : toString text = text :=
  rfl

/-- A location without a line is shown by itself. -/
theorem join_frame_of_none (label : String) (h : (SourceMaps.ofFiles files).line? location = none) :
    String.join (((SourceMaps.ofFiles files).frame label location).map ("\n" ++ ·)) =
      s!"\n  {label} {location.render}" := by
  unfold SourceMaps.frame
  rw [h, ← String.toList_inj]
  simp [toString_string]

/-- A location with a line is shown with the line, and with a caret when its column is known. -/
theorem join_frame_of_some (label : String) {line : String}
    (h : (SourceMaps.ofFiles files).line? location = some line) :
    String.join (((SourceMaps.ofFiles files).frame label location).map ("\n" ++ ·)) =
      s!"\n  {label} {location.render}\n{location.margin}{line}" ++
        if location.column = 0 then "" else
          "\n" ++ String.ofList
            (List.replicate (location.margin.length + (location.column.toNat - 1)) ' ') ++ "^" := by
  unfold SourceMaps.frame
  rw [h, ← String.toList_inj]
  by_cases hcolumn : location.column = 0
  · simp [hcolumn, toString_string, Location.margin]
  · have hpositive : location.column.toNat ≠ 0 := by
      rwa [ne_eq, ← UInt32.toNat_zero, UInt32.toNat_inj]
    -- two blanks before the number and three characters around the bar, less one for the column
    have hlength : location.margin.length + (location.column.toNat - 1) =
        2 + ((toString location.line).length + 2 + location.column.toNat) := by
      have hmargin : location.margin.length = 2 + (toString location.line).length + 3 := by
        simp only [Location.margin, toString_string, String.length_append]
        rfl
      omega
    rw [hlength, List.replicate_add]
    simp [hcolumn, toString_string, Location.margin]

/-- A location without a line is framed in one way. -/
private theorem framed_iff_of_none {label text : String}
    (h : (SourceMaps.ofFiles files).line? location = none) :
    Framed files label location text ↔ s!"\n  {label} {location.render}" = text := by
  have hunseen (line : String) : ¬SourceLine files location line := by
    rw [← SourceMaps.line?_eq_some_iff, h]
    exact nofun
  constructor
  · intro hframed
    cases hframed with
    | unseen => rfl
    | unmarked hline => exact absurd hline (hunseen _)
    | marked hline => exact absurd hline (hunseen _)
  · rintro rfl
    exact .unseen hunseen

/-- A location with a line is framed in one way, which depends on its column. -/
private theorem framed_iff_of_some {label text line : String}
    (h : (SourceMaps.ofFiles files).line? location = some line) :
    Framed files label location text ↔
      (s!"\n  {label} {location.render}\n{location.margin}{line}" ++
        if location.column = 0 then "" else
          "\n" ++ String.ofList
            (List.replicate (location.margin.length + (location.column.toNat - 1)) ' ') ++ "^") =
        text := by
  have hcolumns : location.column = 0 ↔ ¬0 < location.column.toNat := by
    rw [← UInt32.toNat_inj]
    simp
  have hline : SourceLine files location line := SourceMaps.line?_eq_some_iff.1 h
  have hunique {other : String} (hother : SourceLine files location other) : other = line :=
    Option.some.inj ((SourceMaps.line?_eq_some_iff.2 hother).symm.trans h)
  constructor
  · intro hframed
    cases hframed with
    | unseen hunseen => exact absurd hline (hunseen line)
    | unmarked hother hcolumn =>
      obtain rfl := hunique hother
      rw [if_pos hcolumn, String.append_empty]
    | marked hother hcolumn hblanks hlength =>
      obtain rfl := hunique hother
      rw [if_neg (mt hcolumns.1 (not_not.2 hcolumn)), eq_ofList_replicate hblanks hlength]
      simp only [toString_string, String.append_assoc]
  · rintro rfl
    split
    · next hcolumn =>
      rw [String.append_empty]
      exact .unmarked hline hcolumn
    · next hcolumn =>
      have hmarked := @Framed.marked files label location line (String.ofList
        (List.replicate (location.margin.length + (location.column.toNat - 1)) ' ')) hline
        (not_not.1 (mt hcolumns.2 hcolumn)) (by simp) (by simp)
      simpa only [toString_string, String.append_assoc] using hmarked

/-- What the lines of a frame add is the text it is described by. -/
theorem framed_iff {label text : String} :
    Framed files label location text ↔
      String.join (((SourceMaps.ofFiles files).frame label location).map ("\n" ++ ·)) = text := by
  cases hfound : (SourceMaps.ofFiles files).line? location with
  | none => rw [join_frame_of_none label hfound, framed_iff_of_none hfound]
  | some line => rw [join_frame_of_some label hfound, framed_iff_of_some hfound]

/-- An optional location is framed as its frame says, or not at all. -/
theorem framedIfKnown_iff {label text : String} {location : Option Location} :
    FramedIfKnown files label location text ↔
      String.join (((location.map ((SourceMaps.ofFiles files).frame label)).getD []).map
        ("\n" ++ ·)) = text := by
  cases location with
  | none =>
    refine ⟨fun h => ?_, ?_⟩
    · cases h
      rfl
    · rintro rfl
      exact .unknown
  | some location =>
    refine Iff.trans ⟨fun h => ?_, .known⟩ framed_iff
    cases h with
    | known h => exact h

end

/-- A message is shown with a frame for its location, if that is known, and a frame for the earlier
declaration, if that stands elsewhere, and with nothing else. -/
theorem StyleError.renderWith_eq_iff (files : List (String × String)) (error : StyleError)
    (text : String) :
    error.renderWith (SourceMaps.ofFiles files) = text ↔
      ∃ first second, FramedIfKnown files "-->" error.location first ∧
        FramedIfKnown files "previously declared at" error.elsewhere? second ∧
        text = error.message ++ first ++ second := by
  have helsewhere : (if error.related = error.location then none else error.related) =
      error.elsewhere? := by
    unfold elsewhere?
    cases error.related with
    | none => simp
    | some related =>
      by_cases hsame : error.location = some related
      · simp [hsame, Option.filter]
      · simp [hsame, Ne.symm hsame, Option.filter]
  unfold renderWith
  dsimp only
  rw [helsewhere, List.append_assoc, List.singleton_append, intercalate_cons_eq, List.map_append,
    String.join_append]
  simp only [framedIfKnown_iff]
  constructor
  · rintro rfl
    exact ⟨_, _, rfl, rfl, by rw [String.append_assoc]⟩
  · rintro ⟨_, _, rfl, rfl, rfl⟩
    rw [String.append_assoc]

/-- The mark stands below the third character of the second line, a tab being one character. -/
example :
    let error : StyleError := ⟨.invalidAttributeValue "minWidth" "is odd", some ⟨"a.json", 2, 3⟩⟩
    error.renderWith (.ofFiles [("a.json", "[\n\t\x7b\x7d\r\n]")]) =
      error.message ++ "\n  --> a.json:2:3\n  2 | \t\x7b\x7d\n        ^" := by
  decide +kernel

end StyleForest
