import Mathlib.Data.List.TakeWhile
import Mathlib.Logic.Function.Iterate
import StyleForest.Declaration.Reading
import StyleForest.Proofs.Gaps

/-!
# Calls on a reader

A reader of a text is called again and again. Every call leaves it between two characters of the
text, at the position that counts what is behind it, and it passes only such places; so the bytes
from its offset on are always those of the characters in front of it (`Position.Divides`). What a
call returns is the piece of the text it has passed, a whole run of blanks and comments, or the
place of what is never closed (`Cursor.Call`), and one of the calls, at the latest the one after as
many as there are characters, returns no token (`Cursor.calls_of_text`).
-/

namespace StyleForest

open Lexeme

/-- The bytes of a part of a text stand between the sizes of what is before it and of both. -/
theorem extract_toByteArray (read part rest : List Char) :
    (String.ofList (read ++ (part ++ rest))).toByteArray.extract
        (String.ofList read).utf8ByteSize
        ((String.ofList read).utf8ByteSize + (String.ofList part).utf8ByteSize) =
      (String.ofList part).toByteArray := by
  have hskip := ByteArray.extract_append_size_add' (i := 0)
    (j := (String.ofList part).utf8ByteSize) (a := (String.ofList read).toByteArray)
    (b := (String.ofList (part ++ rest)).toByteArray) String.size_toByteArray.symm
  rw [Nat.add_zero] at hskip
  rw [String.ofList_append, String.toByteArray_append, hskip, String.ofList_append,
    String.toByteArray_append]
  exact ByteArray.extract_append_eq_left String.size_toByteArray.symm

namespace Position

/-- The place stands in the text between what is read and what is left to read: it counts the line
feeds before it, the characters since the last of them and the bytes. -/
structure Divides (place : Position) (text : String) (read rest : List Char) : Prop where
  split : text.toList = read ++ rest
  line : place.line = 1 + read.count '\n'
  column : place.column = 1 + (read.reverse.takeWhile (· ≠ '\n')).length
  offset : place.offset = (String.ofList read).utf8ByteSize
  /-- The offset does not stand inside the bytes of a character. -/
  boundary : String.Pos.Raw.IsValid text ⟨place.offset⟩
  /-- The bytes from the offset on are those of what is left to read. -/
  ahead : text.toByteArray.extract place.offset text.utf8ByteSize =
    (String.ofList rest).toByteArray

/-- The line counts the line feeds that were read. -/
theorem line_after_start (read : List Char) : (start.after read).line = 1 + read.count '\n' := by
  induction read using List.reverseRecOn with
  | nil => rfl
  | append_singleton read c ih =>
    rw [after_append, List.count_append, after_cons, after_nil, advance]
    by_cases hfeed : c = '\n'
    · simp [hfeed, ih, Nat.add_assoc]
    · simp [hfeed, ih]

/-- The column counts the characters since the last line feed. -/
theorem column_after_start (read : List Char) :
    (start.after read).column = 1 + (read.reverse.takeWhile (· ≠ '\n')).length := by
  induction read using List.reverseRecOn with
  | nil => rfl
  | append_singleton read c ih =>
    rw [after_append, List.reverse_append, after_cons, after_nil, advance]
    by_cases hfeed : c = '\n'
    · simp [hfeed]
    · simp [hfeed, ih, Nat.add_comm]

/-- Reading a part of a text from its start leads to the place behind that part. -/
theorem divides_after_start {text : String} {read rest : List Char}
    (h : text.toList = read ++ rest) : (start.after read).Divides text read rest := by
  have hoffset : (start.after read).offset = (String.ofList read).utf8ByteSize := by
    rw [offset_after, start, Nat.zero_add]
  have htext : text = String.ofList (read ++ rest) := by
    rw [← h, String.ofList_toList]
  refine ⟨h, line_after_start read, column_after_start read, hoffset, ?_, ?_⟩
  · rw [String.Pos.Raw.isValid_iff_exists_append, hoffset]
    exact ⟨String.ofList read, String.ofList rest, by rw [htext, String.ofList_append], rfl⟩
  · have hbytes := extract_toByteArray read rest []
    rw [List.append_nil] at hbytes
    rw [hoffset, htext, String.ofList_append, String.utf8ByteSize_append, ← String.ofList_append,
      hbytes]

end Position

namespace Lexeme

/-- Reads a group from its first parenthesis on, with a counter of the parentheses that are open.
There is no answer when the counter would be taken below zero. -/
def countGroup (depth : Nat) (text : List Char) :
    Option (Except (Option Unclosed) (List Char × List Char)) :=
  match text with
  | [] => some (.error none)
  | c :: tail =>
    if isQuote c then
      match h : spanQuoted c tail with
      | none => some (.error (some ⟨.quote, c :: tail⟩))
      | some (body, rest) =>
        have : rest.length < tail.length := spanQuoted_length_lt h
        (countGroup depth rest).map fun result =>
          result.map fun (group, rest) => (c :: (body ++ group), rest)
    else if c = '(' then
      (countGroup (depth + 1) tail).map fun result =>
        result.map fun (group, rest) => (c :: group, rest)
    else if c = ')' then
      match depth with
      | 0 => none
      | 1 => some (.ok ([c], tail))
      | depth + 2 => (countGroup (depth + 1) tail).map fun result =>
        result.map fun (group, rest) => (c :: group, rest)
    else
      (countGroup depth tail).map fun result =>
        result.map fun (group, rest) => (c :: group, rest)
termination_by text.length

/-- Below the first parenthesis the counter is one more than the depth, so it never gets below
zero. -/
theorem countGroup_succ (depth : Nat) (text : List Char) :
    countGroup (depth + 1) text = some (spanGroup depth text) := by
  fun_induction spanGroup depth text with
  | case1 depth =>
    rw [countGroup.eq_def]
  | case2 depth c tail hquote hspan =>
    rw [countGroup.eq_def]
    simp only [hquote, if_true]
    split
    · rfl
    · next hsome => simp [hspan] at hsome
  | case3 depth c tail hquote body rest hspan _ ih =>
    rw [countGroup.eq_def]
    simp only [hquote, if_true]
    split
    · next hnone => simp [hspan] at hnone
    · next hsome =>
      rw [hspan] at hsome
      cases hsome
      simp [ih]
  | case4 depth tail hquote ih =>
    rw [countGroup.eq_def]
    simp [hquote, ih]
  | case5 tail hquote hopen =>
    rw [countGroup.eq_def]
    simp [hquote]
  | case6 tail depth hquote hopen ih =>
    rw [countGroup.eq_def]
    simp [hquote, ih]
  | case7 depth c tail hquote hopen hclose ih =>
    rw [countGroup.eq_def]
    simp [hquote, hopen, hclose, ih]

/-- Read from its first parenthesis on, a group comes to what the reader makes of it. -/
theorem countGroup_opening (tail : List Char) :
    countGroup 0 ('(' :: tail) =
      some ((spanGroup 0 tail).map fun (group, rest) => ('(' :: group, rest)) := by
  rw [countGroup.eq_def]
  simp [isQuote, countGroup_succ]

/-- A parenthesis that closes nothing would take the counter below zero. -/
example : countGroup 0 [')'] = none := by
  rw [countGroup.eq_def]
  simp [isQuote]

/-- Every string in the text is closed. -/
inductive StringsClosed : List Char → Prop
  | nil : StringsClosed []
  | other {c : Char} {rest : List Char} (hquote : isQuote c = false) (h : StringsClosed rest) :
      StringsClosed (c :: rest)
  | quoted {quote : Char} {body rest : List Char} (hquote : isQuote quote = true)
      (hspan : spanQuoted quote body = some (body, [])) (h : StringsClosed rest) :
      StringsClosed (quote :: (body ++ rest))

/-- The text begins with a quote that opens a string, and the string is never closed. -/
def OpensString (text : List Char) : Prop :=
  ∃ quote tail, text = quote :: tail ∧ isQuote quote = true ∧ spanQuoted quote tail = none

private theorem eq_error_of_map_error {ε α β : Type} {f : α → β} {result : Except ε α} {e : ε}
    (h : result.map f = .error e) : result = .error e := by
  cases result with
  | error => simpa [Except.map] using h
  | ok a => simp [Except.map] at h

/-- What stays open inside a group is a string behind closed ones. -/
theorem exists_open_of_spanGroup {depth : Nat} {text : List Char} {unclosed : Unclosed}
    (h : spanGroup depth text = .error (some unclosed)) :
    unclosed.delimiter = .quote ∧ OpensString unclosed.opening ∧
      ∃ inside, text = inside ++ unclosed.opening ∧ StringsClosed inside := by
  fun_induction spanGroup depth text with
  | case1 depth => cases h
  | case2 depth c tail hquote hspan =>
    cases h
    exact ⟨rfl, ⟨c, tail, rfl, hquote, hspan⟩, [], rfl, .nil⟩
  | case3 depth c tail hquote body rest hspan _ ih =>
    obtain ⟨hdelimiter, hopens, inside, rfl, hinside⟩ := ih (eq_error_of_map_error h)
    have hbody := spanQuoted_append_right (ne_backslash_of_isQuote hquote) hspan []
    rw [List.append_nil] at hbody
    exact ⟨hdelimiter, hopens, c :: (body ++ inside), by simp [← spanQuoted_append hspan],
      .quoted hquote hbody hinside⟩
  | case4 depth tail hquote ih =>
    obtain ⟨hdelimiter, hopens, inside, rfl, hinside⟩ := ih (eq_error_of_map_error h)
    exact ⟨hdelimiter, hopens, '(' :: inside, rfl, .other rfl hinside⟩
  | case5 tail hquote hopen => cases h
  | case6 tail depth hquote hopen ih =>
    obtain ⟨hdelimiter, hopens, inside, rfl, hinside⟩ := ih (eq_error_of_map_error h)
    exact ⟨hdelimiter, hopens, ')' :: inside, rfl, .other rfl hinside⟩
  | case7 depth c tail hquote hopen hclose ih =>
    obtain ⟨hdelimiter, hopens, inside, rfl, hinside⟩ := ih (eq_error_of_map_error h)
    exact ⟨hdelimiter, hopens, c :: inside, rfl, .other (Bool.not_eq_true _ ▸ hquote) hinside⟩

/-- What is never closed is a string at the start of the text, or it belongs to a group there. -/
theorem scan_unclosed_cases {text : List Char} {unclosed : Unclosed}
    (h : scan text = .unclosed unclosed) :
    OpensString text ∧ unclosed = ⟨.quote, text⟩ ∨
      ∃ tail inner, text = '(' :: tail ∧ spanGroup 0 tail = .error inner ∧
        unclosed = inner.getD ⟨.parenthesis, text⟩ := by
  fun_cases scan text with
  | case1 => cases h
  | case2 c tail hgap gap after hspan =>
    rw [scan_gap hgap] at h
    cases h
  | case3 tail hgap =>
    rw [scan_colon] at h
    cases h
  | case4 tail hgap _ =>
    rw [scan_semicolon] at h
    cases h
  | case5 c tail hgap _ _ hquote body after hspan =>
    rw [scan_quoted hquote hspan] at h
    cases h
  | case6 c tail hgap hcolon hsemicolon hquote hspan =>
    simp only [scan, hgap, hcolon, hsemicolon, hquote, hspan] at h
    cases h
    exact Or.inl ⟨⟨c, tail, rfl, hquote, hspan⟩, rfl⟩
  | case7 tail body after hspan hgap =>
    rw [scan_group hspan] at h
    cases h
  | case8 tail inner hspan hgap =>
    simp [scan, hgap, isQuote, hspan] at h
    exact Or.inr ⟨tail, inner, rfl, hspan, h.symm⟩
  | case9 c tail hgap hcolon hsemicolon hquote hopen word after hspan =>
    simp [scan, hgap, hcolon, hsemicolon, hquote, hopen] at h

end Lexeme

namespace Cursor

/-- The cursor after a number of calls. -/
def afterReads (cursor : Cursor) (n : Nat) : Cursor :=
  (fun cursor => cursor.next.2)^[n] cursor

/-- One more call is made after the others. -/
theorem afterReads_succ (cursor : Cursor) (n : Nat) :
    cursor.afterReads (n + 1) = (cursor.afterReads n).next.2 :=
  Function.iterate_succ_apply' ..

/-- The cursor has been moved over a part of the text from its start. -/
def At (cursor : Cursor) (text : String) : Prop :=
  ∃ read, text.toList = read ++ cursor.rest ∧ cursor.position = Position.start.after read

/-- Moving from one cursor to the other passes exactly the lexeme. -/
structure Moves (text : String) (before after : Cursor) (lexeme : List Char) : Prop where
  rest_eq : before.rest = lexeme ++ after.rest
  position_eq : after.position = before.position.after lexeme
  /-- The lexeme is the slice of the text between the two positions. -/
  slice : text.toByteArray.extract before.position.offset after.position.offset =
    (String.ofList lexeme).toByteArray
  /-- Wherever the move has got to, the position is one in the text. -/
  passes : ∀ part more, lexeme = part ++ more →
    ∃ read, (before.position.after part).Divides text read (more ++ after.rest)

/-- What a call at a cursor of the text returns, and the cursor after it. -/
inductive Call (text : String) (before : Cursor) : Reading → Cursor → Prop
  /-- At the end of the text nothing moves. -/
  | finished (hend : before.rest = []) : Call text before .finished before
  /-- A gap is a whole run of blanks and comments. -/
  | gap {after : Cursor} {run : List Char} (hmoves : Moves text before after run)
      (hne : run ≠ []) (hwhole : WholeGap run after.rest) : Call text before (.token .gap) after
  /-- A group is read with a counter that never gets below zero. -/
  | group {after : Cursor} {group : List Char} (hmoves : Moves text before after group)
      (hne : group ≠ []) (hcount : countGroup 0 before.rest = some (.ok (group, after.rest))) :
      Call text before (.token (.group group)) after
  /-- Any other token is the text that is passed. -/
  | token {after : Cursor} {token : Token} (hgap : token ≠ .gap)
      (hgroup : ∀ group, token ≠ .group group) (hmoves : Moves text before after token.text)
      (hne : token.text ≠ []) : Call text before (.token token) after
  /-- A string is opened before the call and never closed. -/
  | openString {after : Cursor} (hmoves : Moves text before after before.rest)
      (hend : after.rest = []) (hopens : OpensString before.rest) :
      Call text before (.unterminated .quote before.position) after
  /-- A string is opened inside a group, behind closed strings, and never closed. -/
  | openStringInGroup {after : Cursor} {inside opening : List Char}
      (hmoves : Moves text before after before.rest) (hend : after.rest = [])
      (hsplit : before.rest = '(' :: inside ++ opening) (hclosed : StringsClosed inside)
      (hopens : OpensString opening)
      (hcount : countGroup 0 before.rest = some (.error (some ⟨.quote, opening⟩))) :
      Call text before (.unterminated .quote (before.position.after ('(' :: inside))) after
  /-- A group is opened before the call and never closed, while the strings in it are. -/
  | openGroup {after : Cursor} {tail : List Char} (hmoves : Moves text before after before.rest)
      (hend : after.rest = []) (hsplit : before.rest = '(' :: tail)
      (hcount : countGroup 0 before.rest = some (.error none)) :
      Call text before (.unterminated .parenthesis before.position) after

private theorem at_ofText (text : String) : (ofText text).At text :=
  ⟨[], rfl, rfl⟩

variable {text : String} {cursor : Cursor} {lexeme rest : List Char}

private theorem At.divides (h : cursor.At text) :
    ∃ read, cursor.position.Divides text read cursor.rest := by
  obtain ⟨read, hsplit, hposition⟩ := h
  exact ⟨read, hposition ▸ Position.divides_after_start hsplit⟩

/-- What is in front of a cursor can be passed. -/
theorem At.moves (h : cursor.At text) (hrest : cursor.rest = lexeme ++ rest) :
    Moves text cursor ⟨rest, cursor.position.after lexeme⟩ lexeme := by
  obtain ⟨read, hsplit, hposition⟩ := h
  rw [hrest] at hsplit
  refine ⟨hrest, rfl, ?_, ?_⟩
  · have htext : text = String.ofList (read ++ (lexeme ++ rest)) := by
      rw [← hsplit, String.ofList_toList]
    have hoffset : cursor.position.offset = (String.ofList read).utf8ByteSize :=
      hposition ▸ (Position.divides_after_start hsplit).offset
    rw [Position.offset_after, hoffset, htext]
    exact extract_toByteArray read lexeme rest
  · rintro part more rfl
    refine ⟨read ++ part, ?_⟩
    rw [hposition, ← Position.after_append]
    exact Position.divides_after_start (by simp [hsplit])

private theorem Moves.at {after : Cursor} (h : Moves text cursor after lexeme)
    (hcursor : cursor.At text) : after.At text := by
  obtain ⟨read, hsplit, hposition⟩ := hcursor
  refine ⟨read ++ lexeme, ?_, ?_⟩
  · rw [hsplit, h.rest_eq, List.append_assoc]
  · rw [h.position_eq, hposition, Position.after_append]

/-- Something unclosed is reported where it opens, and the cursor moves to the end of the text. -/
theorem next_of_unclosed {delimiter : Delimiter} {opening front : List Char}
    (h : scan cursor.rest = .unclosed ⟨delimiter, opening⟩)
    (hsplit : cursor.rest = front ++ opening) :
    cursor.next = (.unterminated delimiter (cursor.position.after front),
      ⟨[], cursor.position.after cursor.rest⟩) := by
  have hfront : cursor.rest.take (cursor.rest.length - opening.length) = front := by
    rw [hsplit, List.length_append, Nat.add_sub_cancel, List.take_left]
  rw [next, h]
  dsimp only
  rw [hfront]

/-- A call that returns a token passes its lexeme. -/
theorem At.call_of_token (h : cursor.At text) {token : Token}
    (hscan : scan cursor.rest = .token token lexeme rest) :
    Call text cursor (.token token) ⟨rest, cursor.position.after lexeme⟩ := by
  have hstarts := starts_of_scan hscan
  have hmoves := h.moves (scan_append hscan).symm
  have hne := scan_lexeme_ne_nil hscan
  cases token with
  | gap => exact .gap hmoves hne (wholeGap_of_scan hscan)
  | group group =>
    obtain rfl : lexeme = group := hstarts.lexeme_eq (by simp)
    obtain ⟨body, rfl, hspan⟩ := hstarts.wellFormed
    have hcount : countGroup 0 cursor.rest = some (.ok ('(' :: body, rest)) := by
      rw [← scan_append hscan, List.cons_append, countGroup_opening,
        spanGroup_append_right hspan rest]
      rfl
    exact .group hmoves hne hcount
  | word text =>
    obtain rfl : lexeme = text := hstarts.lexeme_eq (by simp)
    exact .token (by simp) (by simp) hmoves hne
  | quoted text =>
    obtain rfl : lexeme = text := hstarts.lexeme_eq (by simp)
    exact .token (by simp) (by simp) hmoves hne
  | colon =>
    obtain rfl : lexeme = [':'] := hstarts.lexeme_eq (by simp)
    exact .token (by simp) (by simp) hmoves hne
  | semicolon =>
    obtain rfl : lexeme = [';'] := hstarts.lexeme_eq (by simp)
    exact .token (by simp) (by simp) hmoves hne

/-- A call that fails passes everything in front of it. -/
theorem At.call_of_unclosed (h : cursor.At text) {unclosed : Unclosed}
    (hscan : scan cursor.rest = .unclosed unclosed) :
    Call text cursor cursor.next.1 cursor.next.2 := by
  have hmoves := h.moves (List.append_nil cursor.rest).symm
  have hstart : cursor.rest = [] ++ cursor.rest := rfl
  rcases scan_unclosed_cases hscan with ⟨hopens, rfl⟩ | ⟨tail, inner, hsplit, hspan, rfl⟩
  · rw [next_of_unclosed hscan hstart]
    exact .openString hmoves rfl hopens
  · have hcount : countGroup 0 cursor.rest = some (.error inner) := by
      rw [hsplit, countGroup_opening, hspan]
      rfl
    cases inner with
    | none =>
      rw [next_of_unclosed hscan hstart]
      exact .openGroup hmoves rfl hsplit hcount
    | some unclosed =>
      obtain ⟨delimiter, opening⟩ := unclosed
      obtain ⟨rfl, hopens, inside, rfl, hclosed⟩ := exists_open_of_spanGroup hspan
      have hbehind : cursor.rest = ('(' :: inside) ++ opening := hsplit
      rw [next_of_unclosed hscan hbehind]
      exact .openStringInGroup hmoves rfl hsplit hclosed hopens hcount

/-- A call passes a whole lexeme, or everything when something is never closed. -/
theorem At.call (h : cursor.At text) : Call text cursor cursor.next.1 cursor.next.2 := by
  cases hscan : scan cursor.rest with
  | finished =>
    rw [next, hscan]
    exact .finished (scan_eq_finished_iff.1 hscan)
  | token token lexeme rest =>
    rw [next_of_token hscan]
    exact h.call_of_token hscan
  | unclosed unclosed => exact h.call_of_unclosed hscan

private theorem Call.at {reading : Reading} {after : Cursor}
    (hcall : Call text cursor reading after) (h : cursor.At text) : after.At text := by
  cases hcall with
  | finished _ => exact h
  | gap hmoves _ _ => exact hmoves.at h
  | group hmoves _ _ => exact hmoves.at h
  | token _ _ hmoves _ => exact hmoves.at h
  | openString hmoves _ _ => exact hmoves.at h
  | openStringInGroup hmoves _ _ _ _ _ => exact hmoves.at h
  | openGroup hmoves _ _ _ => exact hmoves.at h

/-- After any number of calls the cursor is still in its text. -/
theorem at_afterReads (text : String) (n : Nat) : ((ofText text).afterReads n).At text := by
  induction n with
  | zero => exact at_ofText text
  | succ n ih =>
    rw [afterReads_succ]
    exact ih.call.at ih

/-- After a gap something else is read. -/
theorem next_ne_gap_of_gap (h : cursor.next.1 = .token .gap) :
    cursor.next.2.next.1 ≠ .token .gap := by
  intro hagain
  obtain ⟨_, hscan⟩ := scan_of_next (Prod.ext h rfl)
  obtain ⟨_, hnext⟩ := scan_of_next (Prod.ext hagain rfl)
  have hstop : startsGap cursor.next.2.rest = false := (starts_of_scan hscan).stops
  rw [(starts_of_scan hnext).gap_iff.1 rfl] at hstop
  cases hstop

/-- As long as calls return tokens, each of them leaves fewer characters. -/
theorem length_rest_afterReads {n : Nat}
    (h : ∀ m < n, ∃ token, (cursor.afterReads m).next.1 = .token token) :
    (cursor.afterReads n).rest.length + n ≤ cursor.rest.length := by
  induction n with
  | zero => exact Nat.le_refl _
  | succ n ih =>
    obtain ⟨token, hnext⟩ := h n n.lt_succ_self
    have hshorter : (cursor.afterReads n).next.2.rest.length < (cursor.afterReads n).rest.length :=
      length_rest_next (Prod.ext hnext rfl)
    have hbefore := ih fun m hm => h m (Nat.lt_succ_of_lt hm)
    rw [afterReads_succ]
    omega

/-- Some call, at the latest the one after as many as there are characters, returns no token. -/
theorem exists_next_ne_token (cursor : Cursor) :
    ∃ n ≤ cursor.rest.length, ∀ token, (cursor.afterReads n).next.1 ≠ .token token := by
  by_contra! hall
  have hlength := length_rest_afterReads (n := cursor.rest.length + 1) fun m hm =>
    hall m (Nat.le_of_lt_succ hm)
  omega

/-- Before and after every call on a reader of a text it stands between two characters of the text,
the call comes to one of the outcomes in `Call`, a gap is never followed by another one, and one of
the first calls, one more than there are characters, returns no token. -/
theorem calls_of_text (text : String) :
    (∀ n, let before := (ofText text).afterReads n
      (∃ read, before.position.Divides text read before.rest) ∧
        Call text before before.next.1 ((ofText text).afterReads (n + 1)) ∧
        (before.next.1 = .token .gap →
          ((ofText text).afterReads (n + 1)).next.1 ≠ .token .gap)) ∧
      ∃ n ≤ text.length, ∀ token, ((ofText text).afterReads n).next.1 ≠ .token token := by
  refine ⟨fun n => ?_, ?_⟩
  · have hplace := at_afterReads text n
    dsimp only
    rw [afterReads_succ]
    exact ⟨hplace.divides, hplace.call, next_ne_gap_of_gap⟩
  · have hend := exists_next_ne_token (ofText text)
    rwa [ofText, String.length_toList] at hend

end Cursor

end StyleForest
