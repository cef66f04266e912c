import Std.Data.String.ToNat
import StyleForest.Breakpoint
import StyleForest.Proofs.SelectorText

/-!
# The text of a media query

A media query names the bounds of a range that say something, the lower one first. A bound ends
where its digits end, so the text of a query tells the range it was written for
(`Breakpoint.mediaQuery?_injective`), and no query has a bracket or a line feed.
-/

namespace StyleForest.Breakpoint

/-- The lower bound, if it says something. -/
def lower? (range : Breakpoint) : Option UInt32 :=
  if range.min = 0 then none else some range.min

/-- The bounds that say something are the whole range. -/
theorem eq_of_bounds {left right : Breakpoint} (hlower : left.lower? = right.lower?)
    (hmax : left.max = right.max) : left = right := by
  obtain ⟨min, max⟩ := left
  obtain ⟨min', max'⟩ := right
  obtain rfl : max = max' := hmax
  unfold lower? at hlower
  grind

/-- The digits of a bound. -/
def digits (bound : UInt32) : List Char :=
  (toString bound).toList

/-- A bound is written in digits. -/
theorem isDigit_of_mem_digits {bound : UInt32} {c : Char} (h : c ∈ digits bound) :
    c.isDigit = true := by
  have hmem : c ∈ Nat.toDigits 10 bound.toNat := by
    rw [← Nat.toList_repr]
    exact h
  exact Nat.isDigit_of_mem_toDigits (by decide) (by decide) hmem

/-- A bound can be cut off the unit that follows it. -/
theorem digits_append_inj {left right : UInt32} {x y : List Char}
    (h : digits left ++ 'p' :: x = digits right ++ 'p' :: y) : left = right ∧ x = y := by
  have hdigits (bound : UInt32) : ∀ c ∈ digits bound, (!c.isDigit) = false := fun c hc => by
    rw [isDigit_of_mem_digits hc]
    rfl
  have hunit (rest : List Char) : ∀ c, ('p' :: rest).head? = some c → (!c.isDigit) = true :=
    fun c hc => by
      cases hc
      rfl
  obtain ⟨hsame, hrest⟩ := append_inj_of_stop (fun c => !c.isDigit) (hdigits left)
    (hdigits right) (hunit x) (hunit y) h
  have hrepr : left.toNat.repr = right.toNat.repr := String.toList_inj.1 hsame
  exact ⟨UInt32.toNat_inj.1 (Nat.repr_inj.1 hrepr), (List.cons.inj hrest).2⟩

/-- How the condition on a lower bound begins. -/
def minLabel : List Char := ['(', 'm', 'i', 'n', '-', 'w', 'i', 'd', 't', 'h', ':']

/-- How the condition on an upper bound begins. -/
def maxLabel : List Char := ['(', 'm', 'a', 'x', '-', 'w', 'i', 'd', 't', 'h', ':']

/-- The condition on an upper bound, when it follows another condition. -/
def upperText : Option UInt32 → List Char
  | none => []
  | some max => [' ', 'a', 'n', 'd', ' '] ++ (maxLabel ++ (digits max ++ ['p', 'x', ')']))

/-- The characters of a query for these bounds. -/
def queryText : Option UInt32 → Option UInt32 → List Char
  | none, none => []
  | none, some max => maxLabel ++ (digits max ++ ['p', 'x', ')'])
  | some min, upper => minLabel ++ (digits min ++ ('p' :: 'x' :: ')' :: upperText upper))

/-- A query is written as its bounds are; without bounds there is none. -/
theorem toList_mediaQuery? (range : Breakpoint) :
    (range.mediaQuery?.map String.toList).getD [] = queryText range.lower? range.max := by
  obtain ⟨min, max⟩ := range
  have htext (text : String) : toString text = text := rfl
  unfold mediaQuery? conditions lower?
  by_cases hmin : min = 0
  · cases max with
    | none => simp [hmin, queryText]
    | some max => simp [hmin, queryText, digits, maxLabel, htext]
  · cases max with
    | none => simp [hmin, queryText, digits, minLabel, upperText, htext]
    | some max => simp [hmin, queryText, digits, minLabel, upperText, maxLabel, htext]

private theorem upperText_injective : Function.Injective upperText := by
  intro left right h
  cases left with
  | none =>
    cases right with
    | none => rfl
    | some max => cases h
  | some max =>
    cases right with
    | none => cases h
    | some other =>
      rw [upperText, upperText, List.append_cancel_left_eq, List.append_cancel_left_eq] at h
      rw [(digits_append_inj h).1]

/-- The text of a query determines its bounds. -/
theorem queryText_injective {lower upper lower' upper' : Option UInt32}
    (h : queryText lower upper = queryText lower' upper') : lower = lower' ∧ upper = upper' := by
  -- A query for an upper bound alone differs from one for a lower bound in its third character.
  cases lower with
  | none =>
    cases lower' with
    | none =>
      cases upper with
      | none =>
        cases upper' with
        | none => exact ⟨rfl, rfl⟩
        | some max' => cases h
      | some max =>
        cases upper' with
        | none => cases h
        | some max' =>
          rw [queryText, queryText, List.append_cancel_left_eq] at h
          rw [(digits_append_inj h).1]
          exact ⟨rfl, rfl⟩
    | some min' =>
      cases upper with
      | none => cases h
      | some max =>
        have hthird : some 'a' = some 'i' := congrArg (fun text => text[2]?) h
        cases hthird
  | some min =>
    cases lower' with
    | none =>
      cases upper' with
      | none => cases h
      | some max' =>
        have hthird : some 'i' = some 'a' := congrArg (fun text => text[2]?) h
        cases hthird
    | some min' =>
      rw [queryText, queryText, List.append_cancel_left_eq] at h
      obtain ⟨rfl, hrest⟩ := digits_append_inj h
      have hupper : ['x', ')'] ++ upperText upper = ['x', ')'] ++ upperText upper' := hrest
      exact ⟨rfl, upperText_injective (List.append_cancel_left hupper)⟩

/-- Different ranges have different media queries. -/
theorem mediaQuery?_injective : Function.Injective mediaQuery? := by
  intro left right h
  have htext : queryText left.lower? left.max = queryText right.lower? right.max := by
    rw [← toList_mediaQuery?, ← toList_mediaQuery?, h]
  obtain ⟨hlower, hmax⟩ := queryText_injective htext
  exact eq_of_bounds hlower hmax

/-- A digit, or a character of what is written around the digits of a query. -/
def isQueryChar (c : Char) : Bool :=
  c.isDigit || (minLabel ++ maxLabel ++ [' ', 'a', 'n', 'd', 'p', 'x', ')']).contains c

private theorem all_queryText (lower upper : Option UInt32) :
    (queryText lower upper).all isQueryChar = true := by
  have hdigits (bound : UInt32) : (digits bound).all isQueryChar = true :=
    List.all_eq_true.2 fun c hc => by simp [isQueryChar, isDigit_of_mem_digits hc]
  have hmax (max : UInt32) :
      (maxLabel ++ (digits max ++ ['p', 'x', ')'])).all isQueryChar = true := by
    rw [List.all_append, List.all_append, hdigits]
    decide
  have hupper : (upperText upper).all isQueryChar = true := by
    cases upper with
    | none => rfl
    | some max =>
      rw [upperText, List.all_append, hmax]
      decide
  cases lower with
  | none =>
    cases upper with
    | none => rfl
    | some max => exact hmax max
  | some min =>
    have hunit : ('p' :: 'x' :: ')' :: upperText upper).all isQueryChar = true := by
      rw [List.all_cons, List.all_cons, List.all_cons, hupper]
      decide
    rw [queryText, List.all_append, List.all_append, hdigits, hunit]
    decide

/-- A media query holds nothing but digits and what is written around them. -/
theorem isQueryChar_of_mem_mediaQuery? {range : Breakpoint} {query : String}
    (h : range.mediaQuery? = some query) {c : Char} (hmem : c ∈ query.toList) :
    isQueryChar c = true := by
  have htext := range.toList_mediaQuery?
  rw [h, Option.map_some, Option.getD_some] at htext
  exact List.all_eq_true.1 (all_queryText _ _) c (htext ▸ hmem)

end StyleForest.Breakpoint
