import StyleForest.Json.Value
import StyleForest.Number.Numeral

/-!
# Tokens of a JSON text

Brackets, separators and values without parts. Escapes of a string are decoded to code units
of 16 bits first; two of them may stand for one character, and half of such a pair alone is
refused. Numbers keep to the strict grammar: no leading zeros, and digits on both sides of the
point.
-/

namespace StyleForest.Json

/-- A token; values without parts are read whole. -/
inductive Token where
  | openArray
  | closeArray
  | openObject
  | closeObject
  | comma
  | colon
  | scalar (value : Value)
  deriving Repr

/-- The blanks between tokens. -/
def isSpace (c : Char) : Bool :=
  c == ' ' || c == '\t' || c == '\n' || c == '\r'

/-- The text without the blanks at its start. -/
def skipSpace (text : List Char) : List Char :=
  text.dropWhile isSpace

/-- The value of a hexadecimal digit. -/
def hexDigit? (c : Char) : Option Nat :=
  if '0' ≤ c ∧ c ≤ '9' then some (c.toNat - '0'.toNat)
  else if 'a' ≤ c ∧ c ≤ 'f' then some (c.toNat - 'a'.toNat + 10)
  else if 'A' ≤ c ∧ c ≤ 'F' then some (c.toNat - 'A'.toNat + 10)
  else none

/-- The code unit of four hexadecimal digits. -/
def codeUnit? (a b c d : Char) : Option Nat := do
  let a ← hexDigit? a
  let b ← hexDigit? b
  let c ← hexDigit? c
  let d ← hexDigit? d
  return ((a * 16 + b) * 16 + c) * 16 + d

/-- The character that a letter after a backslash stands for. -/
def escape? (c : Char) : Option Char :=
  [('"', '"'), ('\\', '\\'), ('/', '/'), ('b', '\x08'), ('f', '\x0c'), ('n', '\n'), ('r', '\r'),
    ('t', '\t')].lookup c

/-- The code points and code units of a string whose opening quote has been read, and the text
after its closing quote. -/
def splitString? : List Char → Option (List Nat × List Char)
  | [] => none
  | '"' :: rest => some ([], rest)
  | '\\' :: 'u' :: a :: b :: c :: d :: rest => do
    let unit ← codeUnit? a b c d
    let (units, rest) ← splitString? rest
    return (unit :: units, rest)
  | '\\' :: c :: rest => do
    let character ← escape? c
    let (units, rest) ← splitString? rest
    return (character.toNat :: units, rest)
  | c :: rest =>
    if c.toNat < 32 || c = '\\' then
      none
    else do
      let (units, rest) ← splitString? rest
      return (c.toNat :: units, rest)

private theorem length_splitString?_lt {text rest : List Char} {units : List Nat}
    (h : splitString? text = some (units, rest)) : rest.length < text.length := by
  fun_induction splitString? text generalizing units <;>
    simp_all [Option.bind_eq_some_iff] <;> grind

/-- The first half of a pair of code units. -/
def isHighHalf (unit : Nat) : Bool :=
  0xD800 ≤ unit && unit < 0xDC00

/-- The second half of a pair of code units. -/
def isLowHalf (unit : Nat) : Bool :=
  0xDC00 ≤ unit && unit < 0xE000

/-- The characters of code points and code units; half a pair is refused. -/
def joinUnits? : List Nat → Option (List Char)
  | [] => some []
  | high :: low :: rest =>
    if isHighHalf high && isLowHalf low then do
      let characters ← joinUnits? rest
      return Char.ofNat (0x10000 + (high - 0xD800) * 0x400 + (low - 0xDC00)) :: characters
    else if isHighHalf high || isLowHalf high then
      none
    else do
      let characters ← joinUnits? (low :: rest)
      return Char.ofNat high :: characters
  | [unit] => if isHighHalf unit || isLowHalf unit then none else some [Char.ofNat unit]

/-- The number a numeral stands for. An integer that does not fit into 64 bits, and minus zero,
are no integers here. -/
def number? (numeral : Numeral) : Option Number :=
  let size := Numeral.digitsValue numeral.whole
  let isInteger := numeral.fraction.isNone && numeral.exponent.isNone
  if isInteger && !numeral.negative && size < Nat.pow 2 64 then
    some (.natural size)
  else if isInteger && numeral.negative && 0 < size && size ≤ Nat.pow 2 63 then
    some (.negative size)
  else
    numeral.scale?.map .float

/-- The number at the start of a text whose sign has been read, and what follows it. -/
def splitUnsigned? (negative : Bool) (text : List Char) : Option (Number × List Char) := do
  let (whole, text) := Numeral.splitDigits text
  let (fraction, text) := Numeral.splitFraction text
  let (exponent, text) ← Numeral.splitExponent? text
  if whole.isEmpty || (whole.head? = some '0' && 1 < whole.length) || fraction = some [] then
    none
  else
    let number ← number? { negative, whole, fraction, exponent }
    return (number, text)

/-- The number at the start of a text, and what follows it. -/
def splitNumber? : List Char → Option (Number × List Char)
  | '-' :: rest => splitUnsigned? true rest
  | text => splitUnsigned? false text

private theorem length_splitUnsigned?_lt {negative : Bool} {text rest : List Char} {number : Number}
    (h : splitUnsigned? negative text = some (number, rest)) : rest.length < text.length := by
  simp only [splitUnsigned?, bind, Option.bind_eq_some_iff] at h
  obtain ⟨⟨exponent, after⟩, he, h⟩ := h
  have hl := Numeral.length_splitExponent?_le he
  have hf := Numeral.length_splitFraction_le (Numeral.splitDigits text).2
  have hd := Numeral.length_splitDigits text
  split at h
  · simp at h
  · next hw =>
    have hp : 0 < (Numeral.splitDigits text).1.length := by
      rw [List.length_pos_iff]
      intro hn
      simp [hn] at hw
    obtain ⟨n, _, hn⟩ := Option.bind_eq_some_iff.1 h
    cases hn
    show after.length < text.length
    omega

private theorem length_splitNumber?_lt {text rest : List Char} {number : Number}
    (h : splitNumber? text = some (number, rest)) : rest.length < text.length := by
  unfold splitNumber? at h
  split at h
  · have := length_splitUnsigned?_lt h
    simp only [List.length_cons]
    omega
  · exact length_splitUnsigned?_lt h

/-- The words that are values. -/
def words : List (List Char × Value) :=
  [(['n', 'u', 'l', 'l'], .null), (['t', 'r', 'u', 'e'], .boolean true),
    (['f', 'a', 'l', 's', 'e'], .boolean false)]

/-- The word at the start of a text, and what follows it. -/
def splitWord? (text : List Char) : Option (Value × List Char) :=
  words.findSome? fun (word, value) =>
    if word.isPrefixOf text then some (value, text.drop word.length) else none

private theorem length_splitWord?_lt {text rest : List Char} {value : Value}
    (h : splitWord? text = some (value, rest)) : rest.length < text.length := by
  obtain ⟨⟨word, value⟩, hw, h⟩ := List.exists_of_findSome?_eq_some h
  have hn : 0 < word.length := by
    simp only [words, List.mem_cons, Prod.mk.injEq, List.not_mem_nil, or_false] at hw
    rcases hw with ⟨rfl, _⟩ | ⟨rfl, _⟩ | ⟨rfl, _⟩ <;> simp
  simp only [Option.ite_none_right_eq_some, Option.some.injEq, Prod.mk.injEq] at h
  have := (List.isPrefixOf_iff_prefix.1 h.1).length_le
  simp only [← h.2.2, List.length_drop]
  omega

/-- The token at the start of a text, and what follows it. -/
def nextToken? (text : List Char) : Option (Token × List Char) :=
  match skipSpace text with
  | [] => none
  | '[' :: rest => some (.openArray, rest)
  | ']' :: rest => some (.closeArray, rest)
  | '\x7b' :: rest => some (.openObject, rest)
  | '\x7d' :: rest => some (.closeObject, rest)
  | ',' :: rest => some (.comma, rest)
  | ':' :: rest => some (.colon, rest)
  | '"' :: rest => do
    let (units, rest) ← splitString? rest
    let characters ← joinUnits? units
    return (.scalar (.string (String.ofList characters)), rest)
  | c :: rest =>
    if c = '-' || c.isDigit then
      (splitNumber? (c :: rest)).map fun (number, rest) => (.scalar (.number number), rest)
    else
      (splitWord? (c :: rest)).map fun (value, rest) => (.scalar value, rest)

/-- Reading a token leaves a shorter text. -/
theorem length_nextToken?_lt {text rest : List Char} {token : Token}
    (h : nextToken? text = some (token, rest)) : rest.length < text.length := by
  have hs : (skipSpace text).length ≤ text.length := (List.dropWhile_suffix isSpace).length_le
  unfold nextToken? at h
  split at h
  case h_1 => simp at h
  case h_8 tail ht =>
    simp only [bind, Option.bind_eq_some_iff] at h
    obtain ⟨⟨units, after⟩, hu, characters, _, h⟩ := h
    have := length_splitString?_lt hu
    cases h
    simp only [ht, List.length_cons] at hs
    show after.length < text.length
    omega
  case h_9 c tail _ _ _ _ _ _ _ ht =>
    rw [ht] at hs
    split at h
    · obtain ⟨⟨number, after⟩, hn, he⟩ := Option.map_eq_some_iff.1 h
      have := length_splitNumber?_lt hn
      cases he
      omega
    · obtain ⟨⟨value, after⟩, hv, he⟩ := Option.map_eq_some_iff.1 h
      have := length_splitWord?_lt hv
      cases he
      omega
  all_goals
    next ht =>
      cases h
      simp only [ht, List.length_cons] at hs
      omega

end StyleForest.Json
