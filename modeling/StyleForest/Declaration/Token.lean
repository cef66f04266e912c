/-!
# Tokens of a declaration text

A declaration text is cut into words, quoted strings, parenthesised groups, gaps, colons
and semicolons. Strings and groups stay whole, so a separator inside them cuts nothing;
blanks and comments count as one gap.
-/

namespace StyleForest

/-- A piece of a declaration text. -/
inductive Token where
  /-- A run of characters that are neither blank nor separators. -/
  | word (text : List Char)
  /-- A quoted string with its quotes. -/
  | quoted (text : List Char)
  /-- A balanced group with its parentheses. -/
  | group (text : List Char)
  /-- A run of blanks and comments. -/
  | gap
  | colon
  | semicolon
  deriving DecidableEq, Repr

/-- The text a token stands for in a value: a gap stands for one space. -/
def Token.text : Token → List Char
  | .word text => text
  | .quoted text => text
  | .group text => text
  | .gap => [' ']
  | .colon => [':']
  | .semicolon => [';']

end StyleForest
