import ShapeCompiler.Text.Unprintable

/-!
Quoted text: a constant string as it stands in printed code.

- `escape` writes one character, `quote` a whole text between quotation marks.
-/

namespace ShapeCompiler

/-- The lower-case hexadecimal number of a character between braces. -/
def codePointText (c : Char) : String :=
  "\\u\x7b" ++ String.ofList (Nat.toDigits 16 c.toNat) ++ "\x7d"

/-- One character inside quotation marks. -/
def escape (c : Char) : String :=
  if c = Char.ofNat 0 then "\\0"
  else if c = '\t' then "\\t"
  else if c = '\r' then "\\r"
  else if c = '\n' then "\\n"
  else if c = '"' then "\\\""
  else if c = '\\' then "\\\\"
  else if isUnprintable c then codePointText c
  else c.toString

/-- The text between quotation marks. -/
def quote (s : String) : String :=
  "\"" ++ String.join (s.toList.map escape) ++ "\""

end ShapeCompiler
