import TreeQuery.Text.Printable

/-!
Texts between double quotes, as messages show them. The quote, the backslash and the common
controls have short escapes; any other character that cannot be shown as it is stands as its code
in hexadecimal digits between braces.
-/
namespace TreeQuery.Text

/-- The code of a character between braces. -/
def codeEscape (c : Char) : List Char :=
  "\\u\x7b".toList ++ (Nat.toDigits 16 c.toNat) ++ ['\x7d']

/-- How one character stands between quotes. -/
def quoteChar (c : Char) : List Char :=
  if c == '\"' then ['\\', '\"']
  else if c == '\\' then ['\\', '\\']
  else if c == '\n' then ['\\', 'n']
  else if c == '\t' then ['\\', 't']
  else if c == '\r' then ['\\', 'r']
  else if c.toNat == 0 then ['\\', '0']
  else if isPrintable c then [c]
  else codeEscape c

/-- A text between quotes. -/
def quoted (text : String) : String :=
  "\"" ++ String.ofList (text.toList.flatMap quoteChar) ++ "\""

end TreeQuery.Text
