import Runbook.Text.Unprintable

/-!
# Runbook.Text.Inspection

The form in which a message shows a text: in double quotes, with an escape for each quote,
backslash, and character that cannot be seen.
-/

namespace Runbook.Text

/-- A character inside the quotes. -/
def inspectChar (c : Char) : List Char :=
  if c = '"' then "\\\"".toList
  else if c = '\\' then "\\\\".toList
  else if c = '\n' then "\\n".toList
  else if c = '\t' then "\\t".toList
  else if c = '\r' then "\\r".toList
  else if c.toNat = 0 then "\\0".toList
  else if c.toNat < 32 || (126 < c.toNat && isUnprintable c) then
    "\\u\x7b".toList ++ Nat.toDigits 16 c.toNat ++ ['}']
  else [c]

/-- A text as a message shows it. -/
def inspect (s : String) : String :=
  String.ofList ('"' :: s.toList.flatMap inspectChar ++ ['"'])

end Runbook.Text
