import MemberRelay.Text.CodePoint
import MemberRelay.Text.Digits

/-!
Texts shown between double quotes on one line.
-/

namespace MemberRelay.Quoted

/-- A character inside quotes: the usual short escapes, and the code point of what would not be
seen or would join the character before it. -/
def escape (c : Char) : List Char :=
  if c = '\x00' then ['\\', '0']
  else if c = '\t' then ['\\', 't']
  else if c = '\n' then ['\\', 'n']
  else if c = '\r' then ['\\', 'r']
  else if c = '"' then ['\\', '"']
  else if c = '\\' then ['\\', '\\']
  else if CodePoint.isPrintable c && !CodePoint.isExtending c then [c]
  else ['\\', 'u', '\x7b'] ++ Digits.hexadecimal c.toNat ++ ['\x7d']

def text (s : String) : String :=
  String.ofList ('"' :: s.toList.flatMap escape ++ ['"'])

end MemberRelay.Quoted
