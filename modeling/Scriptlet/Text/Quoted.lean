import Scriptlet.Text.Visible

/-!
Quoted text for messages: double quotes around the text, a backslash before a quote or a
backslash, short escapes for the usual controls, and the code point of every other character
that would not show.
-/

namespace Scriptlet.Text

-- The hexadecimal digits of `n`, in lower case.
def hex (n : Nat) : List Char := Nat.toDigits 16 n

def quotedChar (c : Char) : List Char :=
  if c = '\x00' then ['\\', '0']
  else if c = '\t' then ['\\', 't']
  else if c = '\r' then ['\\', 'r']
  else if c = '\n' then ['\\', 'n']
  else if c = '\\' then ['\\', '\\']
  else if c = '"' then ['\\', '"']
  else if isVisible c then [c]
  else '\\' :: 'u' :: '\x7b' :: hex c.toNat ++ ['\x7d']

def quoted (s : String) : String :=
  String.ofList ('"' :: s.toList.flatMap quotedChar ++ ['"'])

end Scriptlet.Text
