/-
The text of JSON values as it is written by a program: without blanks, with
the escapes of a writer that is safe to embed in HTML.  Members that are
left out when they are empty are written by `member`, which yields no text
for `none`.
-/
import Mathlib.Tactic.Common

namespace Hoorific.JsonText

/-- A hexadecimal digit. -/
def hexDigit (n : ℕ) : Char := "0123456789abcdef".toList.getD n '0'

/-- A character as four hexadecimal digits. -/
def unicodeEscape (c : Char) : List Char :=
  let n := c.toNat
  ['\\', 'u', hexDigit (n / 4096 % 16), hexDigit (n / 256 % 16), hexDigit (n / 16 % 16),
    hexDigit (n % 16)]

/-- A character inside a string. -/
def escape (c : Char) : List Char :=
  if c = '"' then ['\\', '"']
  else if c = '\\' then ['\\', '\\']
  else if c = '\x08' then ['\\', 'b']
  else if c = '\x0c' then ['\\', 'f']
  else if c = '\n' then ['\\', 'n']
  else if c = '\r' then ['\\', 'r']
  else if c = '\t' then ['\\', 't']
  else if c.toNat < 32 ∨ c = '<' ∨ c = '>' ∨ c = '&' ∨ c.toNat = 0x2028 ∨ c.toNat = 0x2029 then
    unicodeEscape c
  else [c]

/-- A string. -/
def string (s : String) : String := "\"" ++ String.ofList (s.toList.flatMap escape) ++ "\""

/-- An integer. -/
def int (n : Int) : String := toString n

def array (items : List String) : String := "[" ++ ",".intercalate items ++ "]"

/-- A member of an object. -/
def member (name : String) (value : Option String) : List String :=
  (value.map fun v => string name ++ ":" ++ v).toList

/-- An object of members. -/
def object (members : List (List String)) : String :=
  "\x7b" ++ ",".intercalate members.flatten ++ "\x7d"

/-- A string that is left out when it is empty. -/
def nonEmpty (s : String) : Option String := if s = "" then none else some (string s)

end Hoorific.JsonText
