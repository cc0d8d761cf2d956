/-
  MatchAction.Text.Quoted — characters and strings between quotes, as messages show them.

  The quote itself, the backslash and the common control characters have short escapes;
  other characters that cannot be seen by themselves are written by their code point.
-/

import MatchAction.Text.Hidden

namespace MatchAction.Text

def prints (c : Char) : Bool := if c.toNat < 0x80 then 0x20 ≤ c.toNat && c.toNat < 0x7f else !isHidden c

def escape (quote c : Char) : String :=
  if c = quote || c = '\\' then String.ofList ['\\', c]
  else if c = Char.ofNat 0 then "\\0"
  else if c = '\t' then "\\t"
  else if c = '\r' then "\\r"
  else if c = '\n' then "\\n"
  else if prints c then String.singleton c
  else "\\u\x7b" ++ String.ofList (Nat.toDigits 16 c.toNat) ++ "\x7d"

def quoteChar (c : Char) : String := "'" ++ escape '\'' c ++ "'"

def quoteString (s : String) : String := "\"" ++ String.join (s.toList.map (escape '"')) ++ "\""

end MatchAction.Text
