import Hostcall.Bytes
import Hostcall.Text.Hidden

/-!
# Quoted text

Text between double quotes. `quote` is for listings: a quote and a backslash take a backslash,
four controls have a letter of their own, and every other hidden character is written by its
code point. `jsonQuote` is for JSON: only what the format requires is escaped.
-/

namespace Hostcall.Text

/-- The lowercase hexadecimal digits of a number, without leading zeros. -/
def hexadecimal (n : Nat) : String :=
  String.ofList (Nat.toDigits 16 n)

/-- A character inside a quoted text of a listing. -/
def escape (c : Char) : String :=
  if c = '\"' then "\\\""
  else if c = '\\' then "\\\\"
  else if c = '\x00' then "\\0"
  else if c = '\t' then "\\t"
  else if c = '\n' then "\\n"
  else if c = '\r' then "\\r"
  else if isHidden c then "\\u\x7b" ++ hexadecimal c.toNat ++ "\x7d"
  else c.toString

/-- Text between quotes in a listing. -/
def quote (s : String) : String :=
  "\"" ++ "".intercalate (s.toList.map escape) ++ "\""

/-- A character inside a JSON string. -/
def jsonEscape (c : Char) : String :=
  if c = '\"' then "\\\""
  else if c = '\\' then "\\\\"
  else if c = '\x08' then "\\b"
  else if c = '\x0c' then "\\f"
  else if c = '\n' then "\\n"
  else if c = '\r' then "\\r"
  else if c = '\t' then "\\t"
  else if c.toNat < 0x20 then "\\u00" ++ Bytes.hexPair (UInt8.ofNat c.toNat)
  else c.toString

/-- Text as a JSON string. -/
def jsonQuote (s : String) : String :=
  "\"" ++ "".intercalate (s.toList.map jsonEscape) ++ "\""

end Hostcall.Text
