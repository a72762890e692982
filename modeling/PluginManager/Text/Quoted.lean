import PluginManager.Text.Unprintable

/-!
# Quoted text

A text between double quotes, as it appears inside messages.  The quote and the backslash get a
backslash, four control characters have letters, and every other character without a printed form
is shown by its code point in hexadecimal.

* `toHex`: lower-case digits without leading zeros.
* `quoted`: the text with its quotes.
-/

namespace PluginManager.Text

def toHex (n : Nat) : List Char :=
  Nat.toDigits 16 n

def escaped (c : Char) : List Char :=
  if c = '"' then ['\\', '"']
  else if c = '\\' then ['\\', '\\']
  else if c = '\n' then ['\\', 'n']
  else if c = '\r' then ['\\', 'r']
  else if c = '\t' then ['\\', 't']
  else if c.toNat = 0 then ['\\', '0']
  else if c.toNat < 0x20 || isUnprintable c then
    ['\\', 'u', '\x7b'] ++ toHex c.toNat ++ ['\x7d']
  else [c]

def quoted (s : String) : String :=
  String.ofList (['"'] ++ s.toList.flatMap escaped ++ ['"'])

end PluginManager.Text
