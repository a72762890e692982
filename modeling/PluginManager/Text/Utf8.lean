/-!
# UTF-8

Bytes read as characters.  A malformed sequence counts as one piece: the longest beginning of a
well-formed sequence, and at least one byte.

* `pieces`: the characters, `none` for each malformed piece.
* `decode?`: refuses malformed pieces; `decodeLossy` shows them as U+FFFD.
* `encode`: the bytes of a text.
-/

namespace PluginManager

abbrev Bytes := List UInt8

namespace Text

/-- A character whose first bytes have been read: how many follow, the range of the next, and the
bits so far. -/
structure Opening where
  more : Nat
  low : UInt8
  high : UInt8
  bits : Nat
  deriving DecidableEq, Repr

def opening? (a : UInt8) : Option Opening :=
  if 0xc2 ≤ a && a ≤ 0xdf then some ⟨1, 0x80, 0xbf, a.toNat - 0xc0⟩
  else if a = 0xe0 then some ⟨2, 0xa0, 0xbf, 0⟩
  else if a = 0xed then some ⟨2, 0x80, 0x9f, 0xd⟩
  else if 0xe1 ≤ a && a ≤ 0xef then some ⟨2, 0x80, 0xbf, a.toNat - 0xe0⟩
  else if a = 0xf0 then some ⟨3, 0x90, 0xbf, 0⟩
  else if 0xf1 ≤ a && a ≤ 0xf3 then some ⟨3, 0x80, 0xbf, a.toNat - 0xf0⟩
  else if a = 0xf4 then some ⟨3, 0x80, 0x8f, 4⟩
  else none

namespace Opening

def accepts (o : Opening) (b : UInt8) : Bool := o.low ≤ b && b ≤ o.high

def extend (o : Opening) (b : UInt8) : Nat := o.bits * 64 + (b.toNat - 0x80)

def next (o : Opening) (b : UInt8) : Opening := ⟨o.more - 1, 0x80, 0xbf, o.extend b⟩

end Opening

/-- The pieces of bytes that follow an opening, if there is one. -/
def piecesAfter : Option Opening → Bytes → List (Option Char)
  | none, [] => []
  | some _, [] => [none]
  | opened, b :: rest =>
    let anew : List (Option Char) :=
      if b < 0x80 then some (Char.ofNat b.toNat) :: piecesAfter none rest
      else
        match opening? b with
        | none => none :: piecesAfter none rest
        | some o => piecesAfter (some o) rest
    match opened with
    | none => anew
    | some o =>
      if !o.accepts b then none :: anew
      else if o.more = 1 then some (Char.ofNat (o.extend b)) :: piecesAfter none rest
      else piecesAfter (some (o.next b)) rest

def pieces (bytes : Bytes) : List (Option Char) := piecesAfter none bytes

def decode? (bytes : Bytes) : Option String :=
  ((pieces bytes).mapM id).map String.ofList

def decodeLossy (bytes : Bytes) : String :=
  String.ofList ((pieces bytes).map fun c => c.getD '\ufffd')

def encodeChar (c : Char) : Bytes :=
  let n := c.toNat
  let tail (k : Nat) : UInt8 := UInt8.ofNat (0x80 + n / Nat.pow 64 k % 64)
  if n < 0x80 then [UInt8.ofNat n]
  else if n < 0x800 then [UInt8.ofNat (0xc0 + n / 64), tail 0]
  else if n < 0x10000 then [UInt8.ofNat (0xe0 + n / 4096), tail 1, tail 0]
  else [UInt8.ofNat (0xf0 + n / 262144), tail 2, tail 1, tail 0]

def encode (s : String) : Bytes :=
  s.toList.flatMap encodeChar

/-- How many bytes there are before the first that is part of no character. -/
def goodLength (bytes : Bytes) : Nat :=
  (((pieces bytes).takeWhile Option.isSome).flatMap fun c => c.elim [] encodeChar).length

end Text

end PluginManager
