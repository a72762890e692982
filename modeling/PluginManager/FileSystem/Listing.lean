import PluginManager.FileSystem.Basic
import PluginManager.Json.Printer

/-!
# Listings

All that lies below a directory, by path.  An entry is written as a JSON array of its path, its
kind and what it holds.

* `below`: relative paths and entries, in the order of the paths as texts.
* `Listing.toJson`, `Listing.ofJson?`: an entry written and read.
* `Listing.apply`: puts an entry where it belongs, with the directories that lead to it.
-/

namespace PluginManager

namespace FileSystem

def relative? (l k : Location) : Option Location :=
  if isWithin l k && k ≠ l then some (k.drop l.length) else none

def below (fs : FileSystem) (l : Location) : List (String × Entry) :=
  let found := fs.entries.filterMap fun (k, e) =>
    (relative? l k).map fun names => ("/".intercalate names, e)
  found.mergeSort fun a b => a.1 ≤ b.1

/-- A file system with nothing in it. -/
def empty : FileSystem := ⟨[], [], 0, []⟩

end FileSystem

namespace Listing

/-! ## Numbers -/

def octal (n : Nat) : String := String.ofList (Nat.toDigits 8 n)

def octalDigit? (c : Char) : Option Nat :=
  if '0' ≤ c && c ≤ '7' then some (c.toNat - 48) else none

def ofOctal? (s : String) : Option Nat :=
  (s.toList.mapM octalDigit?).map fun ds => ds.foldl (fun n d => n * 8 + d) 0

/-- Two hexadecimal digits for each byte. -/
def hex (bytes : Bytes) : String :=
  String.ofList (bytes.flatMap fun b =>
    [Json.hexDigit (b.toNat / 16), Json.hexDigit (b.toNat % 16)])

def hexDigit? (c : Char) : Option Nat :=
  if '0' ≤ c && c ≤ '9' then some (c.toNat - 48)
  else if 'a' ≤ c && c ≤ 'f' then some (c.toNat - 87)
  else if 'A' ≤ c && c ≤ 'F' then some (c.toNat - 55)
  else none

def ofHex? : List Char → Option Bytes
  | [] => some []
  | a :: b :: rest => do
    let bytes ← ofHex? rest
    return UInt8.ofNat ((← hexDigit? a) * 16 + (← hexDigit? b)) :: bytes
  | [_] => none

/-! ## Content -/

/-- The text of the bytes, or their digits where they are no text. -/
def contentToJson (bytes : Bytes) : Json :=
  match Text.decode? bytes with
  | some s => .string s
  | none => Json.ofFields [("hex", .string (hex bytes))]

def contentOfJson? : Json → Option Bytes
  | .string s => some (Text.encode s)
  | .object [("hex", .string s)] => ofHex? s.toList
  | _ => none

/-! ## Entries -/

/-- An entry, its content written by `content`. -/
def toJson (content : Bytes → Json) : String × Entry → Json
  | (p, .directory mode) => .array [.string p, .string "dir", .string (octal mode)]
  | (p, .file mode bytes) =>
    .array [.string p, .string "file", .string (octal mode), content bytes]
  | (p, .link target) => .array [.string p, .string "link", .string target.text]

def ofJson? : Json → Option (String × Entry)
  | .array [.string p, .string "dir", .string mode] =>
    (ofOctal? mode).map fun mode => (p, .directory mode)
  | .array [.string p, .string "file", .string mode, content] => do
    return (p, .file (← ofOctal? mode) (← contentOfJson? content))
  | .array [.string p, .string "link", .string target] => some (p, .link ⟨target⟩)
  | _ => none

/-- A directory where there is nothing yet. -/
def fillIn (fs : FileSystem) (l : Location) : FileSystem :=
  if (fs.lookup l).isSome then fs else fs.insert l (.directory FileSystem.rootMode)

def apply (fs : FileSystem) (p : String) (e : Entry) : FileSystem :=
  let names := (Text.splitText '/' p).filter (· ≠ "")
  let outer := (List.range names.length).map names.take
  if names = [] then fs else (outer.foldl fillIn fs).insert names e

end Listing

end PluginManager
