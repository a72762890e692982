import PluginManager.Text.Utf8

/-!
# Archives

An archive is a list of members.  Its bytes follow the zip format: every member behind a header of
its own, then a directory of all members, then an end record.

* `Archive.encode`: the bytes of a whole archive.
* `Archive.encodeOpen`: the bytes that are there while the last member is being written.
-/

namespace PluginManager

structure Member where
  name : String
  mode : Nat
  content : Bytes
  deriving DecidableEq, Repr

namespace Archive

/-! ## Numbers in bytes -/

/-- The lowest `count` bytes, the lowest first. -/
def little : Nat → Nat → Bytes
  | 0, _ => []
  | count + 1, n => UInt8.ofNat (n % 256) :: little count (n / 256)

/-! ## Checksums -/

def checksumStep (n : UInt32) : Nat → UInt32
  | 0 => n
  | k + 1 => checksumStep (if n &&& 1 = 1 then (0xedb88320 : UInt32) ^^^ (n >>> 1) else n >>> 1) k

/-- The cyclic redundancy check of the format. -/
def checksum (content : Bytes) : UInt32 :=
  (content.foldl (fun (c : UInt32) b => checksumStep ((c ^^^ b.toUInt32) &&& 0xff) 8 ^^^ (c >>> 8))
    (0xffffffff : UInt32)) ^^^ 0xffffffff

/-! ## Content -/

def blockLimit : Nat := 65535

/-- Deflated content in blocks that are stored as they are. -/
def deflate : Nat → Bytes → Bytes
  | 0, _ => []
  | blocks + 1, content =>
    let block := content.take blockLimit
    let rest := content.drop blockLimit
    let n := block.length
    (if rest.isEmpty then 1 else 0) :: little 2 n ++ little 2 (65535 - n) ++ block ++
      (if rest.isEmpty then [] else deflate blocks rest)

def deflated (content : Bytes) : Bytes := deflate (content.length / blockLimit + 1) content

/-! ## Records -/

def deflateMethod : Nat := 8

/-- First of January 1980, midnight. -/
def stamp : Bytes := [0, 0, 0x21, 0]

def sizes (m : Member) : Bytes :=
  little 4 (checksum m.content).toNat ++ little 4 (deflated m.content).length ++
    little 4 m.content.length

def localHeader (name : String) (details : Bytes) : Bytes :=
  let bytes := Text.encode name
  [0x50, 0x4b, 3, 4] ++ little 2 20 ++ little 2 0x800 ++ little 2 deflateMethod ++ stamp ++
    details ++
    little 2 bytes.length ++ little 2 0 ++ bytes

def encodeMember (m : Member) : Bytes := localHeader m.name (sizes m) ++ deflated m.content

def centralHeader (m : Member) (offset : Nat) : Bytes :=
  let bytes := Text.encode m.name
  [0x50, 0x4b, 1, 2, 20, 3] ++ little 2 20 ++ little 2 0x800 ++ little 2 deflateMethod ++ stamp ++
    sizes m ++ little 2 bytes.length ++ little 2 0 ++ little 2 0 ++ little 2 0 ++ little 2 0 ++
    little 4 (m.mode * 65536) ++ little 4 offset ++ bytes

def body (members : List Member) : Bytes := members.flatMap encodeMember

def directory : Nat → List Member → Bytes
  | _, [] => []
  | offset, m :: rest => centralHeader m offset ++ directory (offset + (encodeMember m).length) rest

def endRecord (count size offset : Nat) : Bytes :=
  [0x50, 0x4b, 5, 6] ++ little 2 0 ++ little 2 0 ++ little 2 count ++ little 2 count ++
    little 4 size ++ little 4 offset ++ little 2 0

def encode (members : List Member) : Bytes :=
  let body := body members
  let directory := directory 0 members
  body ++ directory ++ endRecord members.length directory.length body.length

def encodeOpen (members : List Member) (name : String) : Bytes :=
  body members ++ localHeader name (little 12 0)

end Archive

end PluginManager
