import PluginManager.Toml.Numeral

/-!
# TOML documents

A document is a sequence of blocks: keys at the top, then tables opened by headers, each with keys
of its own.  `Item` is a value or a table that is being filled; a table remembers how it was made,
because a header may open a table once only and a dotted key may not reach into one that a header
made.

* `readValue`: a value after an equals sign.
* `readBlocks`: the blocks of a document.
* `parse`: the table of a whole document, or nothing.
-/

namespace PluginManager.Toml

/-! ## Tables being filled -/

inductive Origin where
  | header
  | path
  | dotted
  deriving DecidableEq, Repr

inductive Item where
  | value (v : Toml)
  | table (origin : Origin) (items : List (String × Item))
  | tables (last : List (String × Item)) (before : List (List (String × Item)))

abbrev Items := List (String × Item)

/-- Changes the table at the end of a path of keys, making those on the way that are missing. -/
def descend (dotted : Bool) (change : Origin → Items → Option Items) :
    List String → Origin → Items → Option Items
  | [], origin, items => change origin items
  | name :: rest, _, items =>
    let made := if dotted then Origin.dotted else Origin.path
    let item : Option Item :=
      match items.lookup name with
      | none => (descend dotted change rest made []).map (Item.table made)
      | some (.value _) => none
      | some (.table o is) =>
        if dotted && o = .header then none
        else (descend dotted change rest o is).map (Item.table o)
      | some (.tables last before) =>
        (descend dotted change rest .header last).map (Item.tables · before)
    item.map fun item => Fields.insert name item items

structure Setting where
  path : List String
  name : String
  value : Toml

/-- Sets a key of a table.  The tables of a dotted key are made by dotted keys only. -/
def Setting.apply (items : Items) (s : Setting) : Option Items :=
  descend true (fun origin items =>
    if (origin = .dotted) = s.path.isEmpty then none
    else
      match items.lookup s.name with
      | some _ => none
      | none => some (Fields.insert s.name (.value s.value) items)) s.path .header items

mutual

def Item.finish : Item → Toml
  | .value v => v
  | .table _ items => .table (finishItems items)
  | .tables last before => .array (finishAll before [.table (finishItems last)])

def finishItems : List (String × Item) → List (String × Toml)
  | [] => []
  | (name, item) :: rest => (name, item.finish) :: finishItems rest

def finishAll : List (List (String × Item)) → List Toml → List Toml
  | [], done => done
  | items :: before, done => finishAll before (.table (finishItems items) :: done)

end

/-! ## Values -/

def settingOf (names : List String) (v : Toml) : Setting :=
  ⟨names.dropLast, names.getLastD "", v⟩

/-- A key, an equals sign and a value read by `value`. -/
def readSetting (value : Scan Toml) : Scan Setting := fun cs =>
  match readKey cs with
  | none => none
  | some (names, rest) =>
    match rest with
    | '=' :: rest => (value (skipSpaces rest)).map fun (v, rest) => (settingOf names v, rest)
    | _ => none

/-- The items of an array behind its bracket. -/
def readItems (value : Scan Toml) : Nat → List Toml → Scan Toml
  | 0, _, _ => none
  | fuel + 1, done, cs =>
    let cs := skipLines (cs.length + 1) cs
    match cs with
    | ']' :: rest => some (.array done.reverse, rest)
    | _ =>
      match value cs with
      | none => none
      | some (v, rest) =>
        match skipLines (rest.length + 1) rest with
        | ',' :: rest => readItems value fuel (v :: done) rest
        | ']' :: rest => some (.array (v :: done).reverse, rest)
        | _ => none

/-- The settings of a table in braces, behind a brace or a comma. -/
def readInline (value : Scan Toml) : Nat → Items → Scan Toml
  | 0, _, _ => none
  | fuel + 1, items, cs =>
    match readSetting value (skipSpaces cs) with
    | none => none
    | some (s, rest) =>
      match s.apply items with
      | none => none
      | some items =>
        match skipSpaces rest with
        | ',' :: rest => readInline value fuel items rest
        | '\x7d' :: rest => some (.table (finishItems items), rest)
        | _ => none

/-- A value in which at most `depth` arrays and tables are inside each other. -/
def readValue : Nat → Scan Toml
  | depth, cs =>
    match cs with
    | [] => none
    | c :: rest =>
      if c = '"' || c = '\'' then (readString cs).map fun (s, rest) => (.string s, rest)
      else if c = '[' || c = '\x7b' then
        match depth with
        | 0 => none
        | depth + 1 =>
          if c = '[' then readItems (readValue depth) (cs.length + 1) [] rest
          else
            match skipSpaces rest with
            | '\x7d' :: rest => some (.table [], rest)
            | rest => readInline (readValue depth) (cs.length + 1) [] rest
      else
        match cs with
        | 't' :: 'r' :: 'u' :: 'e' :: rest => some (.boolean true, rest)
        | 'f' :: 'a' :: 'l' :: 's' :: 'e' :: rest => some (.boolean false, rest)
        | _ => readNumber cs

def depthLimit : Nat := 79

/-! ## Blocks -/

inductive Header where
  | top
  | table (path : List String)
  | element (path : List String)
  deriving DecidableEq, Repr

structure Block where
  header : Header
  settings : List Setting

def readHeader (cs : List Char) : Option (Header × List Char) :=
  match cs with
  | '[' :: '[' :: rest =>
    match readKey rest with
    | some (path, ']' :: ']' :: rest) => some (.element path, rest)
    | _ => none
  | '[' :: rest =>
    match readKey rest with
    | some (path, ']' :: rest) => some (.table path, rest)
    | _ => none
  | _ => none

/-- The blocks, the last one first, its settings in reverse. -/
def readBlocks : Nat → Block → List Block → List Char → Option (List Block)
  | 0, _, _, _ => none
  | fuel + 1, block, done, cs =>
    let cs := skipSpaces cs
    let onward (block : Block) (done : List Block) (rest : List Char) : Option (List Block) :=
      (lineEnd rest).bind (readBlocks fuel block done)
    match cs with
    | [] => some (block :: done)
    | c :: _ =>
      if c = '[' then
        match readHeader cs with
        | none => none
        | some (header, rest) => onward ⟨header, []⟩ (block :: done) rest
      else if c = '#' || (newline? cs).isSome then onward block done cs
      else
        match readSetting (readValue depthLimit) cs with
        | none => none
        | some (s, rest) => onward { block with settings := s :: block.settings } done rest

/-! ## Documents -/

def fill (settings : List Setting) (items : Items) : Option Items :=
  settings.foldrM (fun (s : Setting) items => s.apply items) items

def Block.apply (items : Items) (b : Block) : Option Items :=
  match b.header with
  | .top => fill b.settings items
  | .table path =>
    let name := path.getLastD ""
    descend false (fun _ items =>
      let start : Option Items :=
        match items.lookup name with
        | none => some []
        | some (.table .path inner) => some inner
        | some _ => none
      (start.bind (fill b.settings)).map fun inner =>
        Fields.insert name (.table .header inner) items) path.dropLast .header items
  | .element path =>
    let name := path.getLastD ""
    descend false (fun _ items =>
      let before : Option (List Items) :=
        match items.lookup name with
        | none => some []
        | some (.tables last before) => some (last :: before)
        | some _ => none
      before.bind fun before =>
        (fill b.settings []).map fun last => Fields.insert name (.tables last before) items)
      path.dropLast .header items

def dropMark : List Char → List Char
  | '\ufeff' :: rest => rest
  | cs => cs

def parse (text : String) : Option (List (String × Toml)) :=
  let cs := dropMark text.toList
  match readBlocks (cs.length + 2) ⟨.top, []⟩ [] cs with
  | none => none
  | some blocks => (blocks.foldrM (fun (b : Block) items => b.apply items) []).map finishItems

end PluginManager.Toml
