import Mathlib.Data.List.Forall2
import PluginManager.Proofs.Manifest.Components

/-!
# What is read as a manifest

The rules a document and a plugin have to keep for the document to be read as the plugin's manifest,
stated without the reader.

* `Draft.Supplied`: the document has the fields of a manifest, by name or in their order.
  `Draft.ofJson_eq_ok_iff`: just those documents are read.
* `Listing.Valid`: the entry's type is the label of a role, and its path goes down by names to a
  directory of the plugin.  `Listing.Becomes`: the component that is made of the entry.
* `Component.ofListing_eq_ok_iff`: just the valid entries become components.
* `ofDocument_accepts_iff`: **which documents are accepted**, and what comes of them.
-/

namespace PluginManager

/-! ## Readers -/

theorem Except.bind_eq_ok {ε α β : Type} {x : Except ε α} {f : α → Except ε β} {b : β} :
    (x >>= f) = .ok b ↔ ∃ a, x = .ok a ∧ f a = .ok b := by
  cases x with
  | error e => simp [bind, Except.bind]
  | ok a => simp [bind, Except.bind]

theorem Except.map_eq_ok {ε α β : Type} {x : Except ε α} {f : α → β} {b : β} :
    x.map f = .ok b ↔ ∃ a, x = .ok a ∧ f a = b := by
  cases x with
  | error e => simp [Except.map]
  | ok a => simp [Except.map]

namespace Manifest

variable {α : Type} {fields : List (String × Json)} {items : List Json} {name : String} {v : Json}

theorem text_eq_ok_iff {s : String} : text v = .ok s ↔ v = .string s := by
  cases v <;> simp [text]

theorem optional_eq_ok_some_iff {decode : Json → Except Mismatch α} {a : α} :
    optional decode fields name = .ok (some a) ↔
      ∃ v, fields.lookup name = some v ∧ decode v = .ok a := by
  rw [optional]
  cases fields.lookup name with
  | none => simp
  | some v => simp [Except.map_eq_ok]

theorem needed_eq_ok_iff {o : Option α} {a : α} : needed name o = .ok a ↔ o = some a := by
  cases o <;> simp [needed]

theorem optional_text_eq_ok_iff {s : String} :
    optional text fields name = .ok (some s) ↔ fields.lookup name = some (.string s) := by
  rw [optional_eq_ok_some_iff]
  constructor
  · rintro ⟨v, hv, htext⟩
    rwa [text_eq_ok_iff.mp htext] at hv
  · intro h
    exact ⟨_, h, rfl⟩

theorem nth_eq_ok_iff {decode : Json → Except Mismatch α} {expected : Expected} {i : Nat} {a : α} :
    nth decode expected items i = .ok a ↔ ∃ v, items[i]? = some v ∧ decode v = .ok a := by
  rw [nth]
  cases items[i]? with
  | none => simp
  | some v => simp

theorem noMore_eq_ok_iff {count : Nat} {u : Unit} :
    noMore count items = .ok u ↔ items.length ≤ count := by
  rw [noMore]
  split
  · simp; omega
  · simp; omega

/-! ## Entries -/

/-- The value supplies the entry: as fields by name, others being ignored, or as the two in
order. -/
inductive Listing.Supplied : Json → Listing → Prop
  | byName {fields path kind} : fields.lookup "path" = some (.string path) →
      fields.lookup "type" = some (.string kind) → Supplied (.object fields) ⟨path, kind⟩
  | inOrder {path kind} : Supplied (.array [.string path, .string kind]) ⟨path, kind⟩

theorem Listing.ofJson_object {l : Listing} : Listing.ofJson (.object fields) = .ok l ↔
    fields.lookup "path" = some (.string l.path) ∧
      fields.lookup "type" = some (.string l.kind) := by
  rw [Listing.ofJson]
  simp only [Except.bind_eq_ok, needed_eq_ok_iff]
  constructor
  · rintro ⟨path?, hpath, kind?, hkind, path, rfl, kind, rfl, hl⟩
    obtain rfl := Except.ok.inj hl
    exact ⟨optional_text_eq_ok_iff.mp hpath, optional_text_eq_ok_iff.mp hkind⟩
  · rintro ⟨hpath, hkind⟩
    exact ⟨some l.path, optional_text_eq_ok_iff.mpr hpath, some l.kind,
      optional_text_eq_ok_iff.mpr hkind, l.path, rfl, l.kind, rfl, rfl⟩

theorem Listing.ofJson_array {l : Listing} : Listing.ofJson (.array items) = .ok l ↔
    items = [.string l.path, .string l.kind] := by
  rw [Listing.ofJson]
  simp only [Except.bind_eq_ok, nth_eq_ok_iff, noMore_eq_ok_iff, text_eq_ok_iff]
  constructor
  · rintro ⟨path, ⟨_, hpath, rfl⟩, kind, ⟨_, hkind, rfl⟩, ⟨⟩, hlength, hl⟩
    obtain rfl := Except.ok.inj hl
    match items, hlength with
    | [], _ => exact absurd hpath (by simp)
    | [_], _ => exact absurd hkind (by simp)
    | [a, b], _ =>
      obtain rfl : a = .string path := by simpa using hpath
      obtain rfl : b = .string kind := by simpa using hkind
      rfl
  · rintro rfl
    exact ⟨l.path, ⟨_, rfl, rfl⟩, l.kind, ⟨_, rfl, rfl⟩, (), Nat.le_refl 2, rfl⟩

theorem Listing.ofJson_eq_ok_iff {l : Listing} :
    Listing.ofJson v = .ok l ↔ Listing.Supplied v l := by
  constructor
  · intro h
    cases v with
    | object fields =>
      obtain ⟨hpath, hkind⟩ := Listing.ofJson_object.mp h
      exact .byName hpath hkind
    | array items =>
      rw [Listing.ofJson_array.mp h]
      exact .inOrder
    | _ => exact absurd h (by simp [Listing.ofJson])
  · intro h
    cases h with
    | byName hpath hkind => exact Listing.ofJson_object.mpr ⟨hpath, hkind⟩
    | inOrder => exact Listing.ofJson_array.mpr rfl

theorem mapM_ofJson_eq_ok_iff {ls : List Listing} :
    items.mapM Listing.ofJson = .ok ls ↔ List.Forall₂ Listing.Supplied items ls := by
  induction items generalizing ls with
  | nil => simp [pure, Except.pure, eq_comm]
  | cons v rest ih =>
    rw [List.mapM_cons]
    simp only [Except.bind_eq_ok, List.forall₂_cons_left_iff]
    constructor
    · rintro ⟨l, hl, ls', hls, heq⟩
      obtain rfl := Except.ok.inj heq
      exact ⟨l, ls', Listing.ofJson_eq_ok_iff.mp hl, ih.mp hls, rfl⟩
    · rintro ⟨l, ls', hl, hls, rfl⟩
      exact ⟨l, Listing.ofJson_eq_ok_iff.mpr hl, ls', ih.mpr hls, rfl⟩

theorem listings_eq_ok_iff {ls : List Listing} :
    listings v = .ok ls ↔ ∃ items, v = .array items ∧ List.Forall₂ Listing.Supplied items ls := by
  cases v with
  | array items => simp [listings, mapM_ofJson_eq_ok_iff]
  | _ => simp [listings]

/-! ## Manifests -/

/-- A description may be left out, or be null. -/
inductive Described : Option Json → Option String → Prop
  | absent : Described none none
  | null : Described (some .null) none
  | text (s : String) : Described (some (.string s)) (some s)

theorem optionalText_eq_ok_iff {o : Option String} :
    optionalText v = .ok o ↔ Described (some v) o := by
  constructor
  · intro h
    cases v with
    | null =>
      obtain rfl : none = o := Except.ok.inj h
      exact .null
    | string s =>
      obtain rfl : some s = o := Except.ok.inj h
      exact .text s
    | _ => cases h
  · intro h
    cases h with
    | null => rfl
    | text s => rfl

theorem optional_optionalText_eq_ok_iff {o : Option String} :
    (∃ o', optional optionalText fields name = .ok o' ∧ o'.join = o) ↔
      Described (fields.lookup name) o := by
  rw [optional]
  cases fields.lookup name with
  | none =>
    constructor
    · rintro ⟨o', ho', rfl⟩
      obtain rfl : none = o' := Except.ok.inj ho'
      exact .absent
    · rintro ⟨⟩
      exact ⟨none, rfl, rfl⟩
  | some v =>
    rw [← optionalText_eq_ok_iff]
    simp only [Except.map_eq_ok]
    constructor
    · rintro ⟨-, ⟨o', ho', rfl⟩, rfl⟩
      exact ho'
    · intro h
      exact ⟨some o, ⟨o, h, rfl⟩, rfl⟩

/-- The document supplies the manifest: as fields by name, others being ignored, or as the four in
order. -/
inductive Draft.Supplied : Json → Draft → Prop
  | byName {fields name author description items installs} :
      fields.lookup "name" = some (.string name) → fields.lookup "author" = some (.string author) →
      Described (fields.lookup "description") description →
      fields.lookup "installs" = some (.array items) →
      List.Forall₂ Listing.Supplied items installs →
      Supplied (.object fields) ⟨name, author, description, installs⟩
  | inOrder {name author v description items installs} : Described (some v) description →
      List.Forall₂ Listing.Supplied items installs →
      Supplied (.array [.string name, .string author, v, .array items])
        ⟨name, author, description, installs⟩

theorem Draft.ofJson_object {d : Draft} : Draft.ofJson (.object fields) = .ok d ↔
    Draft.Supplied (.object fields) d := by
  rw [Draft.ofJson]
  simp only [Except.bind_eq_ok, needed_eq_ok_iff]
  constructor
  · rintro ⟨_, hauthor, description, hdescription, _, hinstalls, _, hname, name, rfl, author, rfl,
      installs, rfl, hd⟩
    obtain rfl := Except.ok.inj hd
    obtain ⟨_, hlookup, hlistings⟩ := optional_eq_ok_some_iff.mp hinstalls
    obtain ⟨items, rfl, hitems⟩ := listings_eq_ok_iff.mp hlistings
    exact .byName (optional_text_eq_ok_iff.mp hname) (optional_text_eq_ok_iff.mp hauthor)
      (optional_optionalText_eq_ok_iff.mp ⟨description, hdescription, rfl⟩) hlookup hitems
  · rintro (⟨hname, hauthor, hdescribed, hlookup, hitems⟩ | _)
    obtain ⟨description, hdescription, rfl⟩ := optional_optionalText_eq_ok_iff.mpr hdescribed
    exact ⟨_, optional_text_eq_ok_iff.mpr hauthor, description, hdescription, _,
      optional_eq_ok_some_iff.mpr ⟨_, hlookup, listings_eq_ok_iff.mpr ⟨_, rfl, hitems⟩⟩, _,
      optional_text_eq_ok_iff.mpr hname, _, rfl, _, rfl, _, rfl, rfl⟩

/-- Without a third item there is no fourth either, so the description is never missing. -/
theorem Draft.ofJson_array_eq_ok_iff {d : Draft} : Draft.ofJson (.array items) = .ok d ↔
    ∃ v items', items = [.string d.name, .string d.author, v, .array items'] ∧
      Described (some v) d.description ∧ List.Forall₂ Listing.Supplied items' d.installs := by
  rw [Draft.ofJson]
  by_cases hshort : items.length ≤ 2
  · simp only [hshort, if_true, Except.bind_eq_ok, nth_eq_ok_iff]
    constructor
    · rintro ⟨-, -, -, -, -, -, -, ⟨v, hv, -⟩, -⟩
      rw [List.getElem?_eq_none (by omega)] at hv
      exact absurd hv (by simp)
    · rintro ⟨v, items', rfl, -⟩
      exact absurd hshort (by simp)
  · simp only [hshort, if_false, Except.bind_eq_ok, nth_eq_ok_iff, noMore_eq_ok_iff,
      text_eq_ok_iff, optionalText_eq_ok_iff, listings_eq_ok_iff]
    constructor
    · rintro ⟨name, ⟨_, hname, rfl⟩, author, ⟨_, hauthor, rfl⟩, description, ⟨v, hv, hdescribed⟩,
        installs, ⟨_, hinstalls, items', rfl, hitems'⟩, ⟨⟩, hlength, hd⟩
      obtain rfl := Except.ok.inj hd
      refine ⟨v, items', ?_, hdescribed, hitems'⟩
      match items, hlength with
      | [], _ | [_], _ | [_, _], _ | [_, _, _], _ => exact absurd hinstalls (by simp)
      | [a, b, c, e], _ =>
        obtain rfl : a = .string name := by simpa using hname
        obtain rfl : b = .string author := by simpa using hauthor
        obtain rfl : c = v := by simpa using hv
        obtain rfl : e = .array items' := by simpa using hinstalls
        rfl
    · rintro ⟨v, items', rfl, hdescribed, hitems'⟩
      exact ⟨d.name, ⟨_, rfl, rfl⟩, d.author, ⟨_, rfl, rfl⟩, d.description, ⟨v, rfl, hdescribed⟩,
        d.installs, ⟨_, rfl, items', rfl, hitems'⟩, (), Nat.le_refl 4, rfl⟩

/-- **Just the documents that supply a manifest are read** as one. -/
theorem Draft.ofJson_eq_ok_iff {d : Draft} : Draft.ofJson v = .ok d ↔ Draft.Supplied v d := by
  cases v with
  | object fields => exact Draft.ofJson_object
  | array items =>
    rw [Draft.ofJson_array_eq_ok_iff]
    constructor
    · rintro ⟨v, items', rfl, hdescribed, hitems'⟩
      exact .inOrder hdescribed hitems'
    · rintro (_ | ⟨hdescribed, hitems'⟩)
      exact ⟨_, _, rfl, hdescribed, hitems'⟩
  | _ =>
    constructor
    · intro h
      cases h
    · intro h
      cases h

end Manifest

/-! ## Components -/

/-- The pieces that are no component are the silent ones; a later name takes the place of the one
found before. -/
theorem lastName_filterMap_eq_ok_iff {pieces : List String} {found : Option String}
    {name : String} : lastName found (pieces.filterMap Path.component?) = .ok name ↔
      ".." ∉ pieces ∧
        ((pieces.filter (· ≠ "")).filter (· ≠ ".")).getLast?.or found = some name := by
  induction pieces generalizing found with
  | nil => cases found <;> simp [lastName]
  | cons piece rest ih =>
    rcases eq_or_ne piece "" with rfl | hempty
    · rw [List.filterMap_cons_none (by decide), ih]
      simp
    · rcases eq_or_ne piece "." with rfl | hcurrent
      · rw [List.filterMap_cons_none (by decide), ih]
        simp
      · rcases eq_or_ne piece ".." with rfl | hparent
        · rw [List.filterMap_cons_some (b := .parent) (by decide)]
          cases found <;> simp [lastName]
        · have hname : Path.component? piece = some (.normal piece) := by
            simp [Path.component?, hempty, hcurrent, hparent]
          rw [List.filterMap_cons_some hname, lastName, ih]
          simp [hempty, hcurrent, hparent.symm, List.getLast?_cons]

theorem lastName_components_eq_ok_iff {p : Path} {name : String} :
    lastName none p.components = .ok name ↔ p.isAbsolute = false ∧ ".." ∉ FileSystem.steps p ∧
      ((FileSystem.steps p).filter (· ≠ ".")).getLast? = some name := by
  have hsteps : ".." ∉ FileSystem.steps p ↔ ".." ∉ p.pieces := by simp [FileSystem.steps]
  have hbody := @lastName_filterMap_eq_ok_iff p.pieces none name
  rw [Option.or_none] at hbody
  rw [hsteps, FileSystem.steps, ← hbody, Path.components]
  split
  · rename_i habs
    simp [lastName, habs]
  · rename_i habs
    rw [Bool.not_eq_true] at habs
    split
    · simp [lastName, habs]
    · simp [habs]

namespace Manifest

/-- The entry is one of the plugin at `r`: its type is the label of a role, and its path goes down
by names and leads to a directory of the plugin. -/
structure Listing.Valid (fs : FileSystem) (r : Location) (l : Listing) : Prop where
  role : ∃ role : Role, role.label = l.kind
  relative : (Path.mk l.path).isAbsolute = false
  no_parent : ".." ∉ FileSystem.steps ⟨l.path⟩
  named : ∃ step ∈ FileSystem.steps ⟨l.path⟩, step ≠ "."
  resolves : ∃ k mode, fs.find true ((Path.ofLocation r).join ⟨l.path⟩) = .ok (k, .directory mode) ∧
    r <+: k

/-- The component that is made of the entry. -/
structure Listing.Becomes (l : Listing) (c : Component) : Prop where
  path : c.path = l.path
  role : c.role.label = l.kind
  name : ((FileSystem.steps ⟨l.path⟩).filter (· ≠ ".")).getLast? = some c.name

end Manifest

open Manifest in
/-- **Just the valid entries are components.** -/
theorem Component.ofListing_eq_ok_iff {fs : FileSystem} {r : Location} {l : Listing}
    {c : Component} : ofListing fs r l = .ok c ↔ l.Valid fs r ∧ l.Becomes c := by
  constructor
  · intro h
    rw [ofListing] at h
    split at h
    · exact absurd h (by simp)
    · rename_i role hrole
      split at h
      · exact absurd h (by simp)
      · rename_i name hname
        obtain ⟨hrelative, hparent, hlast⟩ := lastName_components_eq_ok_iff.mp hname
        split at h
        · exact absurd h (by simp)
        · rename_i k entry hfind
          split at h
          · exact absurd h (by simp)
          · rename_i hwithin
            split at h
            · exact absurd h (by simp)
            · rename_i hdir
              obtain ⟨mode, rfl⟩ := FileSystem.exists_mode_of_isDirectory (by simpa using hdir)
              obtain rfl := Except.ok.inj h
              have hlabel := Role.ofLabel?_eq_some_iff.mp hrole
              have hmem := List.mem_filter.mp (List.mem_of_getLast? hlast)
              exact ⟨⟨⟨role, hlabel⟩, hrelative, hparent, ⟨name, hmem.1, by simpa using hmem.2⟩,
                k, mode, hfind, by simpa [FileSystem.isWithin] using hwithin⟩, rfl, hlabel, hlast⟩
  · rintro ⟨hvalid, hbecomes⟩
    obtain ⟨k, mode, hfind, hwithin⟩ := hvalid.resolves
    have hname := lastName_components_eq_ok_iff.mpr
      ⟨hvalid.relative, hvalid.no_parent, hbecomes.name⟩
    have hinside : FileSystem.isWithin r k = true := by simpa [FileSystem.isWithin] using hwithin
    rw [ofListing, Role.ofLabel?_eq_some_iff.mpr hbecomes.role]
    simp only [hname, hfind, hinside, Entry.isDirectory]
    rw [← hbecomes.path]
    rfl

namespace Manifest

variable {fs : FileSystem} {r : Location} {ls : List Listing} {cs : List Component}

/-- All entries become components when all are valid, and each in its place. -/
theorem components_eq_ok_iff {i : Nat} : components fs r i ls = .ok cs ↔
    (∀ l ∈ ls, l.Valid fs r) ∧ List.Forall₂ Listing.Becomes ls cs := by
  rw [← List.forall₂_and_left]
  induction ls generalizing i cs with
  | nil => simp [components, eq_comm]
  | cons l rest ih =>
    rw [List.forall₂_cons_left_iff, components]
    cases hc : Component.ofListing fs r l with
    | error fault =>
      constructor
      · intro h
        exact absurd h (by simp)
      · rintro ⟨c, -, hlc, -⟩
        rw [Component.ofListing_eq_ok_iff.mpr hlc] at hc
        exact absurd hc (by simp)
    | ok c =>
      simp only [Except.map_eq_ok, ih]
      constructor
      · rintro ⟨cs', hcs', rfl⟩
        exact ⟨c, cs', Component.ofListing_eq_ok_iff.mp hc, hcs', rfl⟩
      · rintro ⟨d, cs', hld, hcs', rfl⟩
        obtain rfl : c = d := by
          rw [Component.ofListing_eq_ok_iff.mpr hld] at hc
          exact Except.ok.inj hc.symm
        exact ⟨cs', hcs', rfl⟩

theorem Listing.Valid.exists_becomes {l : Listing} (h : l.Valid fs r) : ∃ c, l.Becomes c := by
  obtain ⟨role, hrole⟩ := h.role
  obtain ⟨step, hmem, hne⟩ := h.named
  have hnonempty : (FileSystem.steps ⟨l.path⟩).filter (· ≠ ".") ≠ [] :=
    List.ne_nil_of_mem (List.mem_filter.mpr ⟨hmem, by simpa using hne⟩)
  exact ⟨⟨l.path, role, _⟩, rfl, hrole, List.getLast?_eq_some_getLast hnonempty⟩

theorem exists_forall₂_becomes (h : ∀ l ∈ ls, l.Valid fs r) :
    ∃ cs, List.Forall₂ Listing.Becomes ls cs := by
  induction ls with
  | nil => exact ⟨[], .nil⟩
  | cons l rest ih =>
    obtain ⟨c, hc⟩ := (h l List.mem_cons_self).exists_becomes
    obtain ⟨cs, hcs⟩ := ih fun l' hl' => h l' (List.mem_cons_of_mem l hl')
    exact ⟨c :: cs, .cons hc hcs⟩

/-! ## Documents -/

/-- A plugin at `r` can have this manifest: somebody is named as its author, it has a name, and its
entries are entries of this plugin. -/
structure Draft.Valid (fs : FileSystem) (r : Location) (d : Draft) : Prop where
  name : ∃ c ∈ d.name.toList, Text.isBlank c = false
  author : ∃ c ∈ d.author.toList, Text.isBlank c = false
  installs : ∀ l ∈ d.installs, l.Valid fs r

/-- The manifest that is made of what is written. -/
structure Draft.Becomes (d : Draft) (m : Manifest) : Prop where
  name : m.name = d.name
  author : m.author = d.author
  description : m.description = d.description.filter (· ≠ "")
  installs : List.Forall₂ Listing.Becomes d.installs m.installs

theorem isBlankText_eq_false_iff {s : String} :
    Text.isBlankText s = false ↔ ∃ c ∈ s.toList, Text.isBlank c = false := by
  simp [Text.isBlankText]

theorem ofDocument_eq_ok_iff {root : Path} {document : Json} {m : Manifest} {e : Entry}
    (hroot : fs.find true root = .ok (r, e)) : ofDocument fs root document = .ok m ↔
      ∃ d, Draft.Supplied document d ∧ d.Valid fs r ∧ d.Becomes m := by
  rw [ofDocument]
  cases hdraft : Draft.ofJson document with
  | error fault =>
    constructor
    · intro h
      exact absurd h (by simp)
    · rintro ⟨d, hd, -⟩
      rw [Draft.ofJson_eq_ok_iff.mpr hd] at hdraft
      exact absurd hdraft (by simp)
  | ok draft =>
    simp only [hroot]
    constructor
    · intro h
      split at h
      · exact absurd h (by simp)
      · rename_i hname
        split at h
        · exact absurd h (by simp)
        · rename_i hauthor
          split at h
          · exact absurd h (by simp)
          · rename_i installs hinstalls
            obtain ⟨hvalid, hbecome⟩ := components_eq_ok_iff.mp hinstalls
            obtain rfl := Except.ok.inj h
            rw [Bool.not_eq_true] at hname hauthor
            exact ⟨draft, Draft.ofJson_eq_ok_iff.mp hdraft,
              ⟨isBlankText_eq_false_iff.mp hname, isBlankText_eq_false_iff.mp hauthor, hvalid⟩,
              rfl, rfl, rfl, hbecome⟩
    · rintro ⟨d, hd, hvalid, hbecomes⟩
      obtain rfl : draft = d := by
        rw [Draft.ofJson_eq_ok_iff.mpr hd] at hdraft
        exact Except.ok.inj hdraft.symm
      obtain ⟨name, author, description, installs⟩ := m
      obtain ⟨rfl, rfl, rfl, hinstalls⟩ := hbecomes
      simp only [isBlankText_eq_false_iff.mpr hvalid.name,
        isBlankText_eq_false_iff.mpr hvalid.author,
        components_eq_ok_iff.mpr ⟨hvalid.installs, hinstalls⟩, Bool.false_eq_true, if_false]

/-- **A document is accepted as the manifest of the plugin at `r`** exactly when it supplies a
manifest that is valid there; every component of the manifest is a directory of the plugin. -/
theorem ofDocument_accepts_iff {root : Path} {document : Json} {e : Entry}
    (hroot : fs.find true root = .ok (r, e)) :
    ((∃ m, ofDocument fs root document = .ok m) ↔
      ∃ d, Draft.Supplied document d ∧ d.Valid fs r) ∧
    ∀ m, ofDocument fs root document = .ok m →
      (∃ d, Draft.Supplied document d ∧ d.Becomes m) ∧ ∀ c ∈ m.installs, c.Sound fs r := by
  refine ⟨?_, ?_⟩
  · constructor
    · rintro ⟨m, hm⟩
      obtain ⟨d, hd, hvalid, -⟩ := (ofDocument_eq_ok_iff hroot).mp hm
      exact ⟨d, hd, hvalid⟩
    · rintro ⟨d, hd, hvalid⟩
      obtain ⟨cs, hcs⟩ := exists_forall₂_becomes hvalid.installs
      exact ⟨⟨d.name, d.author, d.description.filter (· ≠ ""), cs⟩,
        (ofDocument_eq_ok_iff hroot).mpr ⟨d, hd, hvalid, rfl, rfl, rfl, hcs⟩⟩
  · intro m hm
    obtain ⟨d, hd, -, hbecomes⟩ := (ofDocument_eq_ok_iff hroot).mp hm
    obtain ⟨-, r', e', hroot', hsound⟩ := exists_of_ofDocument hm
    obtain ⟨rfl, -⟩ : r = r' ∧ e = e' := by simpa [hroot] using hroot'
    exact ⟨⟨d, hd, hbecomes⟩, hsound⟩

/-- A plugin whose one component is reached through a link. -/
def linkedWorld : FileSystem where
  entries := [(["p"], .directory 0o755), (["p", "parts"], .directory 0o755),
    (["p", "parts", "x"], .directory 0o755), (["p", "link"], .link ⟨"parts/x"⟩)]
  times := []
  clock := 0
  workingDirectory := ["p"]

/-- The manifest of the plugin, its one entry as an array. -/
def linkedDocument : Json :=
  .object [("name", .string "demo"), ("author", .string "acme"),
    ("installs", .array [.array [.string ".//link/.", .string "backend"]])]

theorem ofDocument_accepts_linkedDocument :
    linkedWorld.find true ⟨"."⟩ = .ok (["p"], .directory 0o755) ∧
      (∃ d, Draft.Supplied linkedDocument d ∧ d.Valid linkedWorld ["p"]) ∧
      Component.Sound linkedWorld ["p"] ⟨".//link/.", .backend, "link"⟩ := by
  have hroot : linkedWorld.find true ⟨"."⟩ = .ok (["p"], .directory 0o755) := by rfl
  have hm : ofDocument linkedWorld ⟨"."⟩ linkedDocument =
      .ok ⟨"demo", "acme", none, [⟨".//link/.", .backend, "link"⟩]⟩ := by rfl
  obtain ⟨haccepts, hmade⟩ := @ofDocument_accepts_iff linkedWorld ["p"] ⟨"."⟩ linkedDocument _ hroot
  exact ⟨hroot, haccepts.mp ⟨_, hm⟩, (hmade _ hm).2 _ List.mem_cons_self⟩

end Manifest

end PluginManager
