import PluginManager.Proofs.Manifest.Decoding
import PluginManager.Proofs.Toml.Tables
import PluginManager.Settings.Load

/-!
# Settings in layers

A file with sections that are tables, and with known keys of the right types, always gives settings:
the user's values where they are given, the defaults elsewhere.

* `Settings.given?`: a value as the user gives it.
* `Settings.Suitable`: what is asked of a user's document; `Settings.chosen`: what it stands for.
* `Settings.exists_section`: a section of the merged table, name by name.
* `Settings.ofUser_eq_ok`: **suitable documents are read as what they stand for**.
* `Settings.load_layers`: the law of merging and what it comes to when settings are loaded.
-/

namespace PluginManager.Settings

open Toml (Ordered mergeFields)

variable {α : Type} {user fields base : List (String × Toml)} {part key : String}

/-! ## What a user gives -/

def string? : Toml → Option String
  | .string s => some s
  | _ => none

def flag? : Toml → Option Bool
  | .boolean b => some b
  | _ => none

def natural? : Toml → Option Nat
  | .integer n => if 0 ≤ n then some n.toNat else none
  | _ => none

def strings? : Toml → Option (List String)
  | .array items => items.mapM string?
  | _ => none

def table? : Toml → Option (List (String × Toml))
  | .table fields => some fields
  | _ => none

/-- The value of a key in a section, if it is given. -/
def given? (read : Toml → Option α) (user : List (String × Toml)) (part key : String) : Option α :=
  ((Toml.table user).at? [part, key]).bind read

/-- What is given under the key is of the right type. -/
def Fits (read : Toml → Option α) (user : List (String × Toml)) (part key : String) : Prop :=
  ∀ v, (Toml.table user).at? [part, key] = some v → (read v).isSome

def sections : List String := ["general", "package", "schema", "targets"]

/-- Sections are tables, and known keys have values of the right types. -/
structure Suitable (user : List (String × Toml)) : Prop where
  table : ∀ part ∈ sections, ∀ v, user.lookup part = some v → (table? v).isSome
  logFilter : Fits string? user "general" "log_filter"
  extension : Fits string? user "package" "extension"
  stripDirs : Fits strings? user "package" "strip_dirs"
  stripFiles : Fits strings? user "package" "strip_files"
  sortEntries : Fits flag? user "package" "sort_entries"
  url : Fits string? user "schema" "url"
  maxAgeDays : Fits natural? user "schema" "max_age_days"
  cacheDir : Fits string? user "schema" "cache_dir"
  target : ∀ role : Role, Fits string? user "targets" role.label

instance (read : Toml → Option α) (user : List (String × Toml)) (part key : String) :
    Decidable (Fits read user part key) :=
  decidable_of_iff _ (Option.all_eq_true (fun v => (read v).isSome) _)

instance (user : List (String × Toml)) : Decidable (Suitable user) :=
  decidable_of_iff
    ((∀ part ∈ sections, (user.lookup part).all fun v => (table? v).isSome) ∧
      Fits string? user "general" "log_filter" ∧ Fits string? user "package" "extension" ∧
      Fits strings? user "package" "strip_dirs" ∧ Fits strings? user "package" "strip_files" ∧
      Fits flag? user "package" "sort_entries" ∧ Fits string? user "schema" "url" ∧
      Fits natural? user "schema" "max_age_days" ∧ Fits string? user "schema" "cache_dir" ∧
      ∀ role ∈ Role.all, Fits string? user "targets" role.label)
    ⟨fun ⟨h, hl, he, hd, hf, hs, hu, hm, hc, ht⟩ =>
      ⟨fun part hpart => (Option.all_eq_true _ _).mp (h part hpart), hl, he, hd, hf, hs, hu, hm, hc,
        fun role => ht role role.mem_all⟩,
    fun h =>
      ⟨fun part hpart => (Option.all_eq_true _ _).mpr (h.table part hpart), h.logFilter,
        h.extension, h.stripDirs, h.stripFiles, h.sortEntries, h.url, h.maxAgeDays, h.cacheDir,
        fun role _ => h.target role⟩⟩

/-- The settings that a document stands for: the user's values, or the defaults. -/
def chosen (user : List (String × Toml)) : Settings where
  logFilter := (given? string? user "general" "log_filter").getD "bitcart_plugin=info"
  schema :=
    { url := (given? string? user "schema" "url").getD
        "https://bitcartcc.com/schemas/plugin/1.1.0/plugin.schema.json"
      maxAgeDays := (given? natural? user "schema" "max_age_days").getD 7
      cacheDir := given? string? user "schema" "cache_dir" }
  package :=
    { extension := (given? string? user "package" "extension").getD "bitcartcc"
      stripDirs :=
        (given? strings? user "package" "strip_dirs").getD ["node_modules", "__pycache__"]
      stripFiles :=
        (given? strings? user "package" "strip_files").getD ["yarn.lock", "package-lock.json"]
      sortEntries := (given? flag? user "package" "sort_entries").getD false }
  targets :=
    { backend := given? string? user "targets" "backend"
      admin := given? string? user "targets" "admin"
      store := given? string? user "targets" "store"
      docker := given? string? user "targets" "docker" }

/-! ## Reading values -/

variable {v : Toml} {decode : Decode α} {read : Toml → Option α}

/-- What has the right type is decoded to what it is read as. -/
def Reads (decode : Decode α) (read : Toml → Option α) : Prop :=
  ∀ v a, read v = some a → decode v = .ok a

theorem text_reads : Reads text string? := by
  intro v s h
  cases v <;> cases h
  rfl

theorem flag_reads : Reads flag flag? := by
  intro v b h
  cases v <;> cases h
  rfl

theorem word_reads : Reads word natural? := by
  intro v n h
  cases v with
  | integer i =>
    rw [natural?, Option.ite_none_right_eq_some] at h
    obtain ⟨hi, hn⟩ := h
    rw [word, if_neg (Int.not_lt.mpr hi), ← Option.some.inj hn]
  | _ => cases h

theorem mapM_text {items : List Toml} {ss : List String} (h : items.mapM string? = some ss) :
    items.mapM text = .ok ss := by
  induction items generalizing ss with
  | nil =>
    cases h
    rfl
  | cons item rest ih =>
    rw [List.mapM_cons] at h
    obtain ⟨s, hs, h⟩ := Option.bind_eq_some_iff.mp h
    obtain ⟨ss, hss, h⟩ := Option.bind_eq_some_iff.mp h
    cases h
    rw [List.mapM_cons, text_reads _ _ hs, ih hss]
    rfl

theorem texts_reads : Reads texts strings? := by
  intro v ss h
  cases v with
  | array items => exact mapM_text h
  | _ => cases h

/-! ## Reading sections -/

/-- The defaults of a section. -/
def defaultsOf (part : String) : List (String × Toml) :=
  match defaults.lookup part with
  | some (.table fields) => fields
  | _ => []

theorem lookup_defaults (hpart : part ∈ sections) :
    defaults.lookup part = some (.table (defaultsOf part)) := by
  simp only [sections, List.mem_cons, List.not_mem_nil, or_false] at hpart
  rcases hpart with rfl | rfl | rfl | rfl <;> rfl

/-- No default is a table, so what a user gives replaces it. -/
theorem lookup_defaultsOf_ne_table (hpart : part ∈ sections) :
    (defaultsOf part).lookup key ≠ some (.table fields) := by
  intro h
  obtain ⟨before, after, hsplit, -⟩ := List.lookup_eq_some_iff.mp h
  have hmem : (key, .table fields) ∈ defaultsOf part := by simp [hsplit]
  simp only [sections, List.mem_cons, List.not_mem_nil, or_false] at hpart
  rcases hpart with rfl | rfl | rfl | rfl <;> simp [defaultsOf, defaults, List.lookup_cons] at hmem

/-- The fields of a section: what the user gives, and beneath it the defaults. -/
def Layered (user : List (String × Toml)) (part : String) (fields : List (String × Toml)) : Prop :=
  ∀ key, fields.lookup key = ((Toml.table user).at? [part, key]).or ((defaultsOf part).lookup key)

/-- A section of the merged table, unless the user has something else in its place. -/
theorem exists_section (h : Ordered user) (hs : Suitable user) (part : String)
    (hpart : part ∈ sections) :
    ∃ fields, (mergeFields defaults user).lookup part = some (.table fields) ∧
      Layered user part fields := by
  have hdefaults := lookup_defaults hpart
  cases hlookup : user.lookup part with
  | none =>
    refine ⟨defaultsOf part, by rw [Toml.lookup_mergeFields_of_none hlookup, hdefaults],
      fun key => ?_⟩
    rw [Toml.at?, hlookup]
    rfl
  | some v =>
    obtain ⟨more, rfl⟩ : ∃ more, v = .table more := by
      have hv := hs.table part hpart v hlookup
      cases v <;> first | exact ⟨_, rfl⟩ | cases hv
    have hmore : Ordered more := Toml.orderly_table.mp (h.orderly hlookup)
    refine ⟨mergeFields (defaultsOf part) more, ?_, fun key => ?_⟩
    · rw [Toml.lookup_mergeFields_of_some h hlookup, hdefaults]
      rfl
    · rw [Toml.at?, hlookup, Option.bind_some, Toml.at?]
      cases hkey : more.lookup key with
      | none => exact Toml.lookup_mergeFields_of_none hkey _
      | some w =>
        rw [Toml.lookup_mergeFields_of_some hmore hkey,
          Toml.mergeAt_of_base_not_table fun _ => lookup_defaultsOf_ne_table hpart]
        rfl

/-- A key of a section: what the user gives, or else the default. -/
theorem Layered.optional {a? : Option α} (h : Layered user part fields)
    (hreads : Reads decode read) (hfits : Fits read user part key)
    (hdefault : optional decode (defaultsOf part) key = .ok a?) :
    optional decode fields key = .ok ((given? read user part key).or a?) := by
  rw [Settings.optional, h key, given?]
  cases hgiven : (Toml.table user).at? [part, key] with
  | none => exact hdefault
  | some v =>
    obtain ⟨a, ha⟩ := Option.isSome_iff_exists.mp (hfits v hgiven)
    rw [Option.some_or, Option.bind_some, ha]
    dsimp only
    rw [hreads v a ha]
    rfl

theorem needed_or (key : String) (o : Option α) (a : α) :
    needed key (o.or (some a)) = .ok (o.getD a) := by
  cases o <;> rfl

theorem general_of_layered (hs : Suitable user) (h : Layered user "general" fields) :
    general (.table fields) = .ok (chosen user).logFilter := by
  rw [general, h.optional text_reads hs.logFilter rfl]
  exact needed_or _ _ _

theorem schemaSection_of_layered (hs : Suitable user) (h : Layered user "schema" fields) :
    schemaSection (.table fields) = .ok (chosen user).schema := by
  rw [schemaSection, h.optional text_reads hs.cacheDir rfl,
    h.optional word_reads hs.maxAgeDays rfl, h.optional text_reads hs.url rfl, Option.or_none]
  simp only [bind, Except.bind, needed_or]
  rfl

theorem packageSection_of_layered (hs : Suitable user) (h : Layered user "package" fields) :
    packageSection (.table fields) = .ok (chosen user).package := by
  rw [packageSection, h.optional text_reads hs.extension rfl,
    h.optional flag_reads hs.sortEntries rfl, h.optional texts_reads hs.stripDirs rfl,
    h.optional texts_reads hs.stripFiles rfl]
  simp only [bind, Except.bind, needed_or]
  rfl

theorem targetSection_of_layered (hs : Suitable user) (h : Layered user "targets" fields) :
    targetSection (.table fields) = .ok (chosen user).targets := by
  have htarget : ∀ role : Role, optional text fields role.label =
      .ok (given? string? user "targets" role.label) := fun role => by
    rw [h.optional text_reads (hs.target role) rfl, Option.or_none]
  refine Except.bind_eq_ok.mpr ⟨_, htarget .admin, ?_⟩
  refine Except.bind_eq_ok.mpr ⟨_, htarget .backend, ?_⟩
  refine Except.bind_eq_ok.mpr ⟨_, htarget .docker, ?_⟩
  exact Except.bind_eq_ok.mpr ⟨_, htarget .store, rfl⟩

/-! ## Loading -/

theorem optional_of_lookup {a : α} (h : fields.lookup key = some v) (hv : decode v = .ok a) :
    optional decode fields key = .ok (some a) := by
  rw [optional, h]
  dsimp only
  rw [hv]
  rfl

/-- **A suitable document is read as what it stands for.** -/
theorem ofUser_eq_ok (h : Ordered user) (hs : Suitable user) : ofUser user = .ok (chosen user) := by
  obtain ⟨generals, hgeneral, hgenerals⟩ := exists_section h hs "general" (by decide)
  obtain ⟨packages, hpackage, hpackages⟩ := exists_section h hs "package" (by decide)
  obtain ⟨schemas, hschema, hschemas⟩ := exists_section h hs "schema" (by decide)
  obtain ⟨targets, htarget, htargets⟩ := exists_section h hs "targets" (by decide)
  rw [ofUser, ofToml, optional_of_lookup hgeneral (general_of_layered hs hgenerals),
    optional_of_lookup hpackage (packageSection_of_layered hs hpackages),
    optional_of_lookup hschema (schemaSection_of_layered hs hschemas),
    optional_of_lookup htarget (targetSection_of_layered hs htargets)]
  rfl

theorem load_of_userFile {fs : FileSystem} {e : Environment} {explicit : Option Path} {p : Path}
    {text : String} (hfile : userFile? fs e explicit = some p) (htext : fs.readText p = .ok text)
    (hparse : Toml.parse text = some user) :
    load fs e explicit = (ofUser user).mapError .wrong := by
  rw [load, hfile]
  dsimp only
  rw [htext]
  dsimp only
  rw [hparse]

/-- **Settings in layers.**  A table laid over another follows the law of merging; and a user's file
whose sections are tables and whose known keys have the right types gives the settings that it
stands for, each the user's value or else the default, whatever else the file has. -/
theorem load_layers :
    (∀ base overlay, Ordered overlay →
      Toml.Overlaid base overlay (mergeFields base overlay)) ∧
    ∀ (fs : FileSystem) (e : Environment) (explicit : Option Path) (p : Path) (text : String)
      (user : List (String × Toml)),
      userFile? fs e explicit = some p → fs.readText p = .ok text →
        Toml.parse text = some user → Suitable user →
          load fs e explicit = .ok (chosen user) := by
  refine ⟨fun base overlay h => Toml.overlaid_mergeFields h base,
    fun fs e explicit p text user hfile htext hparse hs => ?_⟩
  rw [load_of_userFile hfile htext hparse, ofUser_eq_ok (Toml.parse_ordered hparse) hs]
  rfl

/-- A user's file, with a section that is not known. -/
def dockerText : String :=
  "[package]\nsort_entries = true\n[targets]\ndocker = \"~/d\"\n[more]\nx.y = 1\n"

def dockerWorld : FileSystem where
  entries := [(["c"], .file 0o644 (Text.encode dockerText))]
  times := []
  clock := 0
  workingDirectory := []

/-- The section for the targets alone. -/
def dockerTable : List (String × Toml) := [("targets", .table [("docker", .string "~/d")])]

/-- What the file stands for. -/
def sortedSettings : Settings where
  logFilter := "bitcart_plugin=info"
  schema := ⟨"https://bitcartcc.com/schemas/plugin/1.1.0/plugin.schema.json", 7, none⟩
  package :=
    ⟨"bitcartcc", ["node_modules", "__pycache__"], ["yarn.lock", "package-lock.json"], true⟩
  targets := ⟨none, none, none, some "~/d"⟩

theorem dockerText_read : ∃ user, Toml.parse dockerText = some user ∧ Suitable user ∧
    chosen user = sortedSettings := by
  have h : ((Toml.parse dockerText).any fun user =>
      decide (Suitable user ∧ chosen user = sortedSettings)) = true := by decide +kernel
  obtain ⟨user, hparse, huser⟩ := Option.any_eq_true _ _ |>.mp h
  exact ⟨user, hparse, of_decide_eq_true huser⟩

/-- A section over the defaults: what it has is found, and the defaults are where it has nothing.
The settings of a file with a section that is not known are loaded. -/
theorem load_layers_docker :
    (Toml.table (mergeFields defaults dockerTable)).at? ["targets", "docker"] =
        some (.string "~/d") ∧
    (Toml.table (mergeFields defaults dockerTable)).at? ["package", "extension"] =
        some (.string "bitcartcc") ∧
    load dockerWorld ⟨"/h"⟩ (some ⟨"/c"⟩) = .ok sortedSettings := by
  obtain ⟨hmerge, hload⟩ := load_layers
  have hoverlaid := hmerge defaults dockerTable
    (.cons (by simp) (fun _ he => by cases he; exact .cons (by simp) (by simp) .nil) .nil)
  have hstops : ¬ Toml.Stops (.table dockerTable) ["package", "extension"] := by
    rintro ⟨before, key, after, w, hpath, hbefore, hw⟩
    cases before with
    | nil =>
      cases hbefore
      exact hw _ rfl
    | cons name rest =>
      obtain ⟨rfl, -⟩ := List.cons.inj hpath
      cases hbefore
  obtain ⟨user, hparse, hsuitable, hchosen⟩ := dockerText_read
  refine ⟨hoverlaid.value _ _ rfl (by simp), hoverlaid.kept _ rfl hstops, ?_⟩
  rw [← hchosen]
  exact hload _ _ _ _ _ _ rfl (eq_ok_of_toOption (by decide +kernel)) hparse hsuitable

end PluginManager.Settings
