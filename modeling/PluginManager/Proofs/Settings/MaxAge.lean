import PluginManager.Proofs.Install.InForce
import PluginManager.Proofs.Settings.Layers

/-!
# The greatest age of a schema

Settings give the age in days; a validation takes it in seconds, by three products of 64-bit words.
A file may ask for almost `2 ^ 63` days, and the products hold out only up to `longest` days.

* `Settings.times?`: the product of two words, if it is one.
* `Settings.maxAgeDays_lt`: the range of the days, from the text to the settings.
* `Settings.age_of_load`: **the age that settings give**, and the only command that it ends.
* `Settings.accepted_age_overflows`: a file that is accepted and ends a validation.
-/

namespace PluginManager.Settings

open Toml (Throughout Signed)

variable {α : Type} {fields items : List (String × Toml)} {key : String} {v : Toml} {s : Settings}
  {schema : SchemaSettings} {fs : FileSystem} {e : Environment} {explicit : Option Path}

/-! ## Days in seconds -/

/-- The product of two words, if it is one. -/
def times? (a b : Nat) : Option Nat := if a * b < Nat.pow 2 64 then some (a * b) else none

/-- The greatest number of days that is a word in seconds. -/
def longest : Nat := 213503982334601

theorem maxAgeSeconds?_eq (s : Settings) : s.maxAgeSeconds? =
    if s.schema.maxAgeDays ≤ longest then some (s.schema.maxAgeDays * 86400) else none := by
  have hproduct : s.schema.maxAgeDays * 24 * 60 * 60 = s.schema.maxAgeDays * 86400 := by omega
  have hlimit : s.schema.maxAgeDays * 86400 < Nat.pow 2 64 ↔ s.schema.maxAgeDays ≤ longest := by
    rw [Nat.pow_eq, longest]
    omega
  rw [maxAgeSeconds?, hproduct]
  exact if_congr hlimit rfl rfl

/-- A product that is no word stays none when it grows. -/
theorem times?_bind (a b c : Nat) (hc : 0 < c) :
    (times? a b).bind (times? · c) = times? (a * b) c := by
  rw [times?]
  split
  · rfl
  · rename_i hlarge
    rw [times?, if_neg fun h => hlarge (Nat.lt_of_le_of_lt (Nat.le_mul_of_pos_right _ hc) h)]
    rfl

theorem times?_chain (days : Nat) :
    ((times? days 24).bind (times? · 60)).bind (times? · 60) = times? (days * 24 * 60) 60 := by
  rw [times?_bind days 24 60 (by decide), times?_bind (days * 24) 60 60 (by decide)]

/-! ## The range of the days -/

theorem word_lt {n : Nat} (h : Signed v) (hword : word v = .ok n) : n < Nat.pow 2 63 := by
  cases v with
  | integer i =>
    rw [word] at hword
    split at hword
    · cases hword
    · cases hword
      have hi := (h i rfl).2
      omega
  | _ => cases hword

theorem under_eq_ok {x : Except SettingsFault α} {a : α} (h : under key x = .ok a) : x = .ok a := by
  cases x with
  | ok _ => exact h
  | error _ => cases h

theorem needed_eq_ok {o : Option α} {a : α} (h : needed key o = .ok a) : o = some a := by
  cases o with
  | none => cases h
  | some _ =>
    cases h
    rfl

theorem exists_of_optional {decode : Decode α} {o : Option α} {a : α}
    (h : optional decode fields key = .ok o) (ho : o = some a) :
    ∃ v, fields.lookup key = some v ∧ decode v = .ok a := by
  subst ho
  rw [optional] at h
  split at h
  · cases h
  · rename_i v hlookup
    obtain ⟨b, hb, heq⟩ := Except.map_eq_ok.mp (under_eq_ok h)
    cases heq
    exact ⟨v, hlookup, hb⟩

theorem exists_of_nth {decode : Decode α} {expected : Expected} {list : List Toml} {i : Nat} {a : α}
    (h : nth decode expected list i = .ok a) : ∃ v ∈ list, decode v = .ok a := by
  rw [nth] at h
  split at h
  · cases h
  · rename_i v hv
    exact ⟨v, List.mem_of_getElem? hv, h⟩

/-- In either form of the section the days are one of its values. -/
theorem schemaSection_lt (h : Throughout Signed v) (hschema : schemaSection v = .ok schema) :
    schema.maxAgeDays < Nat.pow 2 63 := by
  cases v with
  | table fields =>
    obtain ⟨cacheDir, -, hschema⟩ := Except.bind_eq_ok.mp hschema
    obtain ⟨days, hdays, hschema⟩ := Except.bind_eq_ok.mp hschema
    obtain ⟨url, -, hschema⟩ := Except.bind_eq_ok.mp hschema
    obtain ⟨url', -, hschema⟩ := Except.bind_eq_ok.mp hschema
    obtain ⟨n, hn, hschema⟩ := Except.bind_eq_ok.mp hschema
    cases hschema
    obtain ⟨v, hlookup, hword⟩ := exists_of_optional hdays (needed_eq_ok hn)
    exact word_lt (h.lookup hlookup).here hword
  | array list =>
    obtain ⟨url, -, hschema⟩ := Except.bind_eq_ok.mp hschema
    obtain ⟨n, hn, hschema⟩ := Except.bind_eq_ok.mp hschema
    obtain ⟨v, hmem, hword⟩ := exists_of_nth hn
    have hlt := word_lt ((Toml.throughout_array.mp h).2 v hmem).here hword
    split at hschema
    all_goals
      obtain ⟨cacheDir, -, hschema⟩ := Except.bind_eq_ok.mp hschema
      obtain ⟨_, -, hschema⟩ := Except.bind_eq_ok.mp hschema
      cases hschema
      exact hlt
  | _ => cases hschema

theorem ofToml_lt (h : Throughout Signed (.table fields)) (hs : ofToml fields = .ok s) :
    s.schema.maxAgeDays < Nat.pow 2 63 := by
  obtain ⟨logFilter?, -, hs⟩ := Except.bind_eq_ok.mp hs
  obtain ⟨package?, -, hs⟩ := Except.bind_eq_ok.mp hs
  obtain ⟨schema?, hschema?, hs⟩ := Except.bind_eq_ok.mp hs
  obtain ⟨targets?, -, hs⟩ := Except.bind_eq_ok.mp hs
  obtain ⟨logFilter, -, hs⟩ := Except.bind_eq_ok.mp hs
  obtain ⟨schema, hschema, hs⟩ := Except.bind_eq_ok.mp hs
  obtain ⟨package, -, hs⟩ := Except.bind_eq_ok.mp hs
  cases hs
  obtain ⟨v, hlookup, hsection⟩ := exists_of_optional hschema? (needed_eq_ok hschema)
  exact schemaSection_lt (h.lookup hlookup) hsection

theorem throughout_defaults : Throughout Signed (.table defaults) := by
  have hstring : ∀ text, Throughout Signed (.string text) := fun text =>
    Toml.IsScalar.throughout trivial (Toml.lasting_signed.string text)
  have hboolean : ∀ b, Throughout Signed (.boolean b) := fun b =>
    Toml.IsScalar.throughout trivial (Toml.lasting_signed.boolean b)
  have hinteger : Throughout Signed (.integer 7) :=
    Toml.IsScalar.throughout trivial (Toml.lasting_signed.integer 7 (by decide) (by decide))
  simp [defaults, Toml.throughout_table, Toml.throughout_array, Signed, hstring, hboolean, hinteger]

/-- **The days of accepted settings are below 2 ^ 63**, wherever they are from. -/
theorem maxAgeDays_lt (h : load fs e explicit = .ok s) : s.schema.maxAgeDays < Nat.pow 2 63 := by
  have hfinish : ∀ user, Throughout Signed (.table (Toml.mergeFields defaults user)) →
      (ofUser user).mapError SettingsError.wrong = .ok s → s.schema.maxAgeDays < Nat.pow 2 63 := by
    intro user huser hload
    refine ofToml_lt huser ?_
    cases hs : ofUser user with
    | error f =>
      rw [hs] at hload
      cases hload
    | ok t =>
      rw [hs] at hload
      cases hload
      exact hs
  rw [load] at h
  dsimp only at h
  split at h
  · exact hfinish [] (by rw [Toml.mergeFields]; exact throughout_defaults) h
  · split at h
    · cases h
    · split at h
      · cases h
      · rename_i hparse
        exact hfinish _ (Toml.parse_signed hparse throughout_defaults) h

/-! ## The command that needs the age -/

variable {a : Application} {c : Command} {plugin : Path} {url : Option String}

theorem checkPlugin_ne_ageOverflow {compiled : Schema} :
    Application.checkPlugin fs compiled plugin ≠ .error .ageOverflow := by
  rw [Application.checkPlugin]
  split
  · simp
  · split <;> simp

/-- With a home directory there is always a directory for schemas. -/
theorem exists_cacheDirectory {home : String} (hhome : e.home = some home) (s : Settings) :
    ∃ directory, s.cacheDirectory e = .ok directory := by
  rw [cacheDirectory]
  cases s.schema.cacheDir with
  | none =>
    rw [Environment.cacheDirectory?, Environment.below?, hhome]
    exact ⟨_, rfl⟩
  | some text =>
    obtain ⟨directory, hexpand⟩ := exists_expandHome hhome text
    exact ⟨directory, expand_of_some hexpand⟩

/-- Where the age is known, whatever else may be wrong, it is not the age. -/
theorem validate_ne_ageOverflow {maxAge : Nat} (h : s.maxAgeSeconds? = some maxAge) :
    (a.validate s plugin url fs).1 ≠ .error .ageOverflow := by
  rw [Application.validate, h]
  dsimp only
  split
  · simp
  · split
    · simp
    · exact checkPlugin_ne_ageOverflow

/-- The age is looked at when there is a directory for schemas. -/
theorem validate_eq_ageOverflow_iff : (a.validate s plugin url fs).1 = .error .ageOverflow ↔
    s.maxAgeSeconds? = none ∧ ∃ directory, s.cacheDirectory a.environment = .ok directory := by
  cases hage : s.maxAgeSeconds? with
  | some maxAge => simp [validate_ne_ageOverflow hage]
  | none =>
    cases hdirectory : s.cacheDirectory a.environment with
    | error f => simp [Application.validate, hdirectory]
    | ok directory => simp [Application.validate, hdirectory, hage]

theorem validate_of_ageOverflow (h : (a.validate s plugin url fs).1 = .error .ageOverflow) :
    (a.validate s plugin url fs).2 = fs := by
  obtain ⟨hage, directory, hdirectory⟩ := validate_eq_ageOverflow_iff.mp h
  simp [Application.validate, hdirectory, hage]

theorem execute_eq_ageOverflow_iff : (a.execute s c fs).1 = .error .ageOverflow ↔
    (∃ plugin url, c = .validate plugin url) ∧ s.maxAgeSeconds? = none ∧
      ∃ directory, s.cacheDirectory a.environment = .ok directory := by
  cases c with
  | install plugin mode given =>
    rw [Application.execute, Application.install]
    split
    · simp
    · split <;> simp
  | uninstall plugin given =>
    rw [Application.execute, Application.uninstall]
    split
    · simp
    · split <;> simp
  | validate plugin url =>
    rw [Application.execute, validate_eq_ageOverflow_iff]
    simp
  | package plugin strip sorted =>
    rw [Application.execute, Application.package]
    split <;> simp

theorem execute_of_ageOverflow (h : (a.execute s c fs).1 = .error .ageOverflow) :
    (a.execute s c fs).2 = fs := by
  obtain ⟨⟨plugin, url, rfl⟩, -⟩ := execute_eq_ageOverflow_iff.mp h
  exact validate_of_ageOverflow h

/-- **The age that accepted settings give.**  The days are below `2 ^ 63`, as a text can write
them.  In seconds they are a word, product by product, just up to `longest` days; beyond, every
validation ends with the overflow, before it has done anything, and no other command does.  There
has to be a directory for schemas, as there is for whoever has a home directory. -/
theorem age_of_load (h : load fs e explicit = .ok s) :
    s.schema.maxAgeDays < Nat.pow 2 63 ∧
    s.maxAgeSeconds? = ((times? s.schema.maxAgeDays 24).bind (times? · 60)).bind (times? · 60) ∧
    (s.schema.maxAgeDays ≤ longest → s.maxAgeSeconds? = some (s.schema.maxAgeDays * 86400)) ∧
    (longest < s.schema.maxAgeDays → s.maxAgeSeconds? = none) ∧
    ∀ (a : Application) (c : Command) (fs' : FileSystem),
      (∀ home, a.environment.home = some home →
        ∃ directory, s.cacheDirectory a.environment = .ok directory) ∧
      ((a.execute s c fs').1 = .error .ageOverflow ↔
        (∃ plugin url, c = .validate plugin url) ∧ longest < s.schema.maxAgeDays ∧
          ∃ directory, s.cacheDirectory a.environment = .ok directory) ∧
      ((a.execute s c fs').1 = .error .ageOverflow → (a.execute s c fs').2 = fs') := by
  have hnone : s.maxAgeSeconds? = none ↔ longest < s.schema.maxAgeDays := by
    rw [maxAgeSeconds?_eq]
    simp
  refine ⟨maxAgeDays_lt h, ?_, fun hdays => ?_, hnone.mpr, fun a c fs' =>
    ⟨fun _ hhome => exists_cacheDirectory hhome s, by rw [execute_eq_ageOverflow_iff, hnone],
      execute_of_ageOverflow⟩⟩
  · rw [times?_chain]
    rfl
  · rw [maxAgeSeconds?_eq, if_pos hdays]

def agedText (days : String) : String := "[schema]\nmax_age_days = " ++ days ++ "\n"

/-- A file with the greatest number of days that is a word in seconds, and one with a day more. -/
def agedWorld : FileSystem where
  entries :=
    [(["c"], .file 0o644 (Text.encode (agedText "213503982334601"))),
      (["d"], .file 0o644 (Text.encode (agedText "213503982334602")))]
  times := []
  clock := 0
  workingDirectory := []

/-- The defaults with a number of days. -/
def agedSettings (days : Nat) : Settings :=
  { chosen [] with
    schema :=
      ⟨"https://bitcartcc.com/schemas/plugin/1.1.0/plugin.schema.json", days, none⟩ }

/-- The greatest number of days is the age it says, and does not end a validation. -/
theorem age_of_load_longest :
    load agedWorld ⟨"/h"⟩ (some ⟨"/c"⟩) = .ok (agedSettings longest) ∧
    (agedSettings longest).maxAgeSeconds? = some 18446744073709526400 ∧
    (Application.visitor.execute (agedSettings longest) (.validate ⟨"/p"⟩ none) agedWorld).1 ≠
      .error .ageOverflow := by
  have hload : load agedWorld ⟨"/h"⟩ (some ⟨"/c"⟩) = .ok (agedSettings longest) :=
    eq_ok_of_toOption (by decide +kernel)
  obtain ⟨-, -, hage, -, hexecute⟩ := age_of_load hload
  refine ⟨hload, hage (Nat.le_refl _), fun h => ?_⟩
  exact absurd ((hexecute Application.visitor _ _).2.1.mp h).2.1 (Nat.lt_irrefl _)

/-- With a day more the settings are accepted, and a validation ends with the overflow. -/
theorem accepted_age_overflows :
    load agedWorld ⟨"/h"⟩ (some ⟨"/d"⟩) = .ok (agedSettings (longest + 1)) ∧
    (agedSettings (longest + 1)).maxAgeSeconds? = none ∧
    (Application.visitor.run ["--config", "/d", "validate", "/p"] agedWorld).1.exitCode = 101 :=
  ⟨eq_ok_of_toOption (by decide +kernel), by decide +kernel, by decide +kernel⟩

end PluginManager.Settings
