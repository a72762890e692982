import PluginManager.Application
import PluginManager.Proofs.FileSystem.Canonical
import PluginManager.Proofs.FileSystem.Spelling
import PluginManager.Proofs.Package.Needs

/-!
# The verdict on a plugin

A plugin passes three stages or fails in the first that it does not pass.  The decoding starts from
the canonical root, the search for required files from the root as it was spelled, and still the
verdict does not depend on the spelling.

* `Component.IsComplete`, `FirstMissing`: what the last stage looks for, and what it reports.
* `checkComponents_eq_error_iff`: **the first missing file** is reported, and nothing else.
* `Rejects`: what is reported of a plugin, stage by stage.
* `SameVerdict`: two verdicts that differ at most in how they spell the root.
* `validates_in_stages`: the stages in order, for every spelling of the root.
-/

namespace PluginManager

open FileSystem

variable {fs : FileSystem} {violations : Json → List Schema.Violation} {p q : Path}
  {document : Json} {m : Manifest} {k : Location} {e e' : Entry} {c : Component} {file : Path}
  {cs : List Component} {f : Failure}

/-! ## Required files -/

/-- Every file that the role of the component requires is a regular file below the component. -/
def Component.IsComplete (fs : FileSystem) (root : Path) (c : Component) : Prop :=
  ∀ file ∈ c.role.requiredFiles, fs.isFile ((c.source root).join file) = true

instance (fs : FileSystem) (root : Path) (c : Component) : Decidable (c.IsComplete fs root) :=
  inferInstanceAs (Decidable (∀ file ∈ c.role.requiredFiles,
    fs.isFile ((c.source root).join file) = true))

theorem Component.missingFile?_eq_none_iff : c.missingFile? fs p = none ↔ c.IsComplete fs p := by
  simp [missingFile?, IsComplete]

/-- The component is the first that lacks a file, and the file the first that it lacks. -/
structure FirstMissing (fs : FileSystem) (root : Path) (cs : List Component) (c : Component)
    (file : Path) : Prop where
  entries : ∃ before after, cs = before ++ c :: after ∧ ∀ d ∈ before, d.IsComplete fs root
  files : ∃ before after, c.role.requiredFiles = before ++ file :: after ∧
    ∀ f ∈ before, fs.isFile ((c.source root).join f) = true
  missing : fs.isFile ((c.source root).join file) = false

theorem FirstMissing.mem (h : FirstMissing fs p cs c file) :
    c ∈ cs ∧ file ∈ c.role.requiredFiles := by
  obtain ⟨before, after, hcs, -⟩ := h.entries
  obtain ⟨before', after', hfiles, -⟩ := h.files
  exact ⟨by simp [hcs], by simp [hfiles]⟩

theorem Component.missingFile?_eq_some_iff : c.missingFile? fs p = some file ↔
    (∃ before after, c.role.requiredFiles = before ++ file :: after ∧
      ∀ f ∈ before, fs.isFile ((c.source p).join f) = true) ∧
    fs.isFile ((c.source p).join file) = false := by
  rw [missingFile?, List.find?_eq_some_iff_append, and_comm]
  simp

theorem not_firstMissing_nil : ¬ FirstMissing fs p [] c file :=
  fun h => absurd h.mem.1 (by simp)

theorem firstMissing_cons_iff {d : Component} : FirstMissing fs p (d :: cs) c file ↔
    c = d ∧ d.missingFile? fs p = some file ∨
      d.IsComplete fs p ∧ FirstMissing fs p cs c file := by
  constructor
  · intro h
    obtain ⟨before, after, hcs, hbefore⟩ := h.entries
    cases before with
    | nil =>
      obtain ⟨rfl, -⟩ := List.cons_eq_cons.mp hcs
      exact .inl ⟨rfl, Component.missingFile?_eq_some_iff.mpr ⟨h.files, h.missing⟩⟩
    | cons b before =>
      obtain ⟨rfl, hrest⟩ := List.cons_eq_cons.mp hcs
      obtain ⟨hcomplete, hbefore⟩ := List.forall_mem_cons.mp hbefore
      exact .inr ⟨hcomplete, ⟨before, after, hrest, hbefore⟩, h.files, h.missing⟩
  · rintro (⟨rfl, hmissing⟩ | ⟨hcomplete, h⟩)
    · obtain ⟨hfiles, hno⟩ := Component.missingFile?_eq_some_iff.mp hmissing
      exact ⟨⟨[], cs, rfl, by simp⟩, hfiles, hno⟩
    · obtain ⟨before, after, rfl, hbefore⟩ := h.entries
      exact ⟨⟨d :: before, after, rfl, List.forall_mem_cons.mpr ⟨hcomplete, hbefore⟩⟩, h.files,
        h.missing⟩

/-- **The first missing file is reported.** -/
theorem checkComponents_eq_error_iff : checkComponents fs p cs = .error f ↔
    ∃ c file, FirstMissing fs p cs c file ∧
      f = .invalid (.missingFile c.role (c.source p) file) := by
  induction cs with
  | nil => simp [checkComponents, not_firstMissing_nil]
  | cons d rest ih =>
    simp only [checkComponents, firstMissing_cons_iff]
    cases hmissing : d.missingFile? fs p with
    | some file =>
      have hlacks : ¬ d.IsComplete fs p := by
        rw [← Component.missingFile?_eq_none_iff, hmissing]
        simp
      constructor
      · intro h
        exact ⟨d, file, .inl ⟨rfl, rfl⟩, (Except.error.inj h).symm⟩
      · rintro ⟨c, found, ⟨rfl, hfound⟩ | ⟨hcomplete, -⟩, rfl⟩
        · rw [Option.some.inj hfound]
        · exact absurd hcomplete hlacks
    | none =>
      have hcomplete := Component.missingFile?_eq_none_iff.mp hmissing
      simpa [hcomplete] using ih

/-! ## The stages -/

/-- What is reported: the violations of the schema if there are any, else why the document is no
manifest, else the first missing file. -/
inductive Rejects (fs : FileSystem) (violations : Json → List Schema.Violation) (root : Path)
    (document : Json) : Failure → Prop
  | schema : violations document ≠ [] →
      Rejects fs violations root document (.invalid (.schema (violations document)))
  | decoding {f : Failure} : violations document = [] →
      Manifest.ofDocument fs root document = .error f → Rejects fs violations root document f
  | incomplete {m : Manifest} {c : Component} {file : Path} : violations document = [] →
      Manifest.ofDocument fs root document = .ok m → FirstMissing fs root m.installs c file →
      Rejects fs violations root document (.invalid (.missingFile c.role (c.source root) file))

theorem validateWith_of_violations (h : violations document ≠ []) :
    validateWith fs violations p document = .error (.invalid (.schema (violations document))) := by
  rw [validateWith]
  split
  · rename_i hnone
    exact absurd hnone h
  · rfl

theorem validateWith_of_error (h : violations document = [])
    (hm : Manifest.ofDocument fs p document = .error f) :
    validateWith fs violations p document = .error f := by
  rw [validateWith, h]
  simp only [hm]

theorem validateWith_of_ok (h : violations document = [])
    (hm : Manifest.ofDocument fs p document = .ok m) :
    validateWith fs violations p document =
      (checkComponents fs p m.installs).map fun () => m := by
  rw [validateWith, h]
  simp only [hm]

theorem validateWith_eq_ok_iff : validateWith fs violations p document = .ok m ↔
    violations document = [] ∧ Manifest.ofDocument fs p document = .ok m ∧
      ∀ c ∈ m.installs, c.IsComplete fs p := by
  by_cases hv : violations document = []
  · cases hm : Manifest.ofDocument fs p document with
    | error cause => simp [validateWith_of_error hv hm]
    | ok m' =>
      rw [validateWith_of_ok hv hm]
      cases hcheck : checkComponents fs p m'.installs with
      | ok u =>
        have hcomplete := checkComponents_eq_ok_iff.mp hcheck
        constructor
        · intro h
          obtain rfl : m' = m := Except.ok.inj h
          exact ⟨hv, rfl, hcomplete⟩
        · rintro ⟨-, hm', -⟩
          obtain rfl := Except.ok.inj hm'
          rfl
      | error cause =>
        constructor
        · intro h
          cases h
        · rintro ⟨-, hm', hcomplete⟩
          obtain rfl := Except.ok.inj hm'
          rw [checkComponents_eq_ok_iff.mpr hcomplete] at hcheck
          cases hcheck
  · simp [validateWith_of_violations hv, hv]

theorem validateWith_eq_error_iff : validateWith fs violations p document = .error f ↔
    Rejects fs violations p document f := by
  constructor
  · intro h
    by_cases hv : violations document = []
    · cases hm : Manifest.ofDocument fs p document with
      | error cause =>
        rw [validateWith_of_error hv hm] at h
        cases h
        exact .decoding hv hm
      | ok m =>
        rw [validateWith_of_ok hv hm] at h
        cases hcheck : checkComponents fs p m.installs with
        | ok u =>
          rw [hcheck] at h
          cases h
        | error cause =>
          rw [hcheck] at h
          cases h
          obtain ⟨c, file, hfirst, rfl⟩ := checkComponents_eq_error_iff.mp hcheck
          exact .incomplete hv hm hfirst
    · rw [validateWith_of_violations hv] at h
      cases h
      exact .schema hv
  · intro h
    cases h with
    | schema hv => exact validateWith_of_violations hv
    | decoding hv hm => exact validateWith_of_error hv hm
    | incomplete hv hm hfirst =>
      rw [validateWith_of_ok hv hm, checkComponents_eq_error_iff.mpr ⟨_, _, hfirst, rfl⟩]
      rfl

/-! ## Spellings of the root -/

/-- The path is too long to be followed, or there are too many links on its way. -/
def HitsLimit (fs : FileSystem) (p : Path) : Prop :=
  pathLimit ≤ p.text.utf8ByteSize ∨ fs.find true p = .error .tooManyLinks

/-- The verdicts are the same, but for the spelling of a component that lacks a file. -/
inductive SameVerdict (p q : Path) : Except Failure Manifest → Except Failure Manifest → Prop
  | same (x : Except Failure Manifest) : SameVerdict p q x x
  | missing (c : Component) (file : Path) :
      SameVerdict p q (.error (.invalid (.missingFile c.role (c.source p) file)))
        (.error (.invalid (.missingFile c.role (c.source q) file)))

/-- Of the root only its location counts. -/
theorem Manifest.ofDocument_eq_of_find (hp : fs.find true p = .ok (k, e))
    (hq : fs.find true q = .ok (k, e')) : ofDocument fs q document = ofDocument fs p document := by
  rw [ofDocument, ofDocument, hp, hq]

/-- Where there is a component the root is a directory. -/
theorem Manifest.isDirectoryAt_of_ofDocument (hwf : fs.WellFormed)
    (hp : fs.find true p = .ok (k, e)) (hm : ofDocument fs p document = .ok m)
    (hc : c ∈ m.installs) : fs.isDirectoryAt k = true := by
  obtain ⟨-, k', e'', hroot, hsound⟩ := exists_of_ofDocument hm
  obtain ⟨rfl, -⟩ := Prod.mk.inj (Except.ok.inj (hp.symm.trans hroot))
  obtain ⟨o, mode, hfind, hwithin⟩ := (hsound c hc).resolves
  obtain ⟨r, rfl⟩ := isWithin_iff.mp hwithin
  by_cases hr : r = []
  · rw [hr, List.append_nil] at hfind
    exact isDirectoryAt_of_lookup (lookup_of_find hfind)
  · exact hwf.isDirectoryAt hr (by rw [lookup_of_find hfind]; simp)

/-- Files below components are the same behind both spellings. -/
theorem isFile_eq_of_find (hwf : fs.WellFormed) (hp : fs.find true p = .ok (k, e))
    (hq : fs.find true q = .ok (k, e')) (hm : Manifest.ofDocument fs p document = .ok m)
    (hc : c ∈ m.installs) (hfile : file ∈ c.role.requiredFiles)
    (hlimit : ¬ HitsLimit fs ((c.source p).join file))
    (hlimit' : ¬ HitsLimit fs ((c.source q).join file)) :
    fs.isFile ((c.source q).join file) = fs.isFile ((c.source p).join file) := by
  obtain ⟨hdown, hway⟩ := Manifest.goesDown_of_ofDocument hp hm hc
  obtain ⟨hfdown, hfway, -⟩ := Role.goesDown_of_mem_requiredFiles hfile
  have hneed := Component.goesDown_need hdown hfdown
  have hsteps : steps (c.need file) ≠ [] := by
    intro hnil
    have hneedway := c.way_need hfdown
    rw [Path.way, hnil] at hneedway
    exact hfway (List.append_eq_nil_iff.mp hneedway.symm).2
  rw [Component.source_join hdown hway hfdown] at hlimit hlimit' ⊢
  rw [Component.source_join hdown hway hfdown]
  rw [HitsLimit, not_or, Nat.not_le] at hlimit hlimit'
  have hk := Manifest.isDirectoryAt_of_ofDocument hwf hp hm hc
  obtain ⟨n, hrooted⟩ := exists_rooted_of_find hp hk
  obtain ⟨n', hrooted'⟩ := exists_rooted_of_find hq hk
  rcases hrooted.find_join hrooted' (usable_of_find hp) (usable_of_find hq) hneed.relative hsteps
    hlimit.1 hlimit'.1 with heq | ⟨-, hmany | hmany⟩
  · rw [isFile, isFile, heq]
  · exact absurd hmany hlimit.2
  · exact absurd hmany hlimit'.2

theorem FirstMissing.congr
    (hsame : ∀ c ∈ cs, ∀ file ∈ c.role.requiredFiles,
      fs.isFile ((c.source q).join file) = fs.isFile ((c.source p).join file))
    (h : FirstMissing fs p cs c file) : FirstMissing fs q cs c file := by
  obtain ⟨hc, hfile⟩ := h.mem
  obtain ⟨before, after, hcs, hbefore⟩ := h.entries
  obtain ⟨before', after', hfiles, hbefore'⟩ := h.files
  refine ⟨⟨before, after, hcs, fun d hd f hf => ?_⟩, ⟨before', after', hfiles, fun f hf => ?_⟩, ?_⟩
  · rw [hsame d (by simp [hcs, hd]) f hf]
    exact hbefore d hd f hf
  · rw [hsame c hc f (by simp [hfiles, hf])]
    exact hbefore' f hf
  · rw [hsame c hc file hfile]
    exact h.missing

theorem sameVerdict_of_find (hwf : fs.WellFormed) (hp : fs.find true p = .ok (k, e))
    (hq : fs.find true q = .ok (k, e'))
    (hlimits : ∀ m, Manifest.ofDocument fs p document = .ok m → ∀ c ∈ m.installs,
      ∀ file ∈ c.role.requiredFiles, ¬ HitsLimit fs ((c.source p).join file) ∧
        ¬ HitsLimit fs ((c.source q).join file)) :
    SameVerdict p q (validateWith fs violations p document)
      (validateWith fs violations q document) := by
  have hdocument : Manifest.ofDocument fs q document = Manifest.ofDocument fs p document :=
    Manifest.ofDocument_eq_of_find hp hq
  by_cases hv : violations document = []
  · cases hm : Manifest.ofDocument fs p document with
    | error cause =>
      rw [validateWith_of_error hv hm, validateWith_of_error hv (hdocument.trans hm)]
      exact .same _
    | ok m =>
      have hsame : ∀ c ∈ m.installs, ∀ file ∈ c.role.requiredFiles,
          fs.isFile ((c.source q).join file) = fs.isFile ((c.source p).join file) := by
        intro c hc file hfile
        obtain ⟨hlimit, hlimit'⟩ := hlimits m hm c hc file hfile
        exact isFile_eq_of_find hwf hp hq hm hc hfile hlimit hlimit'
      rw [validateWith_of_ok hv hm, validateWith_of_ok hv (hdocument.trans hm)]
      cases hcheck : checkComponents fs p m.installs with
      | ok u =>
        have hcheck' : checkComponents fs q m.installs = .ok () := by
          refine checkComponents_eq_ok_iff.mpr fun c hc file hfile => ?_
          rw [hsame c hc file hfile]
          exact checkComponents_eq_ok_iff.mp hcheck c hc file hfile
        rw [hcheck']
        exact .same _
      | error cause =>
        obtain ⟨c, file, hfirst, rfl⟩ := checkComponents_eq_error_iff.mp hcheck
        rw [checkComponents_eq_error_iff.mpr ⟨c, file, hfirst.congr hsame, rfl⟩]
        exact .missing c file
  · rw [validateWith_of_violations hv, validateWith_of_violations hv]
    exact .same _

/-! ## All of it -/

/-- The command that validates a plugin leaves what preparing the schema has left. -/
theorem Application.validate_leaves (a : Application) (s : Settings) (plugin : Path)
    (url : Option String) (fs : FileSystem) {maxAge : Nat} {directory : Path}
    (h : s.maxAgeSeconds? = some maxAge)
    (hdirectory : s.cacheDirectory a.environment = .ok directory) :
    (a.validate s plugin url fs).2 =
      ((Cache.prepare maxAge (url.getD s.schema.url)).run
        (Cache.CacheDirectory.store ⟨directory, a.process⟩) a.fetch fs).store := by
  rw [Application.validate, hdirectory, h]
  simp only
  split <;> rfl

/-- **A plugin is validated in stages.**  It is accepted when the schema reports nothing, the
document is its manifest, and every component ships the files of its role; otherwise the first stage
that it does not pass tells why.  Every spelling that leads to the same root, over whatever links,
gets the same verdict, as long as no limit on paths is hit.  Nothing is changed: the verdict is read
off the file system that preparing the schema has left, and that is also what the command leaves;
without a directory for schemas it leaves all as it was. -/
theorem validates_in_stages (fs : FileSystem) (violations : Json → List Schema.Violation)
    (p : Path) (document : Json) :
    (∀ m, validateWith fs violations p document = .ok m ↔
      violations document = [] ∧ Manifest.ofDocument fs p document = .ok m ∧
        ∀ c ∈ m.installs, c.IsComplete fs p) ∧
    (∀ f, validateWith fs violations p document = .error f ↔ Rejects fs violations p document f) ∧
    (fs.WellFormed → ∀ q k e e', fs.find true p = .ok (k, e) → fs.find true q = .ok (k, e') →
      (∀ m, Manifest.ofDocument fs p document = .ok m → ∀ c ∈ m.installs,
        ∀ file ∈ c.role.requiredFiles, ¬ HitsLimit fs ((c.source p).join file) ∧
          ¬ HitsLimit fs ((c.source q).join file)) →
      SameVerdict p q (validateWith fs violations p document)
        (validateWith fs violations q document)) ∧
    ∀ (a : Application) (s : Settings) (url : Option String) (maxAge : Nat),
      s.maxAgeSeconds? = some maxAge →
        (∀ directory, s.cacheDirectory a.environment = .ok directory →
          (a.validate s p url fs).2 =
            ((Cache.prepare maxAge (url.getD s.schema.url)).run
              (Cache.CacheDirectory.store ⟨directory, a.process⟩) a.fetch fs).store) ∧
        ∀ cause, s.cacheDirectory a.environment = .error cause →
          (a.validate s p url fs).2 = fs :=
  ⟨fun _ => validateWith_eq_ok_iff, fun _ => validateWith_eq_error_iff,
    fun hwf _ _ _ _ hp hq hlimits => sameVerdict_of_find hwf hp hq hlimits,
    fun a s url _ h => ⟨fun _ hdirectory => a.validate_leaves s p url fs h hdirectory,
      fun _ herror => by rw [Application.validate, herror]⟩⟩

/-- A plugin at `/p` that a link at `/q` leads to: a backend component, and a store component that
lacks two of its files. -/
def spelledWorld : FileSystem where
  entries :=
    [(["p"], .directory 0o755), (["p", "x"], .directory 0o755),
      (["p", "x", "plugin.py"], .file 0o644 []), (["p", "y"], .directory 0o755),
      (["p", "y", "index.js"], .file 0o644 []), (["q"], .link ⟨"p"⟩)]
  times := []
  clock := 0
  workingDirectory := []

def spelledDocument (installs : List Json) : Json :=
  .object [("name", .string "demo"), ("author", .string "acme"), ("installs", .array installs)]

def backendListing : Json := .array [.string "x", .string "backend"]

def storeListing : Json := .array [.string "y", .string "store"]

theorem not_hitsLimit_of_find (h : fs.find true p = .ok (k, e)) : ¬ HitsLimit fs p := by
  rintro (hlong | hmany)
  · exact absurd (usable_of_find h).short (Nat.not_lt.mpr hlong)
  · rw [h] at hmany
    cases hmany

/-- The backend component alone is accepted by either path; with the other one it is the second file
of the second entry that is missing. -/
theorem validates_in_stages_spelledWorld :
    validateWith spelledWorld (fun _ => []) ⟨"q"⟩ (spelledDocument [backendListing]) =
        .ok ⟨"demo", "acme", none, [⟨"x", .backend, "x"⟩]⟩ ∧
      validateWith spelledWorld (fun _ => []) ⟨"p"⟩
          (spelledDocument [backendListing, storeListing]) =
        .error (.invalid (.missingFile .store ⟨"p/y"⟩ ⟨"package.json"⟩)) := by
  have hwf : spelledWorld.WellFormed := wellFormed_of_keys (by decide +kernel) (by decide +kernel)
  have hp : spelledWorld.find true ⟨"p"⟩ = .ok (["p"], .directory 0o755) := by rfl
  have hq : spelledWorld.find true ⟨"q"⟩ = .ok (["p"], .directory 0o755) := by rfl
  constructor
  · have hm : Manifest.ofDocument spelledWorld ⟨"p"⟩ (spelledDocument [backendListing]) =
        .ok ⟨"demo", "acme", none, [⟨"x", .backend, "x"⟩]⟩ := by rfl
    have hfile : spelledWorld.find true ⟨"p/x/plugin.py"⟩ =
        .ok (["p", "x", "plugin.py"], .file 0o644 []) := by rfl
    have hfile' : spelledWorld.find true ⟨"q/x/plugin.py"⟩ =
        .ok (["p", "x", "plugin.py"], .file 0o644 []) := by rfl
    obtain ⟨haccepts, -, hspelling, -⟩ := validates_in_stages spelledWorld (fun _ => []) ⟨"p"⟩
      (spelledDocument [backendListing])
    have hverdict := hspelling hwf ⟨"q"⟩ ["p"] _ _ hp hq fun m hm' c hc file hrequired => by
      obtain rfl := Except.ok.inj (hm.symm.trans hm')
      obtain rfl := List.mem_singleton.mp hc
      obtain rfl := List.mem_singleton.mp hrequired
      exact ⟨not_hitsLimit_of_find hfile, not_hitsLimit_of_find hfile'⟩
    rw [(haccepts _).mpr ⟨rfl, hm, by decide +kernel⟩] at hverdict
    generalize hresult : validateWith spelledWorld (fun _ => []) ⟨"q"⟩ _ = result at hverdict
    cases hverdict
    rfl
  · have hm : Manifest.ofDocument spelledWorld ⟨"p"⟩
        (spelledDocument [backendListing, storeListing]) =
          .ok ⟨"demo", "acme", none, [⟨"x", .backend, "x"⟩, ⟨"y", .store, "y"⟩]⟩ := by rfl
    have hfirst : FirstMissing spelledWorld ⟨"p"⟩ [⟨"x", .backend, "x"⟩, ⟨"y", .store, "y"⟩]
        ⟨"y", .store, "y"⟩ ⟨"package.json"⟩ :=
      ⟨⟨[⟨"x", .backend, "x"⟩], [], rfl, by decide +kernel⟩,
        ⟨[⟨"index.js"⟩], [⟨"config/index.js"⟩], rfl, by decide +kernel⟩, by decide +kernel⟩
    exact ((validates_in_stages spelledWorld (fun _ => []) ⟨"p"⟩ _).2.1 _).mpr
      (.incomplete rfl hm hfirst)

end PluginManager
