import PluginManager.Proofs.Package.Needs

/-!
# Unpacked archives

An archive that holds what the manifest needs can be unpacked anywhere: there the manifest is read
as it was, and its components are complete.

* `Unpacked`: the members as files of another file system.
* `Complete`: the archive holds what the manifest needs, a file of every component included.
* `accepted_of_unpacked`: **the checks pass again**.
* `package_keeps`: which needs are archived, and what that is good for.
-/

namespace PluginManager.Package

open FileSystem (Route Usable nameLimit)

variable {fs fs' g : FileSystem} {k u : Location} {root root' : Path} {options : PackageOptions}
  {r rest : List String} {file : Path} {m : Member} {members : List Member} {manifest : Manifest}
  {packed : Packed} {e : Entry} {c : Component}

/-- The members lie as files below the directory `u`, to which the path leads. -/
structure Unpacked (g : FileSystem) (p : Path) (u : Location) (members : List Member) : Prop where
  wellFormed : g.WellFormed
  leads : ∃ mode, g.find true p = .ok (u, .directory mode)
  canonical : ∃ mode, g.find true (.ofLocation u) = .ok (u, .directory mode)
  member : ∀ m ∈ members,
    ∃ mode, g.lookup (u ++ (Path.mk m.name).pieces) = some (.file mode m.content)

/-- The paths that are checked are not too long where the archive is unpacked. -/
structure Followable (p : Path) (u : Location) (manifest : Manifest) : Prop where
  manifestFile : Usable (manifestPath p)
  source : ∀ c ∈ manifest.installs, Usable (c.source (.ofLocation u))
  file : ∀ c ∈ manifest.installs, ∀ file ∈ c.role.requiredFiles, Usable ((c.source p).join file)

namespace Unpacked

variable (h : Unpacked g root' u members)
include h

theorem isDirectoryAt : g.isDirectoryAt u = true := by
  obtain ⟨mode, hfind⟩ := h.leads
  exact FileSystem.isDirectoryAt_of_lookup (FileSystem.lookup_of_find hfind)

/-- Where a member lies there are directories. -/
theorem isDirectoryAt_of_member (hm : m ∈ members) (hpieces : (Path.mk m.name).pieces = r ++ rest)
    (hrest : rest ≠ []) : ∀ pre, pre <+: r → g.isDirectoryAt (u ++ pre) = true := by
  rintro pre ⟨t, rfl⟩
  obtain ⟨mode, he⟩ := h.member m hm
  rw [hpieces, List.append_assoc, ← List.append_assoc] at he
  have hne : t ++ rest ≠ [] := by simp [hrest]
  exact h.wellFormed.isDirectoryAt hne (by rw [he]; simp)

theorem readDocument_eq {document : Json} (hm : m ∈ members) (hname : m.name = manifestName)
    (hu : Usable (manifestPath root')) (hread : fs.readFile (manifestPath root) = .ok m.content)
    (hdocument : readDocument fs root = .ok document) : readDocument g root' = .ok document := by
  obtain ⟨mode, he⟩ := h.member m hm
  obtain ⟨mode', hfind⟩ := h.leads
  have hpieces : (Path.mk m.name).pieces = [manifestName] := by
    rw [hname]
    decide
  rw [hpieces] at he
  have hthere : g.find true (root'.descend [manifestName]) =
      .ok (u ++ [manifestName], .file mode m.content) :=
    (FileSystem.route_of_find hfind).find_descend h.isDirectoryAt (by decide) (by simp)
      (FileSystem.clear_singleton h.isDirectoryAt manifestName) ⟨hu, by decide⟩ he (.inr rfl)
  rw [readDocument, hread] at hdocument
  rw [readDocument, FileSystem.readFile, manifestPath, Path.child_eq_descend, hthere]
  cases hparse : Json.parse m.content with
  | error fault => simp [hparse] at hdocument
  | ok value => simpa [hparse] using hdocument

/-- A component whose directory has a member in it is a directory again. -/
theorem find_source (hm : m ∈ members) (hdown : (Path.mk c.path).GoesDown)
    (hshort : ∀ n ∈ (Path.mk c.path).way, n.utf8ByteSize ≤ nameLimit)
    (hpieces : (Path.mk m.name).pieces = (Path.mk c.path).way ++ rest) (hrest : rest ≠ [])
    (hu : Usable (c.source (.ofLocation u))) : ∃ mode,
      g.find true (c.source (.ofLocation u)) =
        .ok (u ++ (Path.mk c.path).way, .directory mode) := by
  obtain ⟨mode, hfind⟩ := h.canonical
  have hdirs := h.isDirectoryAt_of_member hm hpieces hrest
  have hroute := (FileSystem.route_of_find hfind).join h.isDirectoryAt hdown hshort hdirs
  obtain ⟨mode, hmode⟩ := FileSystem.isDirectoryAt_iff.mp (hdirs _ (List.prefix_refl _))
  exact ⟨mode, hroute.find_directory hu hmode⟩

/-- A required file that is a member is there again. -/
theorem isFile_of_member (hm : m ∈ members) (hdown : (Path.mk c.path).GoesDown)
    (hfile : file ∈ c.role.requiredFiles)
    (hshort : ∀ n ∈ (c.need file).way, n.utf8ByteSize ≤ nameLimit)
    (hname : m.name = "/".intercalate (c.need file).way)
    (hu : Usable ((c.source root').join file)) :
    g.isFile ((c.source root').join file) = true := by
  obtain ⟨hfileDown, hne, htext⟩ := Role.goesDown_of_mem_requiredFiles hfile
  have hneed := c.way_need hfileDown
  have hpieces : (Path.mk m.name).pieces = (Path.mk c.path).way ++ file.way := by
    rw [hname, Component.pieces_need hdown hfile]
  have hdirs := h.isDirectoryAt_of_member hm hpieces hne
  obtain ⟨mode, hfind⟩ := h.leads
  rw [hneed] at hshort
  have hroute := (FileSystem.route_of_find hfind).join h.isDirectoryAt hdown
    (fun n hn => hshort n (List.mem_append_left _ hn)) hdirs
  obtain ⟨mode, he⟩ := h.member m hm
  rw [hpieces, ← List.append_assoc] at he
  have hjoin : (c.source root').join file = (c.source root').descend file.way := by
    rw [Path.descend_eq_join _ hfileDown.isName hne (by rw [← htext]; exact hfileDown.relative),
      ← htext]
  rw [hjoin] at hu ⊢
  exact FileSystem.isFile_iff.mpr ⟨_, mode, m.content,
    hroute.find_descend (hdirs _ (List.prefix_refl _)) hfileDown.isName hne
      (h.wellFormed.clear (by rw [he]; simp))
      ⟨hu, fun n hn => hshort n (List.mem_append_right _ hn)⟩ he (.inr rfl)⟩

end Unpacked

/-! ## Complete archives -/

/-- The archive holds what the manifest needs, and a file of every component. -/
structure Complete (fs : FileSystem) (root : Path) (manifest : Manifest) (members : List Member) :
    Prop where
  manifestFile : ∃ m ∈ members, m.name = manifestName ∧
    fs.readFile (manifestPath root) = .ok m.content
  file : ∀ c ∈ manifest.installs, ∀ file ∈ c.role.requiredFiles,
    ∃ m ∈ members, m.name = "/".intercalate (c.need file).way
  directory : ∀ c ∈ manifest.installs, ∃ m ∈ members, ∃ rest,
    (Path.mk m.name).pieces = (Path.mk c.path).way ++ rest ∧ rest ≠ []

/-- **The checks pass again** wherever a complete archive is unpacked. -/
theorem accepted_of_unpacked (hm : Manifest.read fs root = .ok manifest)
    (hcheck : checkComponents fs root manifest.installs = .ok ())
    (hroot : fs.find true root = .ok (k, e)) (hcomplete : Complete fs root manifest members)
    (hunpacked : Unpacked g root' u members) (hfollow : Followable root' u manifest) :
    Manifest.read g root' = .ok manifest ∧
      checkComponents g root' manifest.installs = .ok () := by
  obtain ⟨document, d, hdocument, hsupplied, hvalid, hbecomes⟩ :=
    Manifest.exists_draft_of_read hroot hm
  constructor
  · obtain ⟨m, hmem, hname, hread⟩ := hcomplete.manifestFile
    obtain ⟨mode, hleads⟩ := hunpacked.leads
    rw [Manifest.read, hunpacked.readDocument_eq hmem hname hfollow.manifestFile hread hdocument]
    refine (Manifest.ofDocument_eq_ok_iff hleads).mpr ⟨d, hsupplied, ⟨hvalid.name, hvalid.author,
      fun l hl => ?_⟩, hbecomes⟩
    have hl' := hvalid.installs l hl
    obtain ⟨c, hc, hlc⟩ := exists_mem_of_forall₂ hbecomes.installs hl
    obtain ⟨m, hmem, rest, hpieces, hrest⟩ := hcomplete.directory c hc
    obtain ⟨l₀, mode₀, hfind, -⟩ := hl'.resolves
    obtain ⟨mode', hfind'⟩ := hunpacked.find_source hmem (by rw [hlc.path]; exact hl'.goesDown)
      (by rw [hlc.path]; exact FileSystem.short_of_find hl'.goesDown hfind) hpieces hrest
      (hfollow.source c hc)
    rw [Component.source, hlc.path] at hfind'
    exact ⟨hl'.role, hl'.relative, hl'.no_parent, hl'.named, _, mode', hfind',
      List.prefix_append u _⟩
  · rw [checkComponents_eq_ok_iff] at hcheck ⊢
    intro c hc file hfile
    obtain ⟨hdown, hway⟩ := Manifest.goesDown_of_read hroot hm hc
    obtain ⟨hfileDown, -, -⟩ := Role.goesDown_of_mem_requiredFiles hfile
    obtain ⟨m, hmem, hname⟩ := hcomplete.file c hc file hfile
    have hwas := hcheck c hc file hfile
    rw [Component.source_join hdown hway hfileDown] at hwas
    obtain ⟨l, mode, content, hfind⟩ := FileSystem.isFile_iff.mp hwas
    exact hunpacked.isFile_of_member hmem hdown hfile
      (FileSystem.short_of_find (Component.goesDown_need hdown hfileDown) hfind) hname
      (hfollow.file c hc file hfile)

/-! ## Archives of plugins -/

/-- **Packaging keeps what the manifest needs** where nothing keeps it out of the archive.  When
this goes for all of it, and there is a file of every component without required files, the checks
pass again wherever the archive is unpacked. -/
theorem package_keeps {settings : Settings} (hwf : fs.WellFormed)
    (hdash : FileSystem.isDash root = false) (hdefaults : Settings.ofUser [] = .ok settings)
    (hfiles : options.stripFiles = settings.package.stripFiles)
    (hm : Manifest.read fs root = .ok manifest)
    (hcheck : checkComponents fs root manifest.installs = .ok ())
    (hroot : fs.find true root = .ok (k, e)) (h : package root options fs = .ok packed fs') :
    ((∀ target, fs.lookup (k ++ [manifestName]) = some (.link target) →
        (stripped root options fs).isFile (manifestPath root) = true) →
      archiveName manifest.name options ≠ manifestName →
      manifestName ∈ packed.members.map Member.name) ∧
    (∀ c ∈ manifest.installs, ∀ file ∈ c.role.requiredFiles,
      Kept fs k root options (c.need file).way →
      "/".intercalate (c.need file).way ∈ packed.members.map Member.name) ∧
    ((∀ target, fs.lookup (k ++ [manifestName]) = some (.link target) →
        (stripped root options fs).isFile (manifestPath root) = true) →
      archiveName manifest.name options ≠ manifestName →
      Unclaimed fs k root (archiveName manifest.name options) →
      (∀ c ∈ manifest.installs, ∀ file ∈ c.role.requiredFiles,
        Kept fs k root options (c.need file).way) →
      (∀ c ∈ manifest.installs, c.role.requiredFiles = [] → ∃ m ∈ packed.members, ∃ rest,
        (Path.mk m.name).pieces = (Path.mk c.path).way ++ rest ∧ rest ≠ []) →
      ∀ g root' u, Unpacked g root' u packed.members → Followable root' u manifest →
        Manifest.read g root' = .ok manifest ∧
          checkComponents g root' manifest.installs = .ok ()) := by
  have hmanifest := exists_member_manifest hwf hdash hdefaults hfiles hm hroot h
  have hfile : ∀ c ∈ manifest.installs, ∀ file ∈ c.role.requiredFiles,
      Kept fs k root options (c.need file).way →
      ∃ m ∈ packed.members, m.name = "/".intercalate (c.need file).way := by
    intro c hc file hfile hkept
    exact exists_member_file hwf hdash hdefaults hfiles hm hroot h hc hfile
      (checkComponents_eq_ok_iff.mp hcheck c hc file hfile) hkept
  refine ⟨fun hlink hne => ?_, fun c hc file hf hkept => ?_, ?_⟩
  · obtain ⟨m, hmem, hname, -⟩ := hmanifest hlink hne
    exact List.mem_map.mpr ⟨m, hmem, hname⟩
  · obtain ⟨m, hmem, hname⟩ := hfile c hc file hf hkept
    exact List.mem_map.mpr ⟨m, hmem, hname⟩
  · intro hlink hne hplace hkept hbare g root' u hunpacked hfollow
    obtain ⟨m, hmem, hname, hread⟩ := hmanifest hlink hne
    refine accepted_of_unpacked hm hcheck hroot ⟨⟨m, hmem, hname, hread hplace⟩,
      fun c hc file hf => hfile c hc file hf (hkept c hc file hf), fun c hc => ?_⟩ hunpacked hfollow
    by_cases hbarely : c.role.requiredFiles = []
    · exact hbare c hc hbarely
    · -- A required file lies in the directory of its component.
      obtain ⟨file, hf⟩ := List.exists_mem_of_ne_nil _ hbarely
      obtain ⟨-, hne', -⟩ := Role.goesDown_of_mem_requiredFiles hf
      obtain ⟨hdown, -⟩ := Manifest.goesDown_of_read hroot hm hc
      obtain ⟨m, hmem, hname⟩ := hfile c hc file hf (hkept c hc file hf)
      exact ⟨m, hmem, file.way, by rw [hname, Component.pieces_need hdown hf], hne'⟩

/-- The plugin with artifacts, unpacked in another place. -/
def tidyPlugin : FileSystem where
  entries :=
    [(["q"], .directory 0o755), (["q", "x"], .directory 0o755),
      (["q", "manifest.json"], .file 0o644
        (Text.encode "[\"demo\",\"acme\",null,[[\"x\",\"backend\"]]]")),
      (["q", "x", "again.py"], .file 0o700 [1]), (["q", "x", "plugin.py"], .file 0o700 [1])]
  times := []
  clock := 0
  workingDirectory := []

theorem unpacked_tidyPlugin : Unpacked tidyPlugin ⟨"q"⟩ ["q"] messyArchive := by
  refine ⟨FileSystem.wellFormed_of_keys (by decide +kernel) (by decide +kernel), ⟨0o755, rfl⟩,
    ⟨0o755, rfl⟩, fun m hm => ?_⟩
  simp only [messyArchive, List.mem_cons, List.not_mem_nil, or_false] at hm
  rcases hm with rfl | rfl | rfl
  · exact ⟨0o644, rfl⟩
  · exact ⟨0o700, rfl⟩
  · exact ⟨0o700, rfl⟩

theorem package_keeps_messyPlugin :
    ∃ packed fs', package ⟨"p"⟩ messyOptions (messyPlugin "p") = .ok packed fs' ∧
      manifestName ∈ packed.members.map Member.name ∧
      "x/plugin.py" ∈ packed.members.map Member.name ∧
      Manifest.read tidyPlugin ⟨"q"⟩ = .ok messyManifest ∧
      checkComponents tidyPlugin ⟨"q"⟩ messyManifest.installs = .ok () := by
  have hwf : (messyPlugin "p").WellFormed :=
    FileSystem.wellFormed_of_keys (by decide +kernel) (by decide +kernel)
  obtain ⟨settings, hdefaults, hfiles⟩ : ∃ settings, Settings.ofUser [] = .ok settings ∧
      messyOptions.stripFiles = settings.package.stripFiles := by
    have hsome : (Settings.ofUser []).toOption.isSome = true := by decide +kernel
    cases hdefaults : Settings.ofUser [] with
    | error fault => simp [hdefaults, Except.toOption] at hsome
    | ok settings => exact ⟨settings, rfl, (Settings.stripFiles_of_ofUser_nil hdefaults).symm⟩
  have hread : Manifest.read (messyPlugin "p") ⟨"p"⟩ = .ok messyManifest :=
    eq_ok_of_toOption (by decide +kernel)
  have hcheck : checkComponents (messyPlugin "p") ⟨"p"⟩ messyManifest.installs = .ok () :=
    eq_ok_of_toOption (by decide +kernel)
  have hroot : (messyPlugin "p").find true ⟨"p"⟩ = .ok (["p"], .directory 0o755) := by rfl
  obtain ⟨packed, fs', h, hmembers⟩ := exists_packed
    (by decide +kernel : packedMembers ⟨"p"⟩ messyOptions (messyPlugin "p") = some messyArchive)
  have hlink : ∀ target, (messyPlugin "p").lookup (["p"] ++ [manifestName]) = some (.link target) →
      (stripped ⟨"p"⟩ messyOptions (messyPlugin "p")).isFile (manifestPath ⟨"p"⟩) = true := by
    intro target htarget
    exact absurd (Option.some.inj htarget) (by simp)
  have hkept : ∀ c ∈ messyManifest.installs, ∀ file ∈ c.role.requiredFiles,
      Kept (messyPlugin "p") ["p"] ⟨"p"⟩ messyOptions (c.need file).way := by
    intro c hc file hfile
    obtain rfl := List.mem_singleton.mp hc
    obtain rfl := List.mem_singleton.mp hfile
    have hway : (Component.need ⟨"x", .backend, "x"⟩ ⟨"plugin.py"⟩).way = ["x", "plugin.py"] := by
      decide +kernel
    rw [hway]
    refine ⟨(hwf.clear (by decide +kernel)).noLinks, by decide, fun _ => by decide, ?_⟩
    intro target htarget
    exact absurd (Option.some.inj htarget) (by simp)
  obtain ⟨hmanifest, hneeds, hagain⟩ := package_keeps hwf (by decide +kernel) hdefaults hfiles hread
    hcheck hroot h
  have hbare : ∀ c ∈ messyManifest.installs, c.role.requiredFiles ≠ [] := by decide
  obtain ⟨hread', hcheck'⟩ := hagain hlink (by decide) (unclaimed_messyPlugin (by decide)) hkept
    (fun c hc hnil => absurd hnil (hbare c hc)) tidyPlugin ⟨"q"⟩ ["q"]
    (hmembers ▸ unpacked_tidyPlugin) ⟨by decide, by decide, by decide⟩
  exact ⟨packed, fs', h, hmanifest hlink (by decide), hneeds _ List.mem_cons_self ⟨"plugin.py"⟩
    (by decide) (hkept _ List.mem_cons_self _ (by decide)), hread', hcheck'⟩

/-! ### What is lost -/

def lonelyDocument (path kind : String) : Bytes :=
  Text.encode ("[\"demo\",\"acme\",null,[[\"" ++ path ++ "\",\"" ++ kind ++ "\"]]]")

/-- A plugin in `root` with one component. -/
def lonelyPlugin (root path kind : String) (entries : List (Location × Entry)) : FileSystem where
  entries :=
    (["p"], .directory 0o755) :: (["q"], .directory 0o755) ::
      ([root, "manifest.json"], .file 0o644 (lonelyDocument path kind)) :: entries
  times := []
  clock := 0
  workingDirectory := []

/-- Components of a plugin in `p` among artifacts, in a repository and behind a link. -/
def hiddenComponents : List (String × List (Location × Entry)) :=
  [("node_modules/x", [(["p", "node_modules"], .directory 0o755),
      (["p", "node_modules", "x"], .directory 0o755),
      (["p", "node_modules", "x", "plugin.py"], .file 0o644 [])]),
    (".git/x", [(["p", ".git"], .directory 0o755), (["p", ".git", "x"], .directory 0o755),
      (["p", ".git", "x", "plugin.py"], .file 0o644 [])]),
    ("x", [(["p", "x"], .link ⟨"src/x"⟩), (["p", "src"], .directory 0o755),
      (["p", "src", "x"], .directory 0o755), (["p", "src", "x", "plugin.py"], .file 0o644 [])])]

/-- The checks pass, but the required file is not archived; and of a component without files nothing
is, so the manifest is not accepted where the archive is unpacked. -/
theorem package_loses :
    (∀ x ∈ hiddenComponents,
      (Manifest.read (lonelyPlugin "p" x.1 "backend" x.2) ⟨"p"⟩).toOption =
          some ⟨"demo", "acme", none, [⟨x.1, .backend, "x"⟩]⟩ ∧
        (checkComponents (lonelyPlugin "p" x.1 "backend" x.2) ⟨"p"⟩
          [⟨x.1, .backend, "x"⟩]).toOption = some () ∧
        (packedMembers ⟨"p"⟩ messyOptions (lonelyPlugin "p" x.1 "backend" x.2)).any (fun members =>
          x.1 ++ "/plugin.py" ∉ members.map Member.name) = true) ∧
    (Manifest.read (lonelyPlugin "p" "x" "docker" [(["p", "x"], .directory 0o755)])
        ⟨"p"⟩).toOption = some ⟨"demo", "acme", none, [⟨"x", .docker, "x"⟩]⟩ ∧
      packedMembers ⟨"p"⟩ messyOptions
          (lonelyPlugin "p" "x" "docker" [(["p", "x"], .directory 0o755)]) =
        some [⟨"manifest.json", 0o100644, lonelyDocument "x" "docker"⟩] ∧
      (Manifest.read (lonelyPlugin "q" "x" "docker" []) ⟨"q"⟩).toOption = none := by
  decide +kernel

end PluginManager.Package
