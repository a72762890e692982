import PluginManager.Proofs.FileSystem.Canonical
import PluginManager.Proofs.Install.Modes
import PluginManager.Proofs.Manifest.Verdict
import PluginManager.Proofs.Package.Frame
import PluginManager.Proofs.Package.Needs

/-!
# Valid plugins, installed

A plugin is checked by the path that was given, loaded by the canonical one and copied to the
planned destinations.  All three start from the one directory.

* `validate_eq_ok_iff`: what is checked of a plugin.
* `Session.load_of_readDocument`: **what was read is loaded again** by the canonical path.
* `Layout.Settled.leads_to_copy`: where a copied component is the only one, its destination leads to
  its tree.
* `Session.valid_plugin_is_installed`: **a valid plugin is installed complete**.
* `Session.valid_plugin_is_not_installed`: valid plugins that are not.
-/

namespace PluginManager

open FileSystem

variable {fs fs' : FileSystem} {schema : Schema} {document : Json} {p q : Path} {m : Manifest}
  {r : Location} {e e' : Entry}

/-! ## What is checked -/

theorem validate_eq_ok_iff : validate fs schema p document = .ok m ↔
    schema.check document = [] ∧ Manifest.ofDocument fs p document = .ok m ∧
      checkComponents fs p m.installs = .ok () := by
  rw [validate, validateWith_eq_ok_iff, checkComponents_eq_ok_iff]
  rfl

theorem readDocument_of_find (h : readDocument fs p = .ok document)
    (hfind : ∀ x, fs.find true (manifestPath p) = .ok x → fs.find true (manifestPath q) = .ok x) :
    readDocument fs q = .ok document := by
  rw [readDocument, FileSystem.readFile] at h ⊢
  cases hp : fs.find true (manifestPath p) with
  | error cause => simp [hp] at h
  | ok x =>
    rw [hfind x hp]
    rw [hp] at h
    obtain ⟨l, e⟩ := x
    cases e with
    | directory mode => simp at h
    | link target => simp at h
    | file mode bytes =>
      cases hparse : Json.parse bytes with
      | error cause => simp [hparse] at h
      | ok value => simpa [hparse] using h

namespace Session

/-! ## Loading -/

/-- **What was read is loaded again** by the canonical path, when that is short enough. -/
theorem load_of_readDocument {mode : Nat} (hwf : fs.WellFormed)
    (hread : readDocument fs p = .ok document) (hm : Manifest.ofDocument fs p document = .ok m)
    (hroot : fs.find true p = .ok (r, .directory mode)) (hfits : Fits ⟨"/"⟩ (r ++ [manifestName])) :
    load fs p = .ok (.ofLocation r, m) := by
  have hr := isDirectoryAt_of_lookup (lookup_of_find hroot)
  have hname : IsName manifestName := by decide
  have hnames := isName_of_isDirectoryAt hwf hr
  obtain ⟨n, hrooted⟩ := exists_rooted_of_find hroot hr
  have hcanonical := rooted_ofLocation hwf hr fun n hn =>
    hfits.short n (List.mem_append_left _ hn)
  have hu : Usable (.ofLocation r) := by
    have husable := hfits.usable
    rw [← child_ofLocation hnames] at husable
    exact husable.of_child (by simp [Path.ofLocation]) hname
  have hfind := hcanonical.route.find_directory hu (lookup_of_find hroot)
  refine load_eq_ok.mpr ⟨by rw [FileSystem.canonical, hroot]; rfl, ?_⟩
  have hread' : readDocument fs (.ofLocation r) = .ok document :=
    readDocument_of_find hread fun x hx => hrooted.find_child_ofLocation hwf hname hfits hx
  rw [Manifest.read, hread']
  exact (Manifest.ofDocument_eq_of_find hroot hfind).trans hm

/-- What is loaded is what was read. -/
theorem eq_of_load {mode : Nat} {m' : Manifest} (hwf : fs.WellFormed)
    (hread : readDocument fs p = .ok document) (hm : Manifest.ofDocument fs p document = .ok m)
    (hroot : fs.find true p = .ok (r, .directory mode)) (hload : load fs p = .ok (q, m')) :
    q = .ofLocation r ∧ m' = m := by
  have hr := isDirectoryAt_of_lookup (lookup_of_find hroot)
  obtain ⟨hcanonical, hmanifest⟩ := load_eq_ok.mp hload
  rw [FileSystem.canonical, hroot] at hcanonical
  obtain rfl : Path.ofLocation r = q := Except.ok.inj hcanonical
  obtain ⟨l, fileMode, bytes, -, -, hfind, -⟩ := Manifest.exists_file_of_read hmanifest
  have hfits := fits_of_find_child_ofLocation hwf hr (by decide) hfind
  have hagain := load_of_readDocument hwf hread hm hroot hfits
  rw [hload] at hagain
  exact ⟨rfl, (Prod.mk.inj (Except.ok.inj hagain)).2⟩

theorem exists_load_of_loadAndPlan {t : Targets} {s s' : Session} {actions : List Action}
    (h : loadAndPlan fs t p s = (.ok actions, s')) : ∃ q m, load fs p = .ok (q, m) := by
  rw [loadAndPlan] at h
  cases hload : load fs p with
  | error cause => simp [hload] at h
  | ok x => exact ⟨x.1, x.2, rfl⟩

end Session

namespace Layout

variable {L : Layout} {c : Component}

/-! ## The component that was checked -/

/-- The way from the root of the plugin to a component. -/
theorem Settled.exists_walk_origin (h : L.Settled fs) (hc : c ∈ L.components)
    (hrelative : (Path.mk c.path).isAbsolute = false) :
    ∃ n, Walk fs L.Off L.root (steps ⟨c.path⟩) (L.origin c) n := by
  have hnames := isName_of_isDirectoryAt h.wellFormed h.root
  obtain ⟨n, -, hwalk⟩ := (h.source c hc).walk
  rw [start, if_pos (L.isAbsolute_source c), source, Component.source, steps_join _ hrelative,
    steps_ofLocation hnames] at hwalk
  exact ⟨n, hwalk.of_open hnames (open_of_isDirectoryAt h.wellFormed h.root)⟩

/-- **A required file is found in the component**, where no link is in it. -/
theorem Settled.lookup_of_isFile {file : Path} (h : L.Settled fs)
    (hp : fs.find true p = .ok (L.root, e)) (hc : c ∈ L.components)
    (hdown : (Path.mk c.path).GoesDown) (hway : (Path.mk c.path).way ≠ [])
    (hno : ∀ s target, fs.lookup (L.origin c ++ s) ≠ some (.link target))
    (hfile : file ∈ c.role.requiredFiles) (his : fs.isFile ((c.source p).join file) = true) :
    ∃ mode content, fs.find true ((c.source p).join file) =
        .ok (L.origin c ++ file.way, .file mode content) ∧
      fs.lookup (L.origin c ++ file.way) = some (.file mode content) := by
  obtain ⟨hfileDown, hfileWay, -⟩ := Role.goesDown_of_mem_requiredFiles hfile
  obtain ⟨n, hrooted⟩ := exists_rooted_of_find hp h.root
  obtain ⟨m, hwalk⟩ := h.exists_walk_origin hc hdown.relative
  obtain ⟨l, mode, content, hfind⟩ := isFile_iff.mp his
  have hneed := Component.goesDown_need hdown hfileDown
  rw [Component.source_join hdown hway hfileDown] at hfind ⊢
  obtain ⟨rfl, hlookup⟩ := hrooted.lookup_of_find_join hwalk (h.origin c hc) hno hfileDown hfileWay
    hneed.relative hfind
  exact ⟨mode, content, hfind, hlookup⟩

/-! ## The component that was copied -/

theorem destination_of_lastAt {cs : List Component} {l : Location} (h : L.lastAt cs l = some c) :
    L.destination c = l := by
  simpa using List.find?_some h

/-- **A destination leads to the tree of its component**, where no other lands there. -/
theorem Settled.leads_to_copy (h : L.Settled fs)
    (hrun : ((L.components.map L.action).forM (Session.installAction .copy) : Task Unit) fs =
      .ok () fs') (hc : c ∈ L.components)
    (honly : ∀ d ∈ L.components, L.destination d = L.destination c → d = c) :
    (∃ mode, fs'.find true (L.action c).destination = .ok (L.destination c, .directory mode)) ∧
      fs'.treeAt (L.destination c) = fs.treeAt (L.origin c) := by
  have hinstalled := h.installed_of_run (.refl h.wellFormed) hrun
  have hspares := (h.run (fun _ hc => hc) hrun).spares
  have happroach := (h.of_spares hspares).approachable.approach hc
  have hclear := h.clear_of_installed hinstalled hspares.wellFormed hc
  have hfits := h.fits_of_run hrun hc
  obtain ⟨last, hlast, htree⟩ := hinstalled.tree c hc
  obtain rfl : last = c := honly last (mem_of_lastAt hlast) (destination_of_lastAt hlast)
  have htree : fs'.treeAt (L.destination last) = fs.treeAt (L.origin last) := htree
  have htop : fs'.lookup (L.destination last) = fs.lookup (L.origin last) := by
    simpa [FileSystem.treeAt] using congrFun htree []
  obtain ⟨mode, hmode⟩ := isDirectoryAt_iff.mp (h.origin last hc)
  have hroute := (happroach.target.mono fun _ _ => trivial).descend
    (hclear.open (isDirectoryAt_of_lookup (htop.trans hmode))) happroach.isName hfits.short
    fun _ _ => trivial
  refine ⟨⟨mode, ?_⟩, htree⟩
  rw [h.approachable.action_destination hc]
  exact hroute.find_directory hfits.usable (htop.trans hmode)

end Layout

namespace Session

variable {L : Layout}

/-! ## What is checked is installed -/

/-- **A valid plugin is installed complete.**  What was checked is what is loaded, if its canonical
path is short enough to be followed.  A copy of it that is confined, with no link in a component and
no two entries for one place, has every required file below the destination of every entry, with the
content it had in the plugin. -/
theorem valid_plugin_is_installed (hwf : fs.WellFormed) (hread : readDocument fs p = .ok document)
    (hvalid : validate fs schema p document = .ok L.manifest)
    (hroot : fs.find true p = .ok (L.root, e)) :
    (Fits ⟨"/"⟩ (L.root ++ [manifestName]) →
      load fs p = .ok (.ofLocation L.root, L.manifest)) ∧
    (∀ q m, load fs p = .ok (q, m) → q = .ofLocation L.root ∧ m = L.manifest) ∧
    ∀ t s s' fs' actions, L.Confined fs →
      (∀ c ∈ L.components, s'.roots c.role = some (L.target c.role)) →
      (∀ c ∈ L.components, ∀ r target, fs.lookup (L.origin c ++ r) ≠ some (.link target)) →
      (∀ c ∈ L.components, ∀ d ∈ L.components, L.destination d = L.destination c → d = c) →
      install .copy t p s fs = (.ok actions, s', fs') →
      actions = L.components.map L.action ∧ ∀ c ∈ L.components,
        (∃ mode, fs'.find true (L.action c).destination =
          .ok (L.destination c, .directory mode)) ∧
        ∀ file ∈ c.role.requiredFiles, ∃ mode content,
          fs.find true ((c.source p).join file) =
            .ok (L.origin c ++ file.way, .file mode content) ∧
          fs'.lookup (L.destination c ++ file.way) = some (.file mode content) := by
  obtain ⟨-, hm, hcheck⟩ := validate_eq_ok_iff.mp hvalid
  have hmanifest : Manifest.read fs p = .ok L.manifest := by
    rw [Manifest.read, hread]
    exact hm
  obtain ⟨k, mode, hdirectory⟩ := Package.exists_root_of_read hwf hmanifest
  obtain ⟨rfl, rfl⟩ : L.root = k ∧ e = .directory mode := by simpa [hroot] using hdirectory
  refine ⟨load_of_readDocument hwf hread hm hroot,
    fun q m hload => eq_of_load hwf hread hm hroot hload, ?_⟩
  intro t s s' fs' actions hconfined hroots hno honly hinstall
  obtain ⟨hplan, -⟩ := carryOut_eq_ok.mp hinstall
  obtain ⟨q, m, hload⟩ := exists_load_of_loadAndPlan hplan
  obtain ⟨rfl, rfl⟩ := eq_of_load hwf hread hm hroot hload
  have hsettled := hconfined.settled hwf (load_eq_ok.mp hload).2
  obtain ⟨hactions, hrun⟩ := run_of_carryOut hload hroots hinstall
  refine ⟨hactions, fun c hc => ?_⟩
  obtain ⟨hleads, htree⟩ := hsettled.leads_to_copy hrun hc (honly c hc)
  refine ⟨hleads, fun file hfile => ?_⟩
  obtain ⟨hdown, hway⟩ := Manifest.goesDown_of_read hroot hmanifest hc
  obtain ⟨fileMode, content, hfind, hlookup⟩ := hsettled.lookup_of_isFile hroot hc hdown hway
    (hno c hc) hfile (checkComponents_eq_ok_iff.mp hcheck c hc file hfile)
  exact ⟨fileMode, content, hfind, (congrFun htree file.way).trans hlookup⟩

/-! ### A plugin that is installed complete -/

/-- Every document agrees with it. -/
def anySchema : Schema := ⟨.draft202012, .bool true⟩

theorem check_anySchema (document : Json) : anySchema.check document = [] := rfl

/-- The manifest of a valid plugin, as it is checked by this path. -/
def validated (fs : FileSystem) (p : Path) : Option Manifest :=
  (readDocument fs p).toOption.bind fun document => (validate fs anySchema p document).toOption

theorem exists_of_validated (h : validated fs p = some m) : ∃ document,
    readDocument fs p = .ok document ∧ validate fs anySchema p document = .ok m := by
  rw [validated] at h
  cases hread : readDocument fs p with
  | error cause => simp [hread, Except.toOption] at h
  | ok document =>
    rw [hread] at h
    exact ⟨document, rfl, eq_ok_of_toOption h⟩

/-- A store repository at `/r` and a plugin at `/p` with one component for it. -/
def shopWorld : FileSystem :=
  acmeWorld [(["r", "nuxt.config.js"], emptyFile),
    (["p", "manifest.json"], manifestOf "[\"src/y\",\"store\"]"),
    (["p", "src"], .directory 0o755), (["p", "src", "y"], .directory 0o755),
    (["p", "src", "y", "index.js"], .file 0o644 [1]),
    (["p", "src", "y", "package.json"], .file 0o644 [2]),
    (["p", "src", "y", "config"], .directory 0o755),
    (["p", "src", "y", "config", "index.js"], .file 0o644 [3])]

def shopLayout : Layout where
  root := ["p"]
  manifest := ⟨"demo", "acme", none, [⟨"src/y", .store, "y"⟩]⟩
  target _ := ⟨"/r"⟩
  place _ := ["r"]
  origin _ := ["p", "src", "y"]

/-- The plugin is given by a relative path. -/
def shopInstall : Except Failure (List Action) × Session × FileSystem :=
  install .copy (targetsAt "" "" "/r") ⟨"p"⟩ .start shopWorld

theorem wellFormed_shopWorld : shopWorld.WellFormed :=
  wellFormed_of_keys (by decide +kernel) (by decide +kernel)

theorem components_shopLayout : ∀ c ∈ shopLayout.components, c = ⟨"src/y", .store, "y"⟩ := by
  intro c hc
  simpa [Layout.components, shopLayout] using hc

theorem confined_shopLayout : shopLayout.Confined shopWorld := by
  have htarget : Route shopWorld shopLayout.Off ⟨"/r"⟩ ["r"] :=
    Layout.route_of_isSome wellFormed_shopWorld rfl (by decide +kernel) (by decide +kernel)
      (by decide +kernel)
  have hplace : shopWorld.isDirectoryAt ["r"] = true := by decide +kernel
  have hapart : Apart ["p"] ["r"] := by constructor <;> decide
  refine ⟨by decide, by decide +kernel, fun _ _ => htarget, fun _ _ => hplace, ?_,
    fun _ _ => hapart, fun _ _ _ _ => .inl rfl, ?_⟩
  · intro c hc
    obtain rfl := components_shopLayout c hc
    exact Layout.route_of_isSome wellFormed_shopWorld rfl (by decide +kernel) (by decide +kernel)
      (by decide +kernel)
  · intro c hc
    obtain rfl := components_shopLayout c hc
    exact FileSystem.noLinks_of_inits (by decide +kernel)

theorem noLinks_shopWorld (l : Location) (target : Path) :
    shopWorld.lookup l ≠ some (.link target) := by
  intro hlink
  have hkeys : ∀ l ∈ shopWorld.entries.map Prod.fst,
      (shopWorld.lookup l).any Entry.isLink = false := by
    decide +kernel
  have hne : l ≠ [] := by
    rintro rfl
    exact absurd hlink (by simp)
  have hno := hkeys l ((mem_keys hne).mpr (by simp [hlink]))
  rw [hlink] at hno
  exact absurd hno (by simp [Entry.isLink])

theorem valid_plugin_is_installed_shopWorld :
    validated shopWorld ⟨"p"⟩ = some shopLayout.manifest ∧
      load shopWorld ⟨"p"⟩ = .ok (.ofLocation ["p"], shopLayout.manifest) ∧
      shopInstall.1.toOption = some [⟨.store, ⟨"/p/src/y"⟩, ⟨"/r/modules/@acme/y"⟩⟩] ∧
      ∃ mode content,
        shopWorld.find true ⟨"p/src/y/config/index.js"⟩ =
          .ok (["p", "src", "y", "config", "index.js"], .file mode content) ∧
        shopInstall.2.2.lookup ["r", "modules", "@acme", "y", "config", "index.js"] =
          some (.file mode content) := by
  have hvalidated : validated shopWorld ⟨"p"⟩ = some shopLayout.manifest := by decide +kernel
  obtain ⟨document, hread, hvalid⟩ := exists_of_validated hvalidated
  have hactions : shopInstall.1.toOption =
      some [⟨.store, ⟨"/p/src/y"⟩, ⟨"/r/modules/@acme/y"⟩⟩] := by
    decide +kernel
  obtain ⟨hload, -, hinstall⟩ := valid_plugin_is_installed (L := shopLayout) wellFormed_shopWorld
    hread hvalid (by rfl : shopWorld.find true ⟨"p"⟩ = .ok (["p"], .directory 0o755))
  obtain ⟨-, hall⟩ := hinstall _ .start shopInstall.2.1 shopInstall.2.2 _ confined_shopLayout
    (by decide +kernel) (fun _ _ r target => noLinks_shopWorld _ target)
    (fun c hc d hd _ => (components_shopLayout d hd).trans (components_shopLayout c hc).symm)
    (Prod.ext (eq_ok_of_toOption hactions) rfl)
  obtain ⟨-, hfiles⟩ := hall ⟨"src/y", .store, "y"⟩ (by decide)
  refine ⟨hvalidated, hload ⟨by decide +kernel, by decide +kernel⟩, hactions, ?_⟩
  exact hfiles ⟨"config/index.js"⟩ (by decide)

/-! ### A plugin that is too deep -/

/-- The locations on the way to `k`, `k` included. -/
def ladder (k : Location) : List Location := k.inits.filter (· ≠ [])

theorem mem_ladder {l k : Location} : l ∈ ladder k ↔ l <+: k ∧ l ≠ [] := by
  simp [ladder]

theorem nodup_inits (k : Location) : k.inits.Nodup := by
  induction k with
  | nil => simp
  | cons name k ih =>
    rw [List.inits_cons, List.nodup_cons]
    exact ⟨by simp, ih.map List.cons_injective⟩

theorem nodup_ladder (k : Location) : (ladder k).Nodup := (nodup_inits k).filter _

/-- A manifest without components. -/
def bareBytes : Bytes := Text.encode "[\"demo\",\"acme\",null,[]]"

theorem exists_bareDocument : ∃ document, Json.parse bareBytes = .ok document ∧
    Manifest.Draft.Supplied document ⟨"demo", "acme", none, []⟩ := by
  have hdraft : (Json.parse bareBytes).toOption.bind (fun document =>
      (Manifest.Draft.ofJson document).toOption) = some ⟨"demo", "acme", none, []⟩ := by
    decide +kernel
  obtain ⟨document, hparse, hdocument⟩ := Option.bind_eq_some_iff.mp hdraft
  exact ⟨document, eq_ok_of_toOption hparse,
    Manifest.Draft.ofJson_eq_ok_iff.mp (eq_ok_of_toOption hdocument)⟩

/-- The working directory is a plugin without components, at `k`. -/
def deepWorld (k : Location) : FileSystem where
  entries :=
    (k ++ [manifestName], .file 0o644 bareBytes) :: (ladder k).map fun l => (l, .directory 0o755)
  times := []
  clock := 0
  workingDirectory := k

theorem lookup_map_directory (ls : List Location) (l : Location) :
    (ls.map fun l => (l, Entry.directory 0o755)).lookup l =
      if l ∈ ls then some (.directory 0o755) else none := by
  induction ls with
  | nil => rfl
  | cons first rest ih =>
    rw [List.map_cons, List.lookup_cons, ih]
    by_cases heq : l = first
    · simp [heq]
    · simp [heq, beq_eq_false_iff_ne.mpr heq]

theorem isDirectoryAt_deepWorld {l k : Location} (h : l <+: k) :
    (deepWorld k).isDirectoryAt l = true := by
  cases l with
  | nil => rfl
  | cons name rest =>
    have hne : name :: rest ≠ k ++ [manifestName] := by
      intro heq
      have hle := h.length_le
      rw [heq, List.length_append, List.length_singleton] at hle
      omega
    have hmem : name :: rest ∈ ladder k := mem_ladder.mpr ⟨h, by simp⟩
    rw [FileSystem.isDirectoryAt, FileSystem.lookup, deepWorld, List.lookup_cons,
      beq_eq_false_iff_ne.mpr hne, lookup_map_directory, if_pos hmem]
    rfl

theorem lookup_deepWorld (k : Location) :
    (deepWorld k).lookup (k ++ [manifestName]) = some (.file 0o644 bareBytes) := by
  obtain ⟨name, rest, heq⟩ := List.exists_cons_of_ne_nil (by simp : k ++ [manifestName] ≠ [])
  rw [heq, FileSystem.lookup, ← heq, deepWorld, List.lookup_cons, beq_self_eq_true]

theorem wellFormed_deepWorld {k : Location} (h : ∀ n ∈ k, IsName n) : (deepWorld k).WellFormed := by
  refine wellFormed_of_keys (fun l hl => ?_) ?_
  · rcases List.mem_cons.mp hl with rfl | hl
    · refine ⟨?_, ?_⟩
      · rw [List.dropLast_concat]
        exact isDirectoryAt_deepWorld (List.prefix_refl k)
      · simp only [List.getLast?_concat, Option.mem_some_iff, forall_eq']
        decide
    · obtain ⟨hupto, -⟩ := mem_ladder.mp (by simpa using hl)
      refine ⟨isDirectoryAt_deepWorld ((List.dropLast_prefix l).trans hupto), fun n hn => ?_⟩
      exact h n (hupto.subset (List.mem_of_getLast? hn))
  · rw [deepWorld, List.map_cons, List.map_map]
    have hkeys : (ladder k).map (Prod.fst ∘ fun l => (l, Entry.directory 0o755)) = ladder k :=
      List.map_id _
    rw [hkeys]
    refine List.nodup_cons.mpr ⟨fun hmem => ?_, nodup_ladder k⟩
    have hle := (mem_ladder.mp hmem).1.length_le
    rw [List.length_append, List.length_singleton] at hle
    omega

theorem route_deepWorld (k : Location) : Route (deepWorld k) (fun _ => True) ⟨"."⟩ k := by
  have hsteps : steps ⟨"."⟩ = ["."] := by decide
  refine ⟨trivial, isDirectoryAt_deepWorld (List.prefix_refl k), 0, Nat.zero_le _, ?_⟩
  rw [hsteps]
  exact .current (.done trivial)

/-- The plugin is valid, however deep it is. -/
theorem validated_deepWorld (k : Location) :
    validated (deepWorld k) ⟨"."⟩ = some ⟨"demo", "acme", none, []⟩ := by
  have hk := isDirectoryAt_deepWorld (List.prefix_refl k)
  obtain ⟨mode, hmode⟩ := isDirectoryAt_iff.mp hk
  have hroot := (route_deepWorld k).find_directory (by decide) hmode
  have hfile : (deepWorld k).find true (manifestPath ⟨"."⟩) =
      .ok (k ++ [manifestName], .file 0o644 bareBytes) :=
    (route_deepWorld k).find_descend hk (by decide) (List.cons_ne_nil manifestName [])
      (clear_singleton hk manifestName) ⟨by decide, by decide⟩ (lookup_deepWorld k) (.inr rfl)
  obtain ⟨document, hparse, hdraft⟩ := exists_bareDocument
  have hread : readDocument (deepWorld k) ⟨"."⟩ = .ok document := by
    simp only [readDocument, FileSystem.readFile, hfile, hparse]
  have hm : Manifest.ofDocument (deepWorld k) ⟨"."⟩ document = .ok ⟨"demo", "acme", none, []⟩ :=
    (Manifest.ofDocument_eq_ok_iff hroot).mpr ⟨_, hdraft,
      ⟨⟨'d', by decide, by decide⟩, ⟨'a', by decide, by decide⟩, by simp⟩, ⟨rfl, rfl, rfl, .nil⟩⟩
  have hvalid : validate (deepWorld k) anySchema ⟨"."⟩ document =
      .ok ⟨"demo", "acme", none, []⟩ :=
    validate_eq_ok_iff.mpr ⟨check_anySchema _, hm, rfl⟩
  rw [validated, hread]
  simp [Except.toOption, hvalid]

/-- **A plugin that is too deep** is not loaded. -/
theorem load_deepWorld {k : Location} (hnames : ∀ n ∈ k, IsName n)
    (hlong : pathLimit ≤ Path.spread (k ++ [manifestName])) (x : Path × Manifest) :
    load (deepWorld k) ⟨"."⟩ ≠ .ok x := by
  intro hload
  obtain ⟨q, m⟩ := x
  obtain ⟨hcanonical, hm⟩ := load_eq_ok.mp hload
  obtain ⟨mode, hmode⟩ := isDirectoryAt_iff.mp (isDirectoryAt_deepWorld (List.prefix_refl k))
  rw [FileSystem.canonical, (route_deepWorld k).find_directory (by decide) hmode] at hcanonical
  obtain rfl : Path.ofLocation k = q := Except.ok.inj hcanonical
  obtain ⟨l, fileMode, bytes, -, -, hfind, -⟩ := Manifest.exists_file_of_read hm
  have hshort := (usable_of_find hfind).short
  have hall : ∀ n ∈ k ++ [manifestName], IsName n := by
    simpa [or_imp, forall_and] using ⟨hnames, (by decide : IsName manifestName)⟩
  have hsize := Path.utf8ByteSize_intercalate (by simp : k ++ [manifestName] ≠ [])
  have hslash : "/".utf8ByteSize = 1 := by decide
  rw [manifestPath, child_ofLocation hnames, ← Path.ofLocation_eq_descend hall, Path.ofLocation,
    String.utf8ByteSize_append, hslash] at hshort
  omega

/-- Sixteen names of nearly the greatest length, and a short one. -/
def deepLocation : Location := List.replicate 16 (String.ofList (List.replicate 254 'a')) ++ ["p"]

/-! ### Valid plugins that are not installed complete -/

/-- A link at the second destination, which the path of the target goes through. -/
def twoDetoursWorld : FileSystem :=
  acmeWorld [(["r", "gunicorn.conf.py"], emptyFile), (["r", "sub"], .directory 0o755),
    (["r", "modules", "acme", "x"], .link ⟨"/r/sub"⟩),
    (["p", "manifest.json"], manifestOf "[\"w\",\"backend\"],[\"x\",\"backend\"]"),
    (["p", "w"], .directory 0o755), (["p", "w", "plugin.py"], emptyFile),
    (["p", "x"], .directory 0o755), (["p", "x", "plugin.py"], emptyFile)]

def twoDetoursInstall : Except Failure (List Action) × Session × FileSystem :=
  install .copy detourTargets ⟨"/p"⟩ .start twoDetoursWorld

/-- A valid plugin that is too deep is not loaded.  Where the path of a component or of a target
goes through a destination, an install of a valid plugin succeeds, and a required file is not where
it was to be, neither by location nor by path. -/
theorem valid_plugin_is_not_installed :
    ((deepWorld deepLocation).WellFormed ∧
      validated (deepWorld deepLocation) ⟨"."⟩ = some ⟨"demo", "acme", none, []⟩ ∧
      ∀ x, load (deepWorld deepLocation) ⟨"."⟩ ≠ .ok x) ∧
    ((validated loopedWorld ⟨"/p"⟩).isSome = true ∧
      loopedInstall.1.toOption = some [⟨.backend, ⟨"/p/x"⟩, ⟨"/r/modules/acme/x"⟩⟩] ∧
      loopedInstall.2.2.isFile ⟨"/r/modules/acme/x/plugin.py"⟩ = false) ∧
    (IsName "acme" ∧ (validated twoDetoursWorld ⟨"/p"⟩).isSome = true ∧
      (twoDetoursWorld.find true ⟨"/r/modules/acme/x/.."⟩).toOption =
        some (["r"], .directory 0o755) ∧
      twoDetoursWorld.isDirectoryAt ["r", "modules", "acme"] = true ∧
      twoDetoursInstall.1.toOption = some
        [⟨.backend, ⟨"/p/w"⟩, ⟨"/r/modules/acme/x/../modules/acme/w"⟩⟩,
          ⟨.backend, ⟨"/p/x"⟩, ⟨"/r/modules/acme/x/../modules/acme/x"⟩⟩] ∧
      twoDetoursInstall.2.2.lookup ["r", "modules", "acme", "x", "plugin.py"] = none ∧
      twoDetoursInstall.2.2.isFile
        ⟨"/r/modules/acme/x/../modules/acme/w/plugin.py"⟩ = false) := by
  have hlong : ∀ n ∈ deepLocation, IsName n := by
    have hname : IsName (String.ofList (List.replicate 254 'a')) := by decide +kernel
    intro n hn
    rcases List.mem_append.mp hn with hn | hn
    · rw [List.eq_of_mem_replicate hn]
      exact hname
    · rw [List.mem_singleton.mp hn]
      decide
  have hspread : pathLimit ≤ Path.spread (deepLocation ++ [manifestName]) := by
    decide +kernel
  exact ⟨⟨wellFormed_deepWorld hlong, validated_deepWorld _, load_deepWorld hlong hspread⟩,
    by decide +kernel, by decide +kernel⟩

end Session

end PluginManager
