import PluginManager.Proofs.FileSystem.Sight
import PluginManager.Proofs.Install.Undo

/-!
# Copies and links

A component is put in its place as a copy or as a link.  The target repository sees the same in both
modes, and an uninstall leaves the same.

* `Layout.Plain`: targets and components are reached over no link, and no link is in a component.
* `Settled.leads_to_tree`: in either mode the path of a destination leads to the tree of the last
  component that lands there.
* `Undone.lookup_eq`: what an uninstall leaves does not depend on the mode.
* `sight_eq_of_installs`: **copies and links show the same** at every path below a destination.
-/

namespace PluginManager

open FileSystem

namespace Layout

variable {L : Layout} {fs fs' fs'' : FileSystem} {c : Component} {mode : InstallMode}

/-- Targets and components are reached over no link, past the destinations, and no link is in a
component. -/
structure Plain (L : Layout) (fs : FileSystem) : Prop where
  target : ∀ c ∈ L.components,
    Walk fs L.Off (fs.start (L.target c.role)) (steps (L.target c.role)) (L.place c.role) 0
  source : ∀ c ∈ L.components,
    Walk fs L.Off (fs.start (L.source c)) (steps (L.source c)) (L.origin c) 0
  noLinks : ∀ c ∈ L.components, ∀ r target, fs.lookup (L.origin c ++ r) ≠ some (.link target)

theorem isAbsolute_source (L : Layout) (c : Component) : (L.source c).isAbsolute = true := by
  have hroot : (Path.ofLocation L.root).isAbsolute = true := by
    simp [Path.ofLocation, Path.isAbsolute]
  cases hpath : (Path.mk c.path).isAbsolute with
  | true => rwa [source, Component.source, Path.join_of_isAbsolute _ hpath]
  | false => rw [source, Component.source, Path.isAbsolute_join _ hpath, hroot]

/-- The destination of a link leads to the component. -/
theorem Settled.route_of_link (h : L.Settled fs) (hp : L.Plain fs) (hs : L.Spares fs fs')
    (hc : c ∈ L.components) (hfits : Fits (L.target c.role) (L.names c))
    (hclear : Clear fs' (L.place c.role) (L.names c)) {d : Component} (hd : d ∈ L.components)
    (hlink : fs'.lookup (L.destination c) = some (.link (L.source d))) :
    Route fs' (fun _ => True) (L.site c).path (L.origin d) := by
  have happroach := (h.of_spares hs).approachable.approach hc
  have hstart := start_congr hs.workingDirectory
  have htarget := (hp.target c hc).of_holds hs.holds
  have hsource := (hp.source d hd).of_holds hs.holds
  rw [← hstart] at htarget
  rw [start, if_pos (L.isAbsolute_source d)] at hsource
  exact route_to_link happroach.target.directory htarget happroach.place happroach.isName
    hfits.short happroach.names_ne_nil hclear hlink (L.isAbsolute_source d) hsource

/-- **In either mode a destination leads to the tree of its component**, the last that lands
there. -/
theorem Settled.leads_to_tree (h : L.Settled fs) (hp : L.Plain fs)
    (hrun : ((L.components.map L.action).forM (Session.installAction mode) : Task Unit) fs =
      .ok () fs') (hc : c ∈ L.components) :
    ∃ last ∈ L.components, L.lastAt L.components (L.destination c) = some last ∧
      ∃ k, Route fs' (fun _ => True) (L.site c).path k ∧
        fs'.treeAt k = fs.treeAt (L.origin last) := by
  have hinstalled := h.installed_of_run (.refl h.wellFormed) hrun
  have hspares := (h.run (fun _ hc => hc) hrun).spares
  have happroach := (h.of_spares hspares).approachable.approach hc
  have hclear := h.clear_of_installed hinstalled hspares.wellFormed hc
  have hfits := h.fits_of_run hrun hc
  obtain ⟨last, hlast, htree⟩ := hinstalled.tree c hc
  have hmem := mem_of_lastAt hlast
  have htop : fs'.lookup (L.destination c) = L.laid mode fs last [] := by
    simpa [FileSystem.treeAt] using congrFun htree []
  refine ⟨last, hmem, hlast, ?_⟩
  cases mode with
  | copy =>
    have hd : fs'.isDirectoryAt (L.destination c) = true := by
      rw [FileSystem.isDirectoryAt, htop, laid, FileSystem.treeAt, List.append_nil]
      exact h.origin last hmem
    have hroute := (happroach.target.mono fun _ _ => trivial).descend (hclear.open hd)
      happroach.isName hfits.short fun _ _ => trivial
    exact ⟨L.destination c, hroute, htree⟩
  | link =>
    have hsame : L.laid .copy fs' last = L.laid .copy fs last := h.laid_congr hspares hmem
    exact ⟨L.origin last, h.route_of_link hp hspares hc hfits hclear hmem htop, hsame⟩

/-- What an install and an uninstall leave depends on what was there before them alone. -/
theorem Undone.lookup_eq (h : L.Undone fs fs') (h' : L.Undone fs fs'') :
    fs''.lookup = fs'.lookup := by
  funext l
  by_cases hl : L.Off l
  · rw [h.away l hl, h'.away l hl]
  · rw [h.gone l hl, h'.gone l hl]

end Layout

namespace Session

variable {L : Layout} {fs fs₁ fs₂ : FileSystem} {t₁ t₂ : Targets} {s₁ s₁' s₂ s₂' : Session}
  {p : Path} {actions₁ actions₂ : List Action}

/-- **Copies and links show the same.**  After an install in one mode and after one in the other,
every path behind a destination shows the same directory, the same file or the same error.  The
uninstalls of both list the same actions and leave the same. -/
theorem sight_eq_of_installs (hwf : fs.WellFormed)
    (hload : load fs p = .ok (.ofLocation L.root, L.manifest)) (hc : L.Confined fs)
    (hp : L.Plain fs) (h₁ : install .copy t₁ p s₁ fs = (.ok actions₁, s₁', fs₁))
    (h₂ : install .link t₂ p s₂ fs = (.ok actions₂, s₂', fs₂))
    (hroots₁ : ∀ c ∈ L.components, s₁'.roots c.role = some (L.target c.role))
    (hroots₂ : ∀ c ∈ L.components, s₂'.roots c.role = some (L.target c.role)) :
    actions₂ = actions₁ ∧
      (∀ a ∈ actions₁, ∀ q : Path, q.GoesDown →
        fs₂.sight (a.destination.join q) = fs₁.sight (a.destination.join q)) ∧
      (L.Reread fs p → ∃ fs₁' fs₂', fs₂'.lookup = fs₁'.lookup ∧
        L.Uninstalls p fs fs₁ fs₁' ∧ L.Uninstalls p fs fs₂ fs₂') := by
  have hsettled := hc.settled hwf (load_eq_ok.mp hload).2
  obtain ⟨rfl, hrun₁⟩ := run_of_carryOut hload hroots₁ h₁
  obtain ⟨rfl, hrun₂⟩ := run_of_carryOut hload hroots₂ h₂
  refine ⟨rfl, fun a ha q hq => ?_, fun hr => ?_⟩
  · obtain ⟨c, hc, rfl⟩ := List.mem_map.mp ha
    have hwf₁ := (hsettled.run (fun _ hc => hc) hrun₁).spares.wellFormed
    have hwf₂ := (hsettled.run (fun _ hc => hc) hrun₂).spares.wellFormed
    have happroach := hsettled.approachable.approach hc
    obtain ⟨last, hmem, hlast, k₁, hroute₁, htree₁⟩ := hsettled.leads_to_tree hp hrun₁ hc
    obtain ⟨last', -, hlast', k₂, hroute₂, htree₂⟩ := hsettled.leads_to_tree hp hrun₂ hc
    obtain rfl : last = last' := Option.some.inj (hlast.symm.trans hlast')
    have hdirectory : fs₁.isDirectoryAt k₁ = true := by
      have htop : fs₁.lookup k₁ = fs.lookup (L.origin last) := by
        simpa [FileSystem.treeAt] using congrFun htree₁ []
      rw [FileSystem.isDirectoryAt, htop]
      exact hsettled.origin last hmem
    have hno : ∀ r target, fs₁.lookup (k₁ ++ r) ≠ some (.link target) := by
      intro r target hlink
      exact hp.noLinks last hmem r target ((congrFun htree₁ r).symm.trans hlink)
    rw [hsettled.approachable.action_destination hc]
    exact hroute₁.sight_join hroute₂
      (descend_text_ne_empty (L.target c.role) happroach.isName happroach.names_ne_nil) hdirectory
      (htree₂.trans htree₁.symm) hno hwf₁ hwf₂ hq
  · obtain ⟨fs₁', hundone₁, huninstalls₁⟩ := hsettled.exists_undone hr hload hrun₁
    obtain ⟨fs₂', hundone₂, huninstalls₂⟩ := hsettled.exists_undone hr hload hrun₂
    exact ⟨fs₁', fs₂', hundone₁.lookup_eq hundone₂, huninstalls₁, huninstalls₂⟩

theorem plain_twofoldLayout : Layout.twofoldLayout.Plain Layout.twofoldWorld := by
  have hname : ∀ name ∈ ["r", "p", "x", "new"], IsName name ∧ name.utf8ByteSize ≤ nameLimit := by
    decide
  have hpiece : ∀ name ∈ ["r", "p", "x", "new"], IsLookedUp name := fun name hn =>
    .of_isName (hname name hn).1 (hname name hn).2
  have hr : Walk Layout.twofoldWorld Layout.twofoldLayout.Off [] ["r"] ["r"] 0 :=
    .directory (hpiece "r" (by simp)) (by decide) rfl (.done (by decide))
  have hx : Walk Layout.twofoldWorld Layout.twofoldLayout.Off [] ["p", "x"] ["p", "x"] 0 :=
    .directory (hpiece "p" (by simp)) (by decide) rfl
      (.directory (hpiece "x" (by simp)) (by decide) rfl (.done (by decide)))
  have hnew : Walk Layout.twofoldWorld Layout.twofoldLayout.Off [] ["p", "new", "x"]
      ["p", "new", "x"] 0 :=
    .directory (hpiece "p" (by simp)) (by decide) rfl
      (.directory (hpiece "new" (by simp)) (by decide) rfl
        (.directory (hpiece "x" (by simp)) (by decide) rfl (.done (by decide))))
  refine ⟨fun _ _ => ?_, fun c hc => ?_, fun c hc r target he => ?_⟩
  · show Walk _ _ (Layout.twofoldWorld.start ⟨"/r"⟩) (steps ⟨"/r"⟩) ["r"] 0
    exact hr
  · rcases Layout.components_twofoldLayout c hc with rfl | rfl
    · exact hx
    · exact hnew
  · have hkeys : ∀ l ∈ Layout.twofoldWorld.entries.map Prod.fst,
        (Layout.twofoldWorld.lookup l).any Entry.isLink = false := by
      decide +kernel
    have hne : Layout.twofoldLayout.origin c ++ r ≠ [] := by
      rcases Layout.components_twofoldLayout c hc with rfl | rfl <;> simp [Layout.twofoldLayout]
    have hkey := hkeys _ ((mem_keys hne).mpr (by simp [he]))
    rw [he] at hkey
    exact absurd hkey (by simp [Entry.isLink])

theorem sight_eq_of_installs_twofold :
    twofoldLink.2.2.sight ((Path.mk "/r/modules/acme/x").join ⟨"./second"⟩) =
        twofoldInstall.2.2.sight ((Path.mk "/r/modules/acme/x").join ⟨"./second"⟩) ∧
      twofoldInstall.2.2.sight ((Path.mk "/r/modules/acme/x").join ⟨"./second"⟩) =
        .file 0o644 [] ∧
      ∃ fs₁ fs₂, fs₂.lookup = fs₁.lookup ∧
        uninstall repositoryTargets ⟨"/p"⟩ twofoldInstall.2.1 twofoldInstall.2.2 =
          (.ok twofoldActions, twofoldInstall.2.1, fs₁) ∧
        uninstall repositoryTargets ⟨"/p"⟩ twofoldLink.2.1 twofoldLink.2.2 =
          (.ok twofoldActions, twofoldLink.2.1, fs₂) := by
  have hlink : twofoldLink = (.ok twofoldActions, twofoldLink.2.1, twofoldLink.2.2) :=
    Prod.ext (eq_ok_of_toOption (by decide +kernel)) rfl
  have hroots : ∀ c ∈ Layout.twofoldLayout.components,
      twofoldLink.2.1.roots c.role = some (Layout.twofoldLayout.target c.role) := by
    decide +kernel
  obtain ⟨-, hsight, huninstall⟩ := sight_eq_of_installs Layout.wellFormed_twofoldWorld
    load_twofoldWorld Layout.confined_twofoldLayout plain_twofoldLayout twofoldInstall_eq hlink
    roots_twofoldInstall hroots
  obtain ⟨fs₁, fs₂, hsame, huninstalls₁, huninstalls₂⟩ := huninstall reread_twofoldLayout
  refine ⟨hsight _ List.mem_cons_self ⟨"./second"⟩ (by decide), by decide +kernel, fs₁, fs₂, hsame,
    ?_, ?_⟩
  · exact huninstalls₁ _ _ _ roots_twofoldInstall (.inl rfl)
  · exact huninstalls₂ _ _ _ hroots (.inl rfl)

/-! ## Paths through a destination -/

/-- The manifest is a link into the destination, and the component has one of its own. -/
def borrowedManifestWorld : FileSystem :=
  acmeWorld [(["r", "gunicorn.conf.py"], emptyFile),
    (["p", "manifest.json"], .link ⟨"../r/modules/acme/x/manifest.json"⟩),
    (["r", "modules", "acme", "x"], .directory 0o755),
    (["r", "modules", "acme", "x", "manifest.json"], acmeManifest),
    (["p", "x"], .directory 0o755), (["p", "x", "manifest.json"], .file 0o644
      (Text.encode "[\"demo\",\"other\",null,[[\"x\",\"backend\"]]]"))]

/-- The marker is a link to something at the destination that the component does not have. -/
def lostMarkerWorld : FileSystem :=
  acmeWorld [(["r", "gunicorn.conf.py"], .link ⟨"modules/acme/x/old"⟩),
    (["p", "manifest.json"], acmeManifest), (["r", "modules", "acme", "x"], .directory 0o755),
    (["r", "modules", "acme", "x", "old"], emptyFile), (["p", "x"], .directory 0o755)]

/-- The root of the store is given by a path through the first destination.  Where that is a link to
the component, the path leads back into the plugin. -/
def detourBackWorld : FileSystem :=
  acmeWorld [(["r", "gunicorn.conf.py"], emptyFile),
    (["r", "modules", "acme", "x"], .directory 0o755), (["s"], .directory 0o755),
    (["s", "nuxt.config.js"], emptyFile), (["u"], .directory 0o755), (["u", "s"], .directory 0o755),
    (["u", "s", "modules"], .directory 0o755), (["u", "s", "modules", "@acme"], .directory 0o755),
    (["u", "s", "modules", "@acme", "manifest.json"],
      manifestOf "[\"x\",\"backend\"],[\"y\",\"store\"]"),
    (["u", "s", "modules", "@acme", "x"], .directory 0o755),
    (["u", "s", "modules", "@acme", "y"], .directory 0o755)]

/-- What an install lists, and what a path shows after it. -/
def installedSight (t : Targets) (p : Path) (fs : FileSystem) (seen : Path) (mode : InstallMode) :
    Option (List Action) × Sight :=
  let (result, _, fs') := install mode t p .start fs
  (result.toOption, fs'.sight seen)

/-- What an install and an uninstall list, in one session or in two, and what is left by them. -/
def leftAt (same : Bool) (p : Path) (fs : FileSystem) (l : Location) (mode : InstallMode) :
    Option (List Action) × Option (List Action) × Option Entry :=
  let (first, s, fs₁) := install mode repositoryTargets p .start fs
  let (second, _, fs₂) := uninstall repositoryTargets p (if same then s else .start) fs₁
  (first.toOption, second.toOption, fs₂.lookup l)

/-- What is at a destination that was not uninstalled. -/
def laidEntry : InstallMode → Entry
  | .copy => .directory 0o755
  | .link => .link ⟨"/p/x"⟩

def detourBackActions : List Action :=
  [⟨.backend, ⟨"/u/s/modules/@acme/x"⟩, ⟨"/r/modules/acme/x"⟩⟩,
    ⟨.store, ⟨"/u/s/modules/@acme/y"⟩, ⟨"/r/modules/acme/x/../../../../s/modules/@acme/y"⟩⟩]

/-- Where a target is followed through a destination, a link does not show what a copy shows.  Where
the manifest, the plugin or a marker is, an uninstall takes neither of them away. -/
theorem modes_differ_through_destination :
    (IsName "acme" ∧ (¬ ["p"] <+: ["r"] ∧ ¬ ["r"] <+: ["p"]) ∧
      (∀ l ∈ [["r"], ["s"]], ¬ l <+: ["u", "s", "modules", "@acme"] ∧
        ¬ ["u", "s", "modules", "@acme"] <+: l) ∧ ¬ ["r"] <+: ["s"] ∧ ¬ ["s"] <+: ["r"]) ∧
      (∀ fs ∈ [borrowedManifestWorld, linkedRootWorld, lostMarkerWorld],
        fs.isDirectoryAt ["r", "modules", "acme"] = true ∧
          ∀ x ∈ fs.entries, ["p", "x"] <+: x.1 → x.2.isLink = false) ∧
      (∀ x ∈ detourBackWorld.entries, x.2.isLink = false) ∧
      installedSight (targetsAt "/r" "" "/r/modules/acme/x/../../../../s")
          ⟨"/u/s/modules/@acme"⟩ detourBackWorld
          ⟨"/r/modules/acme/x/../../../../s/modules/@acme/y"⟩ .copy =
        (some detourBackActions, .directory 0o755 []) ∧
      installedSight (targetsAt "/r" "" "/r/modules/acme/x/../../../../s")
          ⟨"/u/s/modules/@acme"⟩ detourBackWorld
          ⟨"/r/modules/acme/x/../../../../s/modules/@acme/y"⟩ .link =
        (some detourBackActions, .absent .tooManyLinks) ∧
      ∀ mode ∈ [InstallMode.copy, .link],
        leftAt true ⟨"/p"⟩ borrowedManifestWorld ["r", "modules", "acme", "x"] mode =
          (some [⟨.backend, ⟨"/p/x"⟩, ⟨"/r/modules/acme/x"⟩⟩],
            some [⟨.backend, ⟨"/p/x"⟩, ⟨"/r/modules/other/x"⟩⟩], some (laidEntry mode)) ∧
        leftAt true ⟨"/r/modules/acme/x"⟩ linkedRootWorld ["r", "modules", "acme", "x"] mode =
          (some [⟨.backend, ⟨"/p/x"⟩, ⟨"/r/modules/acme/x"⟩⟩], none, some (laidEntry mode)) ∧
        leftAt false ⟨"/p"⟩ lostMarkerWorld ["r", "modules", "acme", "x"] mode =
          (some [⟨.backend, ⟨"/p/x"⟩, ⟨"/r/modules/acme/x"⟩⟩], none, some (laidEntry mode)) := by
  refine ⟨by decide, by decide +kernel, by decide +kernel, by decide +kernel, by decide +kernel, ?_⟩
  decide +kernel

end Session

end PluginManager
