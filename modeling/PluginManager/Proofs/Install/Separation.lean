import PluginManager.Proofs.Install.Run

/-!
# Components beside each other

Components of one role stand side by side in a repository, each in the directory of its author.
Only the docker repository has one directory for all authors, where an underscore joins the author
to the component; two pairs that are joined to one text share their place there.

* `Role.Separates`: the role keeps two pairs of an author and a component apart.
* `outputNames_eq_iff`, `apart_join_iff`: **when two components share their place**, and that they
  lie apart otherwise.
* `touched_of_run`: what an operation touches, however it ends.
* `others_are_spared`: **an operation leaves the components of others alone**.
* `others_are_not_spared`: four ways in which it does not.
-/

namespace PluginManager

open FileSystem

/-! ## Output directories -/

namespace Role

variable {r : Role} {author component author' component' : String}

/-- Two pairs of an author and a component have places of their own. -/
def Separates (r : Role) (author component author' component' : String) : Prop :=
  (author, component) ≠ (author', component') ∧
    (r = docker → author ++ "_" ++ component ≠ author' ++ "_" ++ component')

instance (r : Role) (author component author' component' : String) :
    Decidable (r.Separates author component author' component') :=
  inferInstanceAs (Decidable (_ ∧ _))

/-- **When two components share their place.** -/
theorem outputNames_eq_iff :
    r.outputNames author component = r.outputNames author' component' ↔
      ¬ r.Separates author component author' component' := by
  have hpair : author = author' ∧ component = component' →
      author ++ "_" ++ component = author' ++ "_" ++ component' := by
    rintro ⟨rfl, rfl⟩
    rfl
  have hat : "@" ++ author = "@" ++ author' ↔ author = author' := by
    rw [← String.toList_inj, String.toList_append, String.toList_append, List.append_cancel_left_eq,
      String.toList_inj]
  rw [Separates, not_and_or, not_not, Prod.mk.injEq]
  cases r with
  | docker => simpa [outputNames] using hpair
  | backend => simp [outputNames]
  | admin => simp [outputNames, hat]
  | store => simp [outputNames, hat]

theorem length_outputNames (r : Role) (author component author' component' : String) :
    (r.outputNames author component).length = (r.outputNames author' component').length := by
  cases r <;> rfl

theorem apart_outputNames_iff (l : Location) :
    Apart (l ++ r.outputNames author component) (l ++ r.outputNames author' component') ↔
      r.Separates author component author' component' := by
  have hlength := r.length_outputNames author component author' component'
  constructor
  · intro h
    by_contra hshared
    exact h.ne (congrArg (l ++ ·) (outputNames_eq_iff.mpr hshared))
  · intro h
    constructor
    · intro hp
      have heq := ((List.prefix_append_right_inj l).mp hp).eq_of_length hlength
      exact outputNames_eq_iff.mp heq h
    · intro hp
      have heq := ((List.prefix_append_right_inj l).mp hp).eq_of_length hlength.symm
      exact outputNames_eq_iff.mp heq.symm h

theorem place_join_outputDirectory (target : Path) (r : Role) (ha : IsName author)
    (hc : IsName component) : (target.join (r.outputDirectory author component)).place =
      target.place ++ r.outputNames author component := by
  have hclimb := Path.climb_of_names (r.steps_outputDirectory ha hc) (r.isName_outputNames ha hc)
  rw [Path.place_join target (r.isAbsolute_outputDirectory ha hc), hclimb, Path.Climb.applyTo,
    Nat.sub_zero, List.take_length]

/-- **Two components of a role lie apart** in every repository, unless they share their place. -/
theorem apart_join_iff (target : Path) (ha : IsName author) (hc : IsName component)
    (ha' : IsName author') (hc' : IsName component') :
    Apart (target.join (r.outputDirectory author component)).place
        (target.join (r.outputDirectory author' component')).place ↔
      r.Separates author component author' component' := by
  rw [r.place_join_outputDirectory target ha hc, r.place_join_outputDirectory target ha' hc']
  exact apart_outputNames_iff target.place

theorem outputDirectory_eq_iff (ha : IsName author) (hc : IsName component)
    (ha' : IsName author') (hc' : IsName component') :
    r.outputDirectory author component = r.outputDirectory author' component' ↔
      ¬ r.Separates author component author' component' := by
  constructor
  · intro h hseparates
    have hapart := (apart_join_iff ⟨"/"⟩ ha hc ha' hc').mpr hseparates
    rw [h] at hapart
    exact hapart.ne rfl
  · intro h
    rw [Separates, not_and_or, not_not] at h
    rcases h with hpair | hjoined
    · obtain ⟨rfl, rfl⟩ := Prod.mk.inj hpair
      rfl
    · obtain ⟨rfl, htext⟩ := Classical.not_imp.mp hjoined
      rw [outputDirectory, outputDirectory, not_not.mp htext]

end Role

/-! ## Operations -/

namespace Session

variable {L : Layout} {fs fs' : FileSystem} {op : Operation} {t : Targets} {s s' : Session}
  {p : Path} {result : Except Failure (List Action)}

/-- **What an operation touches**, however it ends: nothing, or its destinations. -/
theorem touched_of_run (op : Operation) (hwf : fs.WellFormed)
    (hload : load fs p = .ok (.ofLocation L.root, L.manifest)) (hd : L.Direct fs)
    (hroots : ∀ c ∈ L.components,
      s'.roots c.role = none ∨ s'.roots c.role = some (L.target c.role))
    (h : op.run t p s fs = (result, s', fs')) :
    Touched (L.components.map L.destination) fs fs' := by
  by_cases hne : fs' = fs
  · rw [hne]
    exact .refl hwf _
  · obtain ⟨root, m, actions, hload', hplan, hleft⟩ := exists_plan_of_ne h hne
    obtain ⟨rfl, rfl⟩ := Prod.mk.inj (Except.ok.inj (hload.symm.trans hload'))
    obtain ⟨-, hsome, -⟩ := exists_of_plan hplan
    have hkept : ∀ c ∈ L.components, s'.roots c.role = some (L.target c.role) := by
      intro c hc
      refine (hroots c hc).resolve_left fun hnone => ?_
      have hc' := hsome c hc
      rw [hnone] at hc'
      exact absurd hc' (by simp)
    obtain rfl := actions_of_plan hkept hplan
    exact hleft _ ((hd.approachable hwf hload).leaves_run fun _ hc => hc)

/-- **An operation leaves the components of others alone.**  Two pairs of an author and a component
have directories of their own, of which neither lies inside the other in any repository, unless it
is the docker repository and the pairs are joined to one text; then they have one directory.  What
is in the place of a pair from which all components of the plugin are separated is as it was after
an operation, however it ends. -/
theorem others_are_spared :
    (∀ (r : Role) (author component author' component' : String), IsName author →
      IsName component → IsName author' → IsName component' →
      if r.Separates author component author' component' then
        r.outputDirectory author component ≠ r.outputDirectory author' component' ∧
          ∀ target : Path, Apart (target.join (r.outputDirectory author component)).place
            (target.join (r.outputDirectory author' component')).place
      else r.outputDirectory author component = r.outputDirectory author' component') ∧
    ∀ (L : Layout) (op : Operation) (t : Targets) (p : Path) (s s' : Session)
      (fs fs' : FileSystem) (result : Except Failure (List Action)) (r : Role)
      (author' component' : String), fs.WellFormed →
      load fs p = .ok (.ofLocation L.root, L.manifest) → L.Direct fs →
      (∀ c ∈ L.components,
        s'.roots c.role = none ∨ s'.roots c.role = some (L.target c.role)) →
      (∀ c ∈ L.components, c.role = r → r.Separates L.manifest.author c.name author' component') →
      (∀ c ∈ L.components, c.role ≠ r →
        Apart (L.place r ++ r.outputNames author' component') (L.destination c)) →
      op.run t p s fs = (result, s', fs') →
      SameTree (L.place r ++ r.outputNames author' component') fs fs' := by
  refine ⟨fun r author component author' component' ha hc ha' hc' => ?_,
    fun L op t p s s' fs fs' result r author' component' hwf hload hd hroots hsame hother h => ?_⟩
  · split
    · rename_i hseparates
      refine ⟨fun heq => ?_, fun target => ?_⟩
      · exact (Role.outputDirectory_eq_iff ha hc ha' hc').mp heq hseparates
      · exact (Role.apart_join_iff target ha hc ha' hc').mpr hseparates
    · rename_i hshared
      exact (Role.outputDirectory_eq_iff ha hc ha' hc').mpr hshared
  · refine (touched_of_run op hwf hload hd hroots h).sameTree fun d hd => ?_
    obtain ⟨c, hc, rfl⟩ := List.mem_map.mp hd
    by_cases hrole : c.role = r
    · subst hrole
      exact ((Role.apart_outputNames_iff (L.place c.role)).mpr (hsame c hc rfl)).symm
    · exact hother c hc hrole

/-! ## Neighbours -/

/-- Beside the place of the component there is one of the same author and one of another. -/
def neighbourWorld : FileSystem :=
  acmeWorld [(["r", "gunicorn.conf.py"], emptyFile), (["p", "manifest.json"], acmeManifest),
    (["p", "x"], .directory 0o755), (["p", "x", "plugin.py"], emptyFile),
    (["r", "modules", "acme", "y"], .directory 0o755),
    (["r", "modules", "acme", "y", "plugin.py"], emptyFile),
    (["r", "modules", "other"], .directory 0o755),
    (["r", "modules", "other", "x"], .directory 0o755)]

def neighbourLayout : Layout where
  root := ["p"]
  manifest := ⟨"demo", "acme", none, [⟨"x", .backend, "x"⟩]⟩
  target _ := ⟨"/r"⟩
  place _ := ["r"]
  origin _ := ["p", "x"]

def neighbourInstall : Except Failure (List Action) × Session × FileSystem :=
  install .copy repositoryTargets ⟨"/p"⟩ .start neighbourWorld

theorem wellFormed_neighbourWorld : neighbourWorld.WellFormed :=
  wellFormed_of_keys (by decide +kernel) (by decide +kernel)

theorem direct_neighbourLayout : neighbourLayout.Direct neighbourWorld := by
  have hcomponents : ∀ c ∈ neighbourLayout.components, c = ⟨"x", .backend, "x"⟩ := by
    intro c hc
    simpa [Layout.components, neighbourLayout] using hc
  refine ⟨by decide, fun c hc => ?_, by decide +kernel, fun c hc => ?_, fun c hc d hd => ?_⟩
  · obtain rfl := hcomponents c hc
    exact Layout.route_of_isSome wellFormed_neighbourWorld rfl (by decide +kernel)
      (by decide +kernel) (by decide +kernel)
  · obtain rfl := hcomponents c hc
    exact FileSystem.noLinks_of_inits (by decide +kernel)
  · obtain rfl := hcomponents c hc
    obtain rfl := hcomponents d hd
    exact .inl rfl

theorem others_are_spared_neighbours :
    (Role.docker.outputDirectory "acme" "b_c" = Role.docker.outputDirectory "acme_b" "c" ∧
      Role.store.outputDirectory "acme" "b_c" ≠ Role.store.outputDirectory "acme_b" "c") ∧
    neighbourInstall.2.2 ≠ neighbourWorld ∧
    SameTree ["r", "modules", "acme", "y"] neighbourWorld neighbourInstall.2.2 ∧
    SameTree ["r", "modules", "other", "x"] neighbourWorld neighbourInstall.2.2 := by
  obtain ⟨hdirectories, hspared⟩ := others_are_spared
  have hload : load neighbourWorld ⟨"/p"⟩ =
      .ok (.ofLocation neighbourLayout.root, neighbourLayout.manifest) :=
    eq_ok_of_toOption (by decide +kernel)
  have hroots : ∀ c ∈ neighbourLayout.components, neighbourInstall.2.1.roots c.role = none ∨
      neighbourInstall.2.1.roots c.role = some (neighbourLayout.target c.role) := by
    decide +kernel
  have hchanged : neighbourInstall.2.2 ≠ neighbourWorld := by
    intro heq
    have hcopied : neighbourInstall.2.2.lookup ["r", "modules", "acme", "x"] ≠
        neighbourWorld.lookup ["r", "modules", "acme", "x"] := by decide +kernel
    exact hcopied (by rw [heq])
  have hother : ∀ author component, ∀ c ∈ neighbourLayout.components, c.role ≠ .backend →
      Apart (neighbourLayout.place .backend ++ Role.backend.outputNames author component)
        (neighbourLayout.destination c) := by
    intro author component c hc hne
    obtain rfl : c = ⟨"x", .backend, "x"⟩ := by
      simpa [Layout.components, neighbourLayout] using hc
    exact absurd rfl hne
  have hjoined := hdirectories .docker "acme" "b_c" "acme_b" "c" (by decide) (by decide)
    (by decide) (by decide)
  rw [if_neg (by decide)] at hjoined
  have hapart := hdirectories .store "acme" "b_c" "acme_b" "c" (by decide) (by decide)
    (by decide) (by decide)
  rw [if_pos (by decide)] at hapart
  refine ⟨⟨hjoined, hapart.1⟩, hchanged, ?_, ?_⟩
  · exact hspared neighbourLayout (.install .copy) repositoryTargets ⟨"/p"⟩ .start _ _ _ _
      .backend "acme" "y" wellFormed_neighbourWorld hload direct_neighbourLayout hroots
      (by decide) (hother "acme" "y") rfl
  · exact hspared neighbourLayout (.install .copy) repositoryTargets ⟨"/p"⟩ .start _ _ _ _
      .backend "other" "x" wellFormed_neighbourWorld hload direct_neighbourLayout hroots
      (by decide) (hother "other" "x") rfl

/-! ## Neighbours that are not spared -/

/-- Another author's component is in the place that an underscore in a name leads to. -/
def joinedWorld : FileSystem :=
  acmeWorld [(["p", "manifest.json"], manifestOf "[\"b_c\",\"docker\"]"),
    (["p", "b_c"], .directory 0o755), (["r", "setup.sh"], emptyFile),
    (["r", "compose"], .directory 0o755), (["r", "compose", "plugins"], .directory 0o755),
    (["r", "compose", "plugins", "docker"], .directory 0o755),
    (["r", "compose", "plugins", "docker", "acme_b_c"], .directory 0o755)]

/-- The directory of the author is a link to that of another. -/
def linkedAuthorWorld : FileSystem :=
  acmeWorld [(["p", "manifest.json"], manifestOf "[\"x\",\"store\"]"),
    (["p", "x"], .directory 0o755), (["r", "nuxt.config.js"], emptyFile),
    (["r", "modules", "@acme"], .link ⟨"@other"⟩), (["r", "modules", "@other"], .directory 0o755),
    (["r", "modules", "@other", "x"], .directory 0o755)]

/-- The root of the target is given by a path through the destination, where there is a link.  Once
that is cleared, the path ends at the directory of the author's components, where there is one
named `modules`. -/
def detourToNeighbourWorld : FileSystem :=
  acmeWorld [(["p", "manifest.json"], acmeManifest), (["p", "x"], .directory 0o755),
    (["p", "x", "plugin.py"], emptyFile), (["r", "gunicorn.conf.py"], emptyFile),
    (["r", "sub"], .directory 0o755), (["r", "modules", "acme", "x"], .link ⟨"/r/sub"⟩),
    (["r", "modules", "acme", "modules"], .directory 0o755),
    (["r", "modules", "acme", "modules", "acme"], .directory 0o755),
    (["r", "modules", "acme", "modules", "acme", "x"], .directory 0o755),
    (["r", "modules", "acme", "modules", "acme", "x", "plugin.py"], .file 0o644 [0])]

/-- The second destination is inside the first, where by then a link leads to another author's
component. -/
def nestedNeighbourWorld : FileSystem :=
  acmeWorld [(["p", "manifest.json"], manifestOf "[\"compose\",\"backend\"],[\"y\",\"docker\"]"),
    (["p", "compose"], .directory 0o755), (["p", "compose", "plugins"], .link ⟨"/r/modules/other"⟩),
    (["p", "y"], .directory 0o755), (["r", "gunicorn.conf.py"], emptyFile),
    (["r", "modules", "acme", "setup.sh"], emptyFile),
    (["r", "modules", "other"], .directory 0o755),
    (["r", "modules", "other", "docker"], .directory 0o755),
    (["r", "modules", "other", "docker", "acme_y"], .file 0o644 [0])]

/-- Others are not spared where two pairs are joined to one text, where a link or the path of a
target root leads to them, and where a destination lies inside another. -/
theorem others_are_not_spared :
    (("acme", "b_c") ≠ ("acme_b", "c") ∧ (∀ n ∈ ["acme", "b_c", "acme_b", "c"], IsName n) ∧
        Role.docker.outputDirectory "acme" "b_c" = Role.docker.outputDirectory "acme_b" "c") ∧
      glimpse .uninstall (targetsAt "" "/r" "") joinedWorld
          ["r", "compose", "plugins", "docker", "acme_b_c"] =
        (some [⟨.docker, ⟨"/p/b_c"⟩, ⟨"/r/compose/plugins/docker/acme_b_c"⟩⟩],
          some (.directory 0o755), none) ∧
      glimpse .uninstall (targetsAt "" "" "/r") linkedAuthorWorld ["r", "modules", "@other", "x"] =
        (some [⟨.store, ⟨"/p/x"⟩, ⟨"/r/modules/@acme/x"⟩⟩], some (.directory 0o755), none) ∧
      glimpse (.install .copy) (targetsAt "/r/modules/acme/x/.." "" "") detourToNeighbourWorld
          ["r", "modules", "acme", "modules", "acme", "x", "plugin.py"] =
        (some [⟨.backend, ⟨"/p/x"⟩, ⟨"/r/modules/acme/x/../modules/acme/x"⟩⟩],
          some (.file 0o644 [0]), some (.file 0o644 [])) ∧
      glimpse (.install .copy) (targetsAt "/r" "/r/modules/acme" "") nestedNeighbourWorld
          ["r", "modules", "other", "docker", "acme_y"] =
        (some [⟨.backend, ⟨"/p/compose"⟩, ⟨"/r/modules/acme/compose"⟩⟩,
          ⟨.docker, ⟨"/p/y"⟩, ⟨"/r/modules/acme/compose/plugins/docker/acme_y"⟩⟩],
          some (.file 0o644 [0]), some (.directory 0o755)) := by
  decide +kernel

end Session

end PluginManager
