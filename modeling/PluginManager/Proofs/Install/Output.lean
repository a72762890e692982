import PluginManager.Proofs.Path.Descent
import PluginManager.Proofs.Path.Place
import PluginManager.Role

/-!
# Where components land

* `Role.outputNames`: the names that lead from a target root to a component, for an author that is
  one name.
* `steps_outputDirectory`: they are the steps of the output directory.
* `join_outputDirectory`: so a target root is descended by them.
* `eq_of_prefix_outputNames`: no component lands inside another.
* `climb_outputDirectory_down`: whatever the author, the output directory ends with a name.
-/

namespace PluginManager

theorem IsName.append_underscore {s t : String} (hs : '/' ∉ s.toList) (ht : '/' ∉ t.toList) :
    IsName (s ++ "_" ++ t) :=
  .of_mem (c := '_') (by simp) (by decide) (by simp [hs, ht])

theorem IsName.at_append {s : String} (hs : '/' ∉ s.toList) : IsName ("@" ++ s) :=
  .of_mem (c := '@') (by simp) (by decide) (by simp [hs])

namespace Role

/-- The names from a target root to a component. -/
def outputNames (r : Role) (author component : String) : List String :=
  match r with
  | docker => ["compose", "plugins", "docker", author ++ "_" ++ component]
  | backend => ["modules", author, component]
  | admin | store => ["modules", "@" ++ author, component]

variable {author component : String}

theorem two_le_length_outputNames (r : Role) : 2 ≤ (r.outputNames author component).length := by
  cases r <;> simp [outputNames]

theorem isName_outputNames (r : Role) (ha : IsName author) (hc : IsName component) :
    ∀ name ∈ r.outputNames author component, IsName name := by
  have hmodules : IsName "modules" := by constructor <;> decide
  have hcompose : IsName "compose" := by constructor <;> decide
  have hplugins : IsName "plugins" := by constructor <;> decide
  have hdocker : IsName "docker" := by constructor <;> decide
  intro name hname
  cases r <;> simp only [outputNames, List.mem_cons, List.not_mem_nil, or_false] at hname
  case docker =>
    rcases hname with rfl | rfl | rfl | rfl
    · exact hcompose
    · exact hplugins
    · exact hdocker
    · exact .append_underscore ha.no_slash hc.no_slash
  case backend =>
    rcases hname with rfl | rfl | rfl
    · exact hmodules
    · exact ha
    · exact hc
  all_goals
    rcases hname with rfl | rfl | rfl
    · exact hmodules
    · exact .at_append ha.no_slash
    · exact hc

/-! ## The steps of an output directory -/

theorem steps_outputDirectory (r : Role) (ha : IsName author) (hc : IsName component) :
    FileSystem.steps (r.outputDirectory author component) = r.outputNames author component := by
  have hat : IsName ("@" ++ author) := .at_append ha.no_slash
  have hdocker : IsName (author ++ "_" ++ component) := .append_underscore ha.no_slash hc.no_slash
  have hmodules : FileSystem.steps ⟨"modules"⟩ = ["modules"] := by decide
  have hcompose :
      FileSystem.steps ⟨"compose/plugins/docker"⟩ = ["compose", "plugins", "docker"] := by
    decide
  cases r with
  | docker => rw [outputDirectory, FileSystem.steps_child _ hdocker, hcompose]; rfl
  | backend =>
    rw [outputDirectory, FileSystem.steps_child _ hc, FileSystem.steps_child _ ha, hmodules]; rfl
  | admin =>
    rw [outputDirectory, FileSystem.steps_child _ hc, FileSystem.steps_child _ hat, hmodules]; rfl
  | store =>
    rw [outputDirectory, FileSystem.steps_child _ hc, FileSystem.steps_child _ hat, hmodules]; rfl

theorem isAbsolute_outputDirectory (r : Role) (ha : IsName author) (hc : IsName component) :
    (r.outputDirectory author component).isAbsolute = false := by
  have hat : IsName ("@" ++ author) := .at_append ha.no_slash
  have hdocker : IsName (author ++ "_" ++ component) := .append_underscore ha.no_slash hc.no_slash
  have hmodules : (Path.mk "modules").isAbsolute = false := by decide
  have hcompose : (Path.mk "compose/plugins/docker").isAbsolute = false := by decide
  cases r with
  | docker => rw [outputDirectory, Path.isAbsolute_child (by decide) hdocker, hcompose]
  | backend =>
    rw [outputDirectory, Path.isAbsolute_child (Path.child_text_ne_empty _ ha) hc,
      Path.isAbsolute_child (by decide) ha, hmodules]
  | admin =>
    rw [outputDirectory, Path.isAbsolute_child (Path.child_text_ne_empty _ hat) hc,
      Path.isAbsolute_child (by decide) hat, hmodules]
  | store =>
    rw [outputDirectory, Path.isAbsolute_child (Path.child_text_ne_empty _ hat) hc,
      Path.isAbsolute_child (by decide) hat, hmodules]

/-- Joining an output directory is going down by its names. -/
theorem join_outputDirectory (target : Path) (r : Role) (ha : IsName author)
    (hc : IsName component) :
    target.join (r.outputDirectory author component) =
      target.descend (r.outputNames author component) := by
  have hdown : ∀ (first : String) (names : List String), (Path.mk first).text ≠ "" →
      (Path.mk first).isAbsolute = false → (∀ n ∈ names, IsName n) →
      target.join ((Path.mk first).descend names) = target.descend (first :: names) := by
    intro first names hne habs hnames
    rw [Path.join_descend target hne habs hnames, Path.descend_cons, Path.child]
  have hmodules : ∀ name, IsName name →
      target.join (((Path.mk "modules").child name).child component) =
        target.descend ["modules", name, component] := by
    intro name hname
    rw [← hdown "modules" [name, component] (by decide) (by decide) (by simp [hname, hc])]
    rfl
  cases r with
  | docker =>
    have hdocker : IsName (author ++ "_" ++ component) :=
      .append_underscore ha.no_slash hc.no_slash
    have hplugins : IsName "plugins" := by constructor <;> decide
    have hdir : IsName "docker" := by constructor <;> decide
    have hpath : Path.mk "compose/plugins/docker" =
        (Path.mk "compose").descend ["plugins", "docker"] := by decide
    rw [outputDirectory, hpath, ← Path.descend_concat, outputNames,
      ← hdown "compose" ["plugins", "docker", author ++ "_" ++ component] (by decide) (by decide)
        (by simp [hplugins, hdir, hdocker])]
    rfl
  | backend => exact hmodules author ha
  | admin => exact hmodules ("@" ++ author) (.at_append ha.no_slash)
  | store => exact hmodules ("@" ++ author) (.at_append ha.no_slash)

/-- No component lands inside another. -/
theorem eq_of_prefix_outputNames {r r' : Role} {component' : String}
    (h : r.outputNames author component <+: r'.outputNames author component') :
    r.outputNames author component = r'.outputNames author component' := by
  have hhead : ∀ {x : String} {xs ys : List String}, x :: xs <+: ys → ys.head? = some x := by
    rintro x xs _ ⟨t, rfl⟩
    rfl
  have hmodules : ("modules" : String) ≠ "compose" := by decide
  cases r <;> cases r' <;>
    first
    | exact h.eq_of_length rfl
    | exact absurd (Option.some.inj (hhead h)) hmodules
    | exact absurd (Option.some.inj (hhead h)).symm hmodules

/-- The last step of an author joined to a component name is a name. -/
theorem exists_steps_underscore (author : String) (hc : IsName component) :
    ∃ init last, IsName last ∧ FileSystem.steps ⟨author ++ "_" ++ component⟩ = init ++ [last] := by
  have htail : '/' ∉ ("_" ++ component).toList := by simp [hc.no_slash]
  obtain ⟨init, last, hauthor, hboth⟩ :=
    Text.splitAt_append_of_not_mem author.toList htail
  have hmem : last ∈ Text.splitAt '/' author.toList := by simp [hauthor]
  have hlast : '/' ∉ last := Text.not_mem_of_mem_splitAt hmem
  have hname : IsName (String.ofList last ++ "_" ++ component) :=
    .append_underscore (by rwa [String.toList_ofList]) hc.no_slash
  have hpiece : String.ofList (last ++ ("_" ++ component).toList)
      = String.ofList last ++ "_" ++ component := by
    rw [← String.toList_inj]
    simp
  refine ⟨(init.map String.ofList).filter (· ≠ ""), _, hname, ?_⟩
  rw [FileSystem.steps, Path.pieces, Text.splitText, String.append_assoc, String.toList_append,
    hboth, List.map_append, List.filter_append, List.map_singleton, hpiece]
  simp [hname.ne_empty]

theorem climb_outputDirectory_down (r : Role) (author : String) (hc : IsName component)
    (h : (r.outputDirectory author component).isAbsolute = false) :
    (r.outputDirectory author component).climb.down ≠ [] := by
  have hlast : ∃ init last, IsName last ∧
      FileSystem.steps (r.outputDirectory author component) = init ++ [last] := by
    cases r with
    | docker =>
      obtain ⟨init, last, hname, hsteps⟩ := exists_steps_underscore author hc
      have hrel : (Path.mk (author ++ "_" ++ component)).isAbsolute = false := by
        cases habs : (Path.mk (author ++ "_" ++ component)).isAbsolute with
        | false => rfl
        | true =>
          rw [outputDirectory, Path.child, Path.join_of_isAbsolute _ habs, habs] at h
          exact absurd h (by decide)
      refine ⟨["compose", "plugins", "docker"] ++ init, last, hname, ?_⟩
      rw [outputDirectory, Path.child, FileSystem.steps_join _ hrel, hsteps, List.append_assoc]
      rfl
    | backend => exact ⟨_, component, hc, FileSystem.steps_child _ hc⟩
    | admin => exact ⟨_, component, hc, FileSystem.steps_child _ hc⟩
    | store => exact ⟨_, component, hc, FileSystem.steps_child _ hc⟩
  obtain ⟨init, last, hname, hsteps⟩ := hlast
  rw [Path.climb_of_steps hsteps hname]
  simp

end Role

end PluginManager
