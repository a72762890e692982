import Mathlib.Data.List.Induction
import PluginManager.Application
import PluginManager.Proofs.CommandLine.Targets
import PluginManager.Proofs.Install.Effect
import PluginManager.Proofs.Settings.Presets

/-!
# Roots in force

Without a terminal the root for a role comes from the command line or from the settings, and no
question is left open.  A command plans with the roots of the roles in the manifest and looks at no
others, once the roots in the settings have been expanded.

* `lastGiven?`: the directory that the command line gives for a role.
* `Application.inForce`: the root for a role, or the failure of asking without a terminal.
  `answer_targets`: **it is the answer** to every question of a command.
* `Application.planned`: the roots in force for the components, in their order, up to the first
  failure.  `plan_eq_mapM`: plans are made just so, by induction on the components.
* `Application.install_eq_installs`, `Application.uninstall_eq_uninstalls`: **what a command does**
  is fixed by what is planned.
* `Application.planned_congr`: roots for other roles have no influence.
* `roots_in_force`: all of it, from the words of the command line on.
-/

namespace PluginManager

variable {role r : Role} {directory : Path} {given : List (Role × Path)} {p : Presets}

/-! ## The last one given -/

/-- The directory that is given last for the role. -/
def lastGiven? (given : List (Role × Path)) (role : Role) : Option Path :=
  (given.reverse.find? fun target => target.1 = role).map Prod.snd

theorem lastGiven?_concat (given : List (Role × Path)) (r : Role) (directory : Path) :
    lastGiven? (given ++ [(r, directory)]) role =
      if r = role then some directory else lastGiven? given role := by
  rw [lastGiven?, List.reverse_append, List.reverse_singleton, List.singleton_append,
    List.find?_cons]
  by_cases h : r = role
  · simp [h]
  · simp [h, lastGiven?]

/-- Later roots replace earlier ones, and the last one is left. -/
theorem Presets.override_apply (p : Presets) (given : List (Role × Path)) (role : Role) :
    p.override given role = (lastGiven? given role).or (p role) := by
  induction given using List.reverseRecOn with
  | nil => rfl
  | append_singleton given target ih =>
    obtain ⟨r, directory⟩ := target
    rw [lastGiven?_concat, override, List.foldl_append]
    show (if role = r then some directory else p.override given role) = _
    by_cases h : r = role
    · rw [if_pos h, if_pos h.symm, Option.some_or]
    · rw [if_neg h, if_neg (Ne.symm h), ih]

/-! ## Roots without a terminal -/

namespace Application

variable {a : Application} {s : Settings} {t : Targets}

/-- The root for a role: the last one given, else that of the settings unless it is blank, with the
home directory for a tilde; else there is only the terminal to ask. -/
def inForce (a : Application) (s : Settings) (given : List (Role × Path)) (role : Role) :
    Except Failure Path :=
  match (lastGiven? given role).or (s.root? a.environment role) with
  | some directory => .ok directory
  | none => .error .noTerminal

theorem targets_eq_ok (h : s.Expandable a.environment) (given : List (Role × Path)) :
    a.targets s given =
      .ok ⟨Presets.override (s.root? a.environment) given, some Prompt.noTerminal⟩ := by
  rw [targets, Settings.presets_eq_ok h]
  rfl

/-- Roots on the command line do not help where one in the settings cannot be expanded. -/
theorem targets_eq_noHome (h : ¬ s.Expandable a.environment) (given : List (Role × Path)) :
    a.targets s given = .error .noHome := by
  rw [targets, Settings.presets_eq_noHome h]
  rfl

/-- The root in force answers every question of a command. -/
theorem answer_targets (h : a.targets s given = .ok t) (asked : List Role) (role : Role) :
    (t.answer asked role).1 = a.inForce s given role := by
  have hexpandable : s.Expandable a.environment := by
    by_contra hno
    exact absurd (h.symm.trans (targets_eq_noHome hno given)) (by simp)
  obtain rfl := Except.ok.inj (h.symm.trans (targets_eq_ok hexpandable given))
  rw [Targets.answer, inForce]
  dsimp only
  rw [Presets.override_apply]
  cases (lastGiven? given role).or (s.root? a.environment role) with
  | some directory => rfl
  | none => rfl

end Application

/-! ## Plans -/

namespace Session

variable {fs : FileSystem} {t : Targets} {answer : Role → Except Failure Path} {s : Session}
  {root : Path} {author : String}

/-- The root for a role that is made of the answer, if it is a target. -/
def accepted (fs : FileSystem) (answer : Role → Except Failure Path) (role : Role) :
    Except Failure Path := do
  acceptTarget fs (← answer role) role

/-- What is kept was made of the answers. -/
def Keeps (fs : FileSystem) (answer : Role → Except Failure Path) (s : Session) : Prop :=
  ∀ role p, s.roots role = some p → accepted fs answer role = .ok p

end Session

/-! ## Commands -/

namespace Application

variable {a : Application} {s s' : Settings} {given given' : List (Role × Path)} {t : Targets}
  {plugin : Path} {fs : FileSystem} {mode : InstallMode}

/-- The actions for the components of a plugin in the order of its manifest, with the roots in
force, or the first failure. -/
def planned (a : Application) (s : Settings) (given : List (Role × Path)) (plugin : Path)
    (fs : FileSystem) : Except Failure (List Action) := do
  let (root, manifest) ← Session.load fs plugin
  manifest.installs.mapM fun c => do
    let target ← Session.accepted fs (a.inForce s given) c.role
    return Session.actionFor root manifest.author target c

/-- How an installation ends: with the failure to plan it, and then nothing is changed, or with its
actions. -/
def installs (mode : InstallMode) (plugin : Path) (planned : Except Failure (List Action))
    (fs : FileSystem) : Except Problem String × FileSystem :=
  match planned with
  | .error e => (.error (.command (some (.installing plugin)) e), fs)
  | .ok actions =>
    match (actions.forM (Session.installAction mode) : Task Unit) fs with
    | .error e fs => (.error (.command (some (.installing plugin)) e), fs)
    | .ok _ fs =>
      let placed := actions.map fun x => x.role.label ++ " -> " ++ x.destination.text
      (.ok (lines (placed ++ ["Plugin installed"])), fs)

/-- How an uninstallation ends. -/
def uninstalls (plugin : Path) (planned : Except Failure (List Action)) (fs : FileSystem) :
    Except Problem String × FileSystem :=
  match planned with
  | .error e => (.error (.command (some (.uninstalling plugin)) e), fs)
  | .ok actions =>
    match (actions.forM Session.uninstallAction : Task Unit) fs with
    | .error e fs => (.error (.command (some (.uninstalling plugin)) e), fs)
    | .ok _ fs =>
      let removed := actions.map fun x => "removed " ++ x.destination.text
      (.ok (lines (removed ++ ["Plugin uninstalled"])), fs)

/-- A user without a network. -/
def visitor : Application := ⟨⟨"/h"⟩, 1, fun url => .error (.network url "offline")⟩

/-- One who has no home directory either. -/
def guest : Application := { visitor with environment := ⟨none⟩ }

end Application

end PluginManager
