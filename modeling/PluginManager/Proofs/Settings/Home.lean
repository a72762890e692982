import PluginManager.Proofs.Install.InForce
import PluginManager.Proofs.Install.Targets
import PluginManager.Proofs.Path.Place
import PluginManager.Proofs.Settings.Layers

/-!
# One target, written in two places

The directory for a role may be written in the user's file or on the command line.  In the file a
tilde at the front stands for the home directory, and blanks around the text count; on the command
line blanks are dropped, and a tilde is a character like any other.  What is typed at a terminal has
both: blanks are dropped, and a tilde is expanded.

* `Settings.Writes`: the user's file has the text for the role.
* `Path.place_prefix_of_absolute`: behind the home directory, what goes down stays below it.
* `Session.Roots`: a command has targets, and its root for a role is that of a directory.
* `Session.roots_of_text`: **what becomes of a text** in either place, and when that is one root.
* `Session.tilde_is_not_expanded`: where it is not one.
-/

namespace PluginManager

variable {fs : FileSystem} {role : Role} {s : String}

/-! ## Texts in a user's file -/

/-- The user's file can be read, and has the text for the role. -/
def Settings.Writes (fs : FileSystem) (e : Environment) (explicit : Option Path) (role : Role)
    (s : String) : Prop :=
  ∃ p text user, userFile? fs e explicit = some p ∧ fs.readText p = .ok text ∧
    Toml.parse text = some user ∧ Suitable user ∧
    given? string? user "targets" role.label = some s

theorem Settings.writes_of_any {e : Environment} {explicit : Option Path} {p : Path} (text : String)
    (hfile : userFile? fs e explicit = some p) (htext : fs.readText p = .ok text)
    (h : ((Toml.parse text).any fun user =>
      decide (Suitable user ∧ given? string? user "targets" role.label = some s)) = true) :
    Writes fs e explicit role s := by
  obtain ⟨user, hparse, huser⟩ := (Option.any_eq_true _ _).mp h
  obtain ⟨hsuitable, hgiven⟩ := of_decide_eq_true huser
  exact ⟨p, text, user, hfile, htext, hparse, hsuitable, hgiven⟩

theorem Settings.Writes.load {e : Environment} {explicit : Option Path}
    (h : Writes fs e explicit role s) :
    ∃ settings, load fs e explicit = .ok settings ∧ settings.target role = some s := by
  obtain ⟨p, text, user, hfile, htext, hparse, hsuitable, hgiven⟩ := h
  refine ⟨chosen user, ?_, ?_⟩
  · rw [load_of_userFile hfile htext hparse, ofUser_eq_ok (Toml.parse_ordered hparse) hsuitable]
    rfl
  · cases role <;> exact hgiven

/-- The label is all that stands before the first equals sign. -/
theorem TargetArgument.parse_label (role : Role) (hblank : Text.isBlankText s = false) :
    TargetArgument.parse (role.label ++ "=" ++ s) = .ok (role, ⟨Text.trim s⟩) :=
  parse_eq_ok_iff.mpr
    ⟨role.label, s, rfl, by cases role <;> decide, by cases role <;> decide, hblank, rfl⟩

/-! ## Below the home directory -/

namespace Path

/-- Steps that do not go up lead to a place below. -/
theorem prefix_foldl_takeStep {pieces : List String} (h : ".." ∉ pieces) (l : List String) :
    l <+: pieces.foldl takeStep l := by
  induction pieces generalizing l with
  | nil => exact List.prefix_rfl
  | cons piece rest ih =>
    rw [List.mem_cons, not_or] at h
    refine List.IsPrefix.trans ?_ (ih h.2 _)
    rw [takeStep, if_neg (Ne.symm h.1)]
    split
    · exact List.prefix_rfl
    · exact List.prefix_append l [piece]

/-- A text that stays below the directory it is put behind: nothing, or steps behind a slash that do
not go up. -/
def Continues (rest : String) : Prop :=
  rest = "" ∨ ∃ names, rest = "/" ++ names ∧ ".." ∉ FileSystem.steps ⟨names⟩

/-- Behind a directory such a text leads to a place at or below it. -/
theorem place_prefix_of_absolute {text rest : String} {above root : Path}
    (habove : fs.absolute ⟨text⟩ = .ok above) (hroot : fs.absolute ⟨text ++ rest⟩ = .ok root)
    (h : Continues rest) : above.place <+: root.place := by
  obtain rfl | ⟨names, rfl, hnames⟩ := h
  · rw [String.append_empty] at hroot
    obtain rfl := Except.ok.inj (habove.symm.trans hroot)
    exact List.prefix_rfl
  · rw [FileSystem.absolute_eq_ok_iff] at habove hroot
    have hne : text ≠ "" := by
      rintro rfl
      cases habove
    have hsteps : FileSystem.steps root = FileSystem.steps above ++ (Path.mk names).way := by
      rw [steps_absoluteFrom? hroot, steps_absoluteFrom? habove, isAbsolute_append hne, way, way,
        way, ← String.append_assoc, FileSystem.steps_append_slash, List.filter_append,
        List.append_assoc]
    rw [place, place, hsteps, List.foldl_append]
    exact prefix_foldl_takeStep (fun hmem => hnames (List.mem_filter.mp hmem).1) _

end Path

/-! ## Roots -/

namespace Session

variable {a : Application} {settings : Settings} {given : List (Role × Path)} {t : Targets}
  {session : Session} {directory : Path}

/-- A root in force that was not asked for before is checked. -/
theorem targetRoot_of_inForce (htargets : a.targets settings given = .ok t)
    (hforce : a.inForce settings given role = .ok directory) (hroot : session.roots role = none) :
    (targetRoot fs t role session).1 = acceptTarget fs directory role := by
  have hanswer := Application.answer_targets htargets session.asked role
  rw [hforce] at hanswer
  exact targetRoot_of_answer hroot (Prod.ext hanswer rfl)

/-- The targets of a command that is given `given` are there, and the root for the role is that of
the directory. -/
def Roots (a : Application) (settings : Settings) (given : List (Role × Path)) (fs : FileSystem)
    (role : Role) (directory : Path) : Prop :=
  ∃ t, a.targets settings given = .ok t ∧ ∀ session : Session, session.roots role = none →
    (targetRoot fs t role session).1 = acceptTarget fs directory role

theorem roots_of_inForce (hsettings : settings.Expandable a.environment)
    (hforce : a.inForce settings given role = .ok directory) :
    Roots a settings given fs role directory :=
  ⟨_, Application.targets_eq_ok hsettings given, fun _ hroot =>
    targetRoot_of_inForce (Application.targets_eq_ok hsettings given) hforce hroot⟩

/-- **What becomes of a text** that is given for a role and is not blank.  In the user's file it is
taken as it is, with the home directory for a tilde in front; on the command line it is taken
without the blanks around it; and no command has targets where a root in the settings cannot be
expanded, as a tilde cannot without a home directory.  Without such blanks and without a tilde in
front all come to one root, that of an answer at a terminal too, and behind a tilde the file's root
is that of an answer, and the home directory or below it if the rest does not lead away. -/
theorem roots_of_text (a : Application) (fs : FileSystem) (role : Role) (s : String)
    (hblank : Text.isBlankText s = false) :
    (∀ explicit, Settings.Writes fs a.environment explicit role s →
      ∃ settings, Settings.load fs a.environment explicit = .ok settings ∧
        settings.target role = some s ∧
        (settings.Expandable a.environment → ∃ directory,
          expandHome a.environment s = some directory ∧
            Roots a settings [] fs role directory)) ∧
    (∃ directory, TargetArgument.parse (role.label ++ "=" ++ s) = .ok (role, directory) ∧
      ∀ settings : Settings, settings.Expandable a.environment →
        Roots a settings [(role, directory)] fs role ⟨Text.trim s⟩) ∧
    (∀ settings : Settings, ¬ settings.Expandable a.environment → ∀ given,
      a.targets settings given = .error .noHome) ∧
    (Text.trim s = s → s.toList.head? ≠ some '~' →
      expandHome a.environment s = some ⟨Text.trim s⟩ ∧
        typedAnswer a.environment s = ⟨Text.trim s⟩) ∧
    ∀ home, a.environment.home = some home →
      (∀ settings : Settings, settings.Expandable a.environment) ∧
      (Text.trim s = s → expandHome a.environment s = some (typedAnswer a.environment s)) ∧
      ∀ rest directory above root, s = "~" ++ rest → Path.Continues rest →
        expandHome a.environment s = some directory → fs.absolute ⟨home⟩ = .ok above →
          acceptTarget fs directory role = .ok root → above.place <+: root.place := by
  refine ⟨fun explicit hwrites => ?_, ⟨_, TargetArgument.parse_label role hblank, ?_⟩,
    fun _ => Application.targets_eq_noHome, ?_, fun home hhome => ⟨fun settings => settings.expandable_of_home hhome, ?_, ?_⟩⟩
  · obtain ⟨settings, hload, htarget⟩ := hwrites.load
    have hroot := Settings.root?_of_target (e := a.environment) htarget hblank
    refine ⟨settings, hload, htarget, fun hsettings => ?_⟩
    obtain ⟨directory, hexpand⟩ := Option.ne_none_iff_exists'.mp (hsettings role s htarget)
    refine ⟨directory, hexpand, roots_of_inForce hsettings ?_⟩
    simp [Application.inForce, lastGiven?, hroot, hexpand]
  · intro settings hsettings
    refine roots_of_inForce hsettings ?_
    simp [Application.inForce, lastGiven?]
  · intro htrim hhead
    have hexpand := expandHome_of_head a.environment hhead
    rw [typedAnswer, htrim, hexpand]
    exact ⟨rfl, rfl⟩
  · intro htrim
    rw [typedAnswer, htrim]
    obtain ⟨directory, hexpand⟩ := exists_expandHome hhome s
    rw [hexpand, Option.getD_some]
  · rintro rest directory above root rfl hrest hexpand habove hroot
    obtain rfl := Option.some.inj ((expandHome_tilde hhome rest).symm.trans hexpand)
    exact Path.place_prefix_of_absolute habove (acceptTarget_eq_ok_iff.mp hroot).1 hrest

def backendText (s : String) : String := "[targets]\nbackend = \"" ++ s ++ "\"\n"

/-- A home directory `/h`, checkouts of the backend inside it, next to it and elsewhere, and three
files with settings. -/
def checkouts : FileSystem where
  entries :=
    [(["c"], .file 0o644 (Text.encode (backendText "~/bitcart"))),
      (["d"], .file 0o644 (Text.encode (backendText "~bitcart"))),
      (["e"], .file 0o644 (Text.encode (backendText "/r"))),
      (["h"], .directory 0o755), (["h", "bitcart"], .directory 0o755),
      (["h", "bitcart", "gunicorn.conf.py"], .file 0o644 []), (["hbitcart"], .directory 0o755),
      (["hbitcart", "gunicorn.conf.py"], .file 0o644 []), (["r"], .directory 0o755),
      (["r", "gunicorn.conf.py"], .file 0o644 [])]
  times := []
  clock := 0
  workingDirectory := []

/-- A path without a tilde is one root in both places, and behind a tilde and a slash the file's
root is below the home directory; without one there are no targets. -/
theorem roots_of_text_checkouts :
    Settings.Writes checkouts ⟨"/h"⟩ (some ⟨"/e"⟩) .backend "/r" ∧
    expandHome ⟨"/h"⟩ "/r" = some ⟨Text.trim "/r"⟩ ∧
    Settings.Writes checkouts ⟨"/h"⟩ (some ⟨"/c"⟩) .backend "~/bitcart" ∧
    (Path.mk "/h").place <+: (Path.mk "/h/bitcart").place ∧
    (∃ settings, Settings.load checkouts ⟨"/h"⟩ (some ⟨"/c"⟩) = .ok settings ∧
      Roots Application.visitor settings [] checkouts .backend ⟨"/h/bitcart"⟩) ∧
    ∃ settings, Settings.load checkouts ⟨none⟩ (some ⟨"/c"⟩) = .ok settings ∧
      Application.guest.targets settings [(.backend, ⟨"/r"⟩)] = .error .noHome := by
  have hplain : Settings.Writes checkouts ⟨"/h"⟩ (some ⟨"/e"⟩) .backend "/r" :=
    Settings.writes_of_any (backendText "/r") rfl (eq_ok_of_toOption (by decide +kernel))
      (by decide +kernel)
  have htilde : ∀ e, Settings.Writes checkouts e (some ⟨"/c"⟩) .backend "~/bitcart" := fun e =>
    Settings.writes_of_any (backendText "~/bitcart") rfl (eq_ok_of_toOption (by decide +kernel))
      (by decide +kernel)
  obtain ⟨-, -, -, hsame, -⟩ :=
    roots_of_text Application.visitor checkouts .backend "/r" (by decide +kernel)
  obtain ⟨hfile, -, -, -, hhome⟩ :=
    roots_of_text Application.visitor checkouts .backend "~/bitcart" (by decide +kernel)
  obtain ⟨hexpandable, -, hbelow⟩ := hhome "/h" rfl
  have hexpand : expandHome ⟨"/h"⟩ "~/bitcart" = some ⟨"/h/bitcart"⟩ := by decide +kernel
  have hroot : acceptTarget checkouts ⟨"/h/bitcart"⟩ .backend = .ok ⟨"/h/bitcart"⟩ := by rfl
  obtain ⟨settings, hload, -, hroots⟩ := hfile _ (htilde _)
  obtain ⟨directory, hdirectory, htargets⟩ := hroots (hexpandable settings)
  obtain rfl := Option.some.inj (hexpand.symm.trans hdirectory)
  obtain ⟨hguest, -, hnone, -⟩ :=
    roots_of_text Application.guest checkouts .backend "~/bitcart" (by decide +kernel)
  obtain ⟨settings', hload', htarget', -⟩ := hguest _ (htilde _)
  have hnot : ¬ settings'.Expandable Application.guest.environment := fun h =>
    h .backend _ htarget' (by decide +kernel)
  exact ⟨hplain, (hsame (by decide +kernel) (by decide +kernel)).1, htilde _,
    hbelow "/bitcart" _ _ _ (by decide +kernel) (.inr ⟨"bitcart", rfl, by decide +kernel⟩) hexpand
      (by rfl) hroot,
    ⟨settings, hload, htargets⟩, settings', hload', hnone _ hnot _⟩

/-- Settings with a root for the backend and nothing else that is chosen. -/
def backendSettings (s : String) : Settings :=
  { Settings.chosen [] with targets := ⟨some s, none, none, none⟩ }

/-- What the file takes for a directory below the home directory, the command line takes for one
named by a tilde; and with a name at the tilde the file's root is not below the home directory. -/
theorem tilde_is_not_expanded :
    Text.isBlankText "~/bitcart" = false ∧
    Settings.load checkouts ⟨"/h"⟩ (some ⟨"/c"⟩) = .ok (backendSettings "~/bitcart") ∧
    (∃ t, Application.visitor.targets (backendSettings "~/bitcart") [] = .ok t ∧
      (targetRoot checkouts t .backend .start).1 = .ok ⟨"/h/bitcart"⟩) ∧
    TargetArgument.parse "backend=~/bitcart" = .ok (.backend, ⟨"~/bitcart"⟩) ∧
    (∃ t, Application.visitor.targets (Settings.chosen []) [(.backend, ⟨"~/bitcart"⟩)] = .ok t ∧
      (targetRoot checkouts t .backend .start).1 = .error (.file ⟨"/~/bitcart"⟩ .notFound)) ∧
    Settings.load checkouts ⟨"/h"⟩ (some ⟨"/d"⟩) = .ok (backendSettings "~bitcart") ∧
    (∃ t, Application.visitor.targets (backendSettings "~bitcart") [] = .ok t ∧
      (targetRoot checkouts t .backend .start).1 = .ok ⟨"/hbitcart"⟩) ∧
    ¬ (Path.mk "/h").place <+: (Path.mk "/hbitcart").place := by
  refine ⟨by decide +kernel, eq_ok_of_toOption (by decide +kernel),
    ⟨_, rfl, eq_ok_of_toOption (by decide +kernel)⟩, eq_ok_of_toOption (by decide +kernel),
    ⟨_, rfl, rfl⟩, eq_ok_of_toOption (by decide +kernel),
    ⟨_, rfl, eq_ok_of_toOption (by decide +kernel)⟩, by decide +kernel⟩

end Session

end PluginManager
