import PluginManager.Install
import PluginManager.Proofs.FileSystem.Absolute

/-!
# Two checks of a target

An answer is checked as it was typed, and what becomes of it is checked again as an absolute path.
The two checks come to one verdict, each in its own words.

* `Corresponds`: the verdicts that belong together.
* `hasMarker_absolute`: the marker is there by either path.
* `acceptTarget_corresponds`: **one verdict** on a path and its absolute one.
* `targetRoot_agrees`: so it is for the answer to the question for a role.
-/

namespace PluginManager

open FileSystem

/-! ## Verdicts -/

/-- The verdicts that belong together on a path and the absolute one that is made of it. -/
inductive Corresponds (fs : FileSystem) (p : Path) (role : Role) :
    Except DirectoryFault Unit → Except Failure Path → Prop
  | accepted {q : Path} : fs.absolute p = .ok q → Corresponds fs p role (.ok ()) (.ok q)
  | empty : Corresponds fs p role (.error .empty) (.error (.file p .emptyPath))
  | missing {q : Path} {cause : FileError} : fs.absolute p = .ok q →
      Corresponds fs p role (.error .missing) (.error (.file q cause))
  | notDirectory {q : Path} : fs.absolute p = .ok q →
      Corresponds fs p role (.error .notDirectory) (.error (.file q .pathNotDirectory))
  | noMarker {q : Path} : fs.absolute p = .ok q →
      Corresponds fs p role (.error (.noMarker role)) (.error (.targetRepository role q))

/-- The path and its absolute one are short enough to be followed, also to the marker. -/
structure IsShort (fs : FileSystem) (p : Path) (role : Role) : Prop where
  typed : (p.child role.marker).text.utf8ByteSize < pathLimit
  absolute : ∀ q, fs.absolute p = .ok q → (q.child role.marker).text.utf8ByteSize < pathLimit

variable {fs : FileSystem} {p q : Path} {role : Role} {k : Location} {mode : Nat}

namespace Corresponds

variable {x : Except DirectoryFault Unit} {y : Except Failure Path}

theorem accepts_iff (h : Corresponds fs p role x y) : x = .ok () ↔ ∃ q, y = .ok q := by
  cases h <;> simp

theorem eq_ok (h : Corresponds fs p role (.ok ()) y) (habs : fs.absolute p = .ok q) :
    y = .ok q := by
  cases h with
  | accepted hq => rw [Except.ok.inj (hq.symm.trans habs)]

theorem eq_pathNotDirectory (h : Corresponds fs p role (.error .notDirectory) y)
    (habs : fs.absolute p = .ok q) : y = .error (.file q .pathNotDirectory) := by
  cases h with
  | notDirectory hq => rw [Except.ok.inj (hq.symm.trans habs)]

theorem eq_targetRepository (h : Corresponds fs p role (.error (.noMarker role)) y)
    (habs : fs.absolute p = .ok q) : y = .error (.targetRepository role q) := by
  cases h with
  | noMarker hq => rw [Except.ok.inj (hq.symm.trans habs)]

end Corresponds

/-! ## Checks -/

theorem Role.isName_marker (role : Role) : IsName role.marker := by cases role <;> decide

theorem utf8ByteSize_le_child (p : Path) (role : Role) :
    p.text.utf8ByteSize ≤ (p.child role.marker).text.utf8ByteSize := by
  rw [Path.child_eq p role.isName_marker, String.utf8ByteSize_append, String.utf8ByteSize_append]
  omega

theorem IsShort.short (h : IsShort fs p role) : p.text.utf8ByteSize < pathLimit :=
  Nat.lt_of_le_of_lt (utf8ByteSize_le_child p role) h.typed

theorem IsShort.short_absolute (h : IsShort fs p role) (habs : fs.absolute p = .ok q) :
    q.text.utf8ByteSize < pathLimit :=
  Nat.lt_of_le_of_lt (utf8ByteSize_le_child q role) (h.absolute q habs)

theorem exists_absolute (fs : FileSystem) (h : p.text ≠ "") : ∃ q, fs.absolute p = .ok q := by
  simp only [absolute_eq_ok_iff, Path.absoluteFrom?, if_neg h]
  exact ⟨_, rfl⟩

section Checks

variable (hwf : fs.WellFormed) (hwd : p.isAbsolute = false → HasWorkingDirectory fs)
  (hshort : IsShort fs p role)
include hwf hwd hshort

/-- The marker is there by either path. -/
theorem hasMarker_absolute (habs : fs.absolute p = .ok q)
    (h : fs.find true p = .ok (k, .directory mode)) :
    hasMarker fs q role = hasMarker fs p role := by
  have hname := role.isName_marker
  have hsteps : steps ⟨role.marker⟩ ≠ [] := by
    rw [hname.steps]
    exact List.cons_ne_nil _ _
  have hq := find_absolute hwf hwd habs (hshort.short_absolute habs) h
  obtain ⟨n, hrooted⟩ := exists_rooted_of_find h (isDirectoryAt_of_lookup (lookup_of_find h))
  have hrooted' := (rooted_absolute_iff hwf hwd habs).mpr hrooted
  rcases hrooted.find_join hrooted' (usable_of_find h) (usable_of_find hq) hname.not_isAbsolute
    hsteps hshort.typed (hshort.absolute q habs) with heq | ⟨hne, -⟩
  · rw [hasMarker, hasMarker, exists?, exists?, Path.child, Path.child, heq]
  · exact absurd rfl hne

/-- **One verdict** on a path and the absolute one that is made of it. -/
theorem acceptTarget_corresponds :
    Corresponds fs p role (checkDirectory fs p role) (acceptTarget fs p role) := by
  by_cases hempty : p.text = ""
  · have habs : fs.absolute p = .error .emptyPath := by
      rw [absolute, Path.absoluteFrom?, if_pos hempty]
    rw [checkDirectory, if_pos hempty, acceptTarget, habs]
    exact .empty
  · obtain ⟨q, habs⟩ := exists_absolute fs hempty
    rw [checkDirectory, if_neg hempty, acceptTarget, habs]
    simp only [checkTarget]
    cases hfind : fs.find true p with
    | error cause =>
      cases hfind' : fs.find true q with
      | error cause' => exact .missing habs
      | ok x =>
        obtain ⟨k, e⟩ := x
        -- A directory would be found by the path too.
        cases e with
        | directory mode =>
          have hp := find_of_absolute hwf hwd habs hshort.short hfind'
          rw [hfind] at hp
          cases hp
        | file mode content => exact .missing habs
        | link target => exact .missing habs
    | ok x =>
      obtain ⟨k, e⟩ := x
      rw [find_absolute hwf hwd habs (hshort.short_absolute habs) hfind]
      cases e with
      | file mode content => exact .notDirectory habs
      | link target => exact .notDirectory habs
      | directory mode =>
        simp only [Entry.isDirectory, Bool.not_true, Bool.false_eq_true, if_false,
          hasMarker_absolute hwf hwd hshort habs hfind]
        cases hasMarker fs p role with
        | true => exact .accepted habs
        | false => exact .noMarker habs

end Checks

/-! ## Answers -/

namespace Session

theorem targetRoot_of_answer {t : Targets} {s : Session} {asked : List Role}
    (hroot : s.roots role = none) (hanswer : t.answer s.asked role = (.ok p, asked)) :
    (targetRoot fs t role s).1 = acceptTarget fs p role := by
  simp only [targetRoot, hroot, hanswer]
  cases acceptTarget fs p role <;> rfl

/-- **The two checks agree** on the answer to the question for a role: what the check of the answer
accepts becomes the root, and what it rejects is a failure of the same kind. -/
theorem targetRoot_agrees {t : Targets} {s : Session} {asked : List Role} (hwf : fs.WellFormed)
    (hwd : p.isAbsolute = false → HasWorkingDirectory fs) (hshort : IsShort fs p role)
    (hroot : s.roots role = none) (hanswer : t.answer s.asked role = (.ok p, asked)) :
    (checkDirectory fs p role = .ok () ↔ ∃ q, (targetRoot fs t role s).1 = .ok q) ∧
      Corresponds fs p role (checkDirectory fs p role) (targetRoot fs t role s).1 := by
  have hverdict := acceptTarget_corresponds hwf hwd hshort
  rw [targetRoot_of_answer hroot hanswer]
  exact ⟨hverdict.accepts_iff, hverdict⟩

/-- A checkout of the backend in the working directory, and a link to it. -/
def checkoutWorld : FileSystem where
  entries :=
    [(["w"], .directory 0o755), (["w", "r"], .directory 0o755),
      (["w", "r", "gunicorn.conf.py"], .file 0o644 []), (["w", "l"], .link ⟨"r"⟩)]
  times := []
  clock := 0
  workingDirectory := ["w"]

/-- Every question gets the one answer. -/
def answering (p : Path) : Targets := ⟨.none, some fun _ _ => .ok p⟩

/-- By way of the link, with dots and slashes on it, the checkout is accepted for the backend, not
for the store, and its marker is no directory. -/
theorem targetRoot_agrees_checkoutWorld :
    (targetRoot checkoutWorld (answering ⟨"./l//."⟩) .backend .start).1 = .ok ⟨"/w/l"⟩ ∧
      (targetRoot checkoutWorld (answering ⟨"./l//."⟩) .store .start).1 =
        .error (.targetRepository .store ⟨"/w/l"⟩) ∧
      (targetRoot checkoutWorld (answering ⟨"l/gunicorn.conf.py"⟩) .backend .start).1 =
        .error (.file ⟨"/w/l/gunicorn.conf.py"⟩ .pathNotDirectory) := by
  have hwf : checkoutWorld.WellFormed := wellFormed_of_keys (by decide +kernel) (by decide +kernel)
  have hwd : HasWorkingDirectory checkoutWorld := ⟨0o755, rfl⟩
  have habs : checkoutWorld.absolute ⟨"./l//."⟩ = .ok ⟨"/w/l"⟩ := by rfl
  have habs' : checkoutWorld.absolute ⟨"l/gunicorn.conf.py"⟩ = .ok ⟨"/w/l/gunicorn.conf.py"⟩ := by
    rfl
  have hshort : ∀ role, IsShort checkoutWorld ⟨"./l//."⟩ role := by
    intro role
    refine ⟨by cases role <;> decide, fun q hq => ?_⟩
    obtain rfl := Except.ok.inj (habs.symm.trans hq)
    cases role <;> decide
  have hshort' : IsShort checkoutWorld ⟨"l/gunicorn.conf.py"⟩ .backend := by
    refine ⟨by decide, fun q hq => ?_⟩
    obtain rfl := Except.ok.inj (habs'.symm.trans hq)
    decide
  have hroot : ∀ role, Session.start.roots role = none := fun _ => rfl
  have hanswer : ∀ p role, (answering p).answer Session.start.asked role = (.ok p, [role]) :=
    fun _ _ => rfl
  have hbackend := (targetRoot_agrees hwf (fun _ => hwd) (hshort .backend) (hroot _)
    (hanswer _ _)).2
  have hstore := (targetRoot_agrees hwf (fun _ => hwd) (hshort .store) (hroot _) (hanswer _ _)).2
  have hmarker := (targetRoot_agrees hwf (fun _ => hwd) hshort' (hroot _) (hanswer _ _)).2
  rw [show checkDirectory checkoutWorld ⟨"./l//."⟩ .backend = .ok () from rfl] at hbackend
  rw [show checkDirectory checkoutWorld ⟨"./l//."⟩ .store = .error (.noMarker .store) from rfl]
    at hstore
  rw [show checkDirectory checkoutWorld ⟨"l/gunicorn.conf.py"⟩ .backend = .error .notDirectory
    from rfl] at hmarker
  exact ⟨hbackend.eq_ok habs, hstore.eq_targetRepository habs, hmarker.eq_pathNotDirectory habs'⟩

end Session

end PluginManager
