import Mathlib.Data.List.Infix
import PluginManager.Proofs.FileSystem.Downward
import PluginManager.Proofs.FileSystem.Preparation

/-!
# The way down

A path without `..` on which no link stands leads where its names lead, whatever dots and slashes
are between them; and making its directories makes directories there and nothing else.

* `FileSystem.destination`: where such a path leads.
* `Walk.eq_of_noLinks`, `LooksUp.prefix_of_noLinks`: **no other place is come past**.
* `Prepared.lookup_cases`, `Prepared.staysOnWay`: what making the directories leaves.
-/

namespace PluginManager.FileSystem

variable {fs fs' : FileSystem} {Q : Location → Prop} {l k m : Location} {p : Path}
  {name : String} {pieces init : List String} {n : Nat}

/-! ## Places on the way -/

/-- Where the names of the path lead from where it starts. -/
def destination (fs : FileSystem) (p : Path) : Location := fs.start p ++ p.way

/-- No link stands at the end of the names or before it. -/
def NoLinkUpTo (fs : FileSystem) (l : Location) (names : List String) : Prop :=
  ∀ pre, pre <+: names → ∀ target, fs.lookup (l ++ pre) ≠ some (.link target)

theorem NoLinkUpTo.tail {names : List String} (h : NoLinkUpTo fs l (name :: names)) :
    NoLinkUpTo fs (l ++ [name]) names := by
  intro pre hpre target
  rw [List.append_assoc]
  exact h (name :: pre) (List.cons_prefix_cons.mpr ⟨rfl, hpre⟩) target

theorem NoLinkUpTo.noLinks {names : List String} (h : NoLinkUpTo fs l names) :
    NoLinks fs l names := fun pre hpre _ => h pre hpre

/-- No link on the way down, location by location. -/
theorem noLinkUpTo_of_inits {names : List String}
    (h : ∀ pre ∈ names.inits, (fs.lookup (l ++ pre)).any Entry.isLink = false) :
    NoLinkUpTo fs l names := by
  intro pre hpre target htarget
  have hnone := h pre ((List.mem_inits _ _).mpr hpre)
  rw [htarget] at hnone
  exact absurd hnone (by simp [Entry.isLink])

theorem noLinks_of_inits {names : List String}
    (h : ∀ pre ∈ names.inits, (fs.lookup (l ++ pre)).any Entry.isLink = false) :
    NoLinks fs l names :=
  (noLinkUpTo_of_inits h).noLinks

/-- Before the last of the names. -/
theorem NoLinks.upTo {names rest : List String} (h : NoLinks fs l (names ++ rest))
    (hrest : rest ≠ []) : NoLinkUpTo fs l names := by
  intro pre hpre
  refine h pre (hpre.trans (List.prefix_append names rest)) ?_
  rintro rfl
  have hlength := hpre.length_le
  rw [List.length_append] at hlength
  exact hrest (List.eq_nil_of_length_eq_zero (by omega))

theorem Walk.eq_of_noLinks (h : Walk fs Q l pieces k n) (hdown : ".." ∉ pieces)
    (hlinks : NoLinkUpTo fs l (namesOf pieces)) : k = l ++ namesOf pieces := by
  induction h with
  | done _ => simp
  | current _ ih =>
    rw [List.mem_cons, not_or] at hdown
    exact ih hdown.2 hlinks
  | parent _ _ => exact absurd List.mem_cons_self hdown
  | directory hp _ _ _ ih =>
    rw [List.mem_cons, not_or] at hdown
    rw [namesOf_cons_of_isLookedUp hp] at hlinks ⊢
    rw [ih hdown.2 hlinks.tail, List.append_assoc, List.singleton_append]
  | file hp _ _ => rw [namesOf_cons_of_isLookedUp hp]; rfl
  | link hp _ he _ _ =>
    rw [namesOf_cons_of_isLookedUp hp] at hlinks
    exact absurd he (hlinks [_] (List.prefix_append [_] _) _)

/-- What is looked up lies on the way. -/
theorem LooksUp.prefix_of_noLinks (h : LooksUp fs l pieces m) (hdown : ".." ∉ pieces)
    (hlinks : NoLinkUpTo fs l (namesOf pieces)) : m <+: l ++ namesOf pieces := by
  induction h with
  | @here l piece rest hp =>
    rw [namesOf_cons_of_isLookedUp hp, List.prefix_append_right_inj]
    exact List.prefix_append [piece] _
  | current _ ih =>
    rw [List.mem_cons, not_or] at hdown
    exact ih hdown.2 hlinks
  | parent _ _ => exact absurd List.mem_cons_self hdown
  | directory hp _ _ ih =>
    rw [List.mem_cons, not_or] at hdown
    rw [namesOf_cons_of_isLookedUp hp] at hlinks ⊢
    rw [List.append_cons]
    exact ih hdown.2 hlinks.tail
  | link hp he _ _ =>
    rw [namesOf_cons_of_isLookedUp hp] at hlinks
    exact absurd he (hlinks [_] (List.prefix_append [_] _) _)

/-- What leads to a directory is one. -/
theorem WellFormed.isDirectoryAt_of_prefix (hwf : fs.WellFormed) (hl : fs.isDirectoryAt l = true)
    (h : m <+: l) : fs.isDirectoryAt m = true := by
  obtain ⟨r, rfl⟩ := h
  by_cases hr : r = []
  · rwa [hr, List.append_nil] at hl
  · exact hwf.isDirectoryAt hr (lookup_ne_none hl)

/-! ## Making the directories -/

/-- A directory that was made lies on the way, where nothing was. -/
theorem IsNewDirectory.onWay (h : IsNewDirectory fs p fs' m) (hdown : ".." ∉ steps p)
    (hlinks : NoLinks fs (fs.start p) p.way) :
    m <+: fs.destination p ∧ fs.lookup m = none := by
  obtain ⟨⟨l, name, after, hdep, hnone, pre, hpre, rfl⟩, -⟩ := h
  obtain ⟨before, n, hsteps, -, hwalk⟩ := hdep.walk
  have hway : p.way = namesOf before ++ name :: namesOf after := by
    rw [Path.way, hsteps, List.filter_append]
    exact congrArg _ (namesOf_cons_of_isLookedUp hdep.lookedUp)
  rw [hway] at hlinks
  have hbefore : ".." ∉ before := fun hmem => hdown (hsteps ▸ List.mem_append_left _ hmem)
  obtain rfl := hwalk.eq_of_noLinks hbefore (hlinks.upTo (List.cons_ne_nil _ _))
  rw [destination, hway, ← List.append_assoc]
  exact ⟨(List.prefix_append_right_inj _).mpr hpre, hnone⟩

/-- **What making the directories leaves**: what was there, and new directories on the way. -/
theorem Prepared.staysOnWay (h : Prepared fs p fs') (hdown : ".." ∉ steps p)
    (hlinks : NoLinks fs (fs.start p) p.way) :
    StaysIn (fun m => m <+: fs.destination p ∧ fs.lookup m = none) fs fs' :=
  h.staysIn.mono fun _ hm => hm.onWay hdown hlinks

theorem Prepared.lookup_cases (h : Prepared fs p fs') (m : Location) :
    fs'.lookup m = fs.lookup m ∨ fs'.lookup m = some (.directory newDirectoryMode) := by
  by_cases hm : IsNewDirectory fs p fs' m
  · exact .inr hm.2
  · exact .inl (h.staysIn.changes.lookup m hm)

theorem Prepared.lookup_of_directory (h : Prepared fs p fs') (hfree : fs.lookup m = none)
    (hd : fs'.isDirectoryAt m = true) : fs'.lookup m = some (.directory newDirectoryMode) :=
  (h.lookup_cases m).resolve_left fun hsame => lookup_ne_none hd (hsame.trans hfree)

theorem Prepared.noLinks (h : Prepared fs p fs') {names : List String}
    (hlinks : NoLinks fs l names) : NoLinks fs' l names :=
  hlinks.of_made fun pre _ _ => (h.lookup_cases (l ++ pre)).imp_right fun hm => ⟨_, hm⟩

/-- A path that was followed has short names and dots. -/
theorem arePlain_of_resolve {last : Bool} {spot : Spot} (hdown : ".." ∉ steps p)
    (h : resolve fs last p = .ok spot) : ArePlain (steps p) := by
  intro piece hpiece
  by_cases hcurrent : piece = "."
  · exact .inl hcurrent
  · have hparent : piece ≠ ".." := fun heq => hdown (heq ▸ hpiece)
    exact .inr ⟨hcurrent, hparent, (reaches_of_resolve h).short piece hpiece hcurrent hparent⟩

end PluginManager.FileSystem
