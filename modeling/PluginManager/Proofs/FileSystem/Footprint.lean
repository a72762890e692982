import PluginManager.Proofs.FileSystem.Shrink

/-!
# What is looked up

Following a path looks up one location after the other.  What is elsewhere makes no difference.

* `LooksUp`: the locations that are looked up, links included and however many they are.
* `Alike`: a location at which two file systems make no difference to what is followed.
* `Exhausts`: more links are met than may be followed.
* `Fails`: all that keeps pieces from being followed.  `Fails.of_guides`: what fails fails again
  where nothing new is looked up.
* `Rooted`: a path that leads to a directory, links counted.
* `find_of_alike`: **the same file is found** in two file systems that are alike where something is
  looked up, unless one of them gives up.
-/

namespace PluginManager.FileSystem

/-! ## Following -/

/-- `LooksUp fs l pieces m`: following the pieces from `l` looks up `m`. -/
inductive LooksUp (fs : FileSystem) : Location → List String → Location → Prop
  | here {l piece rest} : IsLookedUp piece → LooksUp fs l (piece :: rest) (l ++ [piece])
  | current {l rest m} : LooksUp fs l rest m → LooksUp fs l ("." :: rest) m
  | parent {l rest m} : LooksUp fs l.dropLast rest m → LooksUp fs l (".." :: rest) m
  | directory {l piece rest m} : IsLookedUp piece → fs.isDirectoryAt (l ++ [piece]) = true →
      LooksUp fs (l ++ [piece]) rest m → LooksUp fs l (piece :: rest) m
  | link {l piece rest m target} : IsLookedUp piece →
      fs.lookup (l ++ [piece]) = some (.link target) →
      LooksUp fs (if target.isAbsolute then [] else l) (steps target ++ rest) m →
      LooksUp fs l (piece :: rest) m

/-- More links are met than may be followed. -/
inductive Exhausts (fs : FileSystem) (last : Bool) : Nat → Location → List String → Prop
  | current {links l rest} : Exhausts fs last links l rest → Exhausts fs last links l ("." :: rest)
  | parent {links l rest} : Exhausts fs last links l.dropLast rest →
      Exhausts fs last links l (".." :: rest)
  | directory {links l piece rest} : IsLookedUp piece → fs.isDirectoryAt (l ++ [piece]) = true →
      Exhausts fs last links (l ++ [piece]) rest → Exhausts fs last links l (piece :: rest)
  | stop {l piece rest target} : IsLookedUp piece → fs.lookup (l ++ [piece]) = some (.link target) →
      rest ≠ [] ∨ last = true → Exhausts fs last 0 l (piece :: rest)
  | link {links l piece rest target} : IsLookedUp piece →
      fs.lookup (l ++ [piece]) = some (.link target) → rest ≠ [] ∨ last = true →
      Exhausts fs last links (if target.isAbsolute then [] else l) (steps target ++ rest) →
      Exhausts fs last (links + 1) l (piece :: rest)

/-- All that keeps pieces from being followed. -/
inductive Fails (fs : FileSystem) (last : Bool) : Nat → Location → List String → FileError → Prop
  | current {links l rest e} : Fails fs last links l rest e → Fails fs last links l ("." :: rest) e
  | parent {links l rest e} : Fails fs last links l.dropLast rest e →
      Fails fs last links l (".." :: rest) e
  | directory {links l piece rest e} : IsLookedUp piece → fs.isDirectoryAt (l ++ [piece]) = true →
      Fails fs last links (l ++ [piece]) rest e → Fails fs last links l (piece :: rest) e
  | tooLong {links l piece rest} : piece ≠ "." → piece ≠ ".." → nameLimit < piece.utf8ByteSize →
      Fails fs last links l (piece :: rest) .nameTooLong
  | missing {links l piece rest} : IsLookedUp piece → rest ≠ [] →
      fs.lookup (l ++ [piece]) = none → Fails fs last links l (piece :: rest) .notFound
  | file {links l piece rest mode content} : IsLookedUp piece → rest ≠ [] →
      fs.lookup (l ++ [piece]) = some (.file mode content) →
      Fails fs last links l (piece :: rest) .notDirectory
  | stop {l piece rest target} : IsLookedUp piece → fs.lookup (l ++ [piece]) = some (.link target) →
      rest ≠ [] ∨ last = true → Fails fs last 0 l (piece :: rest) .tooManyLinks
  | link {links l piece rest target e} : IsLookedUp piece →
      fs.lookup (l ++ [piece]) = some (.link target) → rest ≠ [] ∨ last = true →
      Fails fs last links (if target.isAbsolute then [] else l) (steps target ++ rest) e →
      Fails fs last (links + 1) l (piece :: rest) e

variable {fs fs' : FileSystem} {l k m : Location} {p q : Path} {pieces rest r : List String}
  {links links' n n' : Nat} {last slash : Bool} {kind : LastPiece} {spot : Spot} {e : Entry}

/-! ## Locations -/

theorem LooksUp.of_guides (hg : Guides fs fs') (h : LooksUp fs l pieces m) :
    LooksUp fs' l pieces m := by
  induction h with
  | here hp => exact .here hp
  | current _ ih => exact .current ih
  | parent _ ih => exact .parent ih
  | directory hp hd _ ih => exact .directory hp (hg.directory _ hd) ih
  | link hp he _ ih => exact .link hp (hg.link _ _ he) ih

/-- The file systems have the same there, or a directory each. -/
def Alike (fs fs' : FileSystem) (m : Location) : Prop :=
  fs'.lookup m = fs.lookup m ∨ fs.isDirectoryAt m = true ∧ fs'.isDirectoryAt m = true

namespace Alike

theorem symm (h : Alike fs fs' m) : Alike fs' fs m := h.imp Eq.symm And.symm

theorem directory (h : Alike fs fs' m) (hd : fs.isDirectoryAt m = true) :
    fs'.isDirectoryAt m = true := by
  rcases h with hsame | hboth
  · rw [isDirectoryAt, hsame, ← isDirectoryAt, hd]
  · exact hboth.2

theorem lookup (h : Alike fs fs' m) (he : fs.lookup m = some e) (hd : e.isDirectory = false) :
    fs'.lookup m = some e := by
  rcases h with hsame | hboth
  · rw [hsame, he]
  · rw [isDirectory_of_lookup hboth.1 he] at hd
    exact absurd hd (by decide)

end Alike

theorem LooksUp.of_alike (h : LooksUp fs' l pieces m)
    (hsame : ∀ m, LooksUp fs l pieces m → Alike fs fs' m) : LooksUp fs l pieces m := by
  induction h with
  | here hp => exact .here hp
  | current _ ih => exact .current (ih fun m hm => hsame m (.current hm))
  | parent _ ih => exact .parent (ih fun m hm => hsame m (.parent hm))
  | directory hp hd _ ih =>
    have hd' := (hsame _ (.here hp)).symm.directory hd
    exact .directory hp hd' (ih fun m hm => hsame m (.directory hp hd' hm))
  | link hp he _ ih =>
    have he' := (hsame _ (.here hp)).symm.lookup he rfl
    exact .link hp he' (ih fun m hm => hsame m (.link hp he' hm))

/-- What is looked up for a name, and behind it. -/
theorem LooksUp.of_cons {name : String} (hname : IsName name)
    (h : LooksUp fs l (name :: rest) m) : m = l ++ [name] ∨
      fs.isDirectoryAt (l ++ [name]) = true ∧ LooksUp fs (l ++ [name]) rest m ∨
      ∃ target, fs.lookup (l ++ [name]) = some (.link target) ∧
        LooksUp fs (if target.isAbsolute then [] else l) (steps target ++ rest) m := by
  cases h with
  | here _ => exact .inl rfl
  | current _ => exact absurd rfl hname.ne_current
  | parent _ => exact absurd rfl hname.ne_parent
  | directory _ hd h => exact .inr (.inl ⟨hd, h⟩)
  | link _ he h => exact .inr (.inr ⟨_, he, h⟩)

theorem not_looksUp_nil (fs : FileSystem) (l m : Location) : ¬ LooksUp fs l [] m := nofun

/-- Names pass through directories and end at an entry; only a link leads further. -/
theorem LooksUp.cases_of_clear (hnames : ∀ name ∈ r, IsName name) (hclear : Clear fs k r)
    (h : LooksUp fs k r m) : k <+: m ∨ ∃ target, fs.lookup (k ++ r) = some (.link target) := by
  induction r generalizing k with
  | nil => exact absurd h (not_looksUp_nil fs k m)
  | cons name rest ih =>
    rcases h.of_cons (hnames name List.mem_cons_self) with rfl | ⟨-, h⟩ | ⟨target, he, -⟩
    · exact .inl (List.prefix_append k _)
    · rcases ih (fun n hn => hnames n (List.mem_cons_of_mem name hn)) hclear.tail h with
        hin | hlink
      · exact .inl ((List.prefix_append k _).trans hin)
      · rw [List.append_assoc] at hlink
        exact .inr hlink
    · by_cases hrest : rest = []
      · subst hrest
        exact .inr ⟨target, he⟩
      · have hd := hclear [name] (List.prefix_append [name] rest) (by simpa using Ne.symm hrest)
        exact absurd (isDirectory_of_lookup hd he) Bool.false_ne_true

/-! ## Reaching the same -/

theorem Reaches.of_alike (h : Reaches fs last links slash l kind pieces spot)
    (hsame : ∀ m, LooksUp fs l pieces m → Alike fs fs' m) :
    Reaches fs' last links slash l kind pieces
      { spot with entry := fs'.lookup spot.location } := by
  induction h with
  | done => exact .done
  | current _ ih => exact .current (ih fun m hm => hsame m (.current hm))
  | parent _ ih => exact .parent (ih fun m hm => hsame m (.parent hm))
  | directory hp hd _ ih =>
    exact .directory hp ((hsame _ (.here hp)).directory hd)
      (ih fun m hm => hsame m (.directory hp hd hm))
  | stop hp he =>
    refine .stop hp (he.imp_right fun hno target htarget => hno target ?_)
    exact (hsame _ (.here hp)).symm.lookup htarget rfl
  | link hp he hgo _ ih =>
    exact .link hp ((hsame _ (.here hp)).lookup he rfl) hgo
      (ih fun m hm => hsame m (.link hp he hm))

/-- Before any piece it makes no difference what came before. -/
theorem Reaches.of_kind (h : Reaches fs last links slash l kind pieces spot) (hne : pieces ≠ [])
    (kind' : LastPiece) : Reaches fs last links slash l kind' pieces spot := by
  cases h with
  | done => exact absurd rfl hne
  | current h => exact .current h
  | parent h => exact .parent h
  | directory hp hd h => exact .directory hp hd h
  | stop hp he => exact .stop hp he
  | link hp he hgo h => exact .link hp he hgo h

/-- What is followed ends at a directory, or at something that was looked up. -/
theorem Reaches.isDirectoryAt_or_looksUp (hwf : fs.WellFormed)
    (h : Reaches fs last links slash l kind pieces spot) (hl : fs.isDirectoryAt l = true) :
    fs.isDirectoryAt spot.location = true ∨ LooksUp fs l pieces spot.location := by
  induction h with
  | done => exact .inl hl
  | current _ ih => exact (ih hl).imp_right .current
  | parent _ ih => exact (ih (hwf.isDirectoryAt_dropLast hl)).imp_right .parent
  | directory hp hd _ ih => exact (ih hd).imp_right (.directory hp hd)
  | stop hp _ => exact .inr (.here hp)
  | link hp he _ _ ih =>
    refine (ih ?_).imp_right (.link hp he)
    split
    · rfl
    · exact hl

/-! ## Failing -/

theorem Exhausts.of_guides (hg : Guides fs fs') (h : Exhausts fs last links l pieces) :
    Exhausts fs' last links l pieces := by
  induction h with
  | current _ ih => exact .current ih
  | parent _ ih => exact .parent ih
  | directory hp hd _ ih => exact .directory hp (hg.directory _ hd) ih
  | stop hp he hgo => exact .stop hp (hg.link _ _ he) hgo
  | link hp he hgo _ ih => exact .link hp (hg.link _ _ he) hgo ih

theorem Exhausts.followFrom_eq (h : Exhausts fs last links l pieces) (slash : Bool)
    (kind : LastPiece) :
    followFrom fs last links slash l kind pieces = .error .tooManyLinks := by
  induction h generalizing slash kind with
  | current _ ih => rw [followFrom_current, ih]
  | parent _ ih => rw [followFrom_parent, ih]
  | directory hp hd _ ih =>
    obtain ⟨mode, hmode⟩ := isDirectoryAt_iff.mp hd
    rw [followFrom_directory _ _ _ hp hmode, ih]
  | stop hp he hgo => exact followFrom_link_zero last slash kind hp he hgo
  | link hp he hgo _ ih => rw [followFrom_link _ _ _ hp he hgo, ih]

theorem fails_of_followFrom {e : FileError}
    (h : followFrom fs last links slash l kind pieces = .error e) :
    Fails fs last links l pieces e := by
  -- A link uses up one of `links`, any other piece shortens `pieces`.
  induction links using Nat.strongRecOn generalizing slash l kind pieces with
  | ind links ihLinks =>
    induction pieces generalizing l kind with
    | nil => exact absurd h (by simp [followFrom_nil])
    | cons piece rest ih =>
      by_cases hcurrent : piece = "."
      · rw [hcurrent, followFrom_current] at h
        rw [hcurrent]
        exact .current (ih h)
      · by_cases hparent : piece = ".."
        · rw [hparent, followFrom_parent] at h
          rw [hparent]
          exact .parent (ih h)
        · by_cases hlong : nameLimit < piece.utf8ByteSize
          · rw [followFrom_tooLong hcurrent hparent hlong] at h
            obtain rfl := Except.error.inj h
            exact .tooLong hcurrent hparent hlong
          · have hp : IsLookedUp piece := ⟨hcurrent, hparent, Nat.not_lt.mp hlong⟩
            cases he : fs.lookup (l ++ [piece]) with
            | none =>
              by_cases hrest : rest = []
              · rw [hrest, followFrom_last last slash kind hp (.inr (by simp [he]))] at h
                exact absurd h (by simp)
              · rw [followFrom_missing last slash kind hp hrest he] at h
                obtain rfl := Except.error.inj h
                exact .missing hp hrest he
            | some entry =>
              cases entry with
              | directory mode =>
                rw [followFrom_directory last slash kind hp he] at h
                exact .directory hp (isDirectoryAt_of_lookup he) (ih h)
              | file mode content =>
                by_cases hrest : rest = []
                · rw [hrest, followFrom_last last slash kind hp (.inr (by simp [he]))] at h
                  exact absurd h (by simp)
                · rw [followFrom_file last slash kind hp hrest he] at h
                  obtain rfl := Except.error.inj h
                  exact .file hp hrest he
              | link target =>
                by_cases hgo : rest ≠ [] ∨ last = true
                · cases links with
                  | zero =>
                    rw [followFrom_link_zero last slash kind hp he hgo] at h
                    obtain rfl := Except.error.inj h
                    exact .stop hp he hgo
                  | succ links =>
                    rw [followFrom_link last slash kind hp he hgo] at h
                    exact .link hp he hgo (ihLinks links (Nat.lt_succ_self links) h)
                · rw [not_or, not_not, Bool.not_eq_true] at hgo
                  obtain ⟨rfl, hlast⟩ := hgo
                  rw [followFrom_last last slash kind hp (.inl hlast)] at h
                  exact absurd h (by simp)

theorem Fails.followFrom_eq {e : FileError} (h : Fails fs last links l pieces e) (slash : Bool)
    (kind : LastPiece) : followFrom fs last links slash l kind pieces = .error e := by
  induction h generalizing slash kind with
  | current _ ih => rw [followFrom_current, ih]
  | parent _ ih => rw [followFrom_parent, ih]
  | directory hp hd _ ih =>
    obtain ⟨mode, hmode⟩ := isDirectoryAt_iff.mp hd
    rw [followFrom_directory _ _ _ hp hmode, ih]
  | tooLong hcurrent hparent hlong => exact followFrom_tooLong hcurrent hparent hlong
  | missing hp hrest he => exact followFrom_missing last slash kind hp hrest he
  | file hp hrest he => exact followFrom_file last slash kind hp hrest he
  | stop hp he hgo => exact followFrom_link_zero last slash kind hp he hgo
  | link hp he hgo _ ih => rw [followFrom_link _ _ _ hp he hgo, ih]

/-- **What fails fails again** where there are at least the same directories and links, and where,
of what is looked up, what was a file is a file and what was missing is missing. -/
theorem Fails.of_guides {e : FileError} (hg : Guides fs fs') (h : Fails fs last links l pieces e)
    (hfile : ∀ m mode content, LooksUp fs l pieces m → fs.lookup m = some (.file mode content) →
      ∃ mode' content', fs'.lookup m = some (.file mode' content'))
    (hnone : e = .notFound → ∀ m, LooksUp fs l pieces m → fs.lookup m = none →
      fs'.lookup m = none) :
    Fails fs' last links l pieces e := by
  induction h with
  | current _ ih =>
    exact .current (ih (fun m mode content hm => hfile m mode content (.current hm))
      fun he m hm => hnone he m (.current hm))
  | parent _ ih =>
    exact .parent (ih (fun m mode content hm => hfile m mode content (.parent hm))
      fun he m hm => hnone he m (.parent hm))
  | directory hp hd _ ih =>
    exact .directory hp (hg.directory _ hd)
      (ih (fun m mode content hm => hfile m mode content (.directory hp hd hm))
        fun he m hm => hnone he m (.directory hp hd hm))
  | tooLong hcurrent hparent hlong => exact .tooLong hcurrent hparent hlong
  | missing hp hrest he => exact .missing hp hrest (hnone rfl _ (.here hp) he)
  | file hp hrest he =>
    obtain ⟨mode', content', he'⟩ := hfile _ _ _ (.here hp) he
    exact .file hp hrest he'
  | stop hp he hgo => exact .stop hp (hg.link _ _ he) hgo
  | link hp he hgo _ ih =>
    exact .link hp (hg.link _ _ he) hgo
      (ih (fun m mode content hm => hfile m mode content (.link hp he hm))
        fun heq m hm => hnone heq m (.link hp he hm))

theorem Fails.exhausts {e : FileError} (h : Fails fs last links l pieces e)
    (hmany : e = .tooManyLinks) : Exhausts fs last links l pieces := by
  induction h with
  | current _ ih => exact .current (ih hmany)
  | parent _ ih => exact .parent (ih hmany)
  | directory hp hd _ ih => exact .directory hp hd (ih hmany)
  | tooLong | missing | file => exact absurd hmany (by decide)
  | stop hp he hgo => exact .stop hp he hgo
  | link hp hl hgo _ ih => exact .link hp hl hgo (ih hmany)

theorem exhausts_of_followFrom
    (h : followFrom fs last links slash l kind pieces = .error .tooManyLinks) :
    Exhausts fs last links l pieces := (fails_of_followFrom h).exhausts rfl

/-- With another number of links the same is reached, or there are too many. -/
theorem Reaches.or_exhausts (h : Reaches fs last links slash l kind pieces spot) (links' : Nat) :
    Reaches fs last links' slash l kind pieces spot ∨ Exhausts fs last links' l pieces := by
  induction h generalizing links' with
  | done => exact .inl .done
  | current _ ih => exact (ih links').imp .current .current
  | parent _ ih => exact (ih links').imp .parent .parent
  | directory hp hd _ ih => exact (ih links').imp (.directory hp hd) (.directory hp hd)
  | stop hp he => exact .inl (.stop hp he)
  | link hp he hgo _ ih =>
    cases links' with
    | zero => exact .inr (.stop hp he hgo)
    | succ links' => exact (ih links').imp (.link hp he hgo) (.link hp he hgo)

/-- What comes before pieces does not matter for where they lead. -/
theorem followFrom_kind (hne : pieces ≠ []) (kind' : LastPiece) :
    followFrom fs last links slash l kind' pieces =
      followFrom fs last links slash l kind pieces := by
  cases h : followFrom fs last links slash l kind pieces with
  | ok spot => exact ((reaches_of_followFrom h).of_kind hne kind').followFrom_eq
  | error e => exact (fails_of_followFrom h).followFrom_eq slash kind'

/-! ## Paths -/

/-- Behind a walk a path is followed from where the walk ends. -/
theorem resolve_of_walk (last : Bool) {before : List String} (hu : Usable p)
    (hstart : fs.isDirectoryAt (fs.start p) = true)
    (hwalk : Walk fs (fun _ => True) (fs.start p) before k n) (hn : n ≤ linkLimit)
    (hk : fs.isDirectoryAt k = true) (hsteps : steps p = before ++ pieces) (hne : pieces ≠ []) :
    resolve fs last p = followFrom fs last (linkLimit - n) p.endsWithSlash k .root pieces := by
  obtain ⟨kind, hfollow⟩ := hwalk.followFrom_append last p.endsWithSlash .root hk hne hn
  rw [resolve_of_usable hu hstart, hsteps, hfollow, followFrom_kind hne]

/-- The path leads to the directory `k` over `n` links. -/
structure Rooted (fs : FileSystem) (p : Path) (k : Location) (n : Nat) : Prop where
  start : fs.isDirectoryAt (fs.start p) = true
  walk : Walk fs (fun _ => True) (fs.start p) (steps p) k n
  le : n ≤ linkLimit
  directory : fs.isDirectoryAt k = true

theorem Route.exists_rooted {Q : Location → Prop} (h : Route fs Q p k)
    (hk : fs.isDirectoryAt k = true) : ∃ n, Rooted fs p k n := by
  obtain ⟨n, hn, hwalk⟩ := h.walk
  exact ⟨n, h.directory, hwalk.mono fun _ _ => trivial, hn, hk⟩

namespace Rooted

theorem of_guides (h : Rooted fs p k n) (hg : Guides fs fs') : Rooted fs' p k n := by
  have hstart := start_congr hg.workingDirectory p
  refine ⟨?_, ?_, h.le, hg.directory k h.directory⟩
  · rw [hstart]
    exact hg.directory _ h.start
  · rw [hstart]
    exact h.walk.of_guides hg h.directory

theorem route (h : Rooted fs p k n) : Route fs (fun _ => True) p k :=
  ⟨trivial, h.start, n, h.le, h.walk⟩

/-- A path that goes on behind another one is followed from where that one leads, with the links
that are left. -/
theorem resolve_append (h : Rooted fs p k n) (last : Bool) (hu : Usable q)
    (habs : q.isAbsolute = p.isAbsolute) (hsteps : steps q = steps p ++ pieces)
    (hne : pieces ≠ []) :
    resolve fs last q = followFrom fs last (linkLimit - n) q.endsWithSlash k .root pieces := by
  have hstart : fs.start q = fs.start p := by rw [FileSystem.start, FileSystem.start, habs]
  have hwalk := h.walk
  have hdirectory := h.start
  rw [← hstart] at hwalk hdirectory
  exact resolve_of_walk last hu hdirectory hwalk h.le h.directory hsteps hne

theorem resolve_descend (h : Rooted fs p k n) (last : Bool) (hu : Usable (p.descend r))
    (hnames : ∀ name ∈ r, IsName name) (hne : r ≠ []) :
    resolve fs last (p.descend r) = followFrom fs last (linkLimit - n) false k .root r := by
  rw [h.resolve_append last hu (Path.isAbsolute_descend p hnames) (Path.steps_descend p hnames) hne,
    endsWithSlash_descend p hnames hne]

/-- Too many links stay too many where there are more entries. -/
theorem tooManyLinks_of_guides (h : Rooted fs p k n) (hg : Guides fs fs')
    (hnames : ∀ name ∈ r, IsName name) (hne : r ≠ []) (hu : Usable (p.descend r))
    (hres : resolve fs last (p.descend r) = .error .tooManyLinks) :
    resolve fs' last (p.descend r) = .error .tooManyLinks := by
  rw [h.resolve_descend last hu hnames hne] at hres
  rw [(h.of_guides hg).resolve_descend last hu hnames hne]
  exact ((exhausts_of_followFrom hres).of_guides hg).followFrom_eq false .root

/-- **The same place is reached** in two file systems that are alike where something is looked up,
unless the second gives up. -/
theorem resolve_of_alike (h : Rooted fs p k n) (h' : Rooted fs' p k n')
    (hnames : ∀ name ∈ r, IsName name) (hne : r ≠ [])
    (hsame : ∀ m, LooksUp fs k r m → Alike fs fs' m)
    (hres : resolve fs last (p.descend r) = .ok spot) :
    resolve fs' last (p.descend r) = .ok { spot with entry := fs'.lookup spot.location } ∨
      n ≠ n' ∧ resolve fs' last (p.descend r) = .error .tooManyLinks := by
  have hu := usable_of_resolve hres
  rw [h.resolve_descend last hu hnames hne] at hres
  have hreaches := (reaches_of_followFrom hres).of_alike hsame
  rw [h'.resolve_descend last hu hnames hne]
  by_cases hn : n = n'
  · subst hn
    exact .inl hreaches.followFrom_eq
  · rcases hreaches.or_exhausts (linkLimit - n') with hreaches' | hexhausts
    · exact .inl hreaches'.followFrom_eq
    · exact .inr ⟨hn, hexhausts.followFrom_eq false .root⟩

end Rooted

/-! ## Around a directory -/

/-- The location lies in the directory `k`, or is one of those that lead to it. -/
def Around (k m : Location) : Prop := k <+: m ∨ m <+: k

theorem around_self (k : Location) : Around k k := .inl (List.prefix_refl k)

theorem around_nil (k : Location) : Around k [] := .inr List.nil_prefix

theorem Around.dropLast (h : Around k m) : Around k m.dropLast := by
  rcases h with ⟨s, rfl⟩ | h
  · rcases List.eq_nil_or_concat s with rfl | ⟨s, name, rfl⟩
    · rw [List.append_nil]
      exact .inr (List.dropLast_prefix k)
    · rw [List.concat_eq_append, ← List.append_assoc, List.dropLast_concat]
      exact .inl (List.prefix_append k s)
  · exact .inr ((List.dropLast_prefix m).trans h)

theorem Reaches.around (h : Reaches fs last links slash l kind pieces spot) (hl : Around k l)
    (hinside : ∀ m, LooksUp fs l pieces m → Around k m) : Around k spot.location := by
  induction h with
  | done => exact hl
  | current _ ih => exact ih hl fun m hm => hinside m (.current hm)
  | parent _ ih => exact ih hl.dropLast fun m hm => hinside m (.parent hm)
  | directory hp hd _ ih =>
    exact ih (hinside _ (.here hp)) fun m hm => hinside m (.directory hp hd hm)
  | stop hp _ => exact hinside _ (.here hp)
  | @link _ _ l _ _ _ _ target hp he _ _ ih =>
    refine ih ?_ fun m hm => hinside m (.link hp he hm)
    split
    · exact around_nil k
    · exact hl

theorem Rooted.around_of_resolve (h : Rooted fs p k n) (hnames : ∀ name ∈ r, IsName name)
    (hne : r ≠ []) (hinside : ∀ m, LooksUp fs k r m → Around k m)
    (hres : resolve fs last (p.descend r) = .ok spot) : Around k spot.location := by
  rw [h.resolve_descend last (usable_of_resolve hres) hnames hne] at hres
  exact (reaches_of_followFrom hres).around (around_self k) hinside

/-- **The same file is found** in two file systems that are alike around the directory, unless the
second gives up. -/
theorem Rooted.find_of_alike (h : Rooted fs p k n) (h' : Rooted fs' p k n')
    (hnames : ∀ name ∈ r, IsName name) (hne : r ≠ [])
    (hinside : ∀ m, LooksUp fs k r m → Around k m) (hsame : ∀ m, Around k m → Alike fs fs' m)
    (he : e.isDirectory = false) (hfind : find fs true (p.descend r) = .ok (l, e)) :
    find fs' true (p.descend r) = .ok (l, e) ∨
      n ≠ n' ∧ resolve fs' true (p.descend r) = .error .tooManyLinks := by
  obtain ⟨spot, hres, rfl, hentry, hslash⟩ := find_eq_ok_iff.mp hfind
  rw [Bool.true_or] at hres
  have haround := h.around_of_resolve hnames hne hinside hres
  have hlookup := (hsame _ haround).lookup (lookup_of_find hfind) he
  refine (h.resolve_of_alike h' hnames hne (fun m hm => hsame m (hinside m hm)) hres).imp_left
    fun hres' => ?_
  exact find_eq_ok_iff.mpr ⟨_, hres', rfl, hlookup, hslash⟩

end PluginManager.FileSystem
