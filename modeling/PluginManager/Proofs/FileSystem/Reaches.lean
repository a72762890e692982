import PluginManager.Proofs.FileSystem.Descent

/-!
# Paths that lead somewhere

What is known of the file system when following a path succeeds.

* `Reaches`: the steps of a path that was followed to a spot, one constructor for each kind of step.
* `exists_route_of_resolve_descend`: a path behind which names could be followed leads to a
  directory.
* `find_false_of_find_true`, `find_true_of_find_false`: what is found without following a link at
  the end, and with it.
* `Guides`: directories and links of one file system are there in another.  `find_of_guides`: **what
  was found is found there too**, whatever else differs.
-/

namespace PluginManager.FileSystem

/-! ## Reaching a spot -/

/-- `Reaches fs last links slash l kind pieces spot`: from `l` the pieces lead to the spot. -/
inductive Reaches (fs : FileSystem) (last : Bool) :
    Nat → Bool → Location → LastPiece → List String → Spot → Prop
  | done {links slash l kind} :
      Reaches fs last links slash l kind [] ⟨l, fs.lookup l, kind, slash⟩
  | current {links slash l kind rest spot} : Reaches fs last links slash l .current rest spot →
      Reaches fs last links slash l kind ("." :: rest) spot
  | parent {links slash l kind rest spot} :
      Reaches fs last links slash l.dropLast .parent rest spot →
      Reaches fs last links slash l kind (".." :: rest) spot
  | directory {links slash l kind piece rest spot} : IsLookedUp piece →
      fs.isDirectoryAt (l ++ [piece]) = true →
      Reaches fs last links slash (l ++ [piece]) .name rest spot →
      Reaches fs last links slash l kind (piece :: rest) spot
  | stop {links slash l kind piece} : IsLookedUp piece →
      (last = false ∨ ∀ target, fs.lookup (l ++ [piece]) ≠ some (.link target)) →
      Reaches fs last links slash l kind [piece]
        ⟨l ++ [piece], fs.lookup (l ++ [piece]), .name, slash⟩
  | link {links slash l kind piece rest spot target} : IsLookedUp piece →
      fs.lookup (l ++ [piece]) = some (.link target) → (rest ≠ [] ∨ last = true) →
      Reaches fs last links (slash || (rest.isEmpty && target.endsWithSlash))
        (if target.isAbsolute then [] else l) .root (steps target ++ rest) spot →
      Reaches fs last (links + 1) slash l kind (piece :: rest) spot

variable {fs fs' : FileSystem} {l k : Location} {p : Path} {name piece : String}
  {pieces rest : List String} {links : Nat} {last slash : Bool} {kind : LastPiece} {spot : Spot}
  {e e' : Entry}

theorem isLookedUp_of_followFrom (hcurrent : piece ≠ ".") (hparent : piece ≠ "..")
    (h : followFrom fs last links slash l kind (piece :: rest) = .ok spot) : IsLookedUp piece := by
  refine ⟨hcurrent, hparent, ?_⟩
  by_contra hlong
  rw [followFrom, pass, if_neg hcurrent, if_neg hparent, if_pos (Nat.not_le.mp hlong)] at h
  exact absurd h (by simp)

theorem reaches_of_followFrom (h : followFrom fs last links slash l kind pieces = .ok spot) :
    Reaches fs last links slash l kind pieces spot := by
  -- A link uses up one of `links`, any other piece shortens `pieces`.
  induction links using Nat.strongRecOn generalizing slash l kind pieces with
  | ind links ihLinks =>
    induction pieces generalizing l kind with
    | nil =>
      obtain rfl := Except.ok.inj h
      exact .done
    | cons piece rest ih =>
      by_cases hcurrent : piece = "."
      · rw [hcurrent, followFrom_current] at h
        rw [hcurrent]
        exact .current (ih h)
      · by_cases hparent : piece = ".."
        · rw [hparent, followFrom_parent] at h
          rw [hparent]
          exact .parent (ih h)
        · have hp := isLookedUp_of_followFrom hcurrent hparent h
          cases he : fs.lookup (l ++ [piece]) with
          | none =>
            by_cases hrest : rest = []
            · subst hrest
              rw [followFrom_last last slash kind hp (.inr (by simp [he]))] at h
              obtain rfl := Except.ok.inj h
              exact .stop hp (.inr (by simp [he]))
            · rw [followFrom_missing last slash kind hp hrest he] at h
              exact absurd h (by simp)
          | some e =>
            cases e with
            | directory mode =>
              rw [followFrom_directory last slash kind hp he] at h
              exact .directory hp (isDirectoryAt_of_lookup he) (ih h)
            | file mode content =>
              by_cases hrest : rest = []
              · subst hrest
                rw [followFrom_last last slash kind hp (.inr (by simp [he]))] at h
                obtain rfl := Except.ok.inj h
                exact .stop hp (.inr (by simp [he]))
              · rw [followFrom_file last slash kind hp hrest he] at h
                exact absurd h (by simp)
            | link target =>
              by_cases hgo : rest ≠ [] ∨ last = true
              · cases links with
                | zero =>
                  rw [followFrom_link_zero last slash kind hp he hgo] at h
                  exact absurd h (by simp)
                | succ links =>
                  rw [followFrom_link last slash kind hp he hgo] at h
                  exact .link hp he hgo (ihLinks links (Nat.lt_succ_self links) h)
              · rw [not_or, not_not, Bool.not_eq_true] at hgo
                obtain ⟨rfl, hlast⟩ := hgo
                rw [followFrom_last last slash kind hp (.inl hlast)] at h
                obtain rfl := Except.ok.inj h
                exact .stop hp (.inl hlast)

namespace Reaches

theorem followFrom_eq (h : Reaches fs last links slash l kind pieces spot) :
    followFrom fs last links slash l kind pieces = .ok spot := by
  induction h with
  | done => rfl
  | current _ ih => rw [followFrom_current, ih]
  | parent _ ih => rw [followFrom_parent, ih]
  | directory hp hd _ ih =>
    obtain ⟨mode, hmode⟩ := isDirectoryAt_iff.mp hd
    rw [followFrom_directory _ _ _ hp hmode, ih]
  | stop hp he => exact followFrom_last _ _ _ hp he
  | link hp he hgo _ ih => rw [followFrom_link _ _ _ hp he hgo, ih]

theorem entry_eq (h : Reaches fs last links slash l kind pieces spot) :
    spot.entry = fs.lookup spot.location := by
  induction h with
  | done => rfl
  | stop _ _ => rfl
  | current _ ih | parent _ ih | directory _ _ _ ih | link _ _ _ _ ih => exact ih

end Reaches

theorem WellFormed.isDirectoryAt_dropLast (hwf : fs.WellFormed) (hl : fs.isDirectoryAt l = true) :
    fs.isDirectoryAt l.dropLast = true := by
  rcases List.eq_nil_or_concat l with rfl | ⟨init, name, rfl⟩
  · exact hl
  · rw [List.concat_eq_append] at hl ⊢
    rw [List.dropLast_concat]
    exact hwf.parent init name (lookup_ne_none hl)

theorem isDirectoryAt_linkStart (hl : fs.isDirectoryAt l = true) (target : Path) :
    fs.isDirectoryAt (if target.isAbsolute then [] else l) = true := by
  split
  · rfl
  · exact hl

namespace Reaches

/-- What stands before other pieces leads to a directory. -/
theorem exists_walk (hwf : fs.WellFormed) {init : List String}
    (h : Reaches fs last links slash l kind (init ++ rest) spot) (hrest : rest ≠ [])
    (hl : fs.isDirectoryAt l = true) : ∃ k n, n ≤ links ∧ fs.isDirectoryAt k = true ∧
      Walk fs (fun _ => True) l init k n := by
  generalize hpieces : init ++ rest = pieces at h
  induction h generalizing init with
  | @done links _ l _ => exact absurd (List.append_eq_nil_iff.mp hpieces).2 hrest
  | current _ ih =>
    cases init with
    | nil => exact ⟨_, 0, Nat.zero_le _, hl, .done trivial⟩
    | cons piece init =>
      obtain ⟨rfl, hinit⟩ := List.cons_eq_cons.mp hpieces
      obtain ⟨k, n, hn, hk, hwalk⟩ := ih hl hinit
      exact ⟨k, n, hn, hk, .current hwalk⟩
  | parent _ ih =>
    cases init with
    | nil => exact ⟨_, 0, Nat.zero_le _, hl, .done trivial⟩
    | cons piece init =>
      obtain ⟨rfl, hinit⟩ := List.cons_eq_cons.mp hpieces
      obtain ⟨k, n, hn, hk, hwalk⟩ := ih (hwf.isDirectoryAt_dropLast hl) hinit
      exact ⟨k, n, hn, hk, .parent hwalk⟩
  | directory hp hd _ ih =>
    cases init with
    | nil => exact ⟨_, 0, Nat.zero_le _, hl, .done trivial⟩
    | cons piece init =>
      obtain ⟨rfl, hinit⟩ := List.cons_eq_cons.mp hpieces
      obtain ⟨mode, hmode⟩ := isDirectoryAt_iff.mp hd
      obtain ⟨k, n, hn, hk, hwalk⟩ := ih hd hinit
      exact ⟨k, n, hn, hk, .directory hp trivial hmode hwalk⟩
  | stop _ _ =>
    cases init with
    | nil => exact ⟨_, 0, Nat.zero_le _, hl, .done trivial⟩
    | cons piece init =>
      have hnil := (List.cons_eq_cons.mp hpieces).2
      exact absurd (List.append_eq_nil_iff.mp hnil).2 hrest
  | @link links _ l _ _ rest' _ target hp he _ _ ih =>
    cases init with
    | nil => exact ⟨_, 0, Nat.zero_le _, hl, .done trivial⟩
    | cons piece init =>
      obtain ⟨rfl, rfl⟩ := List.cons_eq_cons.mp hpieces
      obtain ⟨k, n, hn, hk, hwalk⟩ :=
        ih (isDirectoryAt_linkStart hl target) (List.append_assoc (steps target) init rest)
      exact ⟨k, n + 1, Nat.succ_le_succ hn, hk, .link hp trivial he hwalk⟩

/-- Only at the end does it matter whether links are followed there. -/
theorem unfollowed (h : Reaches fs true links slash l kind pieces spot) :
    Reaches fs false links slash l kind pieces spot ∨
      ∃ k target,
        Reaches fs false links slash l kind pieces ⟨k, some (.link target), .name, slash⟩ := by
  induction h with
  | done => exact .inl .done
  | current _ ih => exact ih.imp .current fun ⟨k, target, h⟩ => ⟨k, target, .current h⟩
  | parent _ ih => exact ih.imp .parent fun ⟨k, target, h⟩ => ⟨k, target, .parent h⟩
  | directory hp hd _ ih =>
    exact ih.imp (.directory hp hd) fun ⟨k, target, h⟩ => ⟨k, target, .directory hp hd h⟩
  | stop hp _ => exact .inl (.stop hp (.inl rfl))
  | @link links slash l kind piece rest spot target hp he _ _ ih =>
    by_cases hrest : rest = []
    · subst hrest
      right
      have hstop : Reaches fs false (links + 1) slash l kind [piece] _ := .stop hp (.inl rfl)
      rw [he] at hstop
      exact ⟨_, target, hstop⟩
    · have hslash : (slash || (rest.isEmpty && target.endsWithSlash)) = slash := by simp [hrest]
      have hgo : ∀ {spot'}, Reaches fs false links
          (slash || (rest.isEmpty && target.endsWithSlash))
          (if target.isAbsolute then [] else l) .root (steps target ++ rest) spot' →
          Reaches fs false (links + 1) slash l kind (piece :: rest) spot' :=
        .link hp he (.inl hrest)
      rw [hslash] at ih hgo
      exact ih.imp hgo fun ⟨k, target, h⟩ => ⟨k, target, hgo h⟩

/-- What is no link at the end is reached when links are followed there too. -/
theorem followed (h : Reaches fs false links slash l kind pieces spot)
    (hlink : ∀ target, spot.entry ≠ some (.link target)) :
    Reaches fs true links slash l kind pieces spot := by
  induction h with
  | done => exact .done
  | current _ ih => exact .current (ih hlink)
  | parent _ ih => exact .parent (ih hlink)
  | directory hp hd _ ih => exact .directory hp hd (ih hlink)
  | stop hp _ => exact .stop hp (.inr hlink)
  | link hp he hgo _ ih =>
    exact .link hp he (hgo.imp_right fun h => absurd h (by decide)) (ih hlink)

end Reaches

/-! ## Whole paths -/

theorem isDirectoryAt_start_of_resolve (h : resolve fs last p = .ok spot) :
    fs.isDirectoryAt (fs.start p) = true := by
  have hu := usable_of_resolve h
  by_contra hd
  rw [Bool.not_eq_true, FileSystem.start] at hd
  rw [resolve] at h
  simp only [hu.no_nul, Bool.false_eq_true, if_false, if_neg hu.ne_empty,
    if_neg (Nat.not_le.mpr hu.short), hd, Bool.not_false, if_true] at h
  exact absurd h (by simp)

theorem reaches_of_resolve (h : resolve fs last p = .ok spot) :
    Reaches fs last linkLimit p.endsWithSlash (fs.start p) .root (steps p) spot := by
  rw [resolve_of_usable (usable_of_resolve h) (isDirectoryAt_start_of_resolve h)] at h
  exact reaches_of_followFrom h

theorem Reaches.resolve_eq
    (h : Reaches fs last linkLimit p.endsWithSlash (fs.start p) .root (steps p) spot)
    (hu : Usable p) (hd : fs.isDirectoryAt (fs.start p) = true) :
    resolve fs last p = .ok spot := by
  rw [resolve_of_usable hu hd, h.followFrom_eq]

/-- **A path behind which names were followed** leads to a directory. -/
theorem exists_route_of_resolve_descend {names : List String} (hwf : fs.WellFormed)
    (hnames : ∀ name ∈ names, IsName name) (hne : names ≠ [])
    (h : resolve fs last (p.descend names) = .ok spot) :
    ∃ k, fs.isDirectoryAt k = true ∧ Route fs (fun _ => True) p k := by
  have hstart : fs.start (p.descend names) = fs.start p := by
    rw [FileSystem.start, FileSystem.start, Path.isAbsolute_descend p hnames]
  have hd := isDirectoryAt_start_of_resolve h
  have hreaches := reaches_of_resolve h
  rw [Path.steps_descend p hnames] at hreaches
  rw [hstart] at hreaches hd
  obtain ⟨k, n, hn, hk, hwalk⟩ := hreaches.exists_walk hwf hne hd
  exact ⟨k, hk, trivial, hd, n, hn, hwalk⟩

theorem exists_route_of_resolve_child (hwf : fs.WellFormed) (hname : IsName name)
    (h : resolve fs last (p.child name) = .ok spot) :
    ∃ k, fs.isDirectoryAt k = true ∧ Route fs (fun _ => True) p k :=
  exists_route_of_resolve_descend hwf (by simpa using hname) (List.cons_ne_nil name []) h

theorem find_eq_ok_iff : find fs last p = .ok (k, e) ↔
    ∃ spot, resolve fs (last || p.endsWithSlash) p = .ok spot ∧ spot.location = k ∧
      spot.entry = some e ∧ (spot.slash = true → e.isDirectory = true) := by
  rw [find]
  cases resolve fs (last || p.endsWithSlash) p with
  | error e => simp
  | ok spot =>
    cases hentry : spot.entry with
    | none => simp [hentry]
    | some e' =>
      simp only [hentry, Except.ok.injEq, exists_eq_left']
      constructor
      · intro h
        split at h
        · exact absurd h (by simp)
        · rename_i hslash
          obtain ⟨rfl, rfl⟩ : spot.location = k ∧ e' = e := by simpa using h
          exact ⟨rfl, rfl, fun hs => by simpa [hs] using hslash⟩
      · rintro ⟨rfl, he, hslash⟩
        obtain rfl := Option.some.inj he
        rw [if_neg]
        cases hs : spot.slash with
        | false => simp
        | true => simp [hslash hs]

theorem lookup_of_find (h : find fs last p = .ok (k, e)) : fs.lookup k = some e := by
  obtain ⟨spot, hres, rfl, hentry, -⟩ := find_eq_ok_iff.mp h
  rw [← hentry, (reaches_of_resolve hres).entry_eq]

/-- **Without following a link at the end** the same is found, or that link. -/
theorem find_false_of_find_true (h : find fs true p = .ok (k, e)) :
    find fs false p = .ok (k, e) ∨ ∃ k' target, find fs false p = .ok (k', .link target) := by
  obtain ⟨spot, hres, rfl, hentry, hslash⟩ := find_eq_ok_iff.mp h
  cases hs : p.endsWithSlash with
  | true => exact .inl (find_eq_ok_iff.mpr ⟨spot, by rw [hs]; exact hres, rfl, hentry, hslash⟩)
  | false =>
    have hu := usable_of_resolve hres
    have hd := isDirectoryAt_start_of_resolve hres
    rcases (reaches_of_resolve hres).unfollowed with hreaches | ⟨k, target, hreaches⟩
    · exact .inl (find_eq_ok_iff.mpr
        ⟨spot, by rw [hs]; exact hreaches.resolve_eq hu hd, rfl, hentry, hslash⟩)
    · refine .inr ⟨k, target, find_eq_ok_iff.mpr
        ⟨_, by rw [hs]; exact hreaches.resolve_eq hu hd, rfl, rfl, ?_⟩⟩
      intro h
      exact absurd (hs.symm.trans h) Bool.false_ne_true

/-- What leads on in the first file system leads on in the second. -/
structure Guides (fs fs' : FileSystem) : Prop where
  directory : ∀ l, fs.isDirectoryAt l = true → fs'.isDirectoryAt l = true
  link : ∀ l target, fs.lookup l = some (.link target) → fs'.lookup l = some (.link target)
  workingDirectory : fs'.workingDirectory = fs.workingDirectory

theorem Guides.trans {fs'' : FileSystem} (h : Guides fs fs') (h' : Guides fs' fs'') :
    Guides fs fs'' :=
  ⟨fun l hl => h'.directory l (h.directory l hl),
    fun l target hl => h'.link l target (h.link l target hl),
    h'.workingDirectory.trans h.workingDirectory⟩

/-- Where only free places are changed, what leads on leads on. -/
theorem ChangesOnly.guides {P : Location → Prop} (h : ChangesOnly P fs fs')
    (hP : ∀ l, P l → fs.lookup l = none) : Guides fs fs' := by
  have hkeep : ∀ l e, fs.lookup l = some e → fs'.lookup l = some e := by
    intro l e he
    rw [h.lookup l, he]
    intro hl
    exact absurd ((hP l hl).symm.trans he) (by simp)
  refine ⟨fun l hl => ?_, fun l target hl => hkeep l _ hl, h.workingDirectory⟩
  obtain ⟨mode, hmode⟩ := isDirectoryAt_iff.mp hl
  exact isDirectoryAt_of_lookup (hkeep l _ hmode)

theorem Walk.of_guides {Q : Location → Prop} {n : Nat} (hg : Guides fs fs')
    (h : Walk fs Q l pieces k n) (hk : fs.isDirectoryAt k = true) : Walk fs' Q l pieces k n := by
  induction h with
  | done hl => exact .done hl
  | current _ ih => exact .current (ih hk)
  | parent _ ih => exact .parent (ih hk)
  | directory hp hl he _ ih =>
    obtain ⟨mode, hmode⟩ := isDirectoryAt_iff.mp (hg.directory _ (isDirectoryAt_of_lookup he))
    exact .directory hp hl hmode (ih hk)
  | file _ _ he => exact absurd (isDirectory_of_lookup hk he) Bool.false_ne_true
  | link hp hl he _ ih => exact .link hp hl (hg.link _ _ he) (ih hk)

theorem Route.of_guides {Q : Location → Prop} (hg : Guides fs fs') (h : Route fs Q p k)
    (hk : fs.isDirectoryAt k = true) : Route fs' Q p k := by
  obtain ⟨n, hn, hwalk⟩ := h.walk
  have hstart := start_congr hg.workingDirectory p
  refine ⟨by rw [hstart]; exact h.start, ?_, n, hn, ?_⟩
  · rw [hstart]
    exact hg.directory _ h.directory
  · rw [hstart]
    exact hwalk.of_guides hg hk

/-- At the spot itself the file systems may differ, but not by a link. -/
theorem Reaches.of_guides (hg : Guides fs fs')
    (h : Reaches fs last links slash l kind pieces spot)
    (hlink : ∀ target, fs'.lookup spot.location = some (.link target) →
      fs.lookup spot.location = some (.link target)) :
    Reaches fs' last links slash l kind pieces { spot with entry := fs'.lookup spot.location } := by
  induction h with
  | done => exact .done
  | current _ ih => exact .current (ih hlink)
  | parent _ ih => exact .parent (ih hlink)
  | directory hp hd _ ih => exact .directory hp (hg.directory _ hd) (ih hlink)
  | stop hp he => exact .stop hp (he.imp_right fun hno target ht => hno target (hlink target ht))
  | link hp he hgo _ ih => exact .link hp (hg.link _ _ he) hgo (ih hlink)

theorem resolve_of_guides (hg : Guides fs fs') (h : resolve fs last p = .ok spot)
    (hlink : ∀ target, fs'.lookup spot.location = some (.link target) →
      fs.lookup spot.location = some (.link target)) :
    resolve fs' last p = .ok { spot with entry := fs'.lookup spot.location } := by
  have hstart := start_congr hg.workingDirectory p
  have hreaches := (reaches_of_resolve h).of_guides hg hlink
  rw [← hstart] at hreaches
  refine hreaches.resolve_eq (usable_of_resolve h) ?_
  rw [hstart]
  exact hg.directory _ (isDirectoryAt_start_of_resolve h)

/-- **What was found is found there too**: whatever the other file system has at that place, unless
it is a link. -/
theorem find_of_guides (hg : Guides fs fs') (h : find fs true p = .ok (k, e))
    (he' : fs'.lookup k = some e') (hlink : e'.isLink = false) :
    find fs' true p = .ok (k, e') := by
  obtain ⟨spot, hres, rfl, hentry, hslash⟩ := find_eq_ok_iff.mp h
  have hlookup := lookup_of_find h
  refine find_eq_ok_iff.mpr ⟨_, resolve_of_guides hg hres ?_, rfl, he', fun hs => ?_⟩
  · intro target htarget
    obtain rfl : e' = .link target := by simpa [he'] using htarget
    exact absurd hlink (by simp [Entry.isLink])
  · obtain ⟨mode, rfl⟩ := exists_mode_of_isDirectory (hslash hs)
    exact isDirectory_of_lookup (hg.directory _ (isDirectoryAt_of_lookup hlookup)) he'

end PluginManager.FileSystem
