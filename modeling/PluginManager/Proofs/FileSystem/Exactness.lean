import PluginManager.Proofs.FileSystem.Replace
import PluginManager.Proofs.FileSystem.WayDown
import PluginManager.Proofs.Install.Site

/-!
# Removing and linking at any path

A path of any form that ends in a name, with links and `..` before it, is removed exactly: what it
leads to goes with all below it, and nothing else is different.

* `EndsInName`: the paths in question.
* `Shrinks.resolve_eq`: where fewer entries are, a path leads to the same place or nowhere.
* `GoesThrough`: the path is followed through something below the place it leads to.
* `removeAll_of_find`: **what a removal does** where something is found.
-/

namespace PluginManager.FileSystem

variable {fs fs' : FileSystem} {l k d : Location} {p q target : Path} {name : String}
  {pieces init : List String} {links n : Nat} {slash : Bool} {kind : LastPiece} {spot : Spot}
  {e : Entry}

/-! ## Paths that end in a name -/

/-- The text of the path ends in a name. -/
structure EndsInName (p : Path) : Prop where
  slash : p.endsWithSlash = false
  step : ∃ init name, steps p = init ++ [name] ∧ name ≠ "." ∧ name ≠ ".."

/-- What stands before the name is followed to a directory. -/
theorem EndsInName.exists_of_resolve (hp : EndsInName p) (hwf : fs.WellFormed)
    (h : resolve fs false p = .ok spot) :
    ∃ init name k n, steps p = init ++ [name] ∧ IsLookedUp name ∧ n ≤ linkLimit ∧
      fs.isDirectoryAt k = true ∧ Walk fs (fun _ => True) (fs.start p) init k n ∧
      spot = ⟨k ++ [name], fs.lookup (k ++ [name]), .name, false⟩ := by
  obtain ⟨init, name, hsteps, hcurrent, hparent⟩ := hp.step
  have hd := isDirectoryAt_start_of_resolve h
  have hreaches := reaches_of_resolve h
  rw [hsteps] at hreaches
  obtain ⟨k, n, hn, hk, hwalk⟩ := hreaches.exists_walk hwf (List.cons_ne_nil name []) hd
  rw [resolve_of_walk false (usable_of_resolve h) hd hwalk hn hk hsteps (List.cons_ne_nil name []),
    hp.slash] at h
  have hname := isLookedUp_of_followFrom hcurrent hparent h
  rw [followFrom_last false _ .root hname (.inl rfl)] at h
  exact ⟨init, name, k, n, hsteps, hname, hn, hk, hwalk, (Except.ok.inj h).symm⟩

/-! ## Fewer entries -/

/-- Where fewer entries are, what was reached is reached again, or something on the way is
missing. -/
theorem Reaches.of_shrinks (hs : Shrinks fs fs')
    (h : Reaches fs false links slash l kind pieces spot) :
    followFrom fs' false links slash l kind pieces =
        .ok { spot with entry := fs'.lookup spot.location } ∨
      followFrom fs' false links slash l kind pieces = .error .notFound := by
  induction h with
  | done => exact .inl rfl
  | current _ ih =>
    rw [followFrom_current]
    exact ih
  | parent _ ih =>
    rw [followFrom_parent]
    exact ih
  | @directory links slash l kind piece rest spot hp hd h ih =>
    cases he : fs'.lookup (l ++ [piece]) with
    | none =>
      by_cases hrest : rest = []
      · subst hrest
        cases h with
        | done => exact .inl (followFrom_last _ _ _ hp (.inl rfl))
      · exact .inr (followFrom_missing _ _ _ hp hrest he)
    | some e =>
      obtain ⟨mode, rfl⟩ := exists_mode_of_isDirectory (isDirectory_of_lookup hd (hs.lookup _ e he))
      rw [followFrom_directory _ _ _ hp he]
      exact ih
  | stop hp _ => exact .inl (followFrom_last _ _ _ hp (.inl rfl))
  | @link links slash l kind piece rest spot target hp he hgo _ ih =>
    have hrest : rest ≠ [] := hgo.resolve_right (by decide)
    cases he' : fs'.lookup (l ++ [piece]) with
    | none => exact .inr (followFrom_missing _ _ _ hp hrest he')
    | some e =>
      obtain rfl : e = .link target := Option.some.inj ((hs.lookup _ e he').symm.trans he)
      rw [followFrom_link _ _ _ hp he' hgo]
      exact ih

theorem Shrinks.resolve_eq (hs : Shrinks fs fs') (h : resolve fs false p = .ok spot) :
    resolve fs' false p = .ok { spot with entry := fs'.lookup spot.location } ∨
      resolve fs' false p = .error .notFound := by
  have hu := usable_of_resolve h
  have hstart := start_congr hs.workingDirectory p
  by_cases hd : fs'.isDirectoryAt (fs'.start p) = true
  · rw [resolve_of_usable hu hd, hstart]
    exact (reaches_of_resolve h).of_shrinks hs
  · right
    rw [Bool.not_eq_true, FileSystem.start] at hd
    rw [resolve]
    simp only [hu.no_nul, Bool.false_eq_true, if_false, if_neg hu.ne_empty,
      if_neg (Nat.not_le.mpr hu.short), hd, Bool.not_false, if_true]

/-- With nothing at the place that it led to, the path finds nothing. -/
theorem Shrinks.find_eq_notFound (hs : Shrinks fs fs') (hslash : p.endsWithSlash = false)
    (h : resolve fs false p = .ok spot) (hnone : fs'.lookup spot.location = none) :
    find fs' false p = .error .notFound := by
  rw [find, hslash, Bool.or_false]
  rcases hs.resolve_eq h with hok | herror
  · rw [hok, hnone]
  · rw [herror]

/-- Following the path comes past something below `l`. -/
def GoesThrough (fs : FileSystem) (p : Path) (l : Location) : Prop :=
  ∃ m, (m = fs.start p ∨ LooksUp fs (fs.start p) (steps p) m) ∧ l <+: m ∧ m ≠ l

/-- A path that does not come past what is taken away leads to the same place. -/
theorem resolve_eraseBelow {last : Bool} (h : resolve fs last p = .ok spot)
    (hthrough : ¬ GoesThrough fs p l) :
    resolve (fs.eraseBelow l) last p =
      .ok { spot with entry := (fs.eraseBelow l).lookup spot.location } := by
  have hsame : ∀ m, (m = fs.start p ∨ LooksUp fs (fs.start p) (steps p) m) →
      (fs.eraseBelow l).lookup m = fs.lookup m := fun m hm =>
    (changesOnly_eraseBelow fs l).lookup m fun hbelow => hthrough ⟨m, hm, hbelow⟩
  refine ((reaches_of_resolve h).of_alike fun m hm => .inl (hsame m (.inr hm))).resolve_eq
    (usable_of_resolve h) ?_
  show (fs.eraseBelow l).isDirectoryAt (fs.start p) = true
  rw [isDirectoryAt, hsame _ (.inl rfl), ← isDirectoryAt]
  exact isDirectoryAt_start_of_resolve h

theorem erase_eraseBelow (fs : FileSystem) (l : Location) :
    (fs.eraseBelow l).erase l = fs.erase l := by
  simp only [eraseBelow, erase, List.filter_filter]
  congr 2 <;>
  · funext x
    cases isWithin l x.1 <;> simp

/-! ## Removing -/

/-- What is no directory is removed. -/
theorem removeAll_of_find_entry (hp : EndsInName p) (hwf : fs.WellFormed)
    (h : find fs false p = .ok (l, e)) (he : e.isDirectory = false) :
    removeAll p fs = .ok () (fs.erase l) := by
  obtain ⟨spot, hres, rfl, hentry, -⟩ := find_eq_ok_iff.mp h
  rw [hp.slash, Bool.or_false] at hres
  obtain ⟨-, name, k, -, -, -, -, -, -, rfl⟩ := hp.exists_of_resolve hwf hres
  have hremove : removeFile fs p = .ok (fs.erase (k ++ [name])) := by
    rw [removeFile, hres]
    dsimp only at hentry ⊢
    rw [hentry]
    cases e with
    | directory mode => exact absurd he (by simp [Entry.isDirectory])
    | file mode content => rfl
    | link target => rfl
  rw [removeAll, h]
  cases e with
  | directory mode => exact absurd he (by simp [Entry.isDirectory])
  | file mode content => simp only [FileTask.change, hremove]
  | link target => simp only [FileTask.change, hremove]

/-- A directory is removed, or emptied where its own path is lost on the way. -/
theorem removeAll_of_find_directory {mode : Nat} (hp : EndsInName p) (hwf : fs.WellFormed)
    (h : find fs false p = .ok (l, .directory mode)) :
    removeAll p fs = .ok () (fs.erase l) ∨
      GoesThrough fs p l ∧ removeAll p fs = .ok () (fs.eraseBelow l) ∧
        find (fs.eraseBelow l) false p = .error .notFound := by
  obtain ⟨spot, hres, rfl, hentry, -⟩ := find_eq_ok_iff.mp h
  rw [hp.slash, Bool.or_false] at hres
  obtain ⟨-, name, k, -, -, -, -, -, -, rfl⟩ := hp.exists_of_resolve hwf hres
  have hkept : (fs.eraseBelow (k ++ [name])).lookup (k ++ [name]) = some (.directory mode) := by
    rw [(changesOnly_eraseBelow fs _).lookup _ fun hbelow => hbelow.2 rfl]
    exact hentry
  have htree : removeAll p fs = removeTree (k ++ [name]) p fs := by
    rw [removeAll, h]
  rw [htree, removeTree]
  rcases (shrinks_eraseBelow fs (k ++ [name])).resolve_eq hres with hok | herror
  · left
    rw [removeDirectory, hok]
    dsimp only
    rw [hkept]
    dsimp only
    rw [names_eraseBelow, erase_eraseBelow]
    rfl
  · right
    refine ⟨?_, ?_, ?_⟩
    · by_contra hthrough
      rw [resolve_eraseBelow hres hthrough] at herror
      exact absurd herror (by simp)
    · rw [removeDirectory, herror]
    · rw [find, hp.slash, Bool.or_false, herror]

theorem EndsInName.ne_nil_of_find (hp : EndsInName p) (hwf : fs.WellFormed)
    (h : find fs false p = .ok (l, e)) : l ≠ [] := by
  obtain ⟨spot, hres, rfl, -⟩ := find_eq_ok_iff.mp h
  rw [hp.slash, Bool.or_false] at hres
  obtain ⟨-, name, k, -, -, -, -, -, -, rfl⟩ := hp.exists_of_resolve hwf hres
  exact append_singleton_ne_nil

/-- **What a removal does** where something is found: it succeeds, and the path leads to nothing.
What was found is gone with all below it; only of a directory that its own path goes through, the
directory itself may stay. -/
theorem removeAll_of_find (hp : EndsInName p) (hwf : fs.WellFormed)
    (h : find fs false p = .ok (l, e)) :
    ∃ fs', removeAll p fs = .ok () fs' ∧ find fs' false p = .error .notFound ∧
      (fs' = fs.erase l ∨
        e.isDirectory = true ∧ GoesThrough fs p l ∧ fs' = fs.eraseBelow l) := by
  have hl := hp.ne_nil_of_find hwf h
  obtain ⟨spot, hres, rfl, hentry, -⟩ := find_eq_ok_iff.mp h
  rw [hp.slash, Bool.or_false] at hres
  have hgone : find (fs.erase spot.location) false p = .error .notFound :=
    (shrinks_erase fs _).find_eq_notFound hp.slash hres
      (lookup_erase_of_within hl (List.prefix_refl _))
  cases hd : e.isDirectory with
  | false => exact ⟨_, removeAll_of_find_entry hp hwf h hd, hgone, .inl rfl⟩
  | true =>
    obtain ⟨mode, rfl⟩ := exists_mode_of_isDirectory hd
    rcases removeAll_of_find_directory hp hwf h with hok | ⟨hthrough, hok, hnone⟩
    · exact ⟨_, hok, hgone, .inl rfl⟩
    · exact ⟨_, hok, hnone, .inr ⟨rfl, hthrough, rfl⟩⟩

/-- What a removal at the path does: it succeeds just where something or nothing is found, and
leaves nothing at the path; what was found goes with all below it, and nothing else is different.
Where it fails, nothing is different at all. -/
structure ExactRemoval (fs : FileSystem) (p : Path) : Prop where
  succeeds_iff : (∃ fs', removeAll p fs = .ok () fs') ↔
    (∃ x, find fs false p = .ok x) ∨ find fs false p = .error .notFound
  fails : ∀ cause fs', removeAll p fs = .error cause fs' → fs' = fs
  absent : ∀ fs', removeAll p fs = .ok () fs' → find fs' false p = .error .notFound
  nothing : find fs false p = .error .notFound → removeAll p fs = .ok () fs
  gone : ∀ l e, find fs false p = .ok (l, e) → ¬ GoesThrough fs p l →
    removeAll p fs = .ok () (fs.erase l) ∧ Placed l .empty fs (fs.erase l) ∧
      StaysIn (l <+: ·) fs (fs.erase l)
  through : ∀ l e fs', find fs false p = .ok (l, e) → removeAll p fs = .ok () fs' →
    fs' = fs.erase l ∨ e.isDirectory = true ∧ GoesThrough fs p l ∧ fs' = fs.eraseBelow l

theorem removeAll_of_find_error {cause : FileError} (h : find fs false p = .error cause) :
    removeAll p fs = if cause = .notFound then .ok () fs else .error cause fs := by
  rw [removeAll, h]
  cases cause <;> rfl

theorem exactRemoval (hp : EndsInName p) (hwf : fs.WellFormed) : ExactRemoval fs p := by
  cases hfind : find fs false p with
  | error cause =>
    have hremove := removeAll_of_find_error hfind
    constructor
    · rw [hremove, hfind]
      by_cases hcause : cause = .notFound <;> simp [hcause]
    · intro cause' fs' h
      rw [hremove] at h
      split at h
      · cases h
      · exact (EStateM.Result.error.inj h).2.symm
    · intro fs' h
      rw [hremove] at h
      split at h
      · rename_i hcause
        obtain rfl := (EStateM.Result.ok.inj h).2
        rw [hfind, hcause]
      · cases h
    · intro hnone
      rw [hremove, if_pos (Except.error.inj (hfind.symm.trans hnone))]
    · intro l e h
      exact absurd (hfind.symm.trans h) (by simp)
    · intro l e fs' h
      exact absurd (hfind.symm.trans h) (by simp)
  | ok x =>
    obtain ⟨l, e⟩ := x
    obtain ⟨fs₁, hremove, habsent, heffect⟩ := removeAll_of_find hp hwf hfind
    have hunique : ∀ fs', removeAll p fs = .ok () fs' → fs' = fs₁ := fun fs' h =>
      ((EStateM.Result.ok.inj (hremove.symm.trans h)).2).symm
    constructor
    · exact ⟨fun _ => .inl ⟨_, hfind⟩, fun _ => ⟨fs₁, hremove⟩⟩
    · intro cause fs' h
      exact absurd (hremove.symm.trans h) (by simp)
    · intro fs' h
      rw [hunique fs' h, habsent]
    · intro hnone
      exact absurd (hfind.symm.trans hnone) (by simp)
    · intro l' e' h hthrough
      obtain ⟨rfl, rfl⟩ := Prod.mk.inj (Except.ok.inj (hfind.symm.trans h))
      obtain rfl := heffect.resolve_right fun h => hthrough h.2.1
      exact ⟨hremove, placed_erase (hp.ne_nil_of_find hwf hfind), staysIn_erase fs l⟩
    · intro l' e' fs' h hremove'
      obtain ⟨rfl, rfl⟩ := Prod.mk.inj (Except.ok.inj (hfind.symm.trans h))
      rw [hunique fs' hremove']
      exact heffect

/-! ## Linking -/

theorem exists_of_linkTo (h : linkTo target p fs = .ok () fs') :
    ∃ fs₁ fs₂, (fs₁ = fs ∨ ∃ parent, p.parent? = some parent ∧
        createDirectories parent fs = .ok () fs₁) ∧
      removeAll p fs₁ = .ok () fs₂ ∧ makeLink fs₂ target p = .ok fs' := by
  cases hparent : p.parent? with
  | some parent =>
    obtain ⟨fs₁, fs₂, hcreate, hremove, hmake⟩ := (Site.linkTo_eq_ok hparent).mp h
    exact ⟨fs₁, fs₂, .inr ⟨parent, rfl, hcreate⟩, hremove, hmake⟩
  | none =>
    rw [linkTo, hparent] at h
    obtain ⟨_, fs₂, hremove, h⟩ := Task.bind_eq_ok.mp h
    exact ⟨fs, fs₂, .inl rfl, Task.forPath_eq_ok.mp hremove, Task.change_eq_ok.mp h⟩

/-- A path that only goes down and comes past no link leads to its destination, through
directories. -/
theorem EndsInName.destination_of_resolve (hp : EndsInName p) (hwf : fs.WellFormed)
    (hdown : ".." ∉ steps p) (hlinks : NoLinks fs (fs.start p) p.way)
    (h : resolve fs false p = .ok spot) : spot.location = fs.destination p ∧
      ∃ init name, p.way = init ++ [name] ∧ fs.isDirectoryAt (fs.start p ++ init) = true := by
  obtain ⟨init, name, k, n, hsteps, hname, -, hk, hwalk, rfl⟩ := hp.exists_of_resolve hwf h
  have hway : p.way = namesOf init ++ [name] := by
    rw [Path.way, hsteps, List.filter_append]
    exact congrArg _ (namesOf_cons_of_isLookedUp hname)
  rw [hway] at hlinks
  obtain rfl := hwalk.eq_of_noLinks (fun hmem => hdown (hsteps ▸ List.mem_append_left _ hmem))
    (hlinks.upTo (List.cons_ne_nil _ _))
  exact ⟨by rw [destination, hway, List.append_assoc], _, _, hway, hk⟩

/-- A path that only goes down to a directory does not come past anything in it. -/
theorem not_goesThrough (hdown : ".." ∉ steps p) (hlinks : NoLinks fs (fs.start p) p.way)
    (hd : fs.isDirectoryAt (fs.destination p) = true) :
    ¬ GoesThrough fs p (fs.destination p) := by
  have hupTo : NoLinkUpTo fs (fs.start p) p.way := by
    intro pre hpre target htarget
    by_cases heq : pre = p.way
    · rw [heq] at htarget
      exact absurd (isDirectory_of_lookup hd htarget) Bool.false_ne_true
    · exact hlinks pre hpre heq target htarget
  rintro ⟨m, hm, hbelow, hne⟩
  have hpre : m <+: fs.destination p := by
    rcases hm with rfl | hm
    · exact List.prefix_append _ _
    · exact hm.prefix_of_noLinks hdown hupTo
  exact hne (hpre.eq_of_length_le hbelow.length_le)

/-- Removing leaves nothing at the destination, and all else as it was. -/
theorem EndsInName.placed_of_removeAll (hp : EndsInName p) (hwf : fs.WellFormed)
    (hdown : ".." ∉ steps p) (hlinks : NoLinks fs (fs.start p) p.way)
    (h : removeAll p fs = .ok () fs') (hres : resolve fs' false p = .ok spot)
    (hfree : spot.entry = none) (hlocation : spot.location = fs.destination p) :
    Placed (fs.destination p) .empty fs fs' := by
  cases hfind : find fs false p with
  | error cause =>
    obtain rfl : fs = fs' := by
      rw [removeAll, hfind] at h
      cases cause <;> simp only [EStateM.Result.ok.injEq, reduceCtorEq] at h
      exact h.2
    refine placed_refl (hwf.treeAt_eq_empty ?_)
    rw [← hlocation, ← (reaches_of_resolve hres).entry_eq, hfree]
  | ok x =>
    obtain ⟨l, e⟩ := x
    obtain ⟨spot', hres', rfl, -⟩ := find_eq_ok_iff.mp hfind
    rw [hp.slash, Bool.or_false] at hres'
    obtain ⟨hlocation', init, name, hway, -⟩ :=
      hp.destination_of_resolve hwf hdown hlinks hres'
    obtain ⟨fs'', hremove, -, herase | ⟨hd, hthrough, -⟩⟩ := removeAll_of_find hp hwf hfind
    · obtain rfl : fs'' = fs' := by simpa using hremove.symm.trans h
      rw [herase, hlocation']
      exact placed_erase (by simp [destination, hway])
    · rw [hlocation'] at hthrough hfind
      obtain ⟨mode, hmode⟩ := exists_mode_of_isDirectory hd
      refine absurd hthrough (not_goesThrough hdown hlinks ?_)
      exact isDirectoryAt_of_lookup (by rw [lookup_of_find hfind, hmode])

/-- The directories that lead to the link are made, and no others. -/
theorem exists_prepared_of_linkTo (hwf : fs.WellFormed) (hdown : ".." ∉ steps p)
    (h : linkTo target p fs = .ok () fs') :
    ∃ fs₁ fs₂, Prepared fs p fs₁ ∧ removeAll p fs₁ = .ok () fs₂ ∧ Shrinks fs₁ fs₂ ∧
      makeLink fs₂ target p = .ok fs' := by
  obtain ⟨fs₁, fs₂, hcreate, hremove, hmake⟩ := exists_of_linkTo h
  obtain ⟨spot, hres, -⟩ := exists_of_makeLink hmake
  have hplain : Plain fs p := plain_of_arePlain (arePlain_of_resolve hdown hres)
  refine ⟨fs₁, fs₂, ?_, hremove, (leaves_removeAll fs₁ p).ok _ _ hremove, hmake⟩
  rcases hcreate with rfl | ⟨parent, hparent, hcreate⟩
  · exact .untouched
  · have hencloses := Path.encloses_of_parent? hparent
    exact (leaves_createFirst (.untouched : Prepared fs p fs) fun q hq hne _ _ h hmake =>
      h.of_makeDirectory hwf hplain ((Path.encloses_of_mem_ancestors hq).trans hencloses) hne
        hmake).ok _ _ hcreate

/-- **What linking lays**: the link alone, and the directories that lead to it. -/
theorem laid_of_linkTo (hp : EndsInName p) (hwf : fs.WellFormed) (hdown : ".." ∉ steps p)
    (hlinks : NoLinks fs (fs.start p) p.way) (h : linkTo target p fs = .ok () fs') :
    Site.Laid (fs.destination p) (.leaf (.link target)) fs fs' := by
  obtain ⟨fs₁, fs₂, hprepared, hremove, hshrinks, hmake⟩ := exists_prepared_of_linkTo hwf hdown h
  obtain ⟨spot, hres, hlast, hfree, rfl⟩ := exists_of_makeLink hmake
  have hstays := hprepared.staysOnWay hdown hlinks
  have hwf₁ := hprepared.wellFormed hwf
  have hwf₂ := hshrinks.wellFormed hwf₁
  have hstart₁ : fs₁.start p = fs.start p := start_congr hprepared.guides.workingDirectory p
  have hstart₂ : fs₂.start p = fs₁.start p := start_congr hshrinks.workingDirectory p
  have hdestination₁ : fs₁.destination p = fs.destination p := by
    rw [destination, destination, hstart₁]
  have hlinks₁ : NoLinks fs₁ (fs₁.start p) p.way := by
    rw [hstart₁]
    exact hprepared.noLinks hlinks
  have hlinks₂ : NoLinks fs₂ (fs₂.start p) p.way := by
    rw [hstart₂]
    exact fun pre hpre hne target htarget =>
      hlinks₁ pre hpre hne target (hshrinks.lookup _ _ htarget)
  obtain ⟨hlocation, init, name, hway, hd⟩ := hp.destination_of_resolve hwf₂ hdown hlinks₂ hres
  have hlocation₁ : spot.location = fs₁.destination p := by
    rw [hlocation, destination, destination, hstart₂]
  have hcleared := hp.placed_of_removeAll hwf₁ hdown hlinks₁ hremove hres hfree hlocation₁
  have hreaches := reaches_of_resolve hres
  have hplace : IsPlace fs₂ spot.location := hreaches.isPlace hwf₂ (forall_mem_steps p)
    (isDirectoryAt_start_of_resolve hres) (by simp) hlast
  have hnone : fs₂.isDirectoryAt spot.location = false := by
    rw [isDirectoryAt, ← hreaches.entry_eq, hfree]
    rfl
  rw [hdestination₁] at hcleared hlocation₁
  have hput : Placed (fs.destination p) (.leaf (.link target)) fs₁
      (fs₂.insert spot.location (.link target)) := by
    rw [hlocation₁]
    exact hcleared.trans (placed_insert (hlocation₁ ▸ hplace.ne_nil)
      (fun r _ => hcleared.lookup r) _)
  refine ⟨(hstays.changes.mono fun _ => .inr).trans (hput.changes.mono fun _ => .inl), hput.tree,
    fun m hm hne hfree => ?_, wellFormed_insert_leaf hwf₂ hplace hnone _⟩
  have hnot : ¬ fs.destination p <+: m := fun h => hne (hm.eq_of_length_le h.length_le)
  have hm₂ : fs₂.isDirectoryAt m = true := by
    refine hwf₂.isDirectoryAt_of_prefix hd ?_
    rw [hstart₂, hstart₁]
    rw [destination, hway, ← List.append_assoc] at hm hne
    exact prefix_concat_cases hm hne
  have hm₁ : fs₁.isDirectoryAt m = true := by
    rwa [isDirectoryAt, ← hcleared.changes.lookup m hnot]
  rw [hput.changes.lookup m hnot]
  exact hprepared.lookup_of_directory hfree hm₁

/-- Where a link was made, the path leads to it. -/
theorem EndsInName.readLink_of_makeLink (hp : EndsInName p) (hwf : fs.WellFormed)
    (h : makeLink fs target p = .ok fs') : readLink fs' p = .ok target := by
  obtain ⟨spot, hres, hlast, hfree, rfl⟩ := exists_of_makeLink h
  obtain ⟨init, name, k, n, hsteps, hname, hn, hk, hwalk, rfl⟩ := hp.exists_of_resolve hwf hres
  have hguides : Guides fs (fs.insert (k ++ [name]) (.link target)) :=
    (changesOnly_insert fs append_singleton_ne_nil _).guides fun _ hl => hl ▸ hfree
  have hd := isDirectoryAt_start_of_resolve hres
  have hfind : find (fs.insert (k ++ [name]) (.link target)) false p =
      .ok (k ++ [name], .link target) := by
    rw [find, hp.slash, Bool.or_false, resolve_of_walk false (usable_of_resolve hres)
      (hguides.directory _ hd) (hwalk.of_guides hguides hk) hn (hguides.directory k hk) hsteps
      (List.cons_ne_nil name []), followFrom_last false _ .root hname (.inl rfl), hp.slash,
      lookup_insert fs append_singleton_ne_nil, if_pos rfl]
    rfl
  rw [readLink, hfind]

/-! ## Both -/

/-- **Removing and linking are exact.**  A removal takes away what its path leads to, with all below
it, unless the path goes through that, and does nothing else; and a link made at the end of a path
that only goes down, over no link, is all that is there afterwards, with the directories that lead
to it. -/
theorem removing_and_linking_are_exact :
    (∀ (fs : FileSystem) (p : Path), fs.WellFormed → EndsInName p → ExactRemoval fs p) ∧
    ∀ (fs : FileSystem) (target p : Path) (fs' : FileSystem), fs.WellFormed → EndsInName p →
      ".." ∉ steps p → NoLinks fs (fs.start p) p.way → linkTo target p fs = .ok () fs' →
        Site.Laid (fs.destination p) (.leaf (.link target)) fs fs' ∧
          readLink fs' p = .ok target := by
  refine ⟨fun fs p hwf hp => exactRemoval hp hwf, fun fs target p fs' hwf hp hdown hlinks h => ?_⟩
  refine ⟨laid_of_linkTo hp hwf hdown hlinks h, ?_⟩
  obtain ⟨fs₁, fs₂, hprepared, -, hshrinks, hmake⟩ := exists_prepared_of_linkTo hwf hdown h
  exact hp.readLink_of_makeLink (hshrinks.wellFormed (hprepared.wellFormed hwf)) hmake

/-- A directory with a link inside it, the link's target, and a link to the directory. -/
def nest : FileSystem where
  entries :=
    [(["d"], .directory 0o755), (["d", "sub"], .directory 0o750),
      (["d", "sub", "up"], .link ⟨"../../keep"⟩), (["keep"], .file 0o644 [1]), (["k"], .link ⟨"d"⟩)]
  times := []
  clock := 0
  workingDirectory := []

theorem wellFormed_nest : nest.WellFormed :=
  wellFormed_of_keys (by decide +kernel) (by decide +kernel)

theorem not_goesThrough_nest : ¬ GoesThrough nest ⟨"k/sub"⟩ ["d", "sub"] := by
  have hname : ∀ n ∈ ["k", "d", "sub"], IsName n := by decide +kernel
  have hsteps : steps ⟨"k/sub"⟩ = ["k", "sub"] := by decide +kernel
  have hbehind : steps ⟨"d"⟩ ++ ["sub"] = ["d", "sub"] := by decide +kernel
  have hk : nest.lookup ["k"] = some (.link ⟨"d"⟩) := rfl
  have hd : nest.lookup ["d"] = some (.directory 0o755) := rfl
  have hsub : nest.lookup ["d", "sub"] = some (.directory 0o750) := rfl
  rintro ⟨m, rfl | hm, hbelow, hne⟩
  · exact absurd hbelow (by decide +kernel)
  · rw [hsteps] at hm
    rcases hm.of_cons (hname "k" (by simp)) with rfl | ⟨hdir, -⟩ | ⟨target, htarget, hm⟩
    · exact absurd hbelow (by decide +kernel)
    · exact absurd (isDirectory_of_lookup hdir hk) Bool.false_ne_true
    · obtain rfl := Entry.link.inj (Option.some.inj (hk.symm.trans htarget))
      rw [hbehind] at hm
      rcases hm.of_cons (hname "d" (by simp)) with rfl | ⟨-, hm⟩ | ⟨target, htarget, -⟩
      · exact absurd hbelow (by decide +kernel)
      · rcases hm.of_cons (hname "sub" (by simp)) with rfl | ⟨-, hm⟩ | ⟨target, htarget, -⟩
        · exact hne (by decide +kernel)
        · exact absurd hm (not_looksUp_nil _ _ _)
        · exact absurd (hsub.symm.trans htarget) (by simp)
      · exact absurd (hd.symm.trans htarget) (by simp)

/-- Over a link a directory is removed with the link inside it, and a link is made in its place
behind a directory that is not there yet. -/
theorem removing_and_linking_are_exact_nest :
    removeAll ⟨"k/sub"⟩ nest = .ok () (nest.erase ["d", "sub"]) ∧
    Placed ["d", "sub"] .empty nest (nest.erase ["d", "sub"]) ∧
    ∃ fs', linkTo ⟨"../d"⟩ ⟨"./new//./x"⟩ nest = .ok () fs' ∧
      Site.Laid ["new", "x"] (.leaf (.link ⟨"../d"⟩)) nest fs' ∧
      readLink fs' ⟨"./new//./x"⟩ = .ok ⟨"../d"⟩ := by
  obtain ⟨hremoves, hlinks⟩ := removing_and_linking_are_exact
  have hexact := hremoves nest ⟨"k/sub"⟩ wellFormed_nest
    ⟨by decide, ["k"], "sub", by decide +kernel, by decide, by decide⟩
  obtain ⟨hremove, hplaced, -⟩ := hexact.gone ["d", "sub"] (.directory 0o750) rfl
    not_goesThrough_nest
  have hlink : linkTo ⟨"../d"⟩ ⟨"./new//./x"⟩ nest =
    .ok () ((linkTo ⟨"../d"⟩ ⟨"./new//./x"⟩).run nest).2 := by rfl
  exact ⟨hremove, hplaced, _, hlink, hlinks nest ⟨"../d"⟩ ⟨"./new//./x"⟩ _ wellFormed_nest
    ⟨by decide, [".", "new", "."], "x", by decide +kernel, by decide, by decide⟩
    (by decide +kernel) (noLinks_of_inits (by decide +kernel)) hlink⟩

/-- **The path goes through what it removes**: the directory is emptied and stays, and yet the
removal succeeds.  Behind a dot it is emptied too, and the removal fails. -/
theorem removed_directory_stays :
    nest.find false ⟨"d/sub/../../d"⟩ = .ok (["d"], .directory 0o755) ∧
    removeAll ⟨"d/sub/../../d"⟩ nest = .ok () (nest.eraseBelow ["d"]) ∧
    (nest.eraseBelow ["d"]).lookup ["d"] = some (.directory 0o755) ∧
    nest.find false ⟨"d/."⟩ = .ok (["d"], .directory 0o755) ∧
    removeAll ⟨"d/."⟩ nest = .error .invalidArgument (nest.eraseBelow ["d"]) ∧
    (nest.eraseBelow ["d"]).lookup ["d", "sub"] = none :=
  ⟨rfl, rfl, rfl, rfl, rfl, rfl⟩

end PluginManager.FileSystem
