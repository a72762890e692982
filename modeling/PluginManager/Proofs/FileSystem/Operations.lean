import PluginManager.FileSystem.Task
import PluginManager.Proofs.FileSystem.Descent

/-!
# Operations behind a route

* `Task.bind_eq_ok` and the lemmas after it: a task succeeds when its parts do.
* `makeLink_descend`, `copyFile_descend`: what an operation does at the free end of a clear way.
* `fits_of_makeLink`, `fits_of_copyFile`: a success shows that the path fits.
* `setMode_of_find`, `eq_of_setMode_child`: a mode is set in place.
* `exists_of_freeSpot`, `exists_of_makeLink`, `exists_of_copyFile`: what a success shows, whatever
  the path.
-/

namespace PluginManager

/-! ## Tasks that succeed -/

namespace Task

variable {α β : Type} {fs fs' fs'' : FileSystem} {p : Path} {a : α} {b : β}

theorem bind_eq_ok {t : Task α} {f : α → Task β} :
    (t >>= f) fs = .ok b fs'' ↔ ∃ a fs', t fs = .ok a fs' ∧ f a fs' = .ok b fs'' := by
  show EStateM.bind t f fs = _ ↔ _
  rw [EStateM.bind]
  cases ht : t fs with
  | ok a fs' => simp
  | error e fs' => simp

theorem forPath_eq_ok {t : FileTask α} : forPath p t fs = .ok a fs' ↔ t fs = .ok a fs' := by
  rw [forPath]
  cases ht : t fs with
  | ok a' fs'' => simp
  | error e fs'' => simp

theorem look_eq_ok {f : FileSystem → Except FileError α} :
    look p f fs = .ok a fs' ↔ f fs = .ok a ∧ fs = fs' := by
  rw [look]
  cases hf : f fs with
  | ok a' => simp
  | error e => simp

theorem change_eq_ok {f : FileSystem → Except FileError FileSystem} {u : Unit} :
    change p f fs = .ok u fs' ↔ f fs = .ok fs' := by
  rw [change, forPath_eq_ok, FileTask.change]
  cases hf : f fs with
  | ok fs'' => simp
  | error e => simp

theorem forM_cons_eq_ok {f : α → Task Unit} {as : List α} {u : Unit} :
    ((a :: as).forM f : Task Unit) fs = .ok u fs'' ↔
      ∃ fs', f a fs = .ok () fs' ∧ (as.forM f : Task Unit) fs' = .ok u fs'' := by
  show (f a >>= fun _ => as.forM f) fs = _ ↔ _
  rw [bind_eq_ok]
  constructor
  · rintro ⟨⟨⟩, fs', hf, hrest⟩
    exact ⟨fs', hf, hrest⟩
  · rintro ⟨fs', hf, hrest⟩
    exact ⟨(), fs', hf, hrest⟩

theorem exists_ok_of_run {t : Task Unit} (h : (t.run fs).1.isOk = true) :
    ∃ fs', t fs = .ok () fs' := by
  rw [run] at h
  cases ht : t fs with
  | ok u fs' => exact ⟨fs', rfl⟩
  | error e fs' =>
    rw [ht] at h
    exact absurd h (by simp [Except.isOk, Except.toBool])

theorem forM_nil_eq_ok {f : α → Task Unit} {u : Unit} :
    (([] : List α).forM f : Task Unit) fs = .ok u fs' ↔ fs = fs' := by
  show EStateM.Result.ok () fs = EStateM.Result.ok u fs' ↔ fs = fs'
  simp

end Task

namespace FileSystem

variable {fs fs' : FileSystem} {Q : Location → Prop} {l k : Location} {p source target : Path}
  {names : List String} {e : Entry} {mode : Nat} {content : Bytes} {spot : Spot}

/-! ## Modes -/

theorem setMode_of_find (h : find fs true p = .ok (l, e)) (hl : l ≠ []) :
    setMode fs p mode = .ok (fs.insert l (e.setMode mode)) := by
  rw [setMode, h]
  simp [Except.map, hl]

theorem exists_find_of_setMode (h : setMode fs p mode = .ok fs') :
    ∃ l e, find fs true p = .ok (l, e) := by
  rw [setMode] at h
  cases hf : find fs true p with
  | error e => exact absurd h (by simp [hf, Except.map])
  | ok x => exact ⟨x.1, x.2, rfl⟩

/-- **What setting a mode does** to what is in a directory, unless that is a link. -/
theorem eq_of_setMode_child {name : String} (hroute : Route fs Q p k)
    (hk : fs.isDirectoryAt k = true) (hname : IsName name)
    (he : fs.lookup (k ++ [name]) = some e) (hlink : e.isLink = false)
    (h : setMode fs (p.child name) mode = .ok fs') :
    fs' = fs.insert (k ++ [name]) (e.setMode mode) := by
  have hnames : ∀ n ∈ [name], IsName n := by simpa using hname
  have hclear := clear_singleton hk name
  have hlast : ∀ target, fs.lookup (k ++ [name]) ≠ some (.link target) := by
    intro target htarget
    obtain rfl := Option.some.inj (he.symm.trans htarget)
    exact absurd hlink (by simp [Entry.isLink])
  obtain ⟨l, e', hfind⟩ := exists_find_of_setMode h
  rw [Path.child_eq_descend] at h hfind
  obtain ⟨hfits, -⟩ :=
    hroute.fits_of_find hk hnames (List.cons_ne_nil name []) hclear (.inr hlast) hfind
  have hfound := hroute.find_descend hk hnames (List.cons_ne_nil name []) hclear hfits he
    (.inr hlink : true = false ∨ _)
  rw [setMode_of_find hfound append_singleton_ne_nil] at h
  exact (Except.ok.inj h).symm

/-! ## Free names -/

/-- A free name is the end of a path that leads to nothing. -/
theorem exists_of_freeSpot (h : freeSpot fs p = .ok spot) :
    resolve fs false p = .ok spot ∧ spot.last = .name ∧ spot.entry = none := by
  rw [freeSpot] at h
  split at h
  · cases h
  · rename_i spot' hres
    split at h
    · cases h
    · rename_i htaken
      obtain rfl := Except.ok.inj h
      rw [Bool.or_eq_true, decide_eq_true_eq, not_or, not_not, Bool.not_eq_true,
        Option.isSome_eq_false_iff, Option.isNone_iff_eq_none] at htaken
      exact ⟨hres, htaken⟩

/-- **What making a link does**: there is one where nothing was. -/
theorem exists_of_makeLink (h : makeLink fs target p = .ok fs') :
    ∃ spot, resolve fs false p = .ok spot ∧ spot.last = .name ∧ spot.entry = none ∧
      fs' = fs.insert spot.location (.link target) := by
  rw [makeLink] at h
  split at h
  · cases h
  · split at h
    · cases h
    · split at h
      · cases h
      · split at h
        · cases h
        · rename_i spot hfree
          obtain ⟨hres, hlast, hentry⟩ := exists_of_freeSpot hfree
          split at h
          · cases h
          · exact ⟨spot, hres, hlast, hentry, (Except.ok.inj h).symm⟩

/-- **What copying a file does**: what can be written gets its content and its mode. -/
theorem exists_of_copyFile (h : copyFile fs source p = .ok fs') :
    ∃ k mode content l existing, find fs true source = .ok (k, .file mode content) ∧
      writable fs p = .ok (l, existing) ∧
      fs' = fs.setContent l mode (if k = l then [] else content) := by
  rw [copyFile] at h
  split at h
  · cases h
  · rename_i k mode content hfind
    cases hw : writable fs p with
    | error cause => simp [hw, Except.map] at h
    | ok x =>
      rw [hw] at h
      exact ⟨k, mode, content, x.1, x.2, hfind, rfl, (Except.ok.inj h).symm⟩
  · cases h

variable (hroute : Route fs Q p k) (hk : fs.isDirectoryAt k = true)
  (hnames : ∀ name ∈ names, IsName name) (hne : names ≠ [])

include hroute hk hnames hne

theorem makeLink_descend (hclear : Clear fs k names) (hfits : Fits p names) (ht : Usable target)
    (hfree : fs.lookup (k ++ names) = none) :
    makeLink fs target (p.descend names) = .ok (fs.insert (k ++ names) (.link target)) := by
  rw [makeLink, ht.no_nul, hfits.usable.no_nul, if_neg (by decide), if_neg ht.ne_empty,
    if_neg (Nat.not_le.mpr ht.short), freeSpot,
    hroute.resolve_descend hk hnames hne hclear hfits (.inl rfl), hfree]
  rfl

theorem fits_of_makeLink (hclear : Clear fs k names)
    (h : makeLink fs target (p.descend names) = .ok fs') : Fits p names ∧ Usable target := by
  rw [makeLink] at h
  split at h
  · exact absurd h (by simp)
  · rename_i hnul
    rw [Bool.or_eq_true, not_or, Bool.not_eq_true, Bool.not_eq_true] at hnul
    split at h
    · exact absurd h (by simp)
    · rename_i hempty
      split at h
      · exact absurd h (by simp)
      · rename_i hshort
        refine ⟨?_, hnul.1, hempty, Nat.not_le.mp hshort⟩
        rw [freeSpot] at h
        cases hres : resolve fs false (p.descend names) with
        | error e => simp [hres] at h
        | ok spot =>
          exact (hroute.clear_of_resolve hk hnames hne hclear.noLinks (.inl rfl) hres).2.1

theorem writable_descend (hclear : Clear fs k names) (hfits : Fits p names)
    (hfree : fs.lookup (k ++ names) = none) :
    writable fs (p.descend names) = .ok (k ++ names, none) := by
  rw [writable, endsWithSlash_descend p hnames hne,
    hroute.resolve_descend hk hnames hne hclear hfits (.inr (by simp [hfree])), hfree]
  rfl

/-- A file is copied with its mode. -/
theorem copyFile_descend (hclear : Clear fs k names) (hfits : Fits p names)
    (hs : find fs true source = .ok (l, .file mode content))
    (hfree : fs.lookup (k ++ names) = none) (hl : l ≠ k ++ names) :
    copyFile fs source (p.descend names) = .ok (fs.setContent (k ++ names) mode content) := by
  rw [copyFile, hs]
  simp only [writable_descend hroute hk hnames hne hclear hfits hfree, Except.map, if_neg hl]

theorem fits_of_copyFile (hclear : Clear fs k names) (hfree : fs.lookup (k ++ names) = none)
    (h : copyFile fs source (p.descend names) = .ok fs') : Fits p names := by
  cases hres : resolve fs true (p.descend names) with
  | ok spot =>
    exact (hroute.clear_of_resolve hk hnames hne hclear.noLinks (.inr (by simp [hfree])) hres).2.1
  | error e =>
    have hwritable : writable fs (p.descend names) = .error e := by
      rw [writable, endsWithSlash_descend p hnames hne, Bool.not_false, hres]
    rw [copyFile] at h
    split at h
    · exact absurd h (by simp)
    · simp [hwritable, Except.map] at h
    · exact absurd h (by simp)

end FileSystem

end PluginManager
