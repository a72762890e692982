import PluginManager.Proofs.FileSystem.Copy
import PluginManager.Proofs.FileSystem.Leaves
import PluginManager.Proofs.FileSystem.Remove

/-!
# Work that stops halfway

Making directories, removing and copying may each fail in the middle.  Here nothing is asked of the
source of a copy: whatever it leads to, the copy writes below its own destination, since every name
is free there before it is written.

* `Within`: all that happened lies at a location or below it.
* `exists_opened_of_createDirectories_eq_error`: a way that could not be opened was opened as far as
  it went.
* `eq_of_removeAll_eq_error`: a removal that fails has removed nothing.
* `Receiving`: a path leads to a directory, past all that is below it.
* `confines_copyLevels`: **a copy stays below its destination**, by induction on the levels.
-/

namespace PluginManager.FileSystem

variable {fs fs' fs'' : FileSystem} {Q : Location → Prop} {d k l : Location} {p source : Path}
  {name : String} {names : List String} {e : Entry} {mode levels : Nat} {cause : FileError}

/-! ## Within a location -/

/-- What is different lies at `d` or below. -/
structure Within (d : Location) (fs fs' : FileSystem) : Prop where
  changes : ChangesOnly (d <+: ·) fs fs'
  wellFormed : fs'.WellFormed

namespace Within

theorem refl (h : fs.WellFormed) (d : Location) : Within d fs fs := ⟨.refl _ fs, h⟩

theorem trans (h : Within d fs fs') (h' : Within d fs' fs'') : Within d fs fs'' :=
  ⟨h.changes.trans h'.changes, h'.wellFormed⟩

end Within

theorem within_insert (hwf : fs.WellFormed) (hname : IsName name)
    (hl : fs.isDirectoryAt l = true) (hfree : fs.lookup (l ++ [name]) = none) (e : Entry) :
    Within (l ++ [name]) fs (fs.insert (l ++ [name]) e) := by
  have hput :=
    placed_insert append_singleton_ne_nil (emptyBelow_of_lookup_eq_none hwf hfree) e
  exact ⟨hput.changes, hput.wellFormed hwf (Tree.wellFormed_leaf e) fun _ => ⟨hname, hl⟩⟩

theorem within_setContent (hwf : fs.WellFormed) (hname : IsName name)
    (hl : fs.isDirectoryAt l = true) (hfree : fs.lookup (l ++ [name]) = none) (mode : Nat)
    (content : Bytes) : Within (l ++ [name]) fs (fs.setContent (l ++ [name]) mode content) := by
  have hput := placed_setContent append_singleton_ne_nil
    (emptyBelow_of_lookup_eq_none hwf hfree) mode content
  exact ⟨hput.changes, hput.wellFormed hwf (Tree.wellFormed_leaf _) fun _ => ⟨hname, hl⟩⟩

theorem isDirectory_setMode (e : Entry) (mode : Nat) :
    (e.setMode mode).isDirectory = e.isDirectory := by
  cases e <;> rfl

/-- A mode that is set leaves a directory a directory. -/
theorem isDirectoryAt_insert_setMode (hl : l ≠ []) (he : fs.lookup l = some e) (k : Location) :
    (fs.insert l (e.setMode mode)).isDirectoryAt k = fs.isDirectoryAt k := by
  rw [isDirectoryAt, isDirectoryAt, lookup_insert fs hl]
  split
  · rename_i hk
    rw [hk, he]
    exact isDirectory_setMode e mode
  · rfl

theorem within_setMode (hwf : fs.WellFormed) (hl : l ≠ []) (he : fs.lookup l = some e) :
    Within l fs (fs.insert l (e.setMode mode)) := by
  have hchanges := changesOnly_insert fs hl (e.setMode mode)
  have hkept : ∀ k, (fs.insert l (e.setMode mode)).lookup k ≠ none → fs.lookup k ≠ none := by
    intro k hk
    by_cases hkl : k = l
    · rw [hkl, he]
      simp
    · rwa [hchanges.lookup k hkl] at hk
  refine ⟨hchanges.mono fun k hk => hk ▸ List.prefix_refl k, fun k n hn => ?_, fun k n hn => ?_,
    hchanges.distinct hwf.distinct⟩
  · exact hwf.name k n (hkept _ hn)
  · rw [isDirectoryAt_insert_setMode hl he]
    exact hwf.parent k n (hkept _ hn)

/-! ## Directories and removals -/

theorem opened_nil (hk : fs.isDirectoryAt k = true) : Opened k [] fs fs := by
  apply Open.opened
  intro pre hpre
  rw [List.prefix_nil.mp hpre, List.append_nil]
  exact hk

theorem eq_of_ensureDirectory_eq_error (h : ensureDirectory p fs = .error cause fs') :
    fs = fs' := by
  rw [ensureDirectory] at h
  split at h
  · cases h
  · split at h
    · cases h
    · cases h
      rfl

section

variable (hroute : Route fs Q p k) (hk : fs.isDirectoryAt k = true)
  (hnames : ∀ name ∈ names, IsName name) (hne : names ≠ []) (hlinks : NoLinks fs k names)

include hroute hk hnames hne hlinks

/-- **A way that could not be opened** was opened as far as it went. -/
theorem exists_opened_of_createDirectories_eq_error
    (hlast : ∀ target, fs.lookup (k ++ names) ≠ some (.link target))
    (h : createDirectories (p.descend names) fs = .error cause fs') :
    ∃ pre, pre <+: names ∧ Opened k pre fs fs' := by
  induction names using List.reverseRecOn generalizing fs' cause with
  | nil => exact absurd rfl hne
  | append_singleton init name ih =>
    by_cases hm : fs.makeDirectory (p.descend (init ++ [name])) = .error .notFound
    · have hinit : init ≠ [] := by
        rintro rfl
        exact makeDirectory_ne_notFound hroute hk hnames hne (clear_singleton hk name) hm
      have hinames : ∀ n ∈ init, IsName n := fun n hn => hnames n (List.mem_append_left _ hn)
      have hilast := hlinks init (List.prefix_append init [name]) (by simp)
      rw [createDirectories_of_missing hnames hne rfl hinit hm] at h
      cases hcreate : createDirectories (p.descend init) fs with
      | error cause' fs₁ =>
        rw [hcreate] at h
        cases h
        obtain ⟨pre, hpre, ho⟩ := ih hinames hinit hlinks.init hilast hcreate
        exact ⟨pre, hpre.trans (List.prefix_append init [name]), ho⟩
      | ok u fs₁ =>
        rw [hcreate] at h
        obtain rfl := eq_of_ensureDirectory_eq_error h
        exact ⟨init, List.prefix_append init [name],
          (opened_of_createDirectories hroute hk hinames hinit hlinks.init hilast hcreate).2.2⟩
    · obtain ⟨outer, houter⟩ := Path.exists_ancestors (p.descend (init ++ [name]))
      rw [createDirectories, houter,
        createFirst_found (descend_text_ne_empty p hnames hne) hm] at h
      obtain rfl := eq_of_ensureDirectory_eq_error h
      exact ⟨[], List.nil_prefix, opened_nil hk⟩

/-- A removal that fails has removed nothing. -/
theorem eq_of_removeAll_eq_error (hoff : ∀ l, Q l → ¬ k ++ names <+: l)
    (h : removeAll (p.descend names) fs = .error cause fs') : fs = fs' := by
  cases hres : resolve fs false (p.descend names) with
  | ok spot =>
    obtain ⟨hclear, hfits, -⟩ := hroute.clear_of_resolve hk hnames hne hlinks (.inl rfl) hres
    rw [removeAll_of_clear hroute hk hnames hne hclear hfits hoff] at h
    cases h
  | error cause' =>
    by_cases hmissing : cause' = .notFound
    · rw [hmissing] at hres
      rw [removeAll_of_missing hnames hne hres] at h
      cases h
    · rw [removeAll_of_blocked hnames hne hmissing hres] at h
      cases h
      rfl

end

/-! ## A directory that is written to -/

/-- The path leads to the directory `d`, past all that is below it. -/
structure Receiving (fs : FileSystem) (p : Path) (d : Location) : Prop where
  wellFormed : fs.WellFormed
  route : Route fs (fun l => ¬ Below d l) p d
  directory : fs.isDirectoryAt d = true
  ne_nil : d ≠ []

namespace Receiving

theorem of_changes (h : Receiving fs p d) (hc : ChangesOnly (Below d) fs fs')
    (hwf : fs'.WellFormed) : Receiving fs' p d := by
  refine ⟨hwf, h.route.of_holds (hc.holds fun l hl => hl) hc.workingDirectory, ?_, h.ne_nil⟩
  rw [FileSystem.isDirectoryAt, hc.lookup d fun hb => hb.2 rfl]
  exact h.directory

theorem of_within (h : Receiving fs p d) (hw : Within (d ++ [name]) fs fs') :
    Receiving fs' p d :=
  h.of_changes (hw.changes.mono fun _ hl => below_of_prefix_concat hl) hw.wellFormed

/-- A new directory in it can be written to as well. -/
theorem child (h : Receiving fs p d) (hname : IsName name)
    (hshort : name.utf8ByteSize ≤ nameLimit) (hd : fs.isDirectoryAt (d ++ [name]) = true) :
    Receiving fs (p.child name) (d ++ [name]) := by
  have hroute : Route fs (fun l => ¬ Below (d ++ [name]) l) p d :=
    h.route.mono fun l hl hb => hl (below_of_prefix_concat hb.1)
  exact ⟨h.wellFormed, hroute.child h.directory hname hshort hd fun hb => hb.2 rfl, hd,
    append_singleton_ne_nil⟩

variable (h : Receiving fs p d) (hname : IsName name)

include h hname

theorem within_opened {pre : List String} (hpre : pre <+: [name]) (ho : Opened d pre fs fs') :
    Within (d ++ [name]) fs fs' := by
  have hnames : ∀ n ∈ pre, IsName n := by
    intro n hn
    obtain rfl : n = name := by simpa using hpre.subset hn
    exact hname
  exact ⟨ho.within hpre h.directory, ho.wellFormed h.wellFormed h.directory hnames⟩

theorem within_setMode (he : fs.lookup (d ++ [name]) = some e) (hlink : e.isLink = false)
    (hres : setMode fs (p.child name) mode = .ok fs') : Within (d ++ [name]) fs fs' := by
  obtain rfl := eq_of_setMode_child h.route h.directory hname he hlink hres
  exact FileSystem.within_setMode h.wellFormed append_singleton_ne_nil he

variable (hfree : fs.lookup (d ++ [name]) = none)

include hfree

theorem within_makeLink {target : Path} (hres : makeLink fs target (p.child name) = .ok fs') :
    Within (d ++ [name]) fs fs' := by
  have hnames : ∀ n ∈ [name], IsName n := by simp [hname]
  have hclear := clear_singleton h.directory name
  rw [Path.child_eq_descend] at hres
  obtain ⟨hfits, ht⟩ := fits_of_makeLink h.route h.directory hnames (by simp) hclear hres
  rw [makeLink_descend h.route h.directory hnames (by simp) hclear hfits ht hfree] at hres
  obtain rfl := Except.ok.inj hres
  exact within_insert h.wellFormed hname h.directory hfree _

theorem within_copyFile (hres : copyFile fs source (p.child name) = .ok fs') :
    Within (d ++ [name]) fs fs' ∧
      ∃ mode content, fs'.lookup (d ++ [name]) = some (.file mode content) := by
  have hnames : ∀ n ∈ [name], IsName n := by simp [hname]
  have hclear := clear_singleton h.directory name
  rw [Path.child_eq_descend] at hres
  have hfits := fits_of_copyFile h.route h.directory hnames (by simp) hclear hfree hres
  have hwritable :=
    writable_descend h.route h.directory hnames (by simp) hclear hfits hfree
  rw [copyFile] at hres
  split at hres
  · cases hres
  · rename_i l mode content hfind
    rw [hwritable] at hres
    obtain rfl := Except.ok.inj hres
    refine ⟨within_setContent h.wellFormed hname h.directory hfree mode _, mode,
      if l = d ++ [name] then [] else content, ?_⟩
    exact (lookup_touchAt _ _ _ _).trans
      ((lookup_insert fs append_singleton_ne_nil _ _).trans (if_pos rfl))
  · cases hres

theorem opened_of_createDirectories
    (hres : createDirectories (p.child name) fs = .ok () fs') :
    Fits p [name] ∧ Opened d [name] fs fs' := by
  rw [Path.child_eq_descend] at hres
  obtain ⟨-, hopened⟩ := FileSystem.opened_of_createDirectories h.route h.directory
    (by simp [hname]) (by simp) (clear_singleton h.directory name).noLinks (by simp [hfree]) hres
  exact hopened

end Receiving

/-! ## Copies -/

/-- What copying into a free place is to keep to, whatever the source. -/
def Confines (copy : Path → Path → Task Unit) : Prop :=
  ∀ source ⦃fs p d name⦄, Receiving fs p d → IsName name → fs.lookup (d ++ [name]) = none →
    Task.Leaves (copy source (p.child name)) fs (Within (d ++ [name]) fs) ∧
      ∀ fs', copy source (p.child name) fs = .ok () fs' → fs'.isDirectoryAt (d ++ [name]) = true

variable {copy : Path → Path → Task Unit}

/-- **One entry stays below its name.** -/
theorem Confines.copyEntry (hcopy : Confines copy) (source : Path) (h : Receiving fs p d)
    (hname : IsName name) (hfree : fs.lookup (d ++ [name]) = none) :
    Task.Leaves (copyEntry copy source (p.child name)) fs (Within (d ++ [name]) fs) := by
  have hrefl := Within.refl h.wellFormed (d ++ [name])
  refine Task.leaves_look_bind hrefl fun x _ => ?_
  obtain ⟨l, e⟩ := x
  cases e with
  | link target =>
    exact Task.leaves_change hrefl fun fs' hlink => h.within_makeLink hname hfree hlink
  | directory mode =>
    obtain ⟨hleaves, hdirectory⟩ := hcopy source h hname hfree
    refine Task.leaves_bind hleaves.error fun u fs₁ htree => ?_
    have hw := hleaves.ok u fs₁ htree
    obtain ⟨mode', he⟩ := isDirectoryAt_iff.mp (hdirectory fs₁ htree)
    exact Task.leaves_change hw fun fs' hset =>
      hw.trans ((h.of_within hw).within_setMode hname he rfl hset)
  | file mode content =>
    refine Task.leaves_bind (fun cause fs' hfile => ?_) fun u fs₁ hfile => ?_
    · obtain ⟨-, -, -, rfl⟩ := Task.change_eq_error.mp hfile
      exact hrefl
    · obtain ⟨hw, mode', content', he⟩ :=
        h.within_copyFile hname hfree (Task.change_eq_ok.mp hfile)
      exact Task.leaves_change hw fun fs' hset =>
        hw.trans ((h.of_within hw).within_setMode hname he rfl hset)

/-- Entries of different names stay below the directory, which can still be written to. -/
theorem Confines.copyEntries (hcopy : Confines copy) (source : Path) (h : Receiving fs p d)
    (hnodup : names.Nodup) (hnames : ∀ n ∈ names, IsName n)
    (hfree : ∀ n ∈ names, fs.lookup (d ++ [n]) = none) :
    Task.Leaves (names.forM fun n => FileSystem.copyEntry copy (source.child n) (p.child n)) fs
      fun fs' => Receiving fs' p d ∧ ChangesOnly (Below d) fs fs' := by
  induction names generalizing fs with
  | nil => exact Task.leaves_forM ⟨h, .refl _ fs⟩ fun n hn => absurd hn (by simp)
  | cons n rest ih =>
    have hfirst := hcopy.copyEntry (source.child n) h (hnames n List.mem_cons_self)
      (hfree n List.mem_cons_self)
    have hkept : ∀ fs', Within (d ++ [n]) fs fs' →
        Receiving fs' p d ∧ ChangesOnly (Below d) fs fs' := fun fs' hw =>
      ⟨h.of_within hw, hw.changes.mono fun _ hl => below_of_prefix_concat hl⟩
    obtain ⟨hnot, hnodup'⟩ := List.nodup_cons.mp hnodup
    refine Task.leaves_bind (fun cause fs' herror => hkept fs' (hfirst.error cause fs' herror))
      fun u fs₁ hok => ?_
    have hw := hfirst.ok u fs₁ hok
    obtain ⟨h₁, hbelow⟩ := hkept fs₁ hw
    have hfree₁ : ∀ m ∈ rest, fs₁.lookup (d ++ [m]) = none := by
      intro m hm
      rw [hw.changes.lookup, hfree m (List.mem_cons_of_mem n hm)]
      intro hp
      have heq := (List.prefix_append_right_inj d).mp hp
      obtain rfl : n = m := by simpa using heq
      exact hnot hm
    have hrest := ih h₁ hnodup' (fun m hm => hnames m (List.mem_cons_of_mem n hm)) hfree₁
    exact hrest.mono fun fs' ⟨h', hbelow'⟩ => ⟨h', hbelow.trans hbelow'⟩

theorem exists_of_readDirectory (h : readDirectory fs p = .ok names) :
    ∃ l, names = fs.names l := by
  rw [readDirectory] at h
  split at h
  · cases h
  · rename_i l mode hfind
    exact ⟨l, (Except.ok.inj h).symm⟩
  · cases h

/-- **The contents of a directory stay below the other.** -/
theorem leaves_copyContents (hcopy : Confines (copyLevels levels)) (source : Path)
    (h : Receiving fs p d) (hempty : EmptyBelow fs d) :
    Task.Leaves (copyContents levels source p) fs
      fun fs' => Within d fs fs' ∧ fs'.isDirectoryAt d = true := by
  have hkept : ∀ fs', Receiving fs' p d ∧ ChangesOnly (Below d) fs fs' →
      Within d fs fs' ∧ fs'.isDirectoryAt d = true := fun fs' hfs' =>
    ⟨⟨hfs'.2.mono fun _ hl => hl.1, hfs'.1.wellFormed⟩, hfs'.1.directory⟩
  have hrefl := hkept fs ⟨h, .refl _ fs⟩
  refine Task.leaves_look_bind hrefl fun names hread => ?_
  obtain ⟨l, rfl⟩ := exists_of_readDirectory hread
  have hentries := hcopy.copyEntries source h (nodup_names h.wellFormed.distinct l)
    (fun n hn => h.wellFormed.name l n (mem_names.mp hn)) fun n _ => hempty [n] (by simp)
  refine Task.leaves_bind (fun cause fs' herror => hkept fs' (hentries.error cause fs' herror))
    fun u fs₁ hok => ?_
  obtain ⟨h₁, hbelow⟩ := hentries.ok u fs₁ hok
  refine Task.leaves_look_bind (hkept fs₁ ⟨h₁, hbelow⟩) fun mode _ => ?_
  refine Task.leaves_change (hkept fs₁ ⟨h₁, hbelow⟩) fun fs' hset => ?_
  obtain ⟨k, e, hfind⟩ := exists_find_of_setMode hset
  obtain ⟨rfl, he, -⟩ := h₁.route.find_of_holds hfind (.refl _ fs₁) rfl
  rw [setMode_of_find hfind h₁.ne_nil] at hset
  obtain rfl := Except.ok.inj hset
  refine ⟨(hkept fs₁ ⟨h₁, hbelow⟩).1.trans (within_setMode h₁.wellFormed h₁.ne_nil he), ?_⟩
  rw [isDirectoryAt_insert_setMode h₁.ne_nil he]
  exact h₁.directory

/-- **A copy stays below its destination**, whatever it copies and wherever it stops. -/
theorem confines_copyLevels (levels : Nat) : Confines (copyLevels levels) := by
  induction levels with
  | zero =>
    intro source fs p d name h _ _
    refine ⟨⟨fun u fs' hok => absurd hok copyLevels_zero_ne_ok, fun cause fs' herror => ?_⟩,
      fun fs' hok => absurd hok copyLevels_zero_ne_ok⟩
    cases herror
    exact .refl h.wellFormed _
  | succ levels ih =>
    intro source fs p d name h hname hfree
    have hcontents : ∀ fs₁, Opened d [name] fs fs₁ → name.utf8ByteSize ≤ nameLimit →
        Task.Leaves (copyContents levels source (p.child name)) fs₁
          fun fs' => Within (d ++ [name]) fs fs' ∧ fs'.isDirectoryAt (d ++ [name]) = true := by
      intro fs₁ ho hshort
      have hw := h.within_opened hname (List.prefix_refl _) ho
      have h₁ := (h.of_within hw).child hname hshort (ho.opens [name] (List.prefix_refl _))
      have hempty : EmptyBelow fs₁ (d ++ [name]) := by
        intro r hr
        rw [ho.changes.lookup]
        · exact emptyBelow_of_lookup_eq_none h.wellFormed hfree r hr
        · rintro ⟨-, pre, hpre, heq⟩
          rw [List.append_assoc] at heq
          have hlength := hpre.length_le
          rw [← List.append_cancel_left heq, List.length_append, List.length_singleton] at hlength
          exact hr (List.length_eq_zero_iff.mp (by omega))
      exact (leaves_copyContents ih source h₁ hempty).mono fun fs' hfs' => ⟨hw.trans hfs'.1, hfs'.2⟩
    rw [copyLevels_succ]
    constructor
    · refine Task.leaves_bind (fun cause fs' herror => ?_) fun u fs₁ hok => ?_
      · obtain ⟨cause', hcreate, -⟩ := Task.forPath_eq_error.mp herror
        rw [Path.child_eq_descend] at hcreate
        obtain ⟨pre, hpre, ho⟩ := exists_opened_of_createDirectories_eq_error h.route h.directory
          (by simp [hname]) (by simp) (clear_singleton h.directory name).noLinks (by simp [hfree])
          hcreate
        exact h.within_opened hname hpre ho
      · obtain ⟨hfits, ho⟩ := h.opened_of_createDirectories hname hfree (Task.forPath_eq_ok.mp hok)
        exact (hcontents fs₁ ho (hfits.short name (by simp))).mono fun _ hfs' => hfs'.1
    · intro fs' hres
      obtain ⟨_, fs₁, hcreate, hrest⟩ := Task.bind_eq_ok.mp hres
      obtain ⟨hfits, ho⟩ :=
        h.opened_of_createDirectories hname hfree (Task.forPath_eq_ok.mp hcreate)
      exact ((hcontents fs₁ ho (hfits.short name (by simp))).ok () fs' hrest).2

end PluginManager.FileSystem
