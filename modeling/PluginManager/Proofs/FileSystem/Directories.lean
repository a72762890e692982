import PluginManager.FileSystem.Tree
import PluginManager.Proofs.FileSystem.Descent

/-!
# Making directories

`createDirectories` makes what is missing on a way down by names and leaves the rest.

* `Passable`: on the way, its end included, there are directories or nothing.
* `Opened`: the way is there afterwards, and nothing else is different.
* `createDirectories_ok`: **a passable way is opened**, if it fits.
* `passable_of_createDirectories`: no other way is.
-/

namespace PluginManager.FileSystem

variable {fs fs' fs'' : FileSystem} {Q : Location → Prop} {l k : Location} {p : Path}
  {name : String} {names pre : List String} {e : Entry}

/-! ## Limits -/

theorem hasNul_append {s t : String} (h : hasNul ⟨s ++ t⟩ = false) : hasNul ⟨s⟩ = false := by
  rw [hasNul, String.toList_append, List.any_append, Bool.or_eq_false_iff] at h
  exact h.1

theorem Usable.of_child (h : Usable (p.child name)) (hp : p.text ≠ "") (hname : IsName name) :
    Usable p := by
  rw [Path.child_eq p hname, String.append_assoc] at h
  have hshort := h.short
  rw [String.utf8ByteSize_append] at hshort
  exact ⟨hasNul_append h.no_nul, hp, by omega⟩

theorem Fits.init (h : Fits p (names ++ [name])) (hnames : ∀ n ∈ names ++ [name], IsName n)
    (hne : names ≠ []) : Fits p names := by
  have hinit : ∀ n ∈ names, IsName n := fun n hn => hnames n (List.mem_append_left _ hn)
  have hu := h.usable
  rw [Path.descend_concat] at hu
  exact ⟨hu.of_child (descend_text_ne_empty p hinit hne) (hnames name (by simp)),
    fun n hn => h.short n (List.mem_append_left _ hn)⟩

/-! ## Ways -/

/-- On the way, and at its end, there are directories or nothing. -/
def Passable (fs : FileSystem) (k : Location) (names : List String) : Prop :=
  ∀ pre, pre <+: names → fs.lookup (k ++ pre) = none ∨ fs.isDirectoryAt (k ++ pre) = true

/-- All of the way is there. -/
def Open (fs : FileSystem) (k : Location) (names : List String) : Prop :=
  ∀ pre, pre <+: names → fs.isDirectoryAt (k ++ pre) = true

/-- A location on the way where nothing is. -/
def Gap (fs : FileSystem) (k : Location) (names : List String) (l : Location) : Prop :=
  fs.lookup l = none ∧ ∃ pre, pre <+: names ∧ l = k ++ pre

/-- The way was opened, and that is all that happened. -/
structure Opened (k : Location) (names : List String) (fs fs' : FileSystem) : Prop where
  changes : ChangesOnly (Gap fs k names) fs fs'
  created : ∀ l, Gap fs k names l → fs'.lookup l = some (.directory newDirectoryMode)
  opens : Open fs' k names

theorem Clear.open (h : Clear fs k names) (hd : fs.isDirectoryAt (k ++ names) = true) :
    Open fs k names := by
  intro pre hpre
  by_cases heq : pre = names
  · rwa [heq]
  · exact h pre hpre heq

theorem Open.concat (h : Open fs k names) : Clear fs k (names ++ [name]) :=
  fun pre hpre hne => h pre (prefix_concat_cases hpre hne)

theorem Open.not_gap (h : Open fs k names) : ¬ Gap fs k names l := by
  rintro ⟨hnone, pre, hpre, rfl⟩
  have hd := h pre hpre
  exact absurd hnone (lookup_ne_none hd)

theorem Open.opened (h : Open fs k names) : Opened k names fs fs :=
  ⟨.refl _ fs, fun _ hgap => absurd hgap h.not_gap, h⟩

theorem Passable.not_meetsFile (h : Passable fs k names) : ¬ MeetsFile fs k names := by
  rintro ⟨pre, hpre, -, mode, content, hfile⟩
  rcases h pre hpre with hnone | hd
  · rw [hnone] at hfile
    exact absurd hfile (by simp)
  · exact absurd (isDirectory_of_lookup hd hfile) Bool.false_ne_true

theorem Passable.not_link (h : Passable fs k names) (hpre : pre <+: names) (target : Path) :
    fs.lookup (k ++ pre) ≠ some (.link target) := by
  intro hlink
  rcases h pre hpre with hnone | hd
  · rw [hnone] at hlink
    exact absurd hlink (by simp)
  · exact absurd (isDirectory_of_lookup hd hlink) Bool.false_ne_true

theorem Passable.noLinks (h : Passable fs k names) : NoLinks fs k names :=
  fun _ hpre _ => h.not_link hpre

theorem Passable.init (h : Passable fs k (names ++ [name])) : Passable fs k names :=
  fun pre hpre => h pre (hpre.trans (List.prefix_append names [name]))

theorem Passable.concat (h : Passable fs k names)
    (hend : fs.lookup (k ++ (names ++ [name])) = none ∨
      fs.isDirectoryAt (k ++ (names ++ [name])) = true) : Passable fs k (names ++ [name]) := by
  intro pre hpre
  by_cases heq : pre = names ++ [name]
  · rwa [heq]
  · exact h pre (prefix_concat_cases hpre heq)

/-- A gap stands where nothing was, so whatever was found is found again. -/
theorem Opened.holds (h : Opened k names fs fs') (Q : Location → Prop) : Holds Q fs fs' := by
  intro l e _ he
  rw [h.changes.lookup l ?_, he]
  rintro ⟨hnone, -⟩
  rw [he] at hnone
  exact absurd hnone (by simp)

theorem Opened.route {k' : Location} (h : Opened k names fs fs') (hroute : Route fs Q p k') :
    Route fs' Q p k' := hroute.of_holds (h.holds Q) h.changes.workingDirectory

theorem Opened.isDirectoryAt (h : Opened k names fs fs') : fs'.isDirectoryAt k = true := by
  have hk := h.opens [] List.nil_prefix
  rwa [List.append_nil] at hk

/-- What is below the end of a way is no gap in it. -/
theorem Opened.lookup_append {r : List String} (h : Opened k names fs fs') (hr : r ≠ []) :
    fs'.lookup (k ++ (names ++ r)) = fs.lookup (k ++ (names ++ r)) := by
  refine h.changes.lookup _ ?_
  rintro ⟨-, pre, hpre, heq⟩
  have hlength := hpre.length_le
  rw [← List.append_cancel_left heq, List.length_append] at hlength
  exact hr (List.length_eq_zero_iff.mp (by omega))

/-- A route goes on along an open way. -/
theorem Route.descend (h : Route fs Q p k) (hopen : Open fs k names)
    (hnames : ∀ n ∈ names, IsName n) (hshort : ∀ n ∈ names, n.utf8ByteSize ≤ nameLimit)
    (hQ : ∀ pre, pre <+: names → Q (k ++ pre)) : Route fs Q (p.descend names) (k ++ names) := by
  induction names using List.reverseRecOn with
  | nil => rwa [List.append_nil]
  | append_singleton init name ih =>
    have hpre : init <+: init ++ [name] := List.prefix_append init [name]
    have hinit := ih (fun pre hp => hopen pre (hp.trans hpre))
      (fun n hn => hnames n (List.mem_append_left _ hn))
      (fun n hn => hshort n (List.mem_append_left _ hn)) (fun pre hp => hQ pre (hp.trans hpre))
    have hend := hopen _ (List.prefix_refl (init ++ [name]))
    have hQend := hQ _ (List.prefix_refl (init ++ [name]))
    rw [← List.append_assoc] at hend hQend ⊢
    rw [Path.descend_concat]
    exact hinit.child (hopen init hpre) (hnames name (by simp)) (hshort name (by simp)) hend hQend

/-- Directories with names leave a well-formed file system. -/
theorem Opened.wellFormed (h : Opened k names fs fs') (hwf : fs.WellFormed)
    (hk : fs.isDirectoryAt k = true) (hnames : ∀ n ∈ names, IsName n) : fs'.WellFormed := by
  have hentry : ∀ l n, fs'.lookup (l ++ [n]) ≠ none → IsName n ∧ fs'.isDirectoryAt l = true := by
    intro l n hne
    by_cases hgap : Gap fs k names (l ++ [n])
    · obtain ⟨hnone, pre, hpre, hl⟩ := hgap
      rcases List.eq_nil_or_concat pre with rfl | ⟨pre, m, rfl⟩
      · rw [List.append_nil] at hl
        rw [FileSystem.isDirectoryAt, ← hl, hnone] at hk
        exact absurd hk (by decide)
      · rw [List.concat_eq_append] at hpre hl
        rw [← List.append_assoc] at hl
        obtain ⟨rfl, hn⟩ := List.append_inj' hl rfl
        obtain rfl : n = m := by simpa using hn
        exact ⟨hnames n (hpre.subset (by simp)),
          h.opens pre ((List.prefix_append pre [n]).trans hpre)⟩
    · rw [h.changes.lookup _ hgap] at hne
      obtain ⟨mode, hmode⟩ := isDirectoryAt_iff.mp (hwf.parent l n hne)
      exact ⟨hwf.name l n hne,
        isDirectoryAt_of_lookup (h.holds (fun _ => True) l _ trivial hmode)⟩
  exact ⟨fun l n hne => (hentry l n hne).1, fun l n hne => (hentry l n hne).2,
    h.changes.distinct hwf.distinct⟩

/-! ## One directory -/

/-- A new directory. -/
def grow (fs : FileSystem) (l : Location) : FileSystem :=
  (fs.insert l (.directory newDirectoryMode)).touchAt l fs.clock

theorem changesOnly_grow (fs : FileSystem) (hl : l ≠ []) : ChangesOnly (· = l) fs (fs.grow l) :=
  (changesOnly_insert fs hl _).trans (changesOnly_touchAt _ l fs.clock _)

theorem lookup_grow (fs : FileSystem) (hl : l ≠ []) :
    (fs.grow l).lookup l = some (.directory newDirectoryMode) := by
  rw [grow, lookup_touchAt, lookup_insert fs hl, if_pos rfl]

theorem Passable.of_clear (h : Clear fs k names)
    (hend : fs.lookup (k ++ names) = none ∨ fs.isDirectoryAt (k ++ names) = true) :
    Passable fs k names := by
  intro pre hpre
  by_cases heq : pre = names
  · rwa [heq]
  · exact .inr (h pre hpre heq)

theorem opened_grow (hne : k ++ names ≠ []) (hclear : Clear fs k names)
    (hfree : fs.lookup (k ++ names) = none) : Opened k names fs (fs.grow (k ++ names)) := by
  have hgap : ∀ l, Gap fs k names l ↔ l = k ++ names := by
    intro l
    constructor
    · rintro ⟨hnone, pre, hpre, rfl⟩
      by_contra hproper
      have hd := hclear pre hpre fun heq => hproper (by rw [heq])
      exact absurd hnone (lookup_ne_none hd)
    · rintro rfl
      exact ⟨hfree, names, List.prefix_refl names, rfl⟩
  refine ⟨(changesOnly_grow fs hne).mono fun l hl => (hgap l).mpr hl, fun l hl => ?_,
    fun pre hpre => ?_⟩
  · rw [(hgap l).mp hl, lookup_grow fs hne]
  · by_cases heq : pre = names
    · rw [heq]
      exact isDirectoryAt_of_lookup (lookup_grow fs hne)
    · have hother : k ++ pre ≠ k ++ names := fun h => heq (List.append_cancel_left h)
      rw [isDirectoryAt, (changesOnly_grow fs hne).lookup _ hother]
      exact hclear pre hpre heq

theorem Opened.trans {names' : List String} (h : Opened k names fs fs')
    (h' : Opened k names' fs' fs'') (hpre : names <+: names') : Opened k names' fs fs'' := by
  have hfirst : ∀ l, Gap fs k names l → Gap fs k names' l := by
    rintro l ⟨hnone, pre, hp, rfl⟩
    exact ⟨hnone, pre, hp.trans hpre, rfl⟩
  have hsecond : ∀ l, Gap fs' k names' l → Gap fs k names' l := by
    rintro l ⟨hnone, hl⟩
    refine ⟨?_, hl⟩
    cases he : fs.lookup l with
    | none => rfl
    | some e =>
      rw [h.holds (fun _ => True) l e trivial he] at hnone
      exact absurd hnone (by simp)
  refine ⟨(h.changes.mono hfirst).trans (h'.changes.mono hsecond), ?_, h'.opens⟩
  rintro l ⟨hnone, hl⟩
  by_cases hgap : Gap fs k names l
  · exact h'.holds (fun _ => True) l _ trivial (h.created l hgap)
  · refine h'.created l ⟨?_, hl⟩
    rw [h.changes.lookup l hgap, hnone]

/-! ## The recursion -/

/-- The last step of `createFirst`. -/
def ensureDirectory (p : Path) : FileTask Unit := fun fs =>
  match fs.makeDirectory p with
  | .ok fs' => .ok () fs'
  | .error e => if fs.isDirectory p then .ok () fs else .error e fs

theorem createFirst_found {outer : List Path} (hp : p.text ≠ "")
    (h : fs.makeDirectory p ≠ .error .notFound) :
    createFirst (p :: outer) fs = ensureDirectory p fs := by
  rw [createFirst]
  beta_reduce
  rw [if_neg hp, ensureDirectory]
  cases hm : fs.makeDirectory p with
  | ok fs' => rfl
  | error e =>
    cases e with
    | notFound => exact absurd hm h
    | _ => rfl

theorem createFirst_missing {outer : List Path} (hp : p.text ≠ "")
    (h : fs.makeDirectory p = .error .notFound) : createFirst (p :: outer) fs =
      match createFirst outer fs with
      | .error e fs' => .error e fs'
      | .ok () fs' => ensureDirectory p fs' := by
  rw [createFirst]
  beta_reduce
  rw [if_neg hp, h]
  rfl

/-! ## One directory behind a route -/

variable (hroute : Route fs Q p k) (hk : fs.isDirectoryAt k = true)
  (hnames : ∀ name ∈ names, IsName name) (hne : names ≠ [])

include hroute hk hnames hne

theorem makeDirectory_free (hclear : Clear fs k names) (hfits : Fits p names)
    (hfree : fs.lookup (k ++ names) = none) :
    makeDirectory fs (p.descend names) = .ok (fs.grow (k ++ names)) := by
  rw [makeDirectory, freeSpot, hroute.resolve_descend hk hnames hne hclear hfits (.inl rfl), hfree]
  rfl

theorem makeDirectory_taken (hclear : Clear fs k names) (hfits : Fits p names)
    (htaken : fs.lookup (k ++ names) ≠ none) :
    makeDirectory fs (p.descend names) = .error .alreadyExists := by
  rw [makeDirectory, freeSpot, hroute.resolve_descend hk hnames hne hclear hfits (.inl rfl)]
  simp only
  rw [if_pos]
  · rfl
  · simp [Option.isSome_iff_ne_none.mpr htaken]

theorem isDirectory_descend (hclear : Clear fs k names) (hfits : Fits p names)
    (hd : fs.isDirectoryAt (k ++ names) = true) : fs.isDirectory (p.descend names) = true := by
  obtain ⟨mode, hmode⟩ := isDirectoryAt_iff.mp hd
  rw [isDirectory, hroute.find_descend hk hnames hne hclear hfits hmode (.inr rfl)]
  rfl

/-- A directory is at the end of a way only when the way is clear. -/
theorem clear_of_isDirectory (hlinks : NoLinks fs k names)
    (hlast : ∀ target, fs.lookup (k ++ names) ≠ some (.link target))
    (h : fs.isDirectory (p.descend names) = true) :
    Clear fs k names ∧ Fits p names ∧ fs.isDirectoryAt (k ++ names) = true := by
  rw [isDirectory, find, Bool.true_or] at h
  cases hres : resolve fs true (p.descend names) with
  | error e =>
    rw [hres] at h
    exact absurd h (by simp)
  | ok spot =>
    obtain ⟨hclear, hfits, rfl⟩ := hroute.clear_of_resolve hk hnames hne hlinks (.inr hlast) hres
    refine ⟨hclear, hfits, ?_⟩
    rw [hres] at h
    cases he : fs.lookup (k ++ names) with
    | none =>
      simp only [he] at h
      exact absurd h (by simp)
    | some e =>
      simp only [he] at h
      rw [isDirectoryAt, he]
      exact h

theorem ensureDirectory_ok (hclear : Clear fs k names) (hfits : Fits p names)
    (hend : fs.lookup (k ++ names) = none ∨ fs.isDirectoryAt (k ++ names) = true) :
    ∃ fs', ensureDirectory (p.descend names) fs = .ok () fs' ∧ Opened k names fs fs' := by
  rw [ensureDirectory]
  rcases hend with hfree | hd
  · rw [makeDirectory_free hroute hk hnames hne hclear hfits hfree]
    exact ⟨_, rfl, opened_grow (by simp [hne]) hclear hfree⟩
  · obtain ⟨mode, hmode⟩ := isDirectoryAt_iff.mp hd
    rw [makeDirectory_taken hroute hk hnames hne hclear hfits (by simp [hmode])]
    simp only [isDirectory_descend hroute hk hnames hne hclear hfits hd, if_true]
    exact ⟨fs, rfl, (hclear.open hd).opened⟩

theorem clear_of_ensureDirectory (hlinks : NoLinks fs k names)
    (hlast : ∀ target, fs.lookup (k ++ names) ≠ some (.link target))
    (h : ensureDirectory (p.descend names) fs = .ok () fs') :
    Clear fs k names ∧ Fits p names ∧
      (fs.lookup (k ++ names) = none ∨ fs.isDirectoryAt (k ++ names) = true) := by
  rw [ensureDirectory, makeDirectory, freeSpot] at h
  cases hres : resolve fs false (p.descend names) with
  | error e =>
    rw [hres] at h
    by_cases hd : fs.isDirectory (p.descend names) = true
    · obtain ⟨hclear, hfits, hat⟩ := clear_of_isDirectory hroute hk hnames hne hlinks hlast hd
      exact ⟨hclear, hfits, .inr hat⟩
    · simp only [Except.map, if_neg hd] at h
      exact absurd h (by simp)
  | ok spot =>
    obtain ⟨hclear, hfits, rfl⟩ := hroute.clear_of_resolve hk hnames hne hlinks (.inl rfl) hres
    refine ⟨hclear, hfits, ?_⟩
    cases he : fs.lookup (k ++ names) with
    | none => exact .inl rfl
    | some e =>
      right
      by_cases hd : fs.isDirectory (p.descend names) = true
      · exact (clear_of_isDirectory hroute hk hnames hne hlinks hlast hd).2.2
      · rw [hres] at h
        simp [he, Except.map, hd] at h

omit hne in
/-- Nothing is missing on a clear way. -/
theorem makeDirectory_ne_notFound (hne : names ≠ []) (hclear : Clear fs k names) :
    makeDirectory fs (p.descend names) ≠ .error .notFound := by
  have hdescent := hroute.descent hk hnames hne hclear.noLinks (.inl rfl : false = false ∨ _)
  rw [makeDirectory, freeSpot]
  cases hres : resolve fs false (p.descend names) with
  | error e =>
    rw [hres] at hdescent
    cases hdescent with
    | missing pre hpre hproper hmissing =>
      have hd := hclear pre hpre hproper
      exact absurd hmissing (lookup_ne_none hd)
    | blocked e he hcause => simpa [Except.map] using he
  | ok spot =>
    simp only
    split <;> simp [Except.map]

omit hne in
/-- The first of the enclosing paths is made when all that leads to it is there. -/
theorem createDirectories_of_clear (hne : names ≠ []) (hclear : Clear fs k names) :
    createDirectories (p.descend names) fs = ensureDirectory (p.descend names) fs := by
  obtain ⟨outer, houter⟩ := Path.exists_ancestors (p.descend names)
  rw [createDirectories, houter]
  exact createFirst_found (descend_text_ne_empty p hnames hne)
    (makeDirectory_ne_notFound hroute hk hnames hne hclear)

omit hroute hk in
theorem createDirectories_of_missing {init : List String} (hi : names = init ++ [name])
    (hinit : init ≠ []) (hm : fs.makeDirectory (p.descend names) = .error .notFound) :
    createDirectories (p.descend names) fs =
      match createDirectories (p.descend init) fs with
      | .error e fs' => .error e fs'
      | .ok () fs' => ensureDirectory (p.descend names) fs' := by
  subst hi
  rw [createDirectories, Path.ancestors_descend p hnames hinit]
  exact createFirst_missing (descend_text_ne_empty p hnames hne) hm

/-- **A passable way is opened.** -/
theorem createDirectories_ok (hpass : Passable fs k names) (hfits : Fits p names) :
    ∃ fs', createDirectories (p.descend names) fs = .ok () fs' ∧ Opened k names fs fs' := by
  induction names using List.reverseRecOn with
  | nil => exact absurd rfl hne
  | append_singleton init name ih =>
    by_cases hclear : Clear fs k (init ++ [name])
    · rw [createDirectories_of_clear hroute hk hnames hne hclear]
      exact ensureDirectory_ok hroute hk hnames hne hclear hfits (hpass _ (List.prefix_refl _))
    · have hinit : init ≠ [] := by
        rintro rfl
        exact hclear (clear_singleton hk name)
      have hinames : ∀ n ∈ init, IsName n := fun n hn => hnames n (List.mem_append_left _ hn)
      obtain ⟨fs₁, hcreate, hopened⟩ := ih hinames hinit hpass.init (hfits.init hnames hinit)
      have hm : fs.makeDirectory (p.descend (init ++ [name])) = .error .notFound := by
        have hdescent := hroute.descent hk hnames hne hpass.noLinks (.inl rfl : false = false ∨ _)
        rw [makeDirectory, freeSpot]
        revert hdescent
        generalize resolve fs false (p.descend (init ++ [name])) = res
        intro hdescent
        cases hdescent with
        | arrives h _ => exact absurd h hclear
        | missing => rfl
        | blocked e he hcause =>
          rcases hcause with hno | hfile
          · exact absurd hfits hno
          · exact absurd hfile hpass.not_meetsFile
      rw [createDirectories_of_missing hnames hne rfl hinit hm, hcreate]
      have hend := hpass _ (List.prefix_refl _)
      rw [FileSystem.isDirectoryAt, ← hopened.lookup_append (List.cons_ne_nil name [])] at hend
      obtain ⟨fs₂, hensure, hopened₂⟩ := ensureDirectory_ok (hopened.route hroute)
        hopened.isDirectoryAt hnames hne hopened.opens.concat hfits hend
      exact ⟨fs₂, hensure, hopened.trans hopened₂ (List.prefix_append init [name])⟩

/-- **A way that was opened** was passable, and fits. -/
theorem passable_of_createDirectories (hlinks : NoLinks fs k names)
    (hlast : ∀ target, fs.lookup (k ++ names) ≠ some (.link target))
    (h : createDirectories (p.descend names) fs = .ok () fs') :
    Passable fs k names ∧ Fits p names := by
  induction names using List.reverseRecOn generalizing fs' with
  | nil => exact absurd rfl hne
  | append_singleton init name ih =>
    by_cases hclear : Clear fs k (init ++ [name])
    · rw [createDirectories_of_clear hroute hk hnames hne hclear] at h
      obtain ⟨-, hfits, hend⟩ := clear_of_ensureDirectory hroute hk hnames hne hlinks hlast h
      exact ⟨.of_clear hclear hend, hfits⟩
    · have hinit : init ≠ [] := by
        rintro rfl
        exact hclear (clear_singleton hk name)
      by_cases hm : fs.makeDirectory (p.descend (init ++ [name])) = .error .notFound
      · rw [createDirectories_of_missing hnames hne rfl hinit hm] at h
        have hinames : ∀ n ∈ init, IsName n := fun n hn => hnames n (List.mem_append_left _ hn)
        have hilast := hlinks init (List.prefix_append init [name]) (by simp)
        cases hcreate : createDirectories (p.descend init) fs with
        | error e fs₁ =>
          rw [hcreate] at h
          exact absurd h (by simp)
        | ok u fs₁ =>
          rw [hcreate] at h
          obtain ⟨hpass, hfits⟩ := ih hinames hinit hlinks.init hilast hcreate
          obtain ⟨fs₁', hcreate', hopened⟩ :=
            createDirectories_ok hroute hk hinames hinit hpass hfits
          obtain rfl : fs₁ = fs₁' := by
            rw [hcreate] at hcreate'
            simpa using hcreate'
          have hlast₁ := hlast
          rw [← hopened.lookup_append (List.cons_ne_nil name [])] at hlast₁
          obtain ⟨-, hfits', hend⟩ := clear_of_ensureDirectory (hopened.route hroute)
            hopened.isDirectoryAt hnames hne hopened.opens.concat.noLinks hlast₁ h
          refine ⟨fun pre hpre => ?_, hfits'⟩
          by_cases heq : pre = init ++ [name]
          · rwa [heq, FileSystem.isDirectoryAt, ← hopened.lookup_append (List.cons_ne_nil name [])]
          · exact hpass pre (prefix_concat_cases hpre heq)
      · -- Any other failure is one for good, unless the directory is there.
        obtain ⟨outer, houter⟩ := Path.exists_ancestors (p.descend (init ++ [name]))
        rw [createDirectories, houter,
          createFirst_found (descend_text_ne_empty p hnames hne) hm] at h
        exact absurd (clear_of_ensureDirectory hroute hk hnames hne hlinks hlast h).1 hclear

/-- Directories that could be made open the way. -/
theorem opened_of_createDirectories (hlinks : NoLinks fs k names)
    (hlast : ∀ target, fs.lookup (k ++ names) ≠ some (.link target))
    (h : createDirectories (p.descend names) fs = .ok () fs') :
    Passable fs k names ∧ Fits p names ∧ Opened k names fs fs' := by
  obtain ⟨hpass, hfits⟩ := passable_of_createDirectories hroute hk hnames hne hlinks hlast h
  obtain ⟨fs₁, hcreate, ho⟩ := createDirectories_ok hroute hk hnames hne hpass hfits
  obtain rfl : fs₁ = fs' := by
    rw [h] at hcreate
    simpa using hcreate.symm
  exact ⟨hpass, hfits, ho⟩

end PluginManager.FileSystem
