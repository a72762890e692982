import PluginManager.Proofs.FileSystem.Route
import PluginManager.Proofs.Path.Descent

/-!
# Names behind a route

Names put behind the path of a directory are followed one by one.  Where no link stands on the way
they arrive, or meet a name that is missing, or are blocked.

* `Clear`: all that the names pass through are directories.
* `Fits`: the names and the whole path are short enough.
* `Followed`, `Route.descent`: **what can happen**.
* `Route.resolve_descend`: with a clear way and names that fit, the first of them.
* `Route.missing_again`: what is on the way decides, not what is at its end.
-/

namespace PluginManager.FileSystem

variable {fs fs' : FileSystem} {Q : Location → Prop} {l k : Location} {p : Path}
  {name : String} {names pre : List String} {links : Nat} {last slash : Bool} {kind : LastPiece}
  {spot : Spot} {mode : Nat}

/-! ## On the way -/

/-- The names pass through directories.  Nothing is said of where they end. -/
def Clear (fs : FileSystem) (k : Location) (names : List String) : Prop :=
  ∀ pre, pre <+: names → pre ≠ names → fs.isDirectoryAt (k ++ pre) = true

def NoLinks (fs : FileSystem) (k : Location) (names : List String) : Prop :=
  ∀ pre, pre <+: names → pre ≠ names → ∀ target, fs.lookup (k ++ pre) ≠ some (.link target)

theorem ne_of_prefix_of_concat (h : pre <+: names) : pre ≠ names ++ [name] := by
  rintro rfl
  have hlength := h.length_le
  rw [List.length_append, List.length_singleton] at hlength
  omega

theorem prefix_concat_cases (h : pre <+: names ++ [name]) (hne : pre ≠ names ++ [name]) :
    pre <+: names := by
  rcases List.prefix_concat_iff.mp h with h | h
  · exact absurd h hne
  · exact h

theorem clear_singleton (hk : fs.isDirectoryAt k = true) (name : String) : Clear fs k [name] := by
  intro pre hpre hne
  have hpre' : pre <+: [] ++ [name] := hpre
  obtain rfl : pre = [] := List.prefix_nil.mp (prefix_concat_cases hpre' hne)
  rwa [List.append_nil]

theorem NoLinks.restrict (h : NoLinks fs k names) (hpre : pre <+: names) : NoLinks fs k pre := by
  intro sub hsub hne
  refine h sub (hsub.trans hpre) ?_
  rintro rfl
  exact hne (hsub.eq_of_length_le hpre.length_le)

theorem NoLinks.init (h : NoLinks fs k (names ++ [name])) : NoLinks fs k names :=
  h.restrict (List.prefix_append names [name])

theorem Clear.cons (hk : fs.isDirectoryAt k = true) (h : Clear fs (k ++ [name]) names) :
    Clear fs k (name :: names) := by
  intro pre hpre hne
  cases pre with
  | nil => rwa [List.append_nil]
  | cons n pre =>
    obtain ⟨rfl, hpre'⟩ := List.cons_prefix_cons.mp hpre
    rw [List.append_cons]
    exact h pre hpre' fun heq => hne (by rw [heq])

theorem Clear.tail (h : Clear fs k (name :: names)) : Clear fs (k ++ [name]) names := by
  intro pre hpre hne
  rw [List.append_assoc]
  exact h (name :: pre) (List.cons_prefix_cons.mpr ⟨rfl, hpre⟩) (by simpa using hne)

theorem NoLinks.tail (h : NoLinks fs k (name :: names)) : NoLinks fs (k ++ [name]) names := by
  intro pre hpre hne target
  rw [List.append_assoc]
  exact h (name :: pre) (List.cons_prefix_cons.mpr ⟨rfl, hpre⟩) (by simpa using hne) target

/-- Directories that were made on the way are no links. -/
theorem NoLinks.of_made (h : NoLinks fs k names)
    (hmade : ∀ pre, pre <+: names → pre ≠ names →
      fs'.lookup (k ++ pre) = fs.lookup (k ++ pre) ∨
        ∃ mode, fs'.lookup (k ++ pre) = some (.directory mode)) : NoLinks fs' k names := by
  intro pre hpre hne target htarget
  rcases hmade pre hpre hne with hsame | ⟨mode, hmode⟩
  · exact h pre hpre hne target (hsame.symm.trans htarget)
  · rw [hmode] at htarget
    exact absurd htarget (by simp)

/-! ## Following names -/

/-- The names pass through a file, which has nothing behind it. -/
def MeetsFile (fs : FileSystem) (k : Location) (names : List String) : Prop :=
  ∃ pre, pre <+: names ∧ pre ≠ names ∧
    ∃ mode content, fs.lookup (k ++ pre) = some (.file mode content)

/-- What becomes of names that are followed from `k` where no link stands on the way. -/
inductive Followed (fs : FileSystem) (slash : Bool) (k : Location) (names : List String) :
    Except FileError Spot → Prop
  | arrives : Clear fs k names → (∀ name ∈ names, name.utf8ByteSize ≤ nameLimit) →
      Followed fs slash k names (.ok ⟨k ++ names, fs.lookup (k ++ names), .name, slash⟩)
  | missing (pre : List String) : pre <+: names → pre ≠ names → fs.lookup (k ++ pre) = none →
      Followed fs slash k names (.error .notFound)
  | tooLong (name : String) : name ∈ names → nameLimit < name.utf8ByteSize →
      Followed fs slash k names (.error .nameTooLong)
  | meetsFile : MeetsFile fs k names → Followed fs slash k names (.error .notDirectory)

/-- What becomes of names in a directory becomes of them behind its own name. -/
theorem Followed.cons {res : Except FileError Spot} (hk : fs.isDirectoryAt k = true)
    (hshort : name.utf8ByteSize ≤ nameLimit) (h : Followed fs slash (k ++ [name]) names res) :
    Followed fs slash k (name :: names) res := by
  have hlocation : ∀ pre, k ++ [name] ++ pre = k ++ name :: pre := fun pre => by simp
  cases h with
  | arrives hclear hall =>
    rw [hlocation]
    refine .arrives (hclear.cons hk) fun n hn => ?_
    rcases List.mem_cons.mp hn with rfl | hn
    · exact hshort
    · exact hall n hn
  | missing pre hpre hne hmissing =>
    rw [hlocation] at hmissing
    exact .missing (name :: pre) (List.cons_prefix_cons.mpr ⟨rfl, hpre⟩) (by simpa using hne)
      hmissing
  | tooLong n hn hlong => exact .tooLong n (List.mem_cons_of_mem name hn) hlong
  | meetsFile hfile =>
    obtain ⟨pre, hpre, hne, mode, content, he⟩ := hfile
    rw [hlocation] at he
    exact .meetsFile ⟨name :: pre, List.cons_prefix_cons.mpr ⟨rfl, hpre⟩, by simpa using hne, mode,
      content, he⟩

theorem followFrom_tooLong (hcurrent : name ≠ ".") (hparent : name ≠ "..")
    (hlong : nameLimit < name.utf8ByteSize) :
    followFrom fs last links slash k kind (name :: names) = .error .nameTooLong := by
  rw [followFrom, pass, if_neg hcurrent, if_neg hparent, if_pos hlong]

/-- Names are followed one by one. -/
theorem followed_names (hk : fs.isDirectoryAt k = true) (hnames : ∀ name ∈ names, IsName name)
    (hne : names ≠ []) (hlinks : NoLinks fs k names)
    (hlast : last = false ∨ ∀ target, fs.lookup (k ++ names) ≠ some (.link target)) :
    Followed fs slash k names (followFrom fs last links slash k kind names) := by
  induction names generalizing k kind with
  | nil => exact absurd rfl hne
  | cons name rest ih =>
    have hname := hnames name List.mem_cons_self
    by_cases hlong : nameLimit < name.utf8ByteSize
    · rw [followFrom_tooLong hname.ne_current hname.ne_parent hlong]
      exact .tooLong name List.mem_cons_self hlong
    · have hshort : name.utf8ByteSize ≤ nameLimit := Nat.not_lt.mp hlong
      have hp : IsLookedUp name := .of_isName hname hshort
      by_cases hrest : rest = []
      · subst hrest
        rw [followFrom_last last slash kind hp hlast]
        exact .arrives (clear_singleton hk name) (by simpa using hshort)
      · have hhere : [name] <+: name :: rest := List.prefix_append [name] rest
        have hproper : [name] ≠ name :: rest := by simpa using Ne.symm hrest
        cases hlookup : fs.lookup (k ++ [name]) with
        | none =>
          rw [followFrom_missing last slash kind hp hrest hlookup]
          exact .missing [name] hhere hproper hlookup
        | some e =>
          cases e with
          | link target => exact absurd hlookup (hlinks [name] hhere hproper target)
          | file mode content =>
            rw [followFrom_file last slash kind hp hrest hlookup]
            exact .meetsFile ⟨[name], hhere, hproper, mode, content, hlookup⟩
          | directory mode =>
            rw [followFrom_directory last slash kind hp hlookup]
            have hlocation : k ++ [name] ++ rest = k ++ name :: rest := by simp
            rw [← hlocation] at hlast
            exact (ih (isDirectoryAt_of_lookup hlookup)
              (fun n hn => hnames n (List.mem_cons_of_mem name hn)) hrest hlinks.tail hlast).cons hk
                hshort

/-- What keeps names from being followed stands before the last of them. -/
theorem followFrom_error_congr {e : FileError} {links' : Nat} {kind' : LastPiece}
    (hnames : ∀ name ∈ names, IsName name) (hne : names ≠ []) (hlinks : NoLinks fs k names)
    (hsame : ∀ pre, pre <+: names → pre ≠ names → fs'.lookup (k ++ pre) = fs.lookup (k ++ pre))
    (h : followFrom fs false links slash k kind names = .error e) :
    followFrom fs' false links' slash k kind' names = .error e := by
  induction names generalizing k kind kind' with
  | nil => exact absurd rfl hne
  | cons name rest ih =>
    have hname := hnames name List.mem_cons_self
    by_cases hlong : nameLimit < name.utf8ByteSize
    · rw [followFrom_tooLong hname.ne_current hname.ne_parent hlong] at h ⊢
      exact h
    · have hp : IsLookedUp name := .of_isName hname (Nat.not_lt.mp hlong)
      by_cases hrest : rest = []
      · subst hrest
        rw [followFrom_last false slash kind hp (.inl rfl)] at h
        exact absurd h (by simp)
      · have hhere : [name] <+: name :: rest := List.prefix_append [name] rest
        have hproper : [name] ≠ name :: rest := by simpa using Ne.symm hrest
        have hlookup := hsame [name] hhere hproper
        cases he : fs.lookup (k ++ [name]) with
        | none =>
          rw [followFrom_missing false slash kind hp hrest he] at h
          rw [followFrom_missing false slash kind' hp hrest (hlookup.trans he), h]
        | some entry =>
          cases entry with
          | link target => exact absurd he (hlinks [name] hhere hproper target)
          | file mode content =>
            rw [followFrom_file false slash kind hp hrest he] at h
            rw [followFrom_file false slash kind' hp hrest (hlookup.trans he), h]
          | directory mode =>
            rw [followFrom_directory false slash kind hp he] at h
            rw [followFrom_directory false slash kind' hp (hlookup.trans he)]
            refine ih (fun n hn => hnames n (List.mem_cons_of_mem name hn)) hrest hlinks.tail
              (fun pre hpre hpne => ?_) h
            rw [List.append_assoc]
            exact hsame (name :: pre) (List.cons_prefix_cons.mpr ⟨rfl, hpre⟩) (by simpa using hpne)

/-! ## Names behind a route -/

/-- The path, and the names put behind it, are short enough. -/
structure Fits (p : Path) (names : List String) : Prop where
  usable : Usable (p.descend names)
  short : ∀ name ∈ names, name.utf8ByteSize ≤ nameLimit

/-- What becomes of a path that goes down by names from `k`. -/
inductive Descent (fs : FileSystem) (p : Path) (k : Location) (names : List String) :
    Except FileError Spot → Prop
  | arrives : Clear fs k names → Fits p names →
      Descent fs p k names (.ok ⟨k ++ names, fs.lookup (k ++ names), .name, false⟩)
  | missing (pre : List String) : pre <+: names → pre ≠ names → fs.lookup (k ++ pre) = none →
      Descent fs p k names (.error .notFound)
  | blocked (e : FileError) : e ≠ .notFound → ¬ Fits p names ∨ MeetsFile fs k names →
      Descent fs p k names (.error e)

theorem descend_text_ne_empty (p : Path) (hnames : ∀ name ∈ names, IsName name) (hne : names ≠ []) :
    (p.descend names).text ≠ "" := by
  apply Path.text_ne_empty_of_steps
  rw [Path.steps_descend p hnames]
  simp [hne]

theorem endsWithSlash_descend (p : Path) (hnames : ∀ name ∈ names, IsName name) (hne : names ≠ []) :
    (p.descend names).endsWithSlash = false := by
  obtain ⟨init, name, rfl⟩ := List.eq_nil_or_concat names |>.resolve_left hne
  rw [List.concat_eq_append] at hnames ⊢
  rw [Path.descend_concat]
  exact Path.endsWithSlash_child _ (hnames name (by simp))

/-- A path with text that cannot be used at all is not merely missing. -/
theorem resolve_of_not_usable (hp : p.text ≠ "") (hu : ¬ Usable p) :
    ∃ e, e ≠ .notFound ∧ ∀ fs last, resolve fs last p = .error e := by
  by_cases hnul : hasNul p = true
  · refine ⟨.nulByte, by simp, fun fs last => ?_⟩
    rw [resolve]
    simp only [hnul, if_true]
  · rw [Bool.not_eq_true] at hnul
    have hlong : pathLimit ≤ p.text.utf8ByteSize := by
      by_contra hshort
      exact hu ⟨hnul, hp, Nat.not_le.mp hshort⟩
    refine ⟨.nameTooLong, by simp, fun fs last => ?_⟩
    rw [resolve]
    simp only [hnul, Bool.false_eq_true, if_false, if_neg hp, if_pos hlong]

/-- **What becomes of names behind a route** to a directory, where no link stands on the way. -/
theorem Route.descent (h : Route fs Q p k) (hk : fs.isDirectoryAt k = true)
    (hnames : ∀ name ∈ names, IsName name) (hne : names ≠ []) (hlinks : NoLinks fs k names)
    (hlast : last = false ∨ ∀ target, fs.lookup (k ++ names) ≠ some (.link target)) :
    Descent fs p k names (resolve fs last (p.descend names)) := by
  by_cases hu : Usable (p.descend names)
  · obtain ⟨links, kind, hres⟩ := h.resolve_append last hk hu
      (Path.isAbsolute_descend p hnames) (Path.steps_descend p hnames) hne
    rw [hres, endsWithSlash_descend p hnames hne]
    have hfollowed : Followed fs false k names (followFrom fs last links false k kind names) :=
      followed_names hk hnames hne hlinks hlast
    revert hfollowed
    generalize followFrom fs last links false k kind names = res
    intro hfollowed
    cases hfollowed with
    | arrives hclear hshort => exact .arrives hclear ⟨hu, hshort⟩
    | missing pre hpre hproper hmissing => exact .missing pre hpre hproper hmissing
    | meetsFile hfile => exact .blocked _ (by simp) (.inr hfile)
    | tooLong name hname hlong =>
      exact .blocked _ (by simp) (.inl fun hfits => Nat.not_lt.mpr (hfits.short name hname) hlong)
  · obtain ⟨e, he, hres⟩ := resolve_of_not_usable (descend_text_ne_empty p hnames hne) hu
    rw [hres]
    exact .blocked e he (.inl fun hfits => hu hfits.usable)

theorem Clear.noLinks (h : Clear fs k names) : NoLinks fs k names := by
  intro pre hpre hne target htarget
  have hd := h pre hpre hne
  exact absurd (isDirectory_of_lookup hd htarget) Bool.false_ne_true

theorem Clear.not_meetsFile (h : Clear fs k names) : ¬ MeetsFile fs k names := by
  rintro ⟨pre, hpre, hne, mode, content, hfile⟩
  have hd := h pre hpre hne
  exact absurd (isDirectory_of_lookup hd hfile) Bool.false_ne_true

/-- **On a clear way names that fit arrive.** -/
theorem Route.resolve_descend (h : Route fs Q p k) (hk : fs.isDirectoryAt k = true)
    (hnames : ∀ name ∈ names, IsName name) (hne : names ≠ []) (hclear : Clear fs k names)
    (hfits : Fits p names)
    (hlast : last = false ∨ ∀ target, fs.lookup (k ++ names) ≠ some (.link target)) :
    resolve fs last (p.descend names) =
      .ok ⟨k ++ names, fs.lookup (k ++ names), .name, false⟩ := by
  have hdescent := h.descent hk hnames hne hclear.noLinks hlast
  revert hdescent
  generalize resolve fs last (p.descend names) = res
  intro hdescent
  cases hdescent with
  | arrives _ _ => rfl
  | missing pre hpre hproper hmissing =>
    have hd := hclear pre hpre hproper
    exact absurd hmissing (lookup_ne_none hd)
  | blocked e he hcause =>
    rcases hcause with hno | hfile
    · exact absurd hfits hno
    · exact absurd hfile hclear.not_meetsFile

theorem Route.clear_of_resolve (h : Route fs Q p k) (hk : fs.isDirectoryAt k = true)
    (hnames : ∀ name ∈ names, IsName name) (hne : names ≠ []) (hlinks : NoLinks fs k names)
    (hlast : last = false ∨ ∀ target, fs.lookup (k ++ names) ≠ some (.link target))
    (hres : resolve fs last (p.descend names) = .ok spot) :
    Clear fs k names ∧ Fits p names ∧
      spot = ⟨k ++ names, fs.lookup (k ++ names), .name, false⟩ := by
  have hdescent := h.descent hk hnames hne hlinks hlast
  rw [hres] at hdescent
  cases hdescent with
  | arrives hclear hfits => exact ⟨hclear, hfits, rfl⟩

/-- What is missing on the way is missing wherever the way is the same. -/
theorem Route.missing_again (h : Route fs Q p k) (hk : fs.isDirectoryAt k = true)
    (h' : Route fs' Q p k) (hk' : fs'.isDirectoryAt k = true)
    (hnames : ∀ name ∈ names, IsName name) (hne : names ≠ []) (hlinks : NoLinks fs k names)
    (hsame : ∀ pre, pre <+: names → pre ≠ names → fs'.lookup (k ++ pre) = fs.lookup (k ++ pre))
    (hres : resolve fs false (p.descend names) = .error .notFound) :
    resolve fs' false (p.descend names) = .error .notFound := by
  have hu : Usable (p.descend names) := by
    by_contra hu
    obtain ⟨e, he, herror⟩ := resolve_of_not_usable (descend_text_ne_empty p hnames hne) hu
    exact he (Except.error.inj (hres.symm.trans (herror fs false))).symm
  obtain ⟨links, kind, hfollow⟩ := h.resolve_append false hk hu
    (Path.isAbsolute_descend p hnames) (Path.steps_descend p hnames) hne
  obtain ⟨links', kind', hfollow'⟩ := h'.resolve_append false hk' hu
    (Path.isAbsolute_descend p hnames) (Path.steps_descend p hnames) hne
  rw [hfollow] at hres
  rw [hfollow']
  exact followFrom_error_congr hnames hne hlinks hsame hres

/-- A route to a directory goes on to what is in it, unless that is a link. -/
theorem Route.child_of_entry {e : Entry} (h : Route fs Q p k) (hk : fs.isDirectoryAt k = true)
    (hname : IsName name) (hshort : name.utf8ByteSize ≤ nameLimit)
    (he : fs.lookup (k ++ [name]) = some e) (hlink : e.isLink = false) (hQ : Q (k ++ [name])) :
    Route fs Q (p.child name) (k ++ [name]) := by
  obtain ⟨n, hn, hwalk⟩ := h.walk
  have hstart : fs.start (p.child name) = fs.start p := by
    rw [FileSystem.start, FileSystem.start, Path.isAbsolute_child_eq p hname]
  refine ⟨by rw [hstart]; exact h.start, by rw [hstart]; exact h.directory, n, hn, ?_⟩
  rw [hstart, steps_child p hname]
  have hlast : Walk fs Q k [name] (k ++ [name]) 0 := by
    cases e with
    | file mode content => exact .file (.of_isName hname hshort) hQ he
    | directory mode => exact .directory (.of_isName hname hshort) hQ he (.done hQ)
    | link target => exact absurd hlink (by simp [Entry.isLink])
  exact hwalk.append hk hlast

theorem Route.child (h : Route fs Q p k) (hk : fs.isDirectoryAt k = true) (hname : IsName name)
    (hshort : name.utf8ByteSize ≤ nameLimit) (hd : fs.isDirectoryAt (k ++ [name]) = true)
    (hQ : Q (k ++ [name])) : Route fs Q (p.child name) (k ++ [name]) := by
  obtain ⟨mode, hmode⟩ := isDirectoryAt_iff.mp hd
  exact h.child_of_entry hk hname hshort hmode rfl hQ

/-- What is found at the end of a clear way. -/
theorem Route.find_descend (h : Route fs Q p k) (hk : fs.isDirectoryAt k = true)
    (hnames : ∀ name ∈ names, IsName name) (hne : names ≠ []) (hclear : Clear fs k names)
    (hfits : Fits p names) {e : Entry} (he : fs.lookup (k ++ names) = some e)
    (hlast : last = false ∨ e.isLink = false) :
    find fs last (p.descend names) = .ok (k ++ names, e) := by
  have hlast' : last = false ∨ ∀ target, fs.lookup (k ++ names) ≠ some (.link target) := by
    refine hlast.imp_right fun hlink target htarget => ?_
    rw [he] at htarget
    rw [Option.some.inj htarget] at hlink
    exact absurd hlink (by simp [Entry.isLink])
  rw [find, endsWithSlash_descend p hnames hne, Bool.or_false,
    h.resolve_descend hk hnames hne hclear hfits hlast', he]
  rfl

theorem Route.fits_of_find (h : Route fs Q p k) (hk : fs.isDirectoryAt k = true)
    (hnames : ∀ name ∈ names, IsName name) (hne : names ≠ []) (hclear : Clear fs k names)
    (hlast : last = false ∨ ∀ target, fs.lookup (k ++ names) ≠ some (.link target)) {e : Entry}
    (hf : find fs last (p.descend names) = .ok (l, e)) :
    Fits p names ∧ fs.lookup (k ++ names) = some e := by
  rw [find, endsWithSlash_descend p hnames hne, Bool.or_false] at hf
  cases hres : resolve fs last (p.descend names) with
  | error e' =>
    rw [hres] at hf
    exact absurd hf (by simp)
  | ok spot =>
    obtain ⟨-, hfits, rfl⟩ := h.clear_of_resolve hk hnames hne hclear.noLinks hlast hres
    refine ⟨hfits, ?_⟩
    rw [hres] at hf
    cases he : fs.lookup (k ++ names) with
    | none => simp [he] at hf
    | some e' =>
      obtain ⟨-, rfl⟩ : k ++ names = l ∧ e' = e := by simpa [he] using hf
      rfl

end PluginManager.FileSystem
