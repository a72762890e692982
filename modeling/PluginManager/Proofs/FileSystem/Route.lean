import PluginManager.Proofs.FileSystem.Frame

/-!
# Routes

A path is followed from entry to entry.  What it leads to depends on the entries it meets and on no
others.

* `Walk`: the pieces of a path followed one by one through locations of a set, links counted.
* `Route`: a path that is followed so from where it starts.
* `Walk.followFrom_append`: what stands behind a directory is followed from that directory.
* `Route.find_of_holds`: **a file system with the same entries on the way** finds the same.
* `FindsAgain`: so what was found by a path is found by it again.
-/

namespace PluginManager.FileSystem

/-! ## Walks -/

/-- A piece that is looked up. -/
structure IsLookedUp (piece : String) : Prop where
  ne_current : piece ≠ "."
  ne_parent : piece ≠ ".."
  short : piece.utf8ByteSize ≤ nameLimit

/-- `Walk fs Q l pieces k n`: from `l` the pieces lead to `k` over `n` links.  All that is looked up
lies in `Q`. -/
inductive Walk (fs : FileSystem) (Q : Location → Prop) :
    Location → List String → Location → Nat → Prop
  | done {l} : Q l → Walk fs Q l [] l 0
  | current {l rest k n} : Walk fs Q l rest k n → Walk fs Q l ("." :: rest) k n
  | parent {l rest k n} : Walk fs Q l.dropLast rest k n → Walk fs Q l (".." :: rest) k n
  | directory {l piece rest k n mode} : IsLookedUp piece → Q (l ++ [piece]) →
      fs.lookup (l ++ [piece]) = some (.directory mode) → Walk fs Q (l ++ [piece]) rest k n →
      Walk fs Q l (piece :: rest) k n
  | file {l piece mode content} : IsLookedUp piece → Q (l ++ [piece]) →
      fs.lookup (l ++ [piece]) = some (.file mode content) → Walk fs Q l [piece] (l ++ [piece]) 0
  | link {l piece rest k n target} : IsLookedUp piece → Q (l ++ [piece]) →
      fs.lookup (l ++ [piece]) = some (.link target) →
      Walk fs Q (if target.isAbsolute then [] else l) (steps target ++ rest) k n →
      Walk fs Q l (piece :: rest) k (n + 1)

variable {fs fs' : FileSystem} {Q Q' : Location → Prop} {l k : Location} {p q : Path}
  {name piece : String} {pieces rest : List String} {n links : Nat} {e : Entry}

theorem IsLookedUp.of_isName (h : IsName name) (hs : name.utf8ByteSize ≤ nameLimit) :
    IsLookedUp name := ⟨h.ne_current, h.ne_parent, hs⟩

/-- What is found in `Q` stays there. -/
def Holds (Q : Location → Prop) (fs fs' : FileSystem) : Prop :=
  ∀ l e, Q l → fs.lookup l = some e → fs'.lookup l = some e

theorem Holds.refl (Q : Location → Prop) (fs : FileSystem) : Holds Q fs fs := fun _ _ _ h => h

theorem ChangesOnly.holds {P : Location → Prop} (h : ChangesOnly P fs fs') (hQ : ∀ l, Q l → ¬ P l) :
    Holds Q fs fs' := by
  intro l e hl he
  rw [h.lookup l (hQ l hl), he]

namespace Walk

theorem mono (h : Walk fs Q l pieces k n) (hQ : ∀ l, Q l → Q' l) : Walk fs Q' l pieces k n := by
  induction h with
  | done hl => exact .done (hQ _ hl)
  | current _ ih => exact .current ih
  | parent _ ih => exact .parent ih
  | directory hp hl he _ ih => exact .directory hp (hQ _ hl) he ih
  | file hp hl he => exact .file hp (hQ _ hl) he
  | link hp hl he _ ih => exact .link hp (hQ _ hl) he ih

theorem of_holds (h : Walk fs Q l pieces k n) (hold : Holds Q fs fs') :
    Walk fs' Q l pieces k n := by
  induction h with
  | done hl => exact .done hl
  | current _ ih => exact .current ih
  | parent _ ih => exact .parent ih
  | directory hp hl he _ ih => exact .directory hp hl (hold _ _ hl he) ih
  | file hp hl he => exact .file hp hl (hold _ _ hl he)
  | link hp hl he _ ih => exact .link hp hl (hold _ _ hl he) ih

theorem ends (h : Walk fs Q l pieces k n) : Q k := by
  induction h with
  | done hl => exact hl
  | file _ hl _ => exact hl
  | current _ ih | parent _ ih | directory _ _ _ _ ih | link _ _ _ _ ih => exact ih

/-- Only the last piece may be a file, so a walk to a directory goes on. -/
theorem append (h : Walk fs Q l pieces k n) (hk : fs.isDirectoryAt k = true)
    {k' : Location} {m : Nat} (h' : Walk fs Q k rest k' m) :
    Walk fs Q l (pieces ++ rest) k' (n + m) := by
  induction h with
  | done hl => rwa [List.nil_append, Nat.zero_add]
  | current _ ih => exact .current (ih hk h')
  | parent _ ih => exact .parent (ih hk h')
  | directory hp hl he _ ih => exact .directory hp hl he (ih hk h')
  | file _ _ he =>
    exact absurd (isDirectory_of_lookup hk he) Bool.false_ne_true
  | link hp hl he _ ih =>
    rw [Nat.add_right_comm, List.cons_append]
    refine .link hp hl he ?_
    rw [← List.append_assoc]
    exact ih hk h'

end Walk

/-! ## Following -/

/-- `follow` in the middle of a path, `kind` being that of the piece before. -/
def followFrom (fs : FileSystem) (last : Bool) (links : Nat) (slash : Bool) (l : Location)
    (kind : LastPiece) (pieces : List String) : Except FileError Spot :=
  match pass fs last slash l kind pieces with
  | .error e => .error e
  | .ok (.arrived spot) => .ok spot
  | .ok (.link directory target rest) =>
    match links with
    | 0 => .error .tooManyLinks
    | links + 1 =>
      follow fs last links (slash || (rest.isEmpty && target.endsWithSlash))
        (if target.isAbsolute then [] else directory) (steps target ++ rest)

section Following

variable (last slash : Bool) (kind : LastPiece)

theorem follow_eq (fs : FileSystem) (links : Nat) (l : Location) (pieces : List String) :
    follow fs last links slash l pieces = followFrom fs last links slash l .root pieces := by
  cases links <;> (rw [follow]; rfl)

theorem followFrom_nil : followFrom fs last links slash l kind [] =
    .ok ⟨l, fs.lookup l, kind, slash⟩ := rfl

theorem followFrom_current : followFrom fs last links slash l kind ("." :: rest) =
    followFrom fs last links slash l .current rest := by
  rw [followFrom, pass, if_pos rfl, followFrom]

theorem followFrom_parent : followFrom fs last links slash l kind (".." :: rest) =
    followFrom fs last links slash l.dropLast .parent rest := by
  rw [followFrom, pass, if_neg (by decide), if_pos rfl, followFrom]

theorem pass_piece (hp : IsLookedUp piece) : pass fs last slash l kind (piece :: rest) =
    match fs.lookup (l ++ [piece]) with
    | none =>
      if rest.isEmpty then .ok (.arrived ⟨l ++ [piece], none, .name, slash⟩) else .error .notFound
    | some (.directory _) => pass fs last slash (l ++ [piece]) .name rest
    | some (.file mode content) =>
      if rest.isEmpty then .ok (.arrived ⟨l ++ [piece], some (.file mode content), .name, slash⟩)
      else .error .notDirectory
    | some (.link target) =>
      if rest.isEmpty && !last then
        .ok (.arrived ⟨l ++ [piece], some (.link target), .name, slash⟩)
      else .ok (.link l target rest) := by
  have hshort : ¬ nameLimit < piece.utf8ByteSize := Nat.not_lt.mpr hp.short
  exact (if_neg hp.ne_current).trans ((if_neg hp.ne_parent).trans (if_neg hshort))

theorem followFrom_directory (hp : IsLookedUp piece) {mode : Nat}
    (he : fs.lookup (l ++ [piece]) = some (.directory mode)) :
    followFrom fs last links slash l kind (piece :: rest) =
      followFrom fs last links slash (l ++ [piece]) .name rest := by
  rw [followFrom, pass_piece last slash kind hp, he, followFrom]

theorem followFrom_link (hp : IsLookedUp piece) {target : Path}
    (he : fs.lookup (l ++ [piece]) = some (.link target)) (hlast : rest ≠ [] ∨ last = true) :
    followFrom fs last (links + 1) slash l kind (piece :: rest) =
      followFrom fs last links (slash || (rest.isEmpty && target.endsWithSlash))
        (if target.isAbsolute then [] else l) .root (steps target ++ rest) := by
  have hgo : (rest.isEmpty && !last) = false := by
    rcases hlast with h | h
    · simp [h]
    · simp [h]
  rw [followFrom, pass_piece last slash kind hp, he]
  simp only [hgo, Bool.false_eq_true, if_false]
  rw [follow_eq]

theorem followFrom_link_zero (hp : IsLookedUp piece) {target : Path}
    (he : fs.lookup (l ++ [piece]) = some (.link target)) (hgo : rest ≠ [] ∨ last = true) :
    followFrom fs last 0 slash l kind (piece :: rest) = .error .tooManyLinks := by
  have hisEmpty : (rest.isEmpty && !last) = false := by
    rcases hgo with hgo | hgo <;> simp [hgo]
  rw [followFrom, pass_piece last slash kind hp, he]
  simp [hisEmpty]

/-- Nothing is behind what is missing. -/
theorem followFrom_missing (hp : IsLookedUp piece) (hrest : rest ≠ [])
    (he : fs.lookup (l ++ [piece]) = none) :
    followFrom fs last links slash l kind (piece :: rest) = .error .notFound := by
  rw [followFrom, pass_piece last slash kind hp, he]
  simp [hrest]

/-- Nothing is behind a file. -/
theorem followFrom_file (hp : IsLookedUp piece) (hrest : rest ≠ []) {mode : Nat} {content : Bytes}
    (he : fs.lookup (l ++ [piece]) = some (.file mode content)) :
    followFrom fs last links slash l kind (piece :: rest) = .error .notDirectory := by
  rw [followFrom, pass_piece last slash kind hp, he]
  simp [hrest]

/-- The last piece, when it is not followed any further. -/
theorem followFrom_last (hp : IsLookedUp piece)
    (he : last = false ∨ ∀ target, fs.lookup (l ++ [piece]) ≠ some (.link target)) :
    followFrom fs last links slash l kind [piece] =
      .ok ⟨l ++ [piece], fs.lookup (l ++ [piece]), .name, slash⟩ := by
  rw [followFrom, pass_piece last slash kind hp]
  cases hk : fs.lookup (l ++ [piece]) with
  | none => rfl
  | some e =>
    cases e with
    | file mode content => rfl
    | directory mode => simp only [pass, hk]
    | link target =>
      rcases he with he | he
      · simp [he]
      · exact absurd hk (he target)

/-- What stands behind a walk to a directory is followed from there. -/
theorem Walk.followFrom_append (h : Walk fs Q l pieces k n) (hk : fs.isDirectoryAt k = true)
    (hrest : rest ≠ []) (hn : n ≤ links) : ∃ kind',
      followFrom fs last links slash l kind (pieces ++ rest) =
        followFrom fs last (links - n) slash k kind' rest := by
  induction h generalizing kind links with
  | done _ => exact ⟨kind, rfl⟩
  | current _ ih =>
    rw [List.cons_append, followFrom_current]
    exact ih .current hk hn
  | parent _ ih =>
    rw [List.cons_append, followFrom_parent]
    exact ih .parent hk hn
  | directory hp _ he _ ih =>
    rw [List.cons_append, followFrom_directory last slash kind hp he]
    exact ih .name hk hn
  | file _ _ he =>
    exact absurd (isDirectory_of_lookup hk he) Bool.false_ne_true
  | @link l piece pieces k n target hp _ he _ ih =>
    obtain ⟨links, rfl⟩ := Nat.exists_eq_add_one_of_ne_zero (show links ≠ 0 by omega)
    have hne : pieces ++ rest ≠ [] := by simp [hrest]
    rw [List.cons_append, followFrom_link last slash kind hp he (.inl hne), ← List.append_assoc,
      Nat.add_sub_add_right]
    have hslash : (slash || ((pieces ++ rest).isEmpty && target.endsWithSlash)) = slash := by
      simp [hrest]
    rw [hslash]
    exact ih .root hk (by omega)

/-- **Where a walk ends**, in any file system that has what the walk met. -/
theorem Walk.exists_spot (h : Walk fs Q l pieces k n) (hn : n ≤ links) :
    ∃ kind' slash', ∀ fs', Holds Q fs fs' → fs'.lookup k = fs.lookup k →
      followFrom fs' true links slash l kind pieces = .ok ⟨k, fs.lookup k, kind', slash'⟩ := by
  induction h generalizing slash kind links with
  | done _ =>
    refine ⟨kind, slash, fun fs' _ hk => ?_⟩
    rw [followFrom_nil, hk]
  | current _ ih =>
    obtain ⟨kind', slash', hspot⟩ := ih slash .current hn
    exact ⟨kind', slash', fun fs' hold hk => by rw [followFrom_current, hspot fs' hold hk]⟩
  | parent _ ih =>
    obtain ⟨kind', slash', hspot⟩ := ih slash .parent hn
    exact ⟨kind', slash', fun fs' hold hk => by rw [followFrom_parent, hspot fs' hold hk]⟩
  | directory hp hl he _ ih =>
    obtain ⟨kind', slash', hspot⟩ := ih slash .name hn
    refine ⟨kind', slash', fun fs' hold hk => ?_⟩
    rw [followFrom_directory true slash kind hp (hold _ _ hl he), hspot fs' hold hk]
  | file hp _ he =>
    refine ⟨.name, slash, fun fs' _ hk => ?_⟩
    rw [followFrom_last true slash kind hp ?_, hk]
    right
    intro target htarget
    rw [hk, he] at htarget
    exact absurd htarget (by simp)
  | @link l piece pieces k n target hp hl he _ ih =>
    obtain ⟨links, rfl⟩ := Nat.exists_eq_add_one_of_ne_zero (show links ≠ 0 by omega)
    have hn' : n ≤ links := by omega
    obtain ⟨kind', slash', hspot⟩ :=
      ih (slash || (pieces.isEmpty && target.endsWithSlash)) .root hn'
    refine ⟨kind', slash', fun fs' hold hk => ?_⟩
    rw [followFrom_link true slash kind hp (hold _ _ hl he) (.inr rfl), hspot fs' hold hk]

end Following

/-! ## Routes -/

/-- The directory in which a path starts. -/
def start (fs : FileSystem) (p : Path) : Location :=
  if p.isAbsolute then [] else fs.workingDirectory

/-- What the text of a path has to be like for it to be followed at all. -/
structure Usable (p : Path) : Prop where
  no_nul : hasNul p = false
  ne_empty : p.text ≠ ""
  short : p.text.utf8ByteSize < pathLimit

instance : DecidablePred Usable := fun p =>
  decidable_of_iff (hasNul p = false ∧ p.text ≠ "" ∧ p.text.utf8ByteSize < pathLimit)
    ⟨fun ⟨h₁, h₂, h₃⟩ => ⟨h₁, h₂, h₃⟩, fun ⟨h₁, h₂, h₃⟩ => ⟨h₁, h₂, h₃⟩⟩

/-- The path leads to `k`, and all that is looked up on the way lies in `Q`. -/
structure Route (fs : FileSystem) (Q : Location → Prop) (p : Path) (k : Location) : Prop where
  start : Q (fs.start p)
  directory : fs.isDirectoryAt (fs.start p) = true
  walk : ∃ n ≤ linkLimit, Walk fs Q (fs.start p) (steps p) k n

/-- What the path leads to in one file system it leads to in the other. -/
def FindsAgain (fs fs' : FileSystem) (p : Path) : Prop :=
  ∀ x, find fs true p = .ok x → find fs' true p = .ok x

theorem FindsAgain.canonical (h : fs.FindsAgain fs' p) (hc : fs.canonical p = .ok q) :
    fs'.canonical p = .ok q := by
  rw [FileSystem.canonical] at hc ⊢
  cases hf : find fs true p with
  | error e =>
    rw [hf] at hc
    exact absurd hc (by simp [Except.map])
  | ok x =>
    rw [hf] at hc
    rw [h x hf]
    exact hc

variable {last : Bool} {spot : Spot} {mode : Nat}

theorem resolve_of_usable (hp : Usable p) (hd : fs.isDirectoryAt (fs.start p) = true) :
    resolve fs last p =
      followFrom fs last linkLimit p.endsWithSlash (fs.start p) .root (steps p) := by
  rw [← follow_eq, resolve]
  simp only [hp.no_nul, Bool.false_eq_true, if_false, if_neg hp.ne_empty,
    if_neg (Nat.not_le.mpr hp.short)]
  rw [if_neg]
  · rfl
  · rw [FileSystem.start] at hd
    simp [hd]

theorem usable_of_resolve (h : resolve fs last p = .ok spot) : Usable p := by
  rw [resolve] at h
  split at h
  · exact absurd h (by simp)
  · rename_i hnul
    split at h
    · exact absurd h (by simp)
    · rename_i hempty
      split at h
      · exact absurd h (by simp)
      · rename_i hshort
        exact ⟨by simpa using hnul, hempty, Nat.not_le.mp hshort⟩

theorem usable_of_find (h : find fs last p = .ok (k, e)) : Usable p := by
  rw [find] at h
  split at h
  · exact absurd h (by simp)
  · rename_i spot hspot
    exact usable_of_resolve hspot

theorem start_congr (h : fs'.workingDirectory = fs.workingDirectory) (p : Path) :
    fs'.start p = fs.start p := by
  rw [FileSystem.start, FileSystem.start, h]

namespace Route

theorem mono (h : Route fs Q p k) (hQ : ∀ l, Q l → Q' l) : Route fs Q' p k := by
  obtain ⟨n, hn, hwalk⟩ := h.walk
  exact ⟨hQ _ h.start, h.directory, n, hn, hwalk.mono hQ⟩

theorem ends (h : Route fs Q p k) : Q k := by
  obtain ⟨n, hn, hwalk⟩ := h.walk
  exact hwalk.ends

theorem of_holds (h : Route fs Q p k) (hold : Holds Q fs fs')
    (hwd : fs'.workingDirectory = fs.workingDirectory) : Route fs' Q p k := by
  obtain ⟨n, hn, hwalk⟩ := h.walk
  obtain ⟨mode, hmode⟩ := isDirectoryAt_iff.mp h.directory
  have hstart := start_congr hwd p
  refine ⟨by rw [hstart]; exact h.start, ?_, n, hn, ?_⟩
  · rw [hstart]
    exact isDirectoryAt_of_lookup (hold _ _ h.start hmode)
  · rw [hstart]
    exact hwalk.of_holds hold

/-- Two file systems in which a path has the same entries on its way resolve it alike. -/
theorem exists_spot (h : Route fs Q p k) (hp : Usable p) : ∃ kind slash, ∀ fs', Holds Q fs fs' →
    fs'.workingDirectory = fs.workingDirectory → fs'.lookup k = fs.lookup k →
      resolve fs' true p = .ok ⟨k, fs.lookup k, kind, slash⟩ := by
  obtain ⟨n, hn, hwalk⟩ := h.walk
  obtain ⟨kind, slash, hspot⟩ := hwalk.exists_spot p.endsWithSlash .root hn
  refine ⟨kind, slash, fun fs' hold hwd hk => ?_⟩
  rw [resolve_of_usable hp (h.of_holds hold hwd).directory, start_congr hwd]
  exact hspot fs' hold hk

theorem find_directory (h : Route fs Q p k) (hp : Usable p)
    (hk : fs.lookup k = some (.directory mode)) : find fs true p = .ok (k, .directory mode) := by
  obtain ⟨kind, slash, hspot⟩ := h.exists_spot hp
  rw [find, Bool.true_or, hspot fs (.refl Q fs) rfl rfl]
  simp [hk, Entry.isDirectory]

/-- **A file system with the same entries on the way** finds the same. -/
theorem find_of_holds (h : Route fs Q p k) (hf : find fs true p = .ok (l, e))
    (hold : Holds Q fs fs') (hwd : fs'.workingDirectory = fs.workingDirectory) :
    l = k ∧ fs.lookup k = some e ∧ find fs' true p = .ok (k, e) := by
  obtain ⟨kind, slash, hspot⟩ := h.exists_spot (usable_of_find hf)
  have hself := hspot fs (.refl Q fs) rfl rfl
  rw [find, Bool.true_or, hself] at hf
  cases hk : fs.lookup k with
  | none =>
    simp only [hk] at hf
    exact absurd hf (by simp)
  | some e' =>
    have hother := hspot fs' hold hwd (by rw [hk, hold k e' h.ends hk])
    rw [find, Bool.true_or, hother]
    simp only [hk] at hf ⊢
    split at hf
    · exact absurd hf (by simp)
    · rename_i hslash
      obtain ⟨rfl, rfl⟩ : k = l ∧ e' = e := by simpa using hf
      exact ⟨rfl, rfl, if_neg hslash⟩

/-- What was found at the end of a route is found again. -/
theorem findsAgain (h : Route fs Q p k) (hold : Holds Q fs fs')
    (hwd : fs'.workingDirectory = fs.workingDirectory) : FindsAgain fs fs' p := by
  rintro ⟨l, e⟩ hf
  obtain ⟨rfl, -, hfind⟩ := h.find_of_holds hf hold hwd
  exact hfind

/-- A route to a directory goes on with the pieces behind it. -/
theorem resolve_append (last : Bool) (h : Route fs Q p k) (hk : fs.isDirectoryAt k = true)
    (hq : Usable q) (habs : q.isAbsolute = p.isAbsolute) (hsteps : steps q = steps p ++ rest)
    (hrest : rest ≠ []) :
    ∃ links kind, resolve fs last q =
      followFrom fs last links q.endsWithSlash k kind rest := by
  obtain ⟨n, hn, hwalk⟩ := h.walk
  have hstart : fs.start q = fs.start p := by rw [FileSystem.start, FileSystem.start, habs]
  obtain ⟨kind, hfollow⟩ := hwalk.followFrom_append last q.endsWithSlash .root hk hrest hn
  refine ⟨linkLimit - n, kind, ?_⟩
  rw [resolve_of_usable hq (by rw [hstart]; exact h.directory), hstart, hsteps, hfollow]

end Route

end PluginManager.FileSystem
