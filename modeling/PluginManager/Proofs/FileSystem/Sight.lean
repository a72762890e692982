import PluginManager.FileSystem.Walk
import PluginManager.Proofs.FileSystem.Downward

/-!
# What a path shows

A directory can be reached in more ways than one, and it can be copied.  What a path shows behind it
is the same whichever of these directories it leads to.

* `Sight`: what is found by a path, wherever it is.
* `Parallel`: following comes to the same behind two locations.
* `parallel_followFrom`: so it does where the trees are the same and have no links.
* `Route.sight_join`: **the same is shown** behind two routes to one tree.
* `Walk.to_link`: a way down by names that ends at a link, and what the link leads to.
-/

namespace PluginManager.FileSystem

variable {fs fs' : FileSystem} {Q Q' : Location → Prop} {l k k' : Location} {p q target : Path}
  {pieces names r : List String} {n links links' : Nat} {slash : Bool} {kind kind' : LastPiece}
  {spot : Spot} {e : Entry}

/-! ## Sights -/

/-- What is found by a path: a directory with its names in order, a file, or nothing. -/
inductive Sight where
  | absent (cause : FileError)
  | directory (mode : Nat) (names : List String)
  | file (mode : Nat) (content : Bytes)
  deriving DecidableEq, Repr

/-- What is found by a path, all links being followed. -/
def sight (fs : FileSystem) (p : Path) : Sight :=
  match fs.find true p with
  | .error e => .absent e
  | .ok (l, .directory mode) => .directory mode (sortNames (fs.names l))
  | .ok (_, .file mode content) => .file mode content
  | .ok (_, .link _) => .absent .notFound

/-! ## Following in two places -/

/-- The same error, or spots at the same names behind `k` and `k'`. -/
inductive Parallel (fs : FileSystem) (k k' : Location) (slash : Bool) :
    Except FileError Spot → Except FileError Spot → Prop
  | fails (e : FileError) : Parallel fs k k' slash (.error e) (.error e)
  | arrives (r : List String) (kind kind' : LastPiece) : Parallel fs k k' slash
      (.ok ⟨k ++ r, fs.lookup (k ++ r), kind, slash⟩)
      (.ok ⟨k' ++ r, fs.lookup (k ++ r), kind', slash⟩)

/-- The names in a directory are those in its tree. -/
theorem sortNames_names_eq (hd : (fs.entries.map Prod.fst).Nodup)
    (hd' : (fs'.entries.map Prod.fst).Nodup) (htree : fs'.treeAt k' = fs.treeAt k)
    (r : List String) : sortNames (fs'.names (k' ++ r)) = sortNames (fs.names (k ++ r)) := by
  refine sortNames_congr (names_perm hd hd' fun name => ?_)
  rw [List.append_assoc, List.append_assoc]
  exact congrFun htree (r ++ [name])

section

variable (htree : fs'.treeAt k' = fs.treeAt k)
  (hno : ∀ r target, fs.lookup (k ++ r) ≠ some (.link target))

include htree hno

/-- **Where the trees are the same** and have no links, following comes to the same. -/
theorem parallel_followFrom (hdown : ".." ∉ pieces) : Parallel fs k k' slash
    (followFrom fs true links slash (k ++ r) kind pieces)
    (followFrom fs' true links' slash (k' ++ r) kind' pieces) := by
  have hsame : ∀ r, fs'.lookup (k' ++ r) = fs.lookup (k ++ r) := congrFun htree
  induction pieces generalizing r kind kind' with
  | nil =>
    rw [followFrom_nil, followFrom_nil, hsame]
    exact .arrives r kind kind'
  | cons piece rest ih =>
    rw [List.mem_cons, not_or] at hdown
    obtain ⟨hparent, hdown⟩ := hdown
    by_cases hcurrent : piece = "."
    · rw [hcurrent, followFrom_current, followFrom_current]
      exact ih hdown
    · by_cases hlong : nameLimit < piece.utf8ByteSize
      · rw [followFrom_tooLong hcurrent (Ne.symm hparent) hlong,
          followFrom_tooLong hcurrent (Ne.symm hparent) hlong]
        exact .fails .nameTooLong
      · have hp : IsLookedUp piece := ⟨hcurrent, Ne.symm hparent, Nat.not_lt.mp hlong⟩
        have hhere : fs'.lookup (k' ++ r ++ [piece]) = fs.lookup (k ++ r ++ [piece]) := by
          rw [List.append_assoc, List.append_assoc, hsame]
        have hlink : ∀ target, fs.lookup (k ++ r ++ [piece]) ≠ some (.link target) := by
          rw [List.append_assoc]
          exact hno (r ++ [piece])
        by_cases hrest : rest = []
        · subst hrest
          rw [followFrom_last true slash kind hp (.inr hlink),
            followFrom_last true slash kind' hp (.inr (hhere ▸ hlink)), hhere, List.append_assoc,
            List.append_assoc]
          exact .arrives (r ++ [piece]) .name .name
        · cases he : fs.lookup (k ++ r ++ [piece]) with
          | none =>
            rw [followFrom_missing true slash kind hp hrest he,
              followFrom_missing true slash kind' hp hrest (hhere.trans he)]
            exact .fails .notFound
          | some e =>
            cases e with
            | link target => exact absurd he (hlink target)
            | file mode content =>
              rw [followFrom_file true slash kind hp hrest he,
                followFrom_file true slash kind' hp hrest (hhere.trans he)]
              exact .fails .notDirectory
            | directory mode =>
              rw [followFrom_directory true slash kind hp he,
                followFrom_directory true slash kind' hp (hhere.trans he), List.append_assoc,
                List.append_assoc]
              exact ih hdown

/-- What is shown at spots that are parallel. -/
theorem sight_eq_of_parallel (hd : (fs.entries.map Prod.fst).Nodup)
    (hd' : (fs'.entries.map Prod.fst).Nodup)
    (h : Parallel fs k k' slash (resolve fs true p) (resolve fs' true p)) :
    fs'.sight p = fs.sight p := by
  rw [sight, sight, find, find, Bool.true_or]
  revert h
  generalize resolve fs true p = res
  generalize resolve fs' true p = res'
  intro h
  cases h with
  | fails e => rfl
  | arrives r kind kind' =>
    cases he : fs.lookup (k ++ r) with
    | none => rfl
    | some e =>
      cases e with
      | link target => exact absurd he (hno r target)
      | file mode content => cases slash <;> rfl
      | directory mode => simp [Entry.isDirectory, sortNames_names_eq hd hd' htree r]

end

/-! ## Behind a route -/

theorem text_ne_empty_of_join (hp : p.text ≠ "") (hq : q.isAbsolute = false) :
    (p.join q).text ≠ "" := by
  rw [Path.join_of_relative p hq]
  simp [hp]

/-- A path with the same steps is followed in the same way. -/
theorem Route.of_steps_eq (h : Route fs Q p k) (habs : q.isAbsolute = p.isAbsolute)
    (hsteps : steps q = steps p) : Route fs Q q k := by
  have hstart : fs.start q = fs.start p := by rw [FileSystem.start, FileSystem.start, habs]
  obtain ⟨n, hn, hwalk⟩ := h.walk
  exact ⟨hstart ▸ h.start, hstart ▸ h.directory, n, hn, by rw [hstart, hsteps]; exact hwalk⟩

/-- **Behind two routes to one tree** without links, the same is shown. -/
theorem Route.sight_join (h : Route fs Q p k) (h' : Route fs' Q' p k') (hp : p.text ≠ "")
    (hk : fs.isDirectoryAt k = true) (htree : fs'.treeAt k' = fs.treeAt k)
    (hno : ∀ r target, fs.lookup (k ++ r) ≠ some (.link target)) (hwf : fs.WellFormed)
    (hwf' : fs'.WellFormed) (hq : q.GoesDown) : fs'.sight (p.join q) = fs.sight (p.join q) := by
  have htop : fs'.lookup k' = fs.lookup k := by simpa [treeAt] using congrFun htree []
  have hk' : fs'.isDirectoryAt k' = true := by rwa [isDirectoryAt, htop]
  have habs := Path.isAbsolute_join p hq.relative
  have hsteps := steps_join p hq.relative
  by_cases hu : Usable (p.join q)
  · by_cases hrest : steps q = []
    · -- Nothing is followed behind the routes, so they lead to the directories themselves.
      obtain ⟨mode, hmode⟩ := isDirectoryAt_iff.mp hk
      rw [hrest, List.append_nil] at hsteps
      have hfind := (h.of_steps_eq habs hsteps).find_directory hu hmode
      have hfind' := (h'.of_steps_eq habs hsteps).find_directory hu (htop.trans hmode)
      have hnames := sortNames_names_eq hwf.distinct hwf'.distinct htree []
      rw [List.append_nil, List.append_nil] at hnames
      rw [sight, sight, hfind, hfind']
      simp only [hnames]
    · obtain ⟨links, kind, hres⟩ := h.resolve_append true hk hu habs hsteps hrest
      obtain ⟨links', kind', hres'⟩ := h'.resolve_append true hk' hu habs hsteps hrest
      have hparallel : Parallel fs k k' (p.join q).endsWithSlash
          (followFrom fs true links (p.join q).endsWithSlash (k ++ []) kind (steps q))
          (followFrom fs' true links' (p.join q).endsWithSlash (k' ++ []) kind' (steps q)) :=
        parallel_followFrom htree hno hq.no_parent
      rw [List.append_nil, List.append_nil, ← hres, ← hres'] at hparallel
      exact sight_eq_of_parallel htree hno hwf.distinct hwf'.distinct hparallel
  · obtain ⟨e, -, herror⟩ := resolve_of_not_usable (text_ne_empty_of_join hp hq.relative) hu
    rw [sight, sight, find, find, herror, herror]

/-! ## Links at the end -/

/-- Names that pass through directories and end at a link lead to what the link leads to. -/
theorem Walk.to_link (hnames : ∀ name ∈ names, IsName name)
    (hshort : ∀ name ∈ names, name.utf8ByteSize ≤ nameLimit) (hne : names ≠ [])
    (hclear : Clear fs k names) (hlink : fs.lookup (k ++ names) = some (.link target))
    (habs : target.isAbsolute = true) (h : Walk fs (fun _ => True) [] (steps target) l n) :
    Walk fs (fun _ => True) k names l (n + 1) := by
  induction names generalizing k with
  | nil => exact absurd rfl hne
  | cons name rest ih =>
    have hp : IsLookedUp name :=
      .of_isName (hnames name List.mem_cons_self) (hshort name List.mem_cons_self)
    by_cases hrest : rest = []
    · subst hrest
      refine .link hp trivial hlink ?_
      rwa [if_pos habs, List.append_nil]
    · have hd := hclear [name] (List.prefix_append [name] rest) (by simpa using Ne.symm hrest)
      obtain ⟨mode, hmode⟩ := isDirectoryAt_iff.mp hd
      rw [List.append_cons] at hlink
      exact .directory hp trivial hmode (ih (fun n hn => hnames n (List.mem_cons_of_mem name hn))
        (fun n hn => hshort n (List.mem_cons_of_mem name hn)) hrest hclear.tail hlink)

/-- **A link behind names is followed** when no other link is on the way, before it or after it. -/
theorem route_to_link (hstart : fs.isDirectoryAt (fs.start p) = true)
    (h : Walk fs Q (fs.start p) (steps p) k 0) (hk : fs.isDirectoryAt k = true)
    (hnames : ∀ name ∈ names, IsName name)
    (hshort : ∀ name ∈ names, name.utf8ByteSize ≤ nameLimit) (hne : names ≠ [])
    (hclear : Clear fs k names) (hlink : fs.lookup (k ++ names) = some (.link target))
    (habs : target.isAbsolute = true) (h' : Walk fs Q' [] (steps target) l 0) :
    Route fs (fun _ => True) (p.descend names) l := by
  have hdown : Walk fs (fun _ => True) k names l 1 :=
    .to_link hnames hshort hne hclear hlink habs (h'.mono fun _ _ => trivial)
  have hwalk := (h.mono fun _ _ => trivial).append hk hdown
  have hsame : fs.start (p.descend names) = fs.start p := by
    rw [FileSystem.start, FileSystem.start, Path.isAbsolute_descend p hnames]
  refine ⟨trivial, hsame ▸ hstart, 1, by decide, ?_⟩
  rw [hsame, Path.steps_descend p hnames]
  exact hwalk

end PluginManager.FileSystem
