import PluginManager.Proofs.FileSystem.Footprint
import PluginManager.Proofs.FileSystem.Remove
import PluginManager.Proofs.FileSystem.Times
import PluginManager.Proofs.FileSystem.Written

/-!
# Files put in place of others

A file is written beside its place and then moved there.

* `Walk.restrict`, `Route.restrict`: the way to a directory is made of directories, and of the links
  that are followed.
* `fits_of_resolve_child`: a name that is looked up is short enough.
* `location_of_writable_child`, `exists_of_writeFile_child`: what writing a file in a directory
  does.
* `relocate`: a file moved to another place.  `rename_child`: **that is what renaming does** inside
  a directory, unless there is a directory in the way.
-/

namespace PluginManager.FileSystem

variable {fs fs' : FileSystem} {Q Q' : Location → Prop} {l k m : Location} {p : Path}
  {name target : String} {pieces : List String} {n : Nat} {last : Bool} {spot : Spot} {e : Entry}
  {content : Bytes}

theorem isDirectoryAt_eq_of_lookup (he : fs.lookup l = some e) :
    fs.isDirectoryAt l = e.isDirectory := by
  rw [isDirectoryAt, he, Option.any_some]

/-! ## The way to a directory -/

theorem Walk.restrict (h : Walk fs Q l pieces k n) (hk : fs.isDirectoryAt k = true)
    (hdir : ∀ m, fs.isDirectoryAt m = true → Q' m)
    (hlink : ∀ m target, LooksUp fs l pieces m → fs.lookup m = some (.link target) → Q' m) :
    Walk fs Q' l pieces k n := by
  induction h with
  | done _ => exact .done (hdir _ hk)
  | current _ ih => exact .current (ih hk fun m target hm => hlink m target (.current hm))
  | parent _ ih => exact .parent (ih hk fun m target hm => hlink m target (.parent hm))
  | directory hp _ he _ ih =>
    have hd := isDirectoryAt_of_lookup he
    exact .directory hp (hdir _ hd) he
      (ih hk fun m target hm => hlink m target (.directory hp hd hm))
  | file _ _ he => exact absurd (isDirectory_of_lookup hk he) Bool.false_ne_true
  | link hp _ he _ ih =>
    exact .link hp (hlink _ _ (.here hp) he) he
      (ih hk fun m target hm => hlink m target (.link hp he hm))

theorem Route.restrict (h : Route fs Q p k) (hk : fs.isDirectoryAt k = true)
    (hdir : ∀ m, fs.isDirectoryAt m = true → Q' m)
    (hlink : ∀ m target, LooksUp fs (fs.start p) (steps p) m →
      fs.lookup m = some (.link target) → Q' m) : Route fs Q' p k := by
  obtain ⟨n, hn, hwalk⟩ := h.walk
  exact ⟨hdir _ h.directory, h.directory, n, hn, hwalk.restrict hk hdir hlink⟩

/-! ## Names in a directory -/

section Child

variable (hroute : Route fs Q p k) (hk : fs.isDirectoryAt k = true) (hname : IsName name)

include hroute hk hname

theorem fits_of_resolve_child (h : resolve fs last (p.child name) = .ok spot) :
    Fits p [name] := by
  obtain ⟨links, kind, hfollow⟩ := hroute.resolve_append last hk (usable_of_resolve h)
    (Path.isAbsolute_child_eq p hname) (steps_child p hname) (List.cons_ne_nil name [])
  have hp := isLookedUp_of_followFrom hname.ne_current hname.ne_parent (hfollow.symm.trans h)
  exact ⟨usable_of_resolve h, by simpa using hp.short⟩

/-- Names that fit lead to what is in the directory. -/
theorem resolve_child (hfits : Fits p [name])
    (hlast : last = false ∨ ∀ target, fs.lookup (k ++ [name]) ≠ some (.link target)) :
    resolve fs last (p.child name) = .ok ⟨k ++ [name], fs.lookup (k ++ [name]), .name, false⟩ := by
  have hnames : ∀ n ∈ [name], IsName n := by simpa using hname
  have hres := hroute.resolve_descend hk hnames (List.cons_ne_nil name [])
    (clear_singleton hk name) hfits hlast
  exact hres

theorem find_of_child (hfits : Fits p [name]) (he : fs.lookup (k ++ [name]) = some e)
    (hlast : last = false ∨ e.isLink = false) :
    find fs last (p.child name) = .ok (k ++ [name], e) := by
  have hnames : ∀ n ∈ [name], IsName n := by simpa using hname
  have hfind := hroute.find_descend hk hnames (List.cons_ne_nil name []) (clear_singleton hk name)
    hfits he hlast
  exact hfind

/-- What is found of a name is what is there. -/
theorem lookup_of_find_child (h : find fs false (p.child name) = .ok (l, e)) :
    Fits p [name] ∧ l = k ++ [name] ∧ fs.lookup (k ++ [name]) = some e := by
  have hnames : ∀ n ∈ [name], IsName n := by simpa using hname
  obtain ⟨hfits, he⟩ := hroute.fits_of_find hk hnames (List.cons_ne_nil name [])
    (clear_singleton hk name) (.inl rfl) h
  have hfind := find_of_child hroute hk hname hfits he (.inl rfl : false = false ∨ _)
  obtain ⟨rfl, -⟩ := Prod.mk.inj (Except.ok.inj (hfind.symm.trans h))
  exact ⟨hfits, rfl, he⟩

theorem removeFile_child (hfits : Fits p [name]) (he : fs.lookup (k ++ [name]) = some e)
    (hd : e.isDirectory = false) :
    removeFile fs (p.child name) = .ok (fs.erase (k ++ [name])) := by
  have hnames : ∀ n ∈ [name], IsName n := by simpa using hname
  have hremove := removeFile_descend hroute hk hnames (List.cons_ne_nil name [])
    (clear_singleton hk name) hfits he hd
  exact hremove

/-- What can be written in a directory is the name's own file, if the name is not that of a link. -/
theorem location_of_writable_child {existing : Option Nat}
    (hlink : Fits p [name] → ∀ target, fs.lookup (k ++ [name]) ≠ some (.link target))
    (h : writable fs (p.child name) = .ok (l, existing)) :
    Fits p [name] ∧ l = k ++ [name] ∧
      ∀ e, fs.lookup (k ++ [name]) = some e → e.isFile = true := by
  obtain ⟨spot, hres, -, -, rfl, hfile⟩ := writable_eq_ok h
  have hfits := fits_of_resolve_child hroute hk hname hres
  obtain ⟨-, -, rfl⟩ := hroute.clear_of_resolve hk (by simpa using hname)
    (List.cons_ne_nil name []) (clear_singleton hk name).noLinks (.inr (hlink hfits)) hres
  exact ⟨hfits, rfl, hfile⟩

/-- **What writing a file does** in a directory, if the name is not that of a link. -/
theorem exists_of_writeFile_child
    (hlink : Fits p [name] → ∀ target, fs.lookup (k ++ [name]) ≠ some (.link target))
    (h : writeFile fs (p.child name) content = .ok fs') :
    Fits p [name] ∧ (∀ e, fs.lookup (k ++ [name]) = some e → e.isFile = true) ∧
      ∃ mode, fs' = fs.setContent (k ++ [name]) mode content := by
  rw [writeFile] at h
  cases hw : writable fs (p.child name) with
  | error cause => simp [hw, Except.map] at h
  | ok x =>
    obtain ⟨l, existing⟩ := x
    obtain ⟨hfits, rfl, hfile⟩ := location_of_writable_child hroute hk hname hlink hw
    rw [hw] at h
    exact ⟨hfits, hfile, _, (Except.ok.inj h).symm⟩

end Child

/-! ## Moving -/

/-- The file system with the entry `e`, which is at `l`, at `m`. -/
def relocate (fs : FileSystem) (l m : Location) (e : Entry) : FileSystem :=
  ((fs.erase l).insert m e).touchAt m (fs.time l)

theorem lookup_relocate (hl : l ≠ []) (hm : m ≠ []) (e : Entry) (k : Location) :
    (fs.relocate l m e).lookup k =
      if k = m then some e else if isWithin l k then none else fs.lookup k := by
  rw [relocate, lookup_touchAt, lookup_insert _ hm, lookup_erase fs hl]

theorem staysIn_relocate (hl : l ≠ []) (hm : m ≠ []) (e : Entry)
    (hbelow : ∀ r, r ≠ [] → fs.lookup (l ++ r) = none) :
    StaysIn (fun k => k = l ∨ k = m) fs (fs.relocate l m e) :=
  ((staysIn_erase_leaf hl hbelow).mono fun _ => .inl).trans
    (((staysIn_insert _ hm e).trans (staysIn_touchAt _ m _)).mono fun _ => .inr)

theorem wellFormed_touchAt (hwf : fs.WellFormed) (l : Location) (time : Int) :
    (fs.touchAt l time).WellFormed := by
  refine ⟨fun k n hk => ?_, fun k n hk => ?_, hwf.distinct⟩
  · rw [lookup_touchAt] at hk
    exact hwf.name k n hk
  · rw [lookup_touchAt] at hk
    rw [isDirectoryAt, lookup_touchAt]
    exact hwf.parent k n hk

theorem wellFormed_erase (hwf : fs.WellFormed) (hl : l ≠ []) : (fs.erase l).WellFormed := by
  obtain ⟨init, name, rfl⟩ := (List.eq_nil_or_concat l).resolve_left hl
  rw [List.concat_eq_append] at hl ⊢
  exact (placed_erase hl).wellFormed hwf Tree.wellFormed_empty fun h => absurd rfl h

theorem wellFormed_insert_leaf (hwf : fs.WellFormed) (hl : IsPlace fs l)
    (hno : fs.isDirectoryAt l = false) (e : Entry) : (fs.insert l e).WellFormed := by
  obtain ⟨init, name, rfl, hname, hd⟩ := hl
  exact (placed_insert append_singleton_ne_nil
    (fun r hr => hwf.lookup_append_eq_none hr hno) e).wellFormed hwf (Tree.wellFormed_leaf e)
    fun _ => ⟨hname, hd⟩

section Rename

variable {a b : String} (hroute : Route fs Q p k) (hk : fs.isDirectoryAt k = true)

/-- What stands beside a file is there without it. -/
theorem lookup_erase_child (hab : a ≠ b) (r : List String) :
    (fs.erase (k ++ [a])).lookup (k ++ b :: r) = fs.lookup (k ++ b :: r) := by
  rw [lookup_erase fs append_singleton_ne_nil, if_neg]
  rw [isWithin_iff, List.prefix_append_right_inj]
  exact fun h => hab (List.cons_prefix_cons.mp h).1

theorem wellFormed_relocate (hwf : fs.WellFormed) (hk : fs.isDirectoryAt k = true)
    (hb : IsName b) (hab : a ≠ b) (hno : fs.isDirectoryAt (k ++ [b]) = false) (e : Entry) :
    (fs.relocate (k ++ [a]) (k ++ [b]) e).WellFormed := by
  have hd : (fs.erase (k ++ [a])).isDirectoryAt k = true := by
    rw [isDirectoryAt, lookup_erase fs append_singleton_ne_nil, if_neg, ← isDirectoryAt, hk]
    rw [isWithin_iff]
    exact fun h => absurd h.length_le (by simp)
  have hfree : (fs.erase (k ++ [a])).isDirectoryAt (k ++ [b]) = false := by
    rw [isDirectoryAt, lookup_erase_child hab, ← isDirectoryAt, hno]
  exact wellFormed_touchAt (wellFormed_insert_leaf (wellFormed_erase hwf append_singleton_ne_nil)
    ⟨k, b, rfl, hb, hd⟩ hfree e) _ _

include hroute hk

/-- **What renaming does** in a directory. -/
theorem rename_child (ha : IsName a) (hb : IsName b) (hab : a ≠ b) (hfa : Fits p [a])
    (hfb : Fits p [b]) (he : fs.lookup (k ++ [a]) = some e) (hnd : e.isDirectory = false) :
    fs.rename (p.child a) (p.child b) =
      if fs.isDirectoryAt (k ++ [b]) then .error .isDirectory
      else .ok (fs.relocate (k ++ [a]) (k ++ [b]) e) := by
  have hother : k ++ [a] ≠ k ++ [b] := by simpa using hab
  rw [rename, resolve_child hroute hk ha hfa (.inl rfl), he,
    resolve_child hroute hk hb hfb (.inl rfl)]
  cases hd : fs.isDirectoryAt (k ++ [b]) with
  | true =>
    have hany : (fs.lookup (k ++ [b])).any Entry.isDirectory = true := hd
    cases e with
    | directory mode => exact absurd hnd (by simp [Entry.isDirectory])
    | file mode content => simp [hany]
    | link target => simp [hany]
  | false =>
    have hany : (fs.lookup (k ++ [b])).any Entry.isDirectory = false := hd
    cases e with
    | directory mode => exact absurd hnd (by simp [Entry.isDirectory])
    | file mode content => simp [hany, hother, relocate]
    | link target => simp [hany, hother, relocate]

end Rename

end PluginManager.FileSystem
