import PluginManager.Proofs.FileSystem.Downward
import PluginManager.Proofs.FileSystem.Footprint
import PluginManager.Proofs.Path.Absolute

/-!
# Spellings of a path

Two paths that lead to one directory are as good as each other, except for how many links are left
to follow behind them.

* `Fails.or_exhausts`: with another number of links the same goes wrong, or there are too many.
* `Rooted.find_join`: **behind two paths to a directory** the same is found, unless one of the two
  ways has too many links.
-/

namespace PluginManager.FileSystem

variable {fs : FileSystem} {l k : Location} {p p' q : Path} {pieces : List String}
  {links n n' : Nat} {last slash : Bool} {kind : LastPiece} {e : FileError}

/-! ## Links to go -/

theorem Fails.or_exhausts (h : Fails fs last links l pieces e) (he : e ≠ .tooManyLinks)
    (links' : Nat) : Fails fs last links' l pieces e ∨ Exhausts fs last links' l pieces := by
  induction h generalizing links' with
  | current _ ih => exact (ih he links').imp .current .current
  | parent _ ih => exact (ih he links').imp .parent .parent
  | directory hp hd _ ih => exact (ih he links').imp (.directory hp hd) (.directory hp hd)
  | tooLong hcurrent hparent hlong => exact .inl (.tooLong hcurrent hparent hlong)
  | missing hp hrest hnone => exact .inl (.missing hp hrest hnone)
  | file hp hrest hfile => exact .inl (.file hp hrest hfile)
  | stop => exact absurd rfl he
  | link hp hlink hgo _ ih =>
    cases links' with
    | zero => exact .inr (.stop hp hlink hgo)
    | succ links' => exact (ih he links').imp (.link hp hlink hgo) (.link hp hlink hgo)

/-- The number of links to go only matters where there are too many. -/
theorem followFrom_links (fs : FileSystem) (last slash : Bool) (l : Location) (kind : LastPiece)
    (pieces : List String) (links links' : Nat) :
    followFrom fs last links' slash l kind pieces = followFrom fs last links slash l kind pieces ∨
      followFrom fs last links slash l kind pieces = .error .tooManyLinks ∨
      followFrom fs last links' slash l kind pieces = .error .tooManyLinks := by
  cases h : followFrom fs last links slash l kind pieces with
  | ok spot =>
    rcases (reaches_of_followFrom h).or_exhausts links' with hreaches | hexhausts
    · exact .inl hreaches.followFrom_eq
    · exact .inr (.inr (hexhausts.followFrom_eq slash kind))
  | error e =>
    by_cases he : e = .tooManyLinks
    · exact .inr (.inl (by rw [he]))
    · rcases (fails_of_followFrom h).or_exhausts he links' with hfails | hexhausts
      · exact .inl (hfails.followFrom_eq slash kind)
      · exact .inr (.inr (hexhausts.followFrom_eq slash kind))

/-! ## Behind a directory -/

theorem exists_rooted_of_find {e : Entry} (h : find fs true p = .ok (k, e))
    (hk : fs.isDirectoryAt k = true) : ∃ n, Rooted fs p k n := by
  obtain ⟨mode, hmode⟩ := isDirectoryAt_iff.mp hk
  obtain rfl := Option.some.inj (hmode.symm.trans (lookup_of_find h))
  exact (route_of_find h).exists_rooted hk

/-- What stands behind a path is followed from where it leads, with the links that are left. -/
theorem Rooted.resolve_join (h : Rooted fs p k n) (hq : q.isAbsolute = false) (hne : steps q ≠ [])
    (hu : Usable (p.join q)) (last : Bool) :
    resolve fs last (p.join q) =
      followFrom fs last (linkLimit - n) q.endsWithSlash k .root (steps q) := by
  rw [h.resolve_append last hu (Path.isAbsolute_join p hq) (steps_join p hq) hne,
    Path.endsWithSlash_join p (Path.text_ne_empty_of_steps hne)]

theorem Usable.join (hp : Usable p) (hq : q.isAbsolute = false) (hnul : hasNul q = false)
    (hne : steps q ≠ []) (hshort : (p.join q).text.utf8ByteSize < pathLimit) :
    Usable (p.join q) := by
  refine ⟨?_, Path.text_ne_empty_of_steps ?_, hshort⟩
  · rw [hasNul_join p hq, hp.no_nul, hnul, Bool.or_false]
  · rw [steps_join p hq]
    simp [hne]

theorem find_of_hasNul (fs : FileSystem) (last : Bool) (h : hasNul p = true) :
    find fs last p = .error .nulByte := by
  rw [find, resolve, if_pos h]

/-- **Behind two paths to a directory** the same is found, unless there are too many links on one of
the two ways; there can be too many on one only if it has another number of links. -/
theorem Rooted.find_join (h : Rooted fs p k n) (h' : Rooted fs p' k n') (hp : Usable p)
    (hp' : Usable p') (hq : q.isAbsolute = false) (hne : steps q ≠ [])
    (hshort : (p.join q).text.utf8ByteSize < pathLimit)
    (hshort' : (p'.join q).text.utf8ByteSize < pathLimit) :
    find fs true (p'.join q) = find fs true (p.join q) ∨
      n ≠ n' ∧ (find fs true (p.join q) = .error .tooManyLinks ∨
        find fs true (p'.join q) = .error .tooManyLinks) := by
  by_cases hnul : hasNul q = true
  · have hnuls : ∀ r : Path, hasNul (r.join q) = true := fun r => by
      rw [hasNul_join r hq, hnul, Bool.or_true]
    exact .inl (by rw [find_of_hasNul fs true (hnuls p), find_of_hasNul fs true (hnuls p')])
  · rw [Bool.not_eq_true] at hnul
    have hres := h.resolve_join hq hne (hp.join hq hnul hne hshort) true
    have hres' := h'.resolve_join hq hne (hp'.join hq hnul hne hshort') true
    rw [find, find, Bool.true_or, Bool.true_or, hres, hres']
    by_cases hn : n = n'
    · rw [hn]
      exact .inl rfl
    · rcases followFrom_links fs true q.endsWithSlash k .root (steps q) (linkLimit - n)
        (linkLimit - n') with heq | hmany | hmany
      · exact .inl (by rw [heq])
      · exact .inr ⟨hn, .inl (by rw [hmany])⟩
      · exact .inr ⟨hn, .inr (by rw [hmany])⟩

end PluginManager.FileSystem
