import PluginManager.Proofs.FileSystem.Frame

/-!
# When files were written

A change has its times where it has its entries.

* `StaysIn`: neither entries nor their times differ away from some locations.  `SameAt`: they do
  not differ at one.
* `staysIn_insert`, `staysIn_touchAt`, `staysIn_erase`, `staysIn_eraseBelow`: the changes there are.
* `staysIn_erase_leaf`: taking away an entry with nothing below it.
-/

namespace PluginManager.FileSystem

variable {fs fs' fs'' : FileSystem} {l k : Location} {P P' : Location → Prop}

/-- The two file systems differ at locations in `P` at most, in entries and in when they were
written. -/
structure StaysIn (P : Location → Prop) (fs fs' : FileSystem) : Prop where
  changes : ChangesOnly P fs fs'
  clock : fs'.clock = fs.clock
  time : ∀ l, ¬ P l → fs.lookup l ≠ none → fs'.time l = fs.time l

namespace StaysIn

theorem refl (P : Location → Prop) (fs : FileSystem) : StaysIn P fs fs :=
  ⟨.refl P fs, rfl, fun _ _ _ => rfl⟩

theorem trans (h : StaysIn P fs fs') (h' : StaysIn P fs' fs'') : StaysIn P fs fs'' := by
  refine ⟨h.changes.trans h'.changes, h'.clock.trans h.clock, fun l hl hne => ?_⟩
  rw [h'.time l hl (by rwa [h.changes.lookup l hl]), h.time l hl hne]

theorem mono (h : StaysIn P fs fs') (hP : ∀ l, P l → P' l) : StaysIn P' fs fs' :=
  ⟨h.changes.mono hP, h.clock, fun l hl => h.time l (mt (hP l) hl)⟩

end StaysIn

/-- The two file systems have the same there, written at the same time. -/
structure SameAt (fs fs' : FileSystem) (l : Location) : Prop where
  lookup : fs'.lookup l = fs.lookup l
  time : fs.lookup l ≠ none → fs'.time l = fs.time l

theorem SameAt.trans (h : SameAt fs fs' l) (h' : SameAt fs' fs'' l) : SameAt fs fs'' l :=
  ⟨h'.lookup.trans h.lookup, fun hne => (h'.time (by rwa [h.lookup])).trans (h.time hne)⟩

theorem StaysIn.sameAt (h : StaysIn P fs fs') (hl : ¬ P l) : SameAt fs fs' l :=
  ⟨h.changes.lookup l hl, h.time l hl⟩

/-! ## Changes -/

theorem staysIn_insert (fs : FileSystem) (hl : l ≠ []) (e : Entry) :
    StaysIn (· = l) fs (fs.insert l e) :=
  ⟨changesOnly_insert fs hl e, rfl, fun _ _ _ => rfl⟩

theorem staysIn_touchAt (fs : FileSystem) (l : Location) (time : Int) :
    StaysIn (· = l) fs (fs.touchAt l time) := by
  refine ⟨changesOnly_touchAt fs l time _, rfl, fun k hk _ => ?_⟩
  have hother : (k == l) = false := beq_false_of_ne hk
  rw [FileSystem.time, FileSystem.time]
  show (List.lookup k ((l, time) :: fs.times.filter fun x => x.1 ≠ l)).getD fs.clock = _
  rw [List.lookup_cons, hother, lookup_filter_key (fun x => decide (x ≠ l)),
    if_pos (decide_eq_true hk)]

theorem staysIn_filter (p : Location → Bool)
    (hentries : fs'.entries = fs.entries.filter fun x => p x.1)
    (htimes : fs'.times = fs.times.filter fun x => p x.1) (hp : ∀ l, p l = false → P l)
    (hwd : fs'.workingDirectory = fs.workingDirectory) (hclock : fs'.clock = fs.clock) :
    StaysIn P fs fs' := by
  refine ⟨changesOnly_filter p hentries hp hwd, hclock, fun l hl _ => ?_⟩
  have hkept : p l = true := by
    cases hpl : p l with
    | true => rfl
    | false => exact absurd (hp l hpl) hl
  rw [time, time, htimes, lookup_filter_key, if_pos hkept, hclock]

theorem staysIn_erase (fs : FileSystem) (l : Location) : StaysIn (l <+: ·) fs (fs.erase l) :=
  staysIn_filter (fun k => !isWithin l k) rfl rfl
    (fun k hk => isWithin_iff.mp (by simpa using hk)) rfl rfl

theorem staysIn_eraseBelow (fs : FileSystem) (l : Location) :
    StaysIn (l <+: ·) fs (fs.eraseBelow l) := by
  refine staysIn_filter (fun k => !isWithin l k || k = l) rfl rfl (fun k hk => ?_) rfl rfl
  rw [Bool.or_eq_false_iff, Bool.not_eq_false'] at hk
  exact isWithin_iff.mp hk.1

/-- With nothing below it an entry is all that is taken away. -/
theorem staysIn_erase_leaf (hl : l ≠ []) (hbelow : ∀ r, r ≠ [] → fs.lookup (l ++ r) = none) :
    StaysIn (· = l) fs (fs.erase l) := by
  have herase := staysIn_erase fs l
  have hnone : ∀ k, l <+: k → k ≠ l → fs.lookup k = none := by
    rintro k ⟨r, rfl⟩ hne
    exact hbelow r fun hr => hne (by rw [hr, List.append_nil])
  refine ⟨⟨fun k hk => ?_, fun k hk => ?_, herase.changes.workingDirectory,
    herase.changes.distinct⟩, herase.clock, fun k hk hne => ?_⟩
  · by_cases hp : l <+: k
    · rw [lookup_erase_of_within hl hp, hnone k hp hk]
    · exact herase.changes.lookup k hp
  · by_cases hp : l <+: k
    · -- Nothing is listed in what is gone, and nothing was before.
      have hbefore : fs.names k = [] := by
        rw [List.eq_nil_iff_forall_not_mem]
        intro name hname
        refine mem_names.mp hname (hnone _ (hp.trans (List.prefix_append k [name])) fun heq => ?_)
        exact hk name heq
      have hafter : (fs.erase l).names k = [] := by
        rw [List.eq_nil_iff_forall_not_mem]
        intro name hname
        exact mem_names.mp hname
          (lookup_erase_of_within hl (hp.trans (List.prefix_append k [name])))
      rw [hbefore, hafter]
    · refine herase.changes.names k fun name hname => ?_
      rcases List.prefix_concat_iff.mp hname with heq | hp'
      · exact hk name heq.symm
      · exact hp hp'
  · refine herase.time k (fun hp => ?_) hne
    exact hne (hnone k hp hk)

end PluginManager.FileSystem
