import PluginManager.Proofs.FileSystem.WayDown
import PluginManager.Proofs.Install.Touch

/-!
# Copying to any path

A directory is copied to a path of any form that only goes down, over no link, to nothing or to a
directory with no link in it.

* `FreeOfLinks`: the paths in question.
* `overlaying_of_createDirectories`: with its directories made, such a path leads where its names
  lead.
* `laid_of_copyLevels`: **what copying lays** there.
-/

namespace PluginManager.FileSystem

variable {fs fs' fs₁ : FileSystem} {source destination : Path} {s l : Location} {levels mode : Nat}

/-- The path only goes down, over no link, to nothing or to a directory with no link in it. -/
structure FreeOfLinks (fs : FileSystem) (p : Path) : Prop where
  down : ".." ∉ steps p
  reached : NoLinks fs (fs.start p) p.way
  place : fs.lookup (fs.destination p) = none ∨ fs.isDirectoryAt (fs.destination p) = true
  links : LinkFree fs (fs.destination p)

section Paths

variable (hwf : fs.WellFormed) (hsource : find fs true source = .ok (s, .directory mode))
  (hfree : FreeOfLinks fs destination) (hapart : Apart s (fs.destination destination))

include hwf hsource hfree hapart

/-- With its directories made the path leads where its names lead. -/
theorem overlaying_of_createDirectories (hne : destination.text ≠ "")
    (h : createDirectories destination fs = .ok () fs₁) :
    Prepared fs destination fs₁ ∧
      Overlaying fs₁ source destination s (fs.destination destination) := by
  obtain ⟨k, mode', hfind⟩ := find_of_createDirectories hne h
  obtain ⟨spot, hres, rfl, -⟩ := find_eq_ok_iff.mp hfind
  rw [Bool.true_or] at hres
  have hplain : Plain fs destination := plain_of_arePlain (arePlain_of_resolve hfree.down hres)
  have hprepared := (Prepared.leaves_createDirectories hwf hplain .untouched).ok _ _ h
  have hguides := hprepared.guides
  have hstart := start_congr hguides.workingDirectory destination
  have hreaches := reaches_of_resolve hres
  rw [hstart] at hreaches
  have hat : spot.location = fs.destination destination := by
    have hd := isDirectoryAt_start_of_resolve hres
    rw [hstart] at hd
    obtain ⟨-, hat | ⟨target, hlink⟩⟩ :=
      hreaches.clear hfree.down hd (hprepared.noLinks hfree.reached)
    · exact hat
    · rcases hprepared.lookup_cases (fs.destination destination) with hsame | hmade
      · exact absurd (hsame.symm.trans hlink) (hfree.links.not_link target)
      · exact absurd (hmade.symm.trans hlink) (by simp)
  have hs := isDirectoryAt_of_lookup (lookup_of_find hsource)
  have hroute := route_of_find hfind
  have hd := isDirectoryAt_of_lookup (lookup_of_find hfind)
  rw [hat] at hroute hd
  exact ⟨hprepared, hprepared.wellFormed hwf, (route_of_find hsource).of_guides hguides hs,
    hguides.directory s hs, hroute, hd, hapart⟩

/-- **What copying lays**: the tree of the source over what is there. -/
theorem laid_of_copyLevels (h : copyLevels levels source destination fs = .ok () fs') :
    Site.Laid (fs.destination destination)
        ((fs.treeAt s).laidOn (fs.treeAt (fs.destination destination))) fs fs' ∧
      (fs.treeAt s).Agrees (fs.treeAt (fs.destination destination)) := by
  cases levels with
  | zero => exact absurd h copyLevels_zero_ne_ok
  | succ levels =>
    rw [copyLevels_succ] at h
    obtain ⟨_, fs₁, hcreate, hcontents⟩ := Task.bind_eq_ok.mp h
    have hne : destination.text ≠ "" := by
      obtain ⟨names, fs₂, mode', -, -, -, hset⟩ := copyContents_eq_ok.mp hcontents
      obtain ⟨k, e, hfind⟩ := exists_find_of_setMode hset
      exact (usable_of_find hfind).ne_empty
    obtain ⟨hprepared, h₁⟩ := overlaying_of_createDirectories hwf hsource hfree hapart hne
      (Task.forPath_eq_ok.mp hcreate)
    have hstays := (hprepared.staysOnWay hfree.down hfree.reached).changes
    have hbelow : ∀ r, r ≠ [] → fs₁.treeAt (fs.destination destination) r =
        fs.treeAt (fs.destination destination) r := by
      intro r hr
      refine hstays.lookup _ fun hl => hr ?_
      have hlength := hl.1.length_le
      rw [List.length_append] at hlength
      exact List.length_eq_zero_iff.mp (by omega)
    have hsame : fs₁.treeAt s = fs.treeAt s := funext fun r =>
      hstays.lookup _ fun hl => hapart.1 ((List.prefix_append s r).trans hl.1)
    have ho := overlaid_of_copyContents (overlays_copyLevels levels) h₁
      (hfree.links.of_made h₁.destinationAt hbelow) hcontents
    obtain ⟨htree, hagrees⟩ := ho.of_made (isDirectoryAt_of_lookup (lookup_of_find hsource)) hsame
      hbelow hfree.place
    refine ⟨⟨(hstays.mono fun _ => .inr).trans (ho.placed.changes.mono fun _ => .inl), htree,
      fun l hl hne hnone => ?_, ho.wellFormed h₁.wellFormed h₁.isPlace⟩, hagrees⟩
    rw [ho.placed.changes.lookup l fun h => hne (hl.eq_of_length_le h.length_le)]
    exact hprepared.lookup_of_directory hnone
      (h₁.wellFormed.isDirectoryAt_of_prefix h₁.destinationAt hl)

/-- **Copying lays the one tree over the other.**  Where it succeeds, the destination has at every
place what the source has there, and where that has nothing, what it had; its mode is that of the
source, what encloses it is there, and nothing else is different.  Where something in the two trees
is in the other's way, it fails as the file system does. -/
theorem copying_overlays :
    (∀ fs', copyDirectory source destination fs = .ok () fs' →
      Site.Laid (fs.destination destination)
          ((fs.treeAt s).laidOn (fs.treeAt (fs.destination destination))) fs fs' ∧
        fs'.lookup (fs.destination destination) = some (.directory mode) ∧ SameTree s fs fs') ∧
    ∀ r a b, fs.lookup (s ++ r) = some a → fs.lookup (fs.destination destination ++ r) = some b →
      a.clashes b = true →
      ∃ e fs', copyDirectory source destination fs = .error e fs' ∧ e.isFile = true := by
  refine ⟨fun fs' h => ?_, fun r a b ha hb hclash => ?_⟩
  · obtain ⟨hlaid, -⟩ := laid_of_copyLevels hwf hsource hfree hapart h
    refine ⟨hlaid, ?_, .of_changes (fun r hl => ?_) hlaid.changes⟩
    · have hroot := congrFun hlaid.tree []
      rwa [Tree.laidOn, treeAt, treeAt, List.append_nil, List.append_nil, lookup_of_find hsource,
        Option.some_or] at hroot
    · rcases hl with hin | ⟨habove, -⟩
      · exact (hapart.append r).2 hin
      · exact (hapart.append r).1 habove
  · cases h : copyDirectory source destination fs with
    | ok u fs' =>
      obtain ⟨-, hagrees⟩ := laid_of_copyLevels hwf hsource hfree hapart h
      exact absurd (hagrees r a b ha hb) (by simp [hclash])
    | error e fs' => exact ⟨e, fs', rfl, failsOnFiles_copyLevels pathLimit _ _ fs e fs' h⟩

end Paths

/-- No link at a location or below it, entry by entry. -/
theorem linkFree_of_entries
    (h : ∀ x ∈ fs.entries, isWithin l x.1 = true → x.2.isLink = false) : LinkFree fs l := by
  intro r target htarget
  have hne : l ++ r ≠ [] := by
    intro hnil
    rw [hnil] at htarget
    exact absurd htarget (by simp)
  rw [lookup_of_ne_nil hne] at htarget
  obtain ⟨before, after, hentries, -⟩ := List.lookup_eq_some_iff.mp htarget
  have hlink := h (l ++ r, .link target) (by simp [hentries])
    (isWithin_iff.mpr (List.prefix_append l r))
  exact absurd hlink (by simp [Entry.isLink])

/-- A directory behind a link, a directory to lay it over, and one that it cannot be laid over. -/
def shelf : FileSystem where
  entries :=
    [(["src"], .directory 0o750), (["src", "a"], .file 0o755 [1]),
      (["src", "sub"], .directory 0o700), (["src", "sub", "up"], .link ⟨"../a"⟩),
      (["k"], .link ⟨"src"⟩), (["out"], .directory 0o755), (["out", "a"], .file 0o644 [9]),
      (["out", "sub"], .directory 0o755), (["out", "sub", "kept"], .file 0o600 [7]),
      (["bad"], .directory 0o755), (["bad", "sub"], .file 0o644 [])]
  times := []
  clock := 0
  workingDirectory := []

theorem wellFormed_shelf : shelf.WellFormed :=
  wellFormed_of_keys (by decide +kernel) (by decide +kernel)

/-- A file is laid over a file, and a link into a directory where another entry stays; a directory
is not laid over a file. -/
theorem copying_overlays_shelf :
    (∃ fs', copyDirectory ⟨"k/."⟩ ⟨"./out/"⟩ shelf = .ok () fs' ∧
      fs'.lookup ["out"] = some (.directory 0o750) ∧
      fs'.lookup ["out", "a"] = some (.file 0o755 [1]) ∧
      fs'.lookup ["out", "sub", "up"] = some (.link ⟨"../a"⟩) ∧
      fs'.lookup ["out", "sub", "kept"] = some (.file 0o600 [7])) ∧
    ∃ e fs', copyDirectory ⟨"src"⟩ ⟨"bad"⟩ shelf = .error e fs' ∧ e.isFile = true := by
  have hsource : shelf.find true ⟨"k/."⟩ = .ok (["src"], .directory 0o750) := rfl
  have hout : FreeOfLinks shelf ⟨"./out/"⟩ := ⟨by decide +kernel,
    noLinks_of_inits (by decide +kernel), .inr rfl, linkFree_of_entries (by decide +kernel)⟩
  obtain ⟨fs', hcopy⟩ : ∃ fs', copyDirectory ⟨"k/."⟩ ⟨"./out/"⟩ shelf = .ok () fs' :=
    Task.exists_ok_of_run (by decide +kernel)
  obtain ⟨hlays, -⟩ := copying_overlays wellFormed_shelf hsource hout
    ⟨by decide +kernel, by decide +kernel⟩
  obtain ⟨hlaid, hmode, -⟩ := hlays _ hcopy
  have hsource' : shelf.find true ⟨"src"⟩ = .ok (["src"], .directory 0o750) := rfl
  have hbad : FreeOfLinks shelf ⟨"bad"⟩ := ⟨by decide +kernel,
    noLinks_of_inits (by decide +kernel), .inr rfl, linkFree_of_entries (by decide +kernel)⟩
  obtain ⟨-, hfails⟩ := copying_overlays wellFormed_shelf hsource' hbad
    ⟨by decide +kernel, by decide +kernel⟩
  exact ⟨⟨fs', hcopy, hmode, congrFun hlaid.tree ["a"], congrFun hlaid.tree ["sub", "up"],
    congrFun hlaid.tree ["sub", "kept"]⟩, hfails ["sub"] _ _ rfl rfl rfl⟩

end PluginManager.FileSystem
