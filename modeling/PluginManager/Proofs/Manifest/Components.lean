import PluginManager.Manifest.Read
import PluginManager.Proofs.FileSystem.Route

/-!
# Components of accepted manifests

What is known of every component of a manifest that was read.

* `Component.Sound`: its name is one name, its path is relative, and the path leads to a directory
  of the plugin.
* `Manifest.exists_of_read`: a manifest that is read has such components only.
* `Manifest.read_congr`: **what is read again** where the same is found.
-/

namespace PluginManager

theorem eq_ok_of_toOption {ε α : Type} {x : Except ε α} {a : α} (h : x.toOption = some a) :
    x = .ok a := by
  cases x with
  | error e => exact absurd h (by simp [Except.toOption])
  | ok b => exact congrArg Except.ok (Option.some.inj h)

/-! ## Last names -/

theorem isName_of_component?_eq {piece name : String} (hs : '/' ∉ piece.toList)
    (h : Path.component? piece = some (.normal name)) : IsName name := by
  rw [Path.component?] at h
  split at h
  · exact absurd h (by simp)
  · rename_i hsilent
    rw [Bool.or_eq_true, decide_eq_true_eq, decide_eq_true_eq, not_or] at hsilent
    split at h
    · exact absurd h (by simp)
    · rename_i hparent
      obtain rfl : piece = name := by simpa using h
      exact ⟨hsilent.1, hsilent.2, hparent, hs⟩

theorem isName_of_mem_components {p : Path} {name : String} (h : .normal name ∈ p.components) :
    IsName name := by
  have hbody : .normal name ∈ p.pieces.filterMap Path.component? := by
    rw [Path.components] at h
    split at h
    · simpa using h
    · split at h
      · simpa using h
      · exact h
  obtain ⟨piece, hpiece, hname⟩ := List.mem_filterMap.mp hbody
  exact isName_of_component?_eq (Text.not_mem_of_mem_splitText hpiece) hname

theorem eq_or_mem_of_lastName {found : Option String} {cs : List Path.Component} {name : String}
    (h : lastName found cs = .ok name) : found = some name ∨ .normal name ∈ cs := by
  induction cs generalizing found with
  | nil =>
    cases found with
    | none => exact absurd h (by simp [lastName])
    | some n =>
      left
      simpa [lastName] using h
  | cons c rest ih =>
    cases c with
    | root => cases found <;> exact absurd h (by simp [lastName])
    | parent => cases found <;> exact absurd h (by simp [lastName])
    | current =>
      rcases @ih found (by simpa [lastName] using h) with hf | hm
      · exact .inl hf
      · exact .inr (List.mem_cons_of_mem _ hm)
    | normal n =>
      right
      rcases @ih (some n) (by simpa [lastName] using h) with hf | hm
      · obtain rfl : n = name := by simpa using hf
        exact List.mem_cons_self
      · exact List.mem_cons_of_mem _ hm

theorem isName_of_lastName {p : Path} {name : String} (h : lastName none p.components = .ok name) :
    IsName name := by
  rcases eq_or_mem_of_lastName h with hf | hm
  · exact absurd hf (by simp)
  · exact isName_of_mem_components hm

theorem not_isAbsolute_of_lastName {p : Path} {name : String}
    (h : lastName none p.components = .ok name) : p.isAbsolute = false := by
  cases habs : p.isAbsolute with
  | false => rfl
  | true =>
    rw [Path.components, if_pos habs] at h
    exact absurd h (by simp [lastName])

/-! ## Components -/

/-- What reading a manifest promises of a component of the plugin at `root`. -/
structure Component.Sound (fs : FileSystem) (root : Location) (c : Component) : Prop where
  isName : IsName c.name
  relative : (Path.mk c.path).isAbsolute = false
  resolves : ∃ k mode, fs.find true (c.source (.ofLocation root)) = .ok (k, .directory mode) ∧
    FileSystem.isWithin root k = true

theorem Component.sound_of_ofListing {fs : FileSystem} {root : Location} {l : Manifest.Listing}
    {c : Component} (h : ofListing fs root l = .ok c) : c.Sound fs root := by
  rw [ofListing] at h
  split at h
  · exact absurd h (by simp)
  · split at h
    · exact absurd h (by simp)
    · rename_i name hname
      split at h
      · exact absurd h (by simp)
      · rename_i k entry hfind
        split at h
        · exact absurd h (by simp)
        · rename_i hwithin
          split at h
          · exact absurd h (by simp)
          · rename_i hdir
            obtain ⟨mode, rfl⟩ := FileSystem.exists_mode_of_isDirectory (by simpa using hdir)
            obtain rfl := Except.ok.inj h
            exact ⟨isName_of_lastName hname, not_isAbsolute_of_lastName hname, k, mode, hfind,
              by simpa using hwithin⟩

namespace Manifest

theorem sound_of_components {fs : FileSystem} {root : Location} {i : Nat} {ls : List Listing}
    {cs : List Component} (h : components fs root i ls = .ok cs) : ∀ c ∈ cs, c.Sound fs root := by
  induction ls generalizing i cs with
  | nil =>
    obtain rfl : [] = cs := by simpa [components] using h
    exact fun c hc => absurd hc (by simp)
  | cons l rest ih =>
    rw [components] at h
    split at h
    · exact absurd h (by simp)
    · rename_i c hc
      cases hrest : components fs root (i + 1) rest with
      | error e => rw [hrest] at h; exact absurd h (by simp [Except.map])
      | ok cs' =>
        rw [hrest] at h
        obtain rfl : c :: cs' = cs := by simpa [Except.map] using h
        intro d hd
        rcases List.mem_cons.mp hd with rfl | hd
        · exact Component.sound_of_ofListing hc
        · exact ih hrest d hd

theorem exists_of_ofDocument {fs : FileSystem} {root : Path} {document : Json} {m : Manifest}
    (h : ofDocument fs root document = .ok m) :
    Text.isBlankText m.author = false ∧
      ∃ r e, fs.find true root = .ok (r, e) ∧ ∀ c ∈ m.installs, c.Sound fs r := by
  rw [ofDocument] at h
  split at h
  · exact absurd h (by simp)
  · split at h
    · exact absurd h (by simp)
    · split at h
      · exact absurd h (by simp)
      · rename_i hauthor
        split at h
        · exact absurd h (by simp)
        · rename_i r e hfind
          split at h
          · exact absurd h (by simp)
          · rename_i installs hinstalls
            obtain rfl := Except.ok.inj h
            exact ⟨by simpa using hauthor, r, e, hfind, sound_of_components hinstalls⟩

/-- **A manifest that is read** has an author and sound components only. -/
theorem exists_of_read {fs : FileSystem} {root : Path} {m : Manifest} (h : read fs root = .ok m) :
    Text.isBlankText m.author = false ∧
      ∃ r e, fs.find true root = .ok (r, e) ∧ ∀ c ∈ m.installs, c.Sound fs r := by
  rw [read] at h
  split at h
  · exact absurd h (by simp)
  · exact exists_of_ofDocument h

/-- The name of a plugin is that in its manifest file. -/
theorem exists_file_of_read {fs : FileSystem} {root : Path} {m : Manifest}
    (h : read fs root = .ok m) : ∃ l mode bytes document draft,
      fs.find true (manifestPath root) = .ok (l, .file mode bytes) ∧
        Json.parse bytes = .ok document ∧ Draft.ofJson document = .ok draft ∧
        m.name = draft.name := by
  rw [read, readDocument, FileSystem.readFile] at h
  cases hfind : fs.find true (manifestPath root) with
  | error e => simp [hfind] at h
  | ok x =>
    obtain ⟨l, e⟩ := x
    cases e with
    | directory mode => simp [hfind] at h
    | link target => simp [hfind] at h
    | file mode bytes =>
      cases hparse : Json.parse bytes with
      | error e => simp [hfind, hparse] at h
      | ok document =>
        simp only [hfind, hparse, ofDocument] at h
        cases hdraft : Draft.ofJson document with
        | error e => simp [hdraft] at h
        | ok draft =>
          refine ⟨l, mode, bytes, document, draft, rfl, hparse, hdraft, ?_⟩
          simp only [hdraft] at h
          split at h
          · exact absurd h (by simp)
          · split at h
            · exact absurd h (by simp)
            · split at h
              · exact absurd h (by simp)
              · split at h
                · exact absurd h (by simp)
                · rw [← Except.ok.inj h]

/-! ## Reading again -/

variable {fs fs' : FileSystem}

theorem ofListing_congr {r : Location} {l : Listing} {c : Component}
    (h : Component.ofListing fs r l = .ok c)
    (hsource : fs.FindsAgain fs' (c.source (.ofLocation r))) :
    Component.ofListing fs' r l = .ok c := by
  rw [Component.ofListing] at h ⊢
  split at h
  · exact absurd h (by simp)
  · split at h
    · exact absurd h (by simp)
    · split at h
      · exact absurd h (by simp)
      · rename_i k entry hfind
        have hpath : c.path = l.path := by
          split at h
          · exact absurd h (by simp)
          · split at h
            · exact absurd h (by simp)
            · rw [← Except.ok.inj h]
        rw [Component.source, hpath] at hsource
        rw [hsource _ hfind]
        exact h

theorem readDocument_congr {root : Path} {document : Json}
    (h : readDocument fs root = .ok document)
    (hmanifest : fs.FindsAgain fs' (manifestPath root)) : readDocument fs' root = .ok document := by
  rw [readDocument, FileSystem.readFile] at h ⊢
  cases hfind : fs.find true (manifestPath root) with
  | error e =>
    rw [hfind] at h
    exact absurd h (by simp)
  | ok x =>
    rw [hfind] at h
    rw [hmanifest x hfind]
    exact h

theorem components_congr {r : Location} {i : Nat} {ls : List Listing} {cs : List Component}
    (h : components fs r i ls = .ok cs)
    (hsource : ∀ c ∈ cs, fs.FindsAgain fs' (c.source (.ofLocation r))) :
    components fs' r i ls = .ok cs := by
  induction ls generalizing i cs with
  | nil => exact h
  | cons l rest ih =>
    rw [components] at h ⊢
    split at h
    · exact absurd h (by simp)
    · rename_i c hc
      cases hrest : components fs r (i + 1) rest with
      | error e => rw [hrest] at h; exact absurd h (by simp [Except.map])
      | ok cs' =>
        rw [hrest] at h
        obtain rfl : c :: cs' = cs := by simpa [Except.map] using h
        rw [ofListing_congr hc (hsource c List.mem_cons_self)]
        simp only [ih hrest fun d hd => hsource d (List.mem_cons_of_mem c hd)]
        rfl

theorem ofDocument_congr {root : Path} {document : Json} {m : Manifest}
    (h : ofDocument fs root document = .ok m) (hroot : fs.FindsAgain fs' root)
    (hsource : ∀ r e, fs.find true root = .ok (r, e) →
      ∀ c ∈ m.installs, fs.FindsAgain fs' (c.source (.ofLocation r))) :
    ofDocument fs' root document = .ok m := by
  rw [ofDocument] at h ⊢
  split at h
  · exact absurd h (by simp)
  · split at h
    · exact absurd h (by simp)
    · rename_i hname
      split at h
      · exact absurd h (by simp)
      · rename_i hauthor
        split at h
        · exact absurd h (by simp)
        · rename_i r e hfind
          split at h
          · exact absurd h (by simp)
          · rename_i installs hinstalls
            obtain rfl := Except.ok.inj h
            simp only [if_neg hname, if_neg hauthor, hroot _ hfind,
              components_congr hinstalls (hsource r e hfind)]

/-- **A manifest is read again** where the same is found at the root, at the manifest and at the
components. -/
theorem read_congr {root : Path} {m : Manifest} (h : read fs root = .ok m)
    (hmanifest : fs.FindsAgain fs' (manifestPath root)) (hroot : fs.FindsAgain fs' root)
    (hsource : ∀ r e, fs.find true root = .ok (r, e) →
      ∀ c ∈ m.installs, fs.FindsAgain fs' (c.source (.ofLocation r))) :
    read fs' root = .ok m := by
  rw [read] at h ⊢
  split at h
  · exact absurd h (by simp)
  · rename_i document hdocument
    rw [readDocument_congr hdocument hmanifest]
    exact ofDocument_congr h hroot hsource

end Manifest

end PluginManager
