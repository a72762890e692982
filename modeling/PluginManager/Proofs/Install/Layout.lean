import Mathlib.Data.List.Infix
import PluginManager.Proofs.FileSystem.WayDown
import PluginManager.Proofs.Install.Again
import PluginManager.Proofs.Install.Confinement
import PluginManager.Proofs.Install.Touch

/-!
# A plugin and its target repositories

Where all the components of a plugin come from and where they go.

* `Layout`: a plugin and the roots of its targets, as paths and as locations.
* `Layout.Confined`: **what an install has to be confined by**.  The author is one name, plugin and
  target roots lie apart, no link is on the way down from a target root, and no path that is
  followed goes through a destination.
* `Layout.Direct`: the part of it that is about the ways down alone.
* `Layout.Keeps`, `Layout.Spares`: all that happened lies at the destinations, except for
  directories above them.
* `Approachable.of_keeps`, `Settled.of_spares`: a layout that is direct or confined stays so.
* `Approachable.approach`, `Settled.ready`: each component can be put in its place.
-/

namespace PluginManager

open FileSystem

/-- The roots of the targets and the components are given twice, by path and by location. -/
structure Layout where
  root : Location
  manifest : Manifest
  target : Role → Path
  place : Role → Location
  origin : Component → Location

namespace Layout

variable {L : Layout} {fs fs' fs'' : FileSystem} {l : Location} {c d : Component}
  {ds : List Location}

def components (L : Layout) : List Component := L.manifest.installs

/-- The component by its path. -/
def source (L : Layout) (c : Component) : Path := c.source (.ofLocation L.root)

def names (L : Layout) (c : Component) : List String :=
  c.role.outputNames L.manifest.author c.name

def destination (L : Layout) (c : Component) : Location := L.place c.role ++ L.names c

def action (L : Layout) (c : Component) : Action :=
  Session.actionFor (.ofLocation L.root) L.manifest.author (L.target c.role) c

def site (L : Layout) (c : Component) : Site :=
  ⟨L.target c.role, L.place c.role, L.names c, L.source c, L.origin c⟩

/-- Neither at a destination nor below one. -/
def Off (L : Layout) (l : Location) : Prop := ∀ c ∈ L.components, ¬ L.destination c <+: l

/-- Above a destination. -/
def Encloses (L : Layout) (l : Location) : Prop :=
  ∃ c ∈ L.components, l <+: L.destination c ∧ l ≠ L.destination c

/-- What an install has to be confined by. -/
structure Confined (L : Layout) (fs : FileSystem) : Prop where
  author : IsName L.manifest.author
  root : fs.isDirectoryAt L.root = true
  target : ∀ c ∈ L.components, Route fs L.Off (L.target c.role) (L.place c.role)
  place : ∀ c ∈ L.components, fs.isDirectoryAt (L.place c.role) = true
  source : ∀ c ∈ L.components, Route fs L.Off (L.source c) (L.origin c)
  apart : ∀ c ∈ L.components, Apart L.root (L.place c.role)
  places : ∀ c ∈ L.components, ∀ d ∈ L.components,
    L.place c.role = L.place d.role ∨ Apart (L.place c.role) (L.place d.role)
  noLinks : ∀ c ∈ L.components, NoLinks fs (L.place c.role) (L.names c)

/-- What the ways down to the destinations have to be like for an action to keep to its own.  The
author is one name, the target roots are followed past the destinations, no link is on the way down
from them, and no destination lies inside another. -/
structure Direct (L : Layout) (fs : FileSystem) : Prop where
  author : IsName L.manifest.author
  target : ∀ c ∈ L.components, Route fs L.Off (L.target c.role) (L.place c.role)
  place : ∀ c ∈ L.components, fs.isDirectoryAt (L.place c.role) = true
  noLinks : ∀ c ∈ L.components, NoLinks fs (L.place c.role) (L.names c)
  destinations : ∀ c ∈ L.components, ∀ d ∈ L.components,
    L.destination c = L.destination d ∨ Apart (L.destination c) (L.destination d)

/-- Direct, with what reading the manifest has shown. -/
structure Approachable (L : Layout) (fs : FileSystem) : Prop extends L.Direct fs where
  wellFormed : fs.WellFormed
  isName : ∀ c ∈ L.components, IsName c.name

/-- Confined, with what reading the manifest has shown. -/
structure Settled (L : Layout) (fs : FileSystem) : Prop extends L.Confined fs where
  wellFormed : fs.WellFormed
  isName : ∀ c ∈ L.components, IsName c.name
  within : ∀ c ∈ L.components, L.root <+: L.origin c
  origin : ∀ c ∈ L.components, fs.isDirectoryAt (L.origin c) = true

/-! ## Destinations -/

/-- Two components land at one place or apart from each other. -/
theorem Confined.destinations (h : L.Confined fs) (hc : c ∈ L.components) (hd : d ∈ L.components) :
    L.destination c = L.destination d ∨ Apart (L.destination c) (L.destination d) := by
  rcases h.places c hc d hd with hplace | hapart
  · by_cases heq : L.names c = L.names d
    · left
      rw [destination, destination, hplace, heq]
    · right
      rw [destination, destination, hplace]
      constructor
      · intro hp
        exact heq (Role.eq_of_prefix_outputNames ((List.prefix_append_right_inj _).mp hp))
      · intro hp
        exact heq (Role.eq_of_prefix_outputNames ((List.prefix_append_right_inj _).mp hp)).symm
  · exact .inr (hapart.append_append _ _)

theorem Confined.direct (h : L.Confined fs) : L.Direct fs :=
  ⟨h.author, h.target, h.place, h.noLinks, fun _ hc _ hd => h.destinations hc hd⟩

theorem Settled.approachable (h : L.Settled fs) : L.Approachable fs :=
  ⟨h.toConfined.direct, h.wellFormed, h.isName⟩

theorem Direct.off_of_encloses (h : L.Direct fs) (hl : L.Encloses l) : L.Off l := by
  obtain ⟨c, hc, hle, hne⟩ := hl
  intro d hd hdl
  rcases h.destinations c hc d hd with heq | hapart
  · rw [heq] at hle hne
    exact hne (hle.eq_of_length_le hdl.length_le)
  · exact hapart.2 (hdl.trans hle)

theorem Off.of_prefix {k : Location} (h : L.Off k) (hl : l <+: k) : L.Off l :=
  fun c hc hcl => h c hc (hcl.trans hl)

theorem Confined.off_root (h : L.Confined fs) : L.Off L.root := by
  intro c hc hroot
  exact (h.apart c hc).2 ((List.prefix_append _ (L.names c)).trans hroot)

theorem encloses_of_prefix {pre : List String} (hc : c ∈ L.components) (hpre : pre <+: L.names c)
    (hne : pre ≠ L.names c) : L.Encloses (L.place c.role ++ pre) :=
  ⟨c, hc, (List.prefix_append_right_inj _).mpr hpre, fun heq => hne (List.append_cancel_left heq)⟩

theorem Confined.apart_destination (h : L.Confined fs) (hc : c ∈ L.components) (r : Location) :
    Apart (L.root ++ r) (L.destination c) := (h.apart c hc).append_append r (L.names c)

/-! ## The root of the plugin -/

/-- A canonical path that leads somewhere leads to its location, past nothing but what encloses
it. -/
theorem route_ofLocation {k : Location} {e : Entry} (hwf : fs.WellFormed)
    (hd : fs.isDirectoryAt l = true) (hf : fs.find true (.ofLocation l) = .ok (k, e)) :
    Route fs (· <+: l) (.ofLocation l) l := by
  obtain ⟨mode, hmode⟩ := isDirectoryAt_iff.mp hd
  have hnames : ∀ n ∈ l, IsName n := hwf.isName (by simp [hmode])
  have hstart : Route fs (· <+: l) ⟨"/"⟩ [] :=
    ⟨List.nil_prefix, rfl, 0, Nat.zero_le _, .done List.nil_prefix⟩
  by_cases hnil : l = []
  · rw [hnil] at hstart ⊢
    exact hstart
  · have hclear : Clear fs [] l := by
      intro pre hpre hne
      obtain ⟨rest, rfl⟩ := hpre
      have hrest : rest ≠ [] := by
        rintro rfl
        exact hne (List.append_nil pre).symm
      exact hwf.isDirectoryAt hrest (by simp [hmode])
    have hlast : ∀ target, fs.lookup ([] ++ l) ≠ some (.link target) := by
      intro target
      simp [hmode]
    rw [Path.ofLocation_eq_descend hnames] at hf ⊢
    obtain ⟨hfits, -⟩ := hstart.fits_of_find rfl hnames hnil hclear (.inr hlast) hf
    exact hstart.descend (hclear.open hd) hnames hfits.short fun pre hpre => hpre

/-- A canonical path is followed past the destinations when it leads past them. -/
theorem Off.route {k : Location} {e : Entry} (h : L.Off l) (hwf : fs.WellFormed)
    (hd : fs.isDirectoryAt l = true) (hf : fs.find true (.ofLocation l) = .ok (k, e)) :
    Route fs L.Off (.ofLocation l) l :=
  (route_ofLocation hwf hd hf).mono fun _ hl => h.of_prefix hl

theorem Direct.approachable {p : Path} {root : Location} (h : L.Direct fs) (hwf : fs.WellFormed)
    (hload : Session.load fs p = .ok (.ofLocation root, L.manifest)) : L.Approachable fs := by
  obtain ⟨-, r, e, -, hsound⟩ := Manifest.exists_of_read (Session.load_eq_ok.mp hload).2
  exact ⟨h, hwf, fun c hc => (hsound c hc).isName⟩

/-- What a manifest that was read says of its components. -/
theorem Confined.settled (h : L.Confined fs) (hwf : fs.WellFormed)
    (hm : Manifest.read fs (.ofLocation L.root) = .ok L.manifest) : L.Settled fs := by
  obtain ⟨-, r, e, hfind, hsound⟩ := Manifest.exists_of_read hm
  obtain ⟨hr, -, -⟩ := (route_ofLocation hwf h.root hfind).find_of_holds hfind (.refl _ fs) rfl
  rw [hr] at hsound
  have horigin : ∀ c ∈ L.components, ∃ mode, fs.lookup (L.origin c) = some (.directory mode) ∧
      L.root <+: L.origin c := by
    intro c hc
    obtain ⟨k, mode, hsource, hwithin⟩ := (hsound c hc).resolves
    obtain ⟨hk, hlookup, -⟩ := (h.source c hc).find_of_holds hsource (.refl _ fs) rfl
    exact ⟨mode, hlookup, hk ▸ isWithin_iff.mp hwithin⟩
  refine ⟨h, hwf, fun c hc => (hsound c hc).isName, fun c hc => ?_, fun c hc => ?_⟩
  · obtain ⟨-, -, hwithin⟩ := horigin c hc
    exact hwithin
  · obtain ⟨mode, hlookup, -⟩ := horigin c hc
    exact isDirectoryAt_of_lookup hlookup

/-! ## One component of a layout -/

theorem Approachable.action_destination (h : L.Approachable fs) (hc : c ∈ L.components) :
    (L.action c).destination = (L.site c).path :=
  c.role.join_outputDirectory (L.target c.role) h.author (h.isName c hc)

/-- Each destination is approached past all of them. -/
theorem Approachable.approach (h : L.Approachable fs) (hc : c ∈ L.components) :
    (L.site c).Approach L.Off fs where
  wellFormed := h.wellFormed
  isName := c.role.isName_outputNames h.author (h.isName c hc)
  deep := c.role.two_le_length_outputNames
  off _ hl := hl c hc
  target := h.target c hc
  place := h.place c hc
  noLinks := h.noLinks c hc

theorem Settled.apart_origin (h : L.Settled fs) (hc : c ∈ L.components) (hd : d ∈ L.components) :
    Apart (L.origin c) (L.destination d) := by
  obtain ⟨r, hr⟩ := h.within c hc
  rw [← hr]
  exact h.apart_destination hd r

/-- **Each component can be put in its place.** -/
theorem Settled.ready (h : L.Settled fs) (hc : c ∈ L.components) : (L.site c).Ready L.Off fs where
  toApproach := h.approachable.approach hc
  source := h.source c hc
  origin := h.origin c hc
  apart := h.apart_origin hc hc

/-! ## What an action spares -/

/-- Away from the destinations nothing is different, except that directories may have been made
above them. -/
structure Keeps (L : Layout) (fs fs' : FileSystem) : Prop where
  wellFormed : fs'.WellFormed
  away : ∀ l, L.Off l → fs'.lookup l = fs.lookup l ∨
    fs.lookup l = none ∧ L.Encloses l ∧ fs'.lookup l = some (.directory newDirectoryMode)
  workingDirectory : fs'.workingDirectory = fs.workingDirectory

/-- Besides, the plugin is as it was. -/
structure Spares (L : Layout) (fs fs' : FileSystem) : Prop extends L.Keeps fs fs' where
  plugin : SameTree L.root fs fs'

theorem exists_of_mem_map {cs : List Component} (hcs : ∀ c ∈ cs, c ∈ L.components) :
    ∀ d ∈ cs.map L.destination, ∃ c ∈ L.components, L.destination c = d := by
  intro d hd
  obtain ⟨c, hc, rfl⟩ := List.mem_map.mp hd
  exact ⟨c, hcs c hc, rfl⟩

namespace Keeps

theorem holds (h : L.Keeps fs fs') : Holds L.Off fs fs' := by
  intro l e hl he
  rcases h.away l hl with hsame | ⟨hnone, -, -⟩
  · rw [hsame, he]
  · rw [hnone] at he
    exact absurd he (by simp)

theorem isDirectoryAt (h : L.Keeps fs fs') (hl : L.Off l) (hd : fs.isDirectoryAt l = true) :
    fs'.isDirectoryAt l = true := by
  obtain ⟨mode, hmode⟩ := isDirectoryAt_iff.mp hd
  exact isDirectoryAt_of_lookup (h.holds l _ hl hmode)

/-- What is touched are the destinations. -/
theorem of_touched (h : Touched ds fs fs')
    (hds : ∀ d ∈ ds, ∃ c ∈ L.components, L.destination c = d) : L.Keeps fs fs' := by
  refine ⟨h.wellFormed, fun l hl => ?_, h.changes.workingDirectory⟩
  have hout : ∀ d ∈ ds, ¬ d <+: l := by
    intro d hd
    obtain ⟨c, hc, rfl⟩ := hds d hd
    exact hl c hc
  by_cases hmissing : (∃ d ∈ ds, l <+: d) ∧ fs.lookup l = none
  · obtain ⟨⟨d, hd, habove⟩, hnone⟩ := hmissing
    rcases h.made l hout hnone with hnone' | hmade
    · exact .inl (hnone'.trans hnone.symm)
    · obtain ⟨c, hc, rfl⟩ := hds d hd
      refine .inr ⟨hnone, ⟨c, hc, habove, ?_⟩, hmade⟩
      rintro rfl
      exact hl c hc (List.prefix_refl _)
  · exact .inl (h.lookup_eq hout hmissing)

end Keeps

/-- **A layout stays approachable** whatever is done to its destinations. -/
theorem Approachable.of_keeps (h : L.Approachable fs) (hk : L.Keeps fs fs') :
    L.Approachable fs' where
  author := h.author
  target c hc := (h.target c hc).of_holds hk.holds hk.workingDirectory
  place c hc := hk.isDirectoryAt (h.target c hc).ends (h.place c hc)
  noLinks c hc := (h.noLinks c hc).of_made fun pre hpre hne => by
    have hencloses := encloses_of_prefix hc hpre hne
    rcases hk.away _ (h.off_of_encloses hencloses) with hsame | ⟨-, -, hmade⟩
    · exact .inl hsame
    · exact .inr ⟨_, hmade⟩
  destinations := h.destinations
  wellFormed := hk.wellFormed
  isName := h.isName

namespace Spares

theorem refl (hwf : fs.WellFormed) : L.Spares fs fs :=
  ⟨⟨hwf, fun _ _ => .inl rfl, rfl⟩, .refl L.root fs⟩

theorem trans (h : L.Spares fs fs') (h' : L.Spares fs' fs'') : L.Spares fs fs'' := by
  refine ⟨⟨h'.wellFormed, fun l hl => ?_, h'.workingDirectory.trans h.workingDirectory⟩,
    h.plugin.trans h'.plugin⟩
  rcases h.away l hl with hsame | ⟨hnone, hencloses, hmade⟩
  · rw [← hsame]
    exact h'.away l hl
  · exact .inr ⟨hnone, hencloses, h'.holds l _ hl hmade⟩

/-- Two file systems that came from one, where only directories can be passed. -/
theorem noWorse (h : L.Spares fs fs') (h' : L.Spares fs fs'') (hc : c ∈ L.components)
    (hoff : ∀ l, L.Encloses l → L.Off l) : (L.site c).NoWorse fs' fs'' := by
  intro pre hpre hne hpass
  have hencloses : L.Encloses (L.place c.role ++ pre) := encloses_of_prefix hc hpre hne
  have hl := hoff _ hencloses
  show fs''.lookup (L.place c.role ++ pre) = none ∨
    fs''.isDirectoryAt (L.place c.role ++ pre) = true
  rcases h'.away _ hl with hsame' | ⟨-, -, hmade'⟩
  · rcases h.away _ hl with hsame | ⟨hnone, -, -⟩
    · rw [FileSystem.isDirectoryAt, hsame', ← hsame]
      exact hpass
    · exact .inl (hsame'.trans hnone)
  · exact .inr (isDirectoryAt_of_lookup hmade')

end Spares

/-- **A layout stays settled** whatever is done to its destinations. -/
theorem Settled.of_spares (h : L.Settled fs) (hs : L.Spares fs fs') : L.Settled fs' := by
  have hk := hs.toKeeps
  have h' := h.approachable.of_keeps hk
  exact
    { author := h.author
      root := hk.isDirectoryAt h.off_root h.root
      target := h'.target
      place := h'.place
      source := fun c hc => (h.source c hc).of_holds hk.holds hk.workingDirectory
      apart := h.apart
      places := h.places
      noLinks := h'.noLinks
      wellFormed := hk.wellFormed
      isName := h.isName
      within := h.within
      origin := fun c hc => hk.isDirectoryAt (h.source c hc).ends (h.origin c hc) }

/-- What touches a destination alone spares the rest, the plugin included. -/
theorem Settled.spares_of_touched (h : L.Settled fs) (hc : c ∈ L.components)
    (ht : Touched [L.destination c] fs fs') : L.Spares fs fs' := by
  have hk : L.Keeps fs fs' :=
    .of_touched ht fun d hd => ⟨c, hc, (List.mem_singleton.mp hd).symm⟩
  refine ⟨hk, ht.sameTree fun d hd => ?_⟩
  rw [List.mem_singleton.mp hd]
  have hapart := h.apart_destination hc []
  rwa [List.append_nil] at hapart

/-! ## Two entries for one place -/

instance (L : Layout) : DecidablePred L.Off := fun l =>
  inferInstanceAs (Decidable (∀ c ∈ L.components, ¬ L.destination c <+: l))

/-- A canonical path that leads somewhere past the destinations is followed past them. -/
theorem route_of_isSome {p : Path} (hwf : fs.WellFormed) (hp : p = .ofLocation l) (hoff : L.Off l)
    (hd : fs.isDirectoryAt l = true)
    (hf : (fs.find true (.ofLocation l)).toOption.isSome = true) : Route fs L.Off p l := by
  rw [hp]
  cases hfind : fs.find true (.ofLocation l) with
  | error e =>
    rw [hfind] at hf
    exact absurd hf (by simp [Except.toOption])
  | ok x => exact hoff.route hwf hd hfind

/-- A plugin at `/p` with two components of one name, and a backend repository at `/r` in which
there is something at their place. -/
def twofoldWorld : FileSystem where
  entries :=
    [(["r"], .directory 0o755), (["r", "gunicorn.conf.py"], .file 0o644 []),
      (["r", "modules"], .directory 0o755), (["r", "modules", "acme"], .directory 0o755),
      (["r", "modules", "acme", "x"], .directory 0o755),
      (["r", "modules", "acme", "x", "stale"], .file 0o600 []),
      (["p"], .directory 0o755), (["p", "x"], .directory 0o755),
      (["p", "x", "first"], .file 0o644 []), (["p", "new"], .directory 0o755),
      (["p", "new", "x"], .directory 0o700), (["p", "new", "x", "second"], .file 0o644 []),
      (["p", "manifest.json"], .file 0o644 (Text.encode
        "[\"demo\",\"acme\",null,[[\"x\",\"backend\"],[\"new/x\",\"backend\"]]]"))]
  times := []
  clock := 0
  workingDirectory := []

/-- The second component replaces the first. -/
def twofoldLayout : Layout where
  root := ["p"]
  manifest := ⟨"demo", "acme", none, [⟨"x", .backend, "x"⟩, ⟨"new/x", .backend, "x"⟩]⟩
  target _ := ⟨"/r"⟩
  place _ := ["r"]
  origin c := if c.path = "x" then ["p", "x"] else ["p", "new", "x"]

theorem wellFormed_twofoldWorld : twofoldWorld.WellFormed :=
  wellFormed_of_keys (by decide +kernel) (by decide +kernel)

theorem components_twofoldLayout : ∀ c ∈ twofoldLayout.components,
    c = ⟨"x", .backend, "x"⟩ ∨ c = ⟨"new/x", .backend, "x"⟩ := by
  intro c hc
  simpa [components, twofoldLayout] using hc

theorem confined_twofoldLayout : twofoldLayout.Confined twofoldWorld := by
  have htarget : Route twofoldWorld twofoldLayout.Off ⟨"/r"⟩ ["r"] :=
    route_of_isSome wellFormed_twofoldWorld rfl (by decide +kernel) (by decide +kernel)
      (by decide +kernel)
  have hplace : twofoldWorld.isDirectoryAt ["r"] = true := by decide +kernel
  have hapart : Apart ["p"] ["r"] := by constructor <;> decide
  refine ⟨by decide, by decide +kernel, fun _ _ => htarget, fun _ _ => hplace, ?_,
    fun _ _ => hapart, fun _ _ _ _ => .inl rfl, ?_⟩
  · intro c hc
    rcases components_twofoldLayout c hc with rfl | rfl
    · exact route_of_isSome wellFormed_twofoldWorld rfl (by decide +kernel) (by decide +kernel)
        (by decide +kernel)
    · exact route_of_isSome wellFormed_twofoldWorld rfl (by decide +kernel) (by decide +kernel)
        (by decide +kernel)
  · intro c hc
    have hnames : twofoldLayout.names c = ["modules", "acme", "x"] := by
      rcases components_twofoldLayout c hc with rfl | rfl <;> rfl
    rw [hnames]
    exact noLinks_of_inits (l := ["r"]) (by decide +kernel)

end Layout

end PluginManager
