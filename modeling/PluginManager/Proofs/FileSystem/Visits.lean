import PluginManager.FileSystem.Walk
import PluginManager.Proofs.FileSystem.Reaches

/-!
# What a walk meets

A walk meets what lies below its root, as far as it is let in.

* `Enters`: nothing on the way to an entry is kept out, the entry included.
* `mem_walkBelow`, `nodup_walkBelow`: just the entries that are entered are met, and each once.
* `walk_of_find`: **a walk from a path that leads to a directory** goes through that directory.
-/

namespace PluginManager.FileSystem

variable {fs : FileSystem} {order : Order} {enter : Visit → Bool} {levels : Nat} {l k : Location}
  {p root : Path} {name : String} {names r : List String} {v : Visit} {e : Entry} {mode : Nat}

/-! ## The way to an entry -/

/-- All on the way from `l` along the names is there and is let in, the end included. -/
def Enters (fs : FileSystem) (enter : Visit → Bool) (l : Location) (p : Path)
    (names r : List String) : Prop :=
  ∀ sub, sub <+: r → sub ≠ [] →
    ∃ e, fs.lookup (l ++ sub) = some e ∧ enter ⟨p.descend sub, names ++ sub, e⟩ = true

theorem enters_nil : Enters fs enter l p names [] :=
  fun _ hsub hne => absurd (List.prefix_nil.mp hsub) hne

theorem enters_cons_iff : Enters fs enter l p names (name :: r) ↔
    (∃ e, fs.lookup (l ++ [name]) = some e ∧ enter ⟨p.child name, names ++ [name], e⟩ = true) ∧
      Enters fs enter (l ++ [name]) (p.child name) (names ++ [name]) r := by
  constructor
  · intro h
    refine ⟨h [name] (List.prefix_append [name] r) (by simp), fun sub hsub _ => ?_⟩
    obtain ⟨e, he, henter⟩ := h (name :: sub) (List.cons_prefix_cons.mpr ⟨rfl, hsub⟩) (by simp)
    refine ⟨e, by rw [List.append_assoc]; exact he, ?_⟩
    rw [List.append_assoc]
    exact henter
  · rintro ⟨⟨e, he, henter⟩, h⟩ sub hsub hne
    cases sub with
    | nil => exact absurd rfl hne
    | cons n sub =>
      obtain ⟨rfl, hr⟩ := List.cons_prefix_cons.mp hsub
      by_cases hnil : sub = []
      · subst hnil
        exact ⟨e, he, henter⟩
      · obtain ⟨e', he', henter'⟩ := h sub hr hnil
        rw [List.append_assoc] at he' henter'
        exact ⟨e', he', henter'⟩

/-! ## The entries that are met -/

/-- What is met in one entry of a directory. -/
def visitsAt (fs : FileSystem) (order : Order) (enter : Visit → Bool) (levels : Nat) (l : Location)
    (p : Path) (names : List String) (name : String) : List Visit :=
  match fs.lookup (l ++ [name]) with
  | none => []
  | some e =>
    let v : Visit := ⟨p.child name, names ++ [name], e⟩
    if !enter v then []
    else if e.isDirectory then v :: walkBelow fs order enter levels (l ++ [name]) v.path v.names
    else [v]

theorem walkBelow_succ (fs : FileSystem) (order : Order) (enter : Visit → Bool) (levels : Nat)
    (l : Location) (p : Path) (names : List String) :
    walkBelow fs order enter (levels + 1) l p names =
      (order.arrange (fs.names l)).flatMap (visitsAt fs order enter levels l p names) := rfl

theorem mem_visitsAt : v ∈ visitsAt fs order enter levels l p names name ↔
    ∃ e, fs.lookup (l ++ [name]) = some e ∧ enter ⟨p.child name, names ++ [name], e⟩ = true ∧
      (v = ⟨p.child name, names ++ [name], e⟩ ∨ e.isDirectory = true ∧
        v ∈ walkBelow fs order enter levels (l ++ [name]) (p.child name) (names ++ [name])) := by
  rw [visitsAt]
  cases he : fs.lookup (l ++ [name]) with
  | none => simp
  | some e =>
    cases henter : enter ⟨p.child name, names ++ [name], e⟩ with
    | false => simp [henter]
    | true => cases hd : e.isDirectory <;> simp [henter, hd]

theorem mem_walkBelow_succ : v ∈ walkBelow fs order enter (levels + 1) l p names ↔
    ∃ name, v ∈ visitsAt fs order enter levels l p names name := by
  rw [walkBelow_succ, List.mem_flatMap]
  constructor
  · rintro ⟨name, -, hv⟩
    exact ⟨name, hv⟩
  · rintro ⟨name, hv⟩
    obtain ⟨e, he, -⟩ := mem_visitsAt.mp hv
    exact ⟨name, (order.arrange_perm _).mem_iff.mpr (mem_names.mpr (by simp [he])), hv⟩

/-- **Just the entries that are entered are met.** -/
theorem mem_walkBelow (hwf : fs.WellFormed) : v ∈ walkBelow fs order enter levels l p names ↔
    ∃ r e, r ≠ [] ∧ r.length ≤ levels ∧ fs.lookup (l ++ r) = some e ∧
      v = ⟨p.descend r, names ++ r, e⟩ ∧ Enters fs enter l p names r := by
  induction levels generalizing l p names with
  | zero =>
    rw [walkBelow]
    constructor
    · intro h
      exact absurd h (by simp)
    · rintro ⟨r, e, hne, hlength, -⟩
      exact absurd (List.length_eq_zero_iff.mp (Nat.le_zero.mp hlength)) hne
  | succ levels ih =>
    rw [mem_walkBelow_succ]
    simp only [mem_visitsAt]
    constructor
    · rintro ⟨name, e, he, henter, rfl | ⟨-, hv⟩⟩
      · exact ⟨[name], e, by simp, by simp, he, rfl,
          enters_cons_iff.mpr ⟨⟨e, he, henter⟩, enters_nil⟩⟩
      · obtain ⟨r, e', -, hlength, he', rfl, henters⟩ := ih.mp hv
        refine ⟨name :: r, e', by simp, by simpa using hlength, by simpa using he', ?_,
          enters_cons_iff.mpr ⟨⟨e, he, henter⟩, henters⟩⟩
        rw [Path.descend_cons, List.append_assoc]
        rfl
    · rintro ⟨r, e, hne, hlength, he, rfl, henters⟩
      obtain ⟨name, r, rfl⟩ := List.exists_cons_of_ne_nil hne
      obtain ⟨⟨e₀, he₀, henter⟩, htail⟩ := enters_cons_iff.mp henters
      refine ⟨name, e₀, he₀, henter, ?_⟩
      by_cases hr : r = []
      · subst hr
        obtain rfl := Option.some.inj (he₀.symm.trans he)
        exact .inl rfl
      · rw [List.append_cons] at he
        have hd := hwf.isDirectoryAt hr (by rw [he]; simp)
        refine .inr ⟨isDirectory_of_lookup hd he₀, ih.mpr
          ⟨r, e, hr, by simpa using hlength, he, ?_, htail⟩⟩
        rw [Path.descend_cons, List.append_assoc]
        rfl

theorem prefix_of_mem_visitsAt (hwf : fs.WellFormed)
    (hv : v ∈ visitsAt fs order enter levels l p names name) : names ++ [name] <+: v.names := by
  obtain ⟨e, -, -, rfl | ⟨-, hv⟩⟩ := mem_visitsAt.mp hv
  · exact List.prefix_refl _
  · obtain ⟨r, e', -, -, -, rfl, -⟩ := (mem_walkBelow hwf).mp hv
    exact List.prefix_append _ r

theorem nodup_visitsAt (hwf : fs.WellFormed)
    (hbelow : ((walkBelow fs order enter levels (l ++ [name]) (p.child name)
      (names ++ [name])).map Visit.names).Nodup) :
    ((visitsAt fs order enter levels l p names name).map Visit.names).Nodup := by
  rw [visitsAt]
  split
  · exact List.nodup_nil
  · simp only
    split
    · exact List.nodup_nil
    · split
      · rw [List.map_cons, List.nodup_cons]
        refine ⟨fun hmem => ?_, hbelow⟩
        obtain ⟨v, hv, hnames⟩ := List.mem_map.mp hmem
        obtain ⟨r, e, hne, -, -, rfl, -⟩ := (mem_walkBelow hwf).mp hv
        exact hne (List.append_right_eq_self.mp hnames)
      · simp

/-- **No entry is met twice.** -/
theorem nodup_walkBelow (hwf : fs.WellFormed) (order : Order) (enter : Visit → Bool) (levels : Nat)
    (l : Location) (p : Path) (names : List String) :
    ((walkBelow fs order enter levels l p names).map Visit.names).Nodup := by
  induction levels generalizing l p names with
  | zero => exact List.nodup_nil
  | succ levels ih =>
    rw [walkBelow_succ, List.map_flatMap, List.nodup_flatMap]
    refine ⟨fun name _ => nodup_visitsAt hwf (ih _ _ _), ?_⟩
    have hdistinct : (order.arrange (fs.names l)).Nodup :=
      (order.arrange_perm _).nodup_iff.mpr (nodup_names hwf.distinct l)
    refine hdistinct.imp fun {name name'} hne ns hns hns' => hne ?_
    obtain ⟨v, hv, rfl⟩ := List.mem_map.mp hns
    obtain ⟨v', hv', hnames⟩ := List.mem_map.mp hns'
    have hbegins := prefix_of_mem_visitsAt hwf hv
    have hbegins' := prefix_of_mem_visitsAt hwf hv'
    rw [hnames] at hbegins'
    have hlength : (names ++ [name]).length = (names ++ [name']).length := by simp
    have heq := (List.prefix_of_prefix_length_le hbegins hbegins'
      (Nat.le_of_eq hlength)).eq_of_length hlength
    simpa using heq

/-! ## Levels -/

theorem le_foldl_max (es : List (Location × Entry)) (n : Nat) :
    n ≤ es.foldl (fun n (k, _) => max n k.length) n ∧
      ∀ x ∈ es, x.1.length ≤ es.foldl (fun n (k, _) => max n k.length) n := by
  induction es generalizing n with
  | nil => exact ⟨Nat.le_refl n, fun _ h => absurd h (by simp)⟩
  | cons x rest ih =>
    obtain ⟨hn, hrest⟩ := ih (max n x.1.length)
    refine ⟨Nat.le_trans (Nat.le_max_left _ _) hn, fun y hy => ?_⟩
    rcases List.mem_cons.mp hy with rfl | hy
    · exact Nat.le_trans (Nat.le_max_right _ _) hn
    · exact hrest y hy

theorem length_lt_height (h : fs.lookup l = some e) : l.length < fs.height := by
  by_cases hl : l = []
  · subst hl
    exact Nat.succ_pos _
  · obtain ⟨x, hx, rfl⟩ := List.mem_map.mp ((mem_keys hl).mpr (by rw [h]; simp))
    exact Nat.lt_succ_of_le ((le_foldl_max fs.entries 0).2 x hx)

/-! ## Walks -/

/-- **A walk from a path that leads to a directory** goes through all of that directory. -/
theorem walk_of_find (hdash : isDash root = false)
    (h : fs.find true root = .ok (k, .directory mode)) :
    fs.walk order enter root = .ok (walkBelow fs order enter fs.height k root []) := by
  rw [walk]
  simp only [hdash, Bool.false_eq_true, if_false]
  rcases find_false_of_find_true h with hfalse | ⟨k', target, hfalse⟩
  · rw [hfalse]
  · rw [hfalse]
    simp only [h]

theorem mem_walk (hwf : fs.WellFormed) :
    v ∈ walkBelow fs order enter fs.height k root [] ↔ ∃ r e, r ≠ [] ∧
      fs.lookup (k ++ r) = some e ∧ v = ⟨root.descend r, r, e⟩ ∧
      Enters fs enter k root [] r := by
  rw [mem_walkBelow hwf]
  constructor
  · rintro ⟨r, e, hne, -, he, hv, henters⟩
    exact ⟨r, e, hne, he, hv, henters⟩
  · rintro ⟨r, e, hne, he, hv, henters⟩
    have hlength := length_lt_height he
    rw [List.length_append] at hlength
    exact ⟨r, e, hne, by omega, he, hv, henters⟩

end PluginManager.FileSystem
