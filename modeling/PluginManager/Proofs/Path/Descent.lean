import PluginManager.Proofs.Path.Steps

/-!
# Going down by names

* `Path.descend`: one name after the other put behind a path.
* `steps_descend`, `join_descend`: the names are the steps that are added, also behind a join.
* `ofLocation_eq_descend`: the path of a location goes down from the root directory.
* `parent?_child_child`: **behind a name the enclosing path is the path itself**, text for text.
* `ancestors_descend`: so the enclosing paths are those the names came from.
-/

namespace PluginManager.Path

variable {p q r : Path} {name name' : String} {names : List String}

def descend (p : Path) (names : List String) : Path := names.foldl child p

theorem descend_append (p : Path) (names names' : List String) :
    p.descend (names ++ names') = (p.descend names).descend names' := List.foldl_append

theorem descend_concat (p : Path) (names : List String) (name : String) :
    p.descend (names ++ [name]) = (p.descend names).child name := descend_append p names [name]

theorem descend_cons (p : Path) (name : String) (names : List String) :
    p.descend (name :: names) = (p.child name).descend names := rfl

theorem child_eq_descend (p : Path) (name : String) : p.child name = p.descend [name] := rfl

/-! ## Texts -/

/-- What stands between a path and a relative one that is joined to it. -/
def seam (p : Path) : String := if p.text = "" || p.endsWithSlash then "" else "/"

theorem join_of_relative (p : Path) (habs : q.isAbsolute = false) :
    p.join q = ⟨p.text ++ p.seam ++ q.text⟩ := by
  rw [join, if_neg (by rw [habs]; decide), seam]
  split <;> simp

theorem child_eq (p : Path) (h : IsName name) : p.child name = ⟨p.text ++ p.seam ++ name⟩ :=
  join_of_relative p h.not_isAbsolute

theorem seam_eq (hp : p.text ≠ "") (hs : p.endsWithSlash = false) : p.seam = "/" := by
  simp [seam, hp, hs]

theorem isAbsolute_join (p : Path) (habs : q.isAbsolute = false) :
    (p.join q).isAbsolute = p.isAbsolute := by
  by_cases hp : p.text = ""
  · rw [join_of_relative p habs, seam, hp]
    obtain ⟨text⟩ := p
    obtain rfl : text = "" := hp
    simpa [isAbsolute] using habs
  · exact isAbsolute_join_of_ne hp habs

theorem isAbsolute_child_eq (p : Path) (h : IsName name) :
    (p.child name).isAbsolute = p.isAbsolute := isAbsolute_join p h.not_isAbsolute

/-! ## Going down by pieces, also by `..` -/

theorem isAbsolute_descend_of_pieces (p : Path) (h : ∀ s ∈ names, IsPiece s) :
    (p.descend names).isAbsolute = p.isAbsolute := by
  induction names generalizing p with
  | nil => rfl
  | cons s rest ih =>
    have hrest := ih (p.child s) fun n hn => h n (List.mem_cons_of_mem s hn)
    exact hrest.trans (isAbsolute_join p (h s List.mem_cons_self).not_isAbsolute)

theorem steps_descend_of_pieces (p : Path) (h : ∀ s ∈ names, IsPiece s) :
    FileSystem.steps (p.descend names) = FileSystem.steps p ++ names := by
  induction names generalizing p with
  | nil => simp [descend]
  | cons s rest ih =>
    have hs := h s List.mem_cons_self
    have hrest := ih (p.child s) fun n hn => h n (List.mem_cons_of_mem s hn)
    rw [child, FileSystem.steps_join p hs.not_isAbsolute, hs.steps, List.append_assoc] at hrest
    exact hrest

/-! ## Going down by names -/

theorem isAbsolute_descend (p : Path) (h : ∀ name ∈ names, IsName name) :
    (p.descend names).isAbsolute = p.isAbsolute :=
  isAbsolute_descend_of_pieces p fun name hname => (h name hname).isPiece

theorem steps_descend (p : Path) (h : ∀ name ∈ names, IsName name) :
    FileSystem.steps (p.descend names) = FileSystem.steps p ++ names :=
  steps_descend_of_pieces p fun name hname => (h name hname).isPiece

theorem endsWithSlash_child (p : Path) (h : IsName name) :
    (p.child name).endsWithSlash = false := by
  rw [child, endsWithSlash_join p h.ne_empty, h.not_endsWithSlash]

/-- Relative paths can be joined in any order. -/
theorem join_join (p : Path) (hq : q.text ≠ "") (habs : q.isAbsolute = false)
    (habs' : r.isAbsolute = false) : p.join (q.join r) = (p.join q).join r := by
  have hne : (p.join q).text ≠ "" := by
    rw [join_of_relative p habs]
    simp [hq]
  have hseam : (p.join q).seam = q.seam := by
    rw [seam, seam, endsWithSlash_join p hq]
    simp [hq, hne]
  rw [join_of_relative p (by rw [isAbsolute_join_of_ne hq habs', habs]), join_of_relative q habs',
    join_of_relative _ habs', hseam, join_of_relative p habs]
  simp [String.append_assoc]

theorem join_child (p : Path) (hq : q.text ≠ "") (habs : q.isAbsolute = false) (h : IsName name) :
    p.join (q.child name) = (p.join q).child name := join_join p hq habs h.not_isAbsolute

theorem join_descend (p : Path) (hq : q.text ≠ "") (habs : q.isAbsolute = false)
    (h : ∀ name ∈ names, IsName name) : p.join (q.descend names) = (p.join q).descend names := by
  induction names generalizing q with
  | nil => rfl
  | cons name rest ih =>
    have hname := h name List.mem_cons_self
    have hrest := ih (child_text_ne_empty q hname) (by rw [isAbsolute_child hq hname, habs])
      fun n hn => h n (List.mem_cons_of_mem name hn)
    rw [join_child p hq habs hname] at hrest
    exact hrest

theorem descend_eq_seam (p : Path) (h : ∀ n ∈ names, IsName n) (hne : names ≠ []) :
    p.descend names = ⟨p.text ++ p.seam ++ "/".intercalate names⟩ := by
  induction names generalizing p with
  | nil => exact absurd rfl hne
  | cons name rest ih =>
    have hname := h name List.mem_cons_self
    rw [descend_cons]
    cases rest with
    | nil => rw [descend, List.foldl_nil, child_eq p hname, String.intercalate_singleton]
    | cons next rest =>
      rw [ih (p.child name) (fun n hn => h n (List.mem_cons_of_mem name hn)) (by simp),
        seam_eq (child_text_ne_empty p hname) (endsWithSlash_child p hname), child_eq p hname,
        String.intercalate_cons_cons]
      simp [String.append_assoc]

theorem descend_eq (hp : p.text ≠ "") (hs : p.endsWithSlash = false) (h : ∀ n ∈ names, IsName n)
    (hne : names ≠ []) : p.descend names = ⟨p.text ++ "/" ++ "/".intercalate names⟩ := by
  rw [descend_eq_seam p h hne, seam_eq hp hs]

/-- The path of a location goes down to it from the root directory. -/
theorem ofLocation_eq_descend {l : Location} (h : ∀ n ∈ l, IsName n) :
    ofLocation l = (Path.mk "/").descend l := by
  cases l with
  | nil => rfl
  | cons name rest =>
    have hname := h name List.mem_cons_self
    have hroot : (Path.mk "/").child name = ⟨"/" ++ name⟩ := by
      rw [child_eq _ hname]
      rfl
    rw [descend_cons, ofLocation]
    cases rest with
    | nil => rw [descend, List.foldl_nil, hroot, String.intercalate_singleton]
    | cons next rest =>
      rw [descend_eq (child_text_ne_empty _ hname) (endsWithSlash_child _ hname)
        (fun n hn => h n (List.mem_cons_of_mem name hn)) (by simp), hroot,
        String.intercalate_cons_cons]
      simp [String.append_assoc]

/-! ## The enclosing path -/

theorem intercalate_pieces (p : Path) : "/".intercalate p.pieces = p.text := by
  rw [← String.toList_inj, String.toList_intercalate, pieces, Text.splitText, List.map_map]
  have hid : String.toList ∘ String.ofList = id := by
    funext cs
    exact String.toList_ofList
  rw [hid, List.map_id]
  exact Text.intercalate_splitAt '/' p.text.toList

theorem pieces_ne_nil (p : Path) : p.pieces ≠ [] := by
  rw [pieces, Text.splitText, ne_eq, List.map_eq_nil_iff]
  exact Text.splitAt_ne_nil '/' p.text.toList

theorem component?_of_isName (h : IsName name) : component? name = some (.normal name) := by
  rw [component?, if_neg (by simp [h.ne_empty, h.ne_current]), if_neg h.ne_parent]

theorem isSilent_of_isName (h : IsName name) : isSilent name = false := by
  rw [isSilent, component?_of_isName h]
  rfl

theorem pieces_child (hp : p.text ≠ "") (hs : p.endsWithSlash = false) (h : IsName name) :
    (p.child name).pieces = p.pieces ++ [name] := by
  rw [child_eq p h, seam_eq hp hs, pieces_slash, h.pieces]

theorem components_child (hp : p.text ≠ "") (hs : p.endsWithSlash = false) (h : IsName name) :
    (p.child name).components = p.components ++ [.normal name] := by
  have hhead : (p.pieces ++ [name]).head? = p.pieces.head? := by
    rw [List.head?_append, Option.or_of_isSome]
    simp [pieces_ne_nil]
  have hname : [name].filterMap component? = [.normal name] := by simp [component?_of_isName h]
  rw [components, components, isAbsolute_child hp h, pieces_child hp hs h, hhead,
    List.filterMap_append, hname]
  split
  · rfl
  · split <;> rfl

/-- The last piece of a path that ends with a name. -/
theorem exists_pieces_child (p : Path) (h : IsName name) :
    ∃ init, (p.child name).pieces = init ++ [name] := by
  rw [child_eq p h]
  by_cases hp : p.text = ""
  · refine ⟨[], ?_⟩
    rw [seam, hp]
    simpa using h.pieces
  · cases hs : p.endsWithSlash with
    | false => exact ⟨p.pieces, by rw [seam_eq hp hs, pieces_slash, h.pieces]⟩
    | true =>
      obtain ⟨s, hslash⟩ := exists_of_endsWithSlash hs
      have hseam : p.seam = "" := by simp [seam, hs]
      exact ⟨pieces ⟨s⟩, by rw [hseam, String.append_empty, hslash, pieces_slash, h.pieces]⟩

theorem dropComponent_concat (init : List String) (h : IsName name) (h' : IsName name') :
    dropComponent (init ++ [name] ++ [name']) = init ++ [name] := by
  simp [dropComponent, isSilent_of_isName h, isSilent_of_isName h']

theorem component?_ne_current (piece : String) : component? piece ≠ some .current := by
  rw [component?]
  split
  · simp
  · split <;> simp

/-- Only a path that begins with the piece `.` has `.` for its first component. -/
theorem head?_pieces_of_components {rest : List Component} (h : p.components = .current :: rest) :
    p.pieces.head? = some "." := by
  rw [components] at h
  split at h
  · exact absurd h (by simp)
  · split at h
    · assumption
    · have hmem : Component.current ∈ p.pieces.filterMap component? := by simp [h]
      obtain ⟨piece, -, hpiece⟩ := List.mem_filterMap.mp hmem
      exact absurd hpiece (component?_ne_current piece)

/-- **Behind a name the enclosing path is the path itself.** -/
theorem parent?_child_child (p : Path) (h : IsName name) (h' : IsName name') :
    ((p.child name).child name').parent? = some (p.child name) := by
  have hne := child_text_ne_empty p h
  have hslash := endsWithSlash_child p h
  obtain ⟨init, hinit⟩ := exists_pieces_child p h
  have hpieces : ((p.child name).child name').pieces = init ++ [name] ++ [name'] := by
    rw [pieces_child hne hslash h', hinit]
  have htext : some (p.child name) = some ⟨"/".intercalate (init ++ [name])⟩ := by
    rw [← hinit, intercalate_pieces]
  have hcomponents := components_child hne hslash h'
  have hdrop := dropComponent_concat init h h'
  rw [htext, parent?]
  split
  · -- No components: there is at least the last name.
    rename_i hnil
    rw [hnil] at hcomponents
    exact absurd hcomponents (by simp)
  · rename_i hroot
    rw [hroot] at hcomponents
    have hlast := congrArg List.getLast? hcomponents
    exact absurd hlast (by simp)
  · rw [hpieces, hdrop]
    split
    · rename_i hnil
      exact absurd hnil (by simp)
    · rfl
  · rename_i hcurrent
    rw [hcurrent] at hcomponents
    have hlast := congrArg List.getLast? hcomponents
    exact absurd hlast (by simp)
  · -- The leading piece `.` is put back in front.
    rename_i rest hcurrent
    have hhead := head?_pieces_of_components hcurrent
    rw [hpieces] at hhead
    cases init with
    | nil => exact absurd (by simpa using hhead) h.ne_current
    | cons piece init =>
      obtain rfl : piece = "." := by simpa using hhead
      have hdrop := dropComponent_concat init h h'
      rw [hpieces, List.cons_append, List.cons_append, List.tail_cons, hdrop]
      split
      · rename_i hnil
        exact absurd hnil (by simp)
      · rfl
  · rw [hpieces, hdrop]

/-! ## Enclosing paths -/

theorem exists_ancestors (p : Path) : ∃ outer, p.ancestors = p :: outer := by
  rw [ancestors]
  cases p.components.length with
  | zero => exact ⟨[], rfl⟩
  | succ n =>
    rw [ancestors.go]
    cases p.parent? with
    | none => exact ⟨[], rfl⟩
    | some q => exact ⟨_, rfl⟩

theorem ancestors_child_child (p : Path) (h : IsName name) (h' : IsName name') :
    ((p.child name).child name').ancestors =
      (p.child name).child name' :: (p.child name).ancestors := by
  have hcomponents := components_child (child_text_ne_empty p h) (endsWithSlash_child p h) h'
  rw [ancestors, hcomponents, List.length_append, List.length_singleton, ancestors.go,
    parent?_child_child p h h']
  rfl

theorem ancestors_descend (p : Path) (hnames : ∀ n ∈ names ++ [name], IsName n) (hne : names ≠ []) :
    (p.descend (names ++ [name])).ancestors =
      p.descend (names ++ [name]) :: (p.descend names).ancestors := by
  obtain ⟨init, name', rfl⟩ := List.eq_nil_or_concat names |>.resolve_left hne
  rw [List.concat_eq_append] at hnames ⊢
  rw [descend_concat p _ name, descend_concat p init name']
  exact ancestors_child_child _ (hnames name' (by simp)) (hnames name (by simp))

theorem parent?_descend (p : Path) (hnames : ∀ n ∈ names ++ [name], IsName n) (hne : names ≠ []) :
    (p.descend (names ++ [name])).parent? = some (p.descend names) := by
  obtain ⟨init, name', rfl⟩ := List.eq_nil_or_concat names |>.resolve_left hne
  rw [List.concat_eq_append] at hnames ⊢
  rw [descend_concat p _ name, descend_concat p init name']
  exact parent?_child_child _ (hnames name' (by simp)) (hnames name (by simp))

end PluginManager.Path
