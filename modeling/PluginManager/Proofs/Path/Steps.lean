import PluginManager.FileSystem.Resolve

/-!
# The steps of joined paths

A path is followed by its steps, the pieces of its text that are not empty.  Joining a relative path
lines up the steps of both, whatever slashes stand at the seam.

* `steps_join`: the steps of a joined path.
* `IsPiece`: the texts that are one step.  `IsName`: those that are one step down.
* `steps_child`: a name adds itself as the last step.
-/

namespace PluginManager

namespace Text

variable {α : Type} [DecidableEq α]

/-! ## Pieces of a text put together -/

theorem splitAt_append_sep (sep : α) (cs ds : List α) :
    splitAt sep (cs ++ sep :: ds) = splitAt sep cs ++ splitAt sep ds := by
  induction cs with
  | nil => simp [splitAt]
  | cons c rest ih =>
    rw [List.cons_append, splitAt, splitAt, ih]
    by_cases hc : c = sep
    · rw [if_pos hc, if_pos hc, List.cons_append]
    · rw [if_neg hc, if_neg hc]
      cases hs : splitAt sep rest with
      | nil => exact absurd hs (splitAt_ne_nil sep rest)
      | cons piece pieces => simp

theorem splitAt_of_not_mem {sep : α} {cs : List α} (h : sep ∉ cs) : splitAt sep cs = [cs] := by
  induction cs with
  | nil => rfl
  | cons c rest ih =>
    rw [List.mem_cons, not_or] at h
    rw [splitAt, if_neg (Ne.symm h.1), ih h.2]

/-- A text without the separator lengthens the last piece. -/
theorem splitAt_append_of_not_mem {sep : α} (cs : List α) {ds : List α} (h : sep ∉ ds) :
    ∃ init last, splitAt sep cs = init ++ [last] ∧
      splitAt sep (cs ++ ds) = init ++ [last ++ ds] := by
  induction cs with
  | nil => exact ⟨[], [], rfl, by rw [List.nil_append, splitAt_of_not_mem h]; rfl⟩
  | cons c rest ih =>
    obtain ⟨init, last, h1, h2⟩ := ih
    rw [List.cons_append, splitAt, splitAt, h1, h2]
    by_cases hc : c = sep
    · exact ⟨[] :: init, last, by rw [if_pos hc]; rfl, by rw [if_pos hc]; rfl⟩
    · cases init with
      | nil => exact ⟨[], c :: last, by rw [if_neg hc]; rfl, by rw [if_neg hc]; rfl⟩
      | cons piece init =>
        exact ⟨(c :: piece) :: init, last, by rw [if_neg hc]; rfl, by rw [if_neg hc]; rfl⟩

theorem splitText_append_sep {s t : String} {sep : Char} :
    splitText sep (s ++ String.singleton sep ++ t) = splitText sep s ++ splitText sep t := by
  simp [splitText, splitAt_append_sep]

theorem splitText_of_not_mem {sep : Char} {s : String} (h : sep ∉ s.toList) :
    splitText sep s = [s] := by
  rw [splitText, splitAt_of_not_mem h]
  simp

theorem not_mem_of_mem_splitText {sep : Char} {s piece : String} (h : piece ∈ splitText sep s) :
    sep ∉ piece.toList := by
  rw [splitText, List.mem_map] at h
  obtain ⟨cs, hcs, rfl⟩ := h
  rw [String.toList_ofList]
  exact not_mem_of_mem_splitAt hcs

end Text

/-! ## Pieces -/

/-- A text between two slashes. -/
structure IsPiece (s : String) : Prop where
  ne_empty : s ≠ ""
  no_slash : '/' ∉ s.toList

namespace IsPiece

variable {s : String}

theorem pieces (h : IsPiece s) : (Path.mk s).pieces = [s] := Text.splitText_of_not_mem h.no_slash

theorem steps (h : IsPiece s) : FileSystem.steps ⟨s⟩ = [s] := by
  rw [FileSystem.steps, h.pieces]
  simp [h.ne_empty]

theorem not_isAbsolute (h : IsPiece s) : (Path.mk s).isAbsolute = false := by
  rw [Path.isAbsolute, decide_eq_false_iff_not]
  intro hs
  exact h.no_slash (List.mem_of_mem_head? hs)

theorem not_endsWithSlash (h : IsPiece s) : (Path.mk s).endsWithSlash = false := by
  rw [Path.endsWithSlash, decide_eq_false_iff_not]
  intro hs
  exact h.no_slash (List.mem_of_getLast? hs)

end IsPiece

/-! ## Names -/

/-- A text that is one step down: neither empty nor `.` nor `..`, and without a slash. -/
structure IsName (s : String) : Prop where
  ne_empty : s ≠ ""
  ne_current : s ≠ "."
  ne_parent : s ≠ ".."
  no_slash : '/' ∉ s.toList

instance : DecidablePred IsName := fun s =>
  decidable_of_iff (s ≠ "" ∧ s ≠ "." ∧ s ≠ ".." ∧ '/' ∉ s.toList)
    ⟨fun ⟨h₁, h₂, h₃, h₄⟩ => ⟨h₁, h₂, h₃, h₄⟩, fun ⟨h₁, h₂, h₃, h₄⟩ => ⟨h₁, h₂, h₃, h₄⟩⟩

namespace IsName

variable {s : String}

/-- A character other than a dot makes a text without slashes a name. -/
theorem of_mem {c : Char} (hmem : c ∈ s.toList) (hc : c ≠ '.') (hs : '/' ∉ s.toList) :
    IsName s := by
  refine ⟨?_, ?_, ?_, hs⟩
  · intro h
    rw [h] at hmem
    exact absurd hmem (by simp)
  · intro h
    rw [h] at hmem
    exact hc (by simpa using hmem)
  · intro h
    rw [h] at hmem
    exact hc (by simpa using hmem)

theorem isPiece (h : IsName s) : IsPiece s := ⟨h.ne_empty, h.no_slash⟩

theorem pieces (h : IsName s) : (Path.mk s).pieces = [s] := h.isPiece.pieces

theorem steps (h : IsName s) : FileSystem.steps ⟨s⟩ = [s] := h.isPiece.steps

theorem not_isAbsolute (h : IsName s) : (Path.mk s).isAbsolute = false := h.isPiece.not_isAbsolute

theorem not_endsWithSlash (h : IsName s) : (Path.mk s).endsWithSlash = false :=
  h.isPiece.not_endsWithSlash

end IsName

namespace Path

/-! ## Joining -/

theorem join_of_isAbsolute {q : Path} (p : Path) (h : q.isAbsolute = true) : p.join q = q := by
  rw [join, if_pos h]

theorem pieces_slash (s t : String) :
    pieces ⟨s ++ "/" ++ t⟩ = pieces ⟨s⟩ ++ pieces ⟨t⟩ :=
  @Text.splitText_append_sep s t '/'

/-- A text that ends with a slash, and what stands before that slash. -/
theorem exists_of_endsWithSlash {p : Path} (h : p.endsWithSlash = true) :
    ∃ s, p.text = s ++ "/" := by
  rw [endsWithSlash, decide_eq_true_eq] at h
  obtain ⟨cs, hcs⟩ := List.getLast?_eq_some_iff.mp h
  refine ⟨String.ofList cs, String.toList_inj.mp ?_⟩
  rw [hcs, String.toList_append, String.toList_ofList]
  rfl

theorem isAbsolute_append {s t : String} (hs : s ≠ "") :
    isAbsolute ⟨s ++ t⟩ = isAbsolute ⟨s⟩ := by
  have hne : s.toList ≠ [] := fun h => hs (String.toList_eq_nil_iff.mp h)
  obtain ⟨c, rest, hc⟩ := List.exists_cons_of_ne_nil hne
  simp [isAbsolute, hc]

theorem isAbsolute_join_of_ne {p q : Path} (hp : p.text ≠ "") (hq : q.isAbsolute = false) :
    (p.join q).isAbsolute = p.isAbsolute := by
  rw [join, if_neg (by rw [hq]; decide)]
  split
  · rw [isAbsolute_append hp]
  · rw [String.append_assoc, isAbsolute_append hp]

theorem isAbsolute_child {p : Path} {name : String} (hp : p.text ≠ "") (h : IsName name) :
    (p.child name).isAbsolute = p.isAbsolute := isAbsolute_join_of_ne hp h.not_isAbsolute

theorem endsWithSlash_append {s t : String} (ht : t ≠ "") :
    endsWithSlash ⟨s ++ t⟩ = endsWithSlash ⟨t⟩ := by
  simp [endsWithSlash, List.getLast?_append, ht]

theorem endsWithSlash_join (p : Path) {q : Path} (hq : q.text ≠ "") :
    (p.join q).endsWithSlash = q.endsWithSlash := by
  rw [join]
  split
  · rfl
  · split <;> rw [endsWithSlash_append hq]

end Path

namespace FileSystem

theorem mem_steps {p : Path} {piece : String} :
    piece ∈ steps p ↔ piece ∈ p.pieces ∧ piece ≠ "" := by
  simp [steps]

theorem no_slash_of_mem_steps {p : Path} {piece : String} (h : piece ∈ steps p) :
    '/' ∉ piece.toList := Text.not_mem_of_mem_splitText (mem_steps.mp h).1

theorem steps_append_slash (s t : String) :
    steps ⟨s ++ "/" ++ t⟩ = steps ⟨s⟩ ++ steps ⟨t⟩ := by
  rw [steps, Path.pieces_slash, List.filter_append]
  rfl

@[simp] theorem steps_empty : steps ⟨""⟩ = [] := by decide

/-- The steps of a joined path are those of its parts. -/
theorem steps_join (p : Path) {q : Path} (h : q.isAbsolute = false) :
    steps (p.join q) = steps p ++ steps q := by
  rw [Path.join, if_neg (by rw [h]; decide)]
  split
  · rename_i hp
    rw [Bool.or_eq_true, decide_eq_true_eq] at hp
    rcases hp with hp | hp
    · obtain ⟨text⟩ := p
      obtain rfl : text = "" := hp
      rw [steps_empty, List.nil_append, String.empty_append]
    · obtain ⟨s, hs⟩ := Path.exists_of_endsWithSlash hp
      obtain ⟨text⟩ := p
      obtain rfl : text = s ++ "/" := hs
      have hslash : steps ⟨s ++ "/"⟩ = steps ⟨s⟩ := by
        have := steps_append_slash s ""
        rwa [String.append_empty, steps_empty, List.append_nil] at this
      rw [steps_append_slash, hslash]
  · exact steps_append_slash p.text q.text

theorem steps_child (p : Path) {name : String} (h : IsName name) :
    steps (p.child name) = steps p ++ [name] := by
  rw [Path.child, steps_join p h.not_isAbsolute, h.steps]

end FileSystem

theorem Path.text_ne_empty_of_steps {p : Path} (h : FileSystem.steps p ≠ []) : p.text ≠ "" := by
  intro hp
  obtain ⟨text⟩ := p
  obtain rfl : text = "" := hp
  exact h FileSystem.steps_empty

theorem Path.child_text_ne_empty (p : Path) {name : String} (h : IsName name) :
    (p.child name).text ≠ "" := by
  apply text_ne_empty_of_steps
  rw [FileSystem.steps_child p h]
  simp

end PluginManager
