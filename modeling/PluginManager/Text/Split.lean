/-!
# Texts cut at a separator

* `splitAt`: the pieces between separators; always at least one.
* `intercalate_splitAt`: the pieces joined by the separator are the text.
* `not_mem_of_mem_splitAt`: no piece holds the separator.
-/

namespace PluginManager.Text

variable {α : Type} [DecidableEq α]

def splitAt (sep : α) : List α → List (List α)
  | [] => [[]]
  | c :: rest =>
    if c = sep then [] :: splitAt sep rest
    else
      match splitAt sep rest with
      | [] => [[c]]
      | piece :: pieces => (c :: piece) :: pieces

theorem splitAt_ne_nil (sep : α) (cs : List α) : splitAt sep cs ≠ [] := by
  cases cs with
  | nil => simp [splitAt]
  | cons c rest =>
    unfold splitAt
    split
    · simp
    · split <;> simp

theorem intercalate_splitAt (sep : α) (cs : List α) : [sep].intercalate (splitAt sep cs) = cs := by
  induction cs with
  | nil => simp [splitAt, List.intercalate]
  | cons c rest ih =>
    unfold splitAt
    split
    · rename_i h
      subst h
      cases hs : splitAt c rest with
      | nil => exact absurd hs (splitAt_ne_nil c rest)
      | cons piece pieces =>
        rw [hs] at ih
        simpa [List.intercalate, List.intersperse] using ih
    · cases hs : splitAt sep rest with
      | nil => exact absurd hs (splitAt_ne_nil sep rest)
      | cons piece pieces =>
        rw [hs] at ih
        cases pieces <;> simp_all [List.intercalate, List.intersperse]

theorem not_mem_of_mem_splitAt {sep : α} {cs piece : List α} (h : piece ∈ splitAt sep cs) :
    sep ∉ piece := by
  induction cs generalizing piece with
  | nil => simp_all [splitAt]
  | cons c rest ih =>
    unfold splitAt at h
    split at h
    · rcases List.mem_cons.mp h with rfl | h
      · simp
      · exact ih h
    · rename_i hc
      split at h
      · rcases List.mem_singleton.mp h with rfl
        exact fun hmem => hc (List.mem_singleton.mp hmem).symm
      · rename_i first pieces hs
        rcases List.mem_cons.mp h with rfl | h
        · have := @ih first (by simp [hs])
          simp_all [eq_comm]
        · exact ih (by simp [hs, h])

/-- The pieces of a text between separators. -/
def splitText (sep : Char) (s : String) : List String :=
  (splitAt sep s.toList).map String.ofList

/-- The text before and after the first `sep`. -/
def splitFirst (sep : Char) (s : String) : Option (String × String) :=
  match s.toList.span (· ≠ sep) with
  | (_, []) => none
  | (before, _ :: after) => some (String.ofList before, String.ofList after)

end PluginManager.Text
