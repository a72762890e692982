/-!
# Fields sorted by name

* `insert`: a value under a name, in place of the one that was there.
* `lookup_insert_self`, `lookup_insert_of_ne`: what is found afterwards.
-/

namespace PluginManager.Fields

variable {α : Type}

def insert (name : String) (value : α) : List (String × α) → List (String × α)
  | [] => [(name, value)]
  | (n, v) :: rest =>
    if name < n then (name, value) :: (n, v) :: rest
    else if name = n then (name, value) :: rest
    else (n, v) :: insert name value rest

def ofList (fields : List (String × α)) : List (String × α) :=
  fields.foldl (fun acc (n, v) => insert n v acc) []

theorem lookup_insert_self (name : String) (value : α) (fields : List (String × α)) :
    (insert name value fields).lookup name = some value := by
  induction fields with
  | nil => simp [insert]
  | cons f rest ih =>
    obtain ⟨n, v⟩ := f
    unfold insert
    split
    · simp
    · split
      · simp
      · rename_i h
        simpa [List.lookup_cons, beq_false_of_ne h] using ih

theorem lookup_insert_of_ne {name other : String} (h : other ≠ name) (value : α)
    (fields : List (String × α)) :
    (insert name value fields).lookup other = fields.lookup other := by
  induction fields with
  | nil => simp [insert, List.lookup_cons, beq_false_of_ne h]
  | cons f rest ih =>
    obtain ⟨n, v⟩ := f
    unfold insert
    split
    · simp [List.lookup_cons, beq_false_of_ne h]
    · split
      · rename_i he
        subst he
        simp [List.lookup_cons, beq_false_of_ne h]
      · simp only [List.lookup_cons]
        split
        · rfl
        · exact ih

end PluginManager.Fields
