import PluginManager.Proofs.Toml.Throughout

/-!
# Names and numbers of documents

What lasts while a document is read: every table of it is made by inserting under names, so its
names are in order however the text arranges them; and its integers fit into 64 bits with a sign.

* `Toml.pairwise_insert`: inserting keeps the order.
* `Toml.parse_ordered`: **every document that is read is an ordered table**.
* `Toml.parse_signed`: **every integer of a document is below 2 ^ 63**, and stays so when the
  document is laid over another.
-/

namespace PluginManager.Toml

variable {name : String} {value v : Toml} {fields more : List (String × Toml)}

/-! ## Names in order -/

/-- The names of a value that is a table are in order. -/
def Sorted (v : Toml) : Prop := ∀ fields, v = table fields → fields.Pairwise (·.1 < ·.1)

theorem pairwise_insert (h : fields.Pairwise (·.1 < ·.1)) :
    (Fields.insert name value fields).Pairwise (·.1 < ·.1) := by
  induction fields with
  | nil => exact List.pairwise_singleton _ _
  | cons field rest ih =>
    obtain ⟨n, v⟩ := field
    obtain ⟨hfirst, hrest⟩ := List.pairwise_cons.mp h
    unfold Fields.insert
    split
    · rename_i hlt
      refine List.pairwise_cons.mpr ⟨List.forall_mem_cons.mpr ⟨hlt, fun field hfield => ?_⟩, h⟩
      exact String.lt_trans hlt (hfirst field hfield)
    · split
      · rename_i heq
        subst heq
        exact List.pairwise_cons.mpr ⟨hfirst, hrest⟩
      · rename_i hlt hne
        have hgt : n < name := by
          refine String.not_le.mp fun hle => hne ?_
          exact String.le_antisymm hle (String.not_lt.mp hlt)
        exact List.pairwise_cons.mpr ⟨forall_mem_insert hgt hfirst, ih hrest⟩

theorem lasting_sorted : Lasting Sorted where
  string _ _ he := by cases he
  integer _ _ _ _ he := by cases he
  float _ _ he := by cases he
  boolean _ _ he := by cases he
  moment _ _ he := by cases he
  array _ _ he := by cases he
  empty _ he := by cases he; exact .nil
  insert fields name value h _ he := by
    cases he
    exact pairwise_insert (h fields rfl)

theorem ordered_of_pairwise (h : fields.Pairwise (·.1 < ·.1))
    (hvalues : ∀ field ∈ fields, Orderly field.2) : Ordered fields := by
  induction fields with
  | nil => exact .nil
  | cons field rest ih =>
    obtain ⟨hfirst, hrest⟩ := List.pairwise_cons.mp h
    rw [List.forall_mem_cons] at hvalues
    exact .cons hfirst hvalues.1 (ih hrest hvalues.2)

theorem Throughout.orderly (h : Throughout Sorted v) : Orderly v := by
  induction h with
  | intro here _ _ _ ihTable =>
    rintro fields rfl
    exact ordered_of_pairwise (here fields rfl) (ihTable fields rfl)

/-- **A document is an ordered table**, however its text arranges it. -/
theorem parse_ordered {text : String} (h : parse text = some fields) : Ordered fields :=
  orderly_table.mp (parse_throughout lasting_sorted h).orderly

/-! ## Numbers in range -/

/-- A value that, if it is an integer, fits into 64 bits with a sign. -/
def Signed (v : Toml) : Prop := ∀ n, v = integer n → -Nat.pow 2 63 ≤ n ∧ n < Nat.pow 2 63

theorem lasting_signed : Lasting Signed where
  string _ _ he := by cases he
  integer _ hlow hhigh _ he := by cases he; exact ⟨hlow, hhigh⟩
  float _ _ he := by cases he
  boolean _ _ he := by cases he
  moment _ _ he := by cases he
  array _ _ he := by cases he
  empty _ he := by cases he
  insert _ _ _ _ _ he := by cases he

/-- **The integers of a document fit into 64 bits with a sign**, at every depth, and with them those
of the document laid over such a table. -/
theorem parse_signed {text : String} (h : parse text = some more)
    (hfields : Throughout Signed (table fields)) :
    Throughout Signed (table (mergeFields fields more)) := by
  have hmerge := hfields.merge lasting_signed (parse_throughout lasting_signed h)
  rwa [merge] at hmerge

end PluginManager.Toml
