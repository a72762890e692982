import PluginManager.Toml.Basic

/-!
# One table over another

* `Toml.Ordered`: a table with its names in order, down to every depth.
* `Toml.lookup_mergeFields_of_none`, `lookup_mergeFields_of_some`: what is found under one name, by
  induction on the table that is laid over the other.
* `Toml.at?_mergeAt_of_some`, `at?_mergeAt_of_none`: what is found at the end of a path, by
  induction on the path.
* `Toml.Overlaid`: **the law of merging**, and `overlaid_mergeFields`: merging follows it.
-/

namespace PluginManager.Toml

variable {name key : String} {value v w : Toml} {base overlay fields more : List (String × Toml)}
  {path : List String}

/-! ## Order -/

/-- The names of a table are in order, and so are those of the tables in it. -/
inductive Ordered : List (String × Toml) → Prop
  | nil : Ordered []
  | cons {name : String} {value : Toml} {rest : List (String × Toml)}
      (hname : ∀ field ∈ rest, name < field.1)
      (hvalue : ∀ fields, value = table fields → Ordered fields) (hrest : Ordered rest) :
      Ordered ((name, value) :: rest)

/-- A value whose names are in order if it is a table. -/
def Orderly (v : Toml) : Prop := ∀ fields, v = table fields → Ordered fields

theorem orderly_table : Orderly (table fields) ↔ Ordered fields :=
  ⟨fun h => h fields rfl, fun h _ he => by cases he; exact h⟩

theorem Ordered.orderly (h : Ordered fields) (hlookup : fields.lookup name = some v) :
    Orderly v := by
  induction h with
  | nil => cases hlookup
  | cons _ hvalue _ _ ih =>
    rw [List.lookup_cons] at hlookup
    split at hlookup
    · cases hlookup
      exact hvalue
    · exact ih hlookup

theorem lookup_eq_none_of_lt (h : ∀ field ∈ fields, name < field.1) :
    fields.lookup name = none := by
  rw [List.lookup_eq_none_iff]
  intro field hfield
  rw [bne_iff_ne]
  rintro rfl
  exact String.lt_irrefl _ (h field hfield)

/-! ## Names -/

/-- A value laid over what is there, if anything is. -/
def mergeAt (base : Option Toml) (overlay : Toml) : Toml := base.elim overlay (merge · overlay)

theorem mergeFields_cons (base : List (String × Toml)) (name : String) (value : Toml)
    (rest : List (String × Toml)) :
    mergeFields base ((name, value) :: rest) =
      mergeFields (Fields.insert name (mergeAt (base.lookup name) value) base) rest := by
  rw [mergeFields, mergeAt]
  cases base.lookup name <;> rfl

theorem lookup_mergeFields_of_none (hkey : overlay.lookup key = none)
    (base : List (String × Toml)) : (mergeFields base overlay).lookup key = base.lookup key := by
  induction overlay generalizing base with
  | nil => rw [mergeFields]
  | cons field rest ih =>
    obtain ⟨name, value⟩ := field
    rw [List.lookup_cons] at hkey
    split at hkey
    · cases hkey
    · rename_i hne
      rw [mergeFields_cons, ih hkey, Fields.lookup_insert_of_ne (by simpa using hne)]

theorem lookup_mergeFields_of_some (h : Ordered overlay) (hkey : overlay.lookup key = some v)
    (base : List (String × Toml)) :
    (mergeFields base overlay).lookup key = some (mergeAt (base.lookup key) v) := by
  induction h generalizing base with
  | nil => cases hkey
  | @cons name value rest hname _ _ _ ih =>
    rw [mergeFields_cons]
    rw [List.lookup_cons] at hkey
    split at hkey
    · rename_i heq
      obtain rfl : key = name := by simpa using heq
      cases hkey
      rw [lookup_mergeFields_of_none (lookup_eq_none_of_lt hname), Fields.lookup_insert_self]
    · rename_i hne
      rw [ih hkey, Fields.lookup_insert_of_ne (by simpa using hne)]

/-! ## Paths -/

theorem at?_append (v : Toml) (path more : List String) :
    v.at? (path ++ more) = (v.at? path).bind (at? · more) := by
  induction path generalizing v with
  | nil => rfl
  | cons key rest ih =>
    cases v with
    | table fields =>
      rw [List.cons_append, at?, at?]
      cases fields.lookup key with
      | none => rfl
      | some v => exact ih v
    | _ => rfl

theorem at?_eq_none_of_not_table (h : ∀ fields, v ≠ table fields) (key : String)
    (rest : List String) : v.at? (key :: rest) = none := by
  cases v with
  | table fields => exact absurd rfl (h fields)
  | _ => rfl

theorem merge_of_base_not_table (h : ∀ fields, v ≠ table fields) (w : Toml) : merge v w = w := by
  cases v with
  | table fields => exact absurd rfl (h fields)
  | _ => cases w <;> rw [merge] <;> simp

theorem mergeAt_of_base_not_table {b : Option Toml} (h : ∀ fields, b ≠ some (table fields))
    (w : Toml) : mergeAt b w = w := by
  cases b with
  | none => rfl
  | some v => exact merge_of_base_not_table (fun fields he => h fields (by rw [he])) w

theorem mergeAt_of_not_table (h : ∀ fields, w ≠ table fields) (b : Option Toml) :
    mergeAt b w = w := by
  cases b with
  | none => rfl
  | some v =>
    cases w with
    | table fields => exact absurd rfl (h fields)
    | _ => cases v <;> rw [mergeAt, Option.elim, merge] <;> simp

/-- Nothing is below what is no table. -/
theorem bind_at?_eq_none {b : Option Toml} (h : ∀ fields, b ≠ some (table fields)) (key : String)
    (rest : List String) : b.bind (at? · (key :: rest)) = none := by
  cases b with
  | none => rfl
  | some v => exact at?_eq_none_of_not_table (fun fields he => h fields (by rw [he])) key rest

/-- Where both have a value, one is laid over the other. -/
theorem at?_mergeAt_of_some {b : Option Toml} (h : Orderly v) (hpath : v.at? path = some w) :
    (mergeAt b v).at? path = some (mergeAt (b.bind (at? · path)) w) := by
  induction path generalizing b v with
  | nil =>
    obtain rfl := Option.some.inj hpath
    cases b <;> rfl
  | cons key rest ih =>
    -- Only a table over a table goes on with both.
    by_cases hb : ∃ fields, b = some (table fields)
    · obtain ⟨fields, rfl⟩ := hb
      cases v with
      | table more =>
        rw [at?, Option.bind_eq_some_iff] at hpath
        obtain ⟨v, hkey, hrest⟩ := hpath
        have hmore := orderly_table.mp h
        show ((mergeFields fields more).lookup key).bind (at? · rest) = _
        rw [lookup_mergeFields_of_some hmore hkey, Option.bind_some, ih (hmore.orderly hkey) hrest]
        rfl
      | _ => cases hpath
    · have hnot : ∀ fields, b ≠ some (table fields) := fun fields he => hb ⟨fields, he⟩
      rw [mergeAt_of_base_not_table hnot, hpath, bind_at?_eq_none hnot]
      rfl

/-- A value that is no table stands above the end of the path. -/
def Stops (v : Toml) (path : List String) : Prop :=
  ∃ before key after w, path = before ++ key :: after ∧ v.at? before = some w ∧
    ∀ fields, w ≠ table fields

theorem Stops.cons {rest : List String} (hkey : fields.lookup key = some v) (h : Stops v rest) :
    Stops (table fields) (key :: rest) := by
  obtain ⟨before, name, after, w, rfl, hbefore, hw⟩ := h
  exact ⟨key :: before, name, after, w, rfl, by rw [at?, hkey]; exact hbefore, hw⟩

/-- What the value on top does not reach is what it was, unless something stands above it. -/
theorem at?_mergeAt_of_none {b : Option Toml} (h : Orderly v) (hpath : v.at? path = none)
    (hstops : ¬ Stops v path) : (mergeAt b v).at? path = b.bind (at? · path) := by
  induction path generalizing b v with
  | nil => cases hpath
  | cons key rest ih =>
    by_cases hb : ∃ fields, b = some (table fields)
    · obtain ⟨fields, rfl⟩ := hb
      cases v with
      | table more =>
        have hmore := orderly_table.mp h
        show ((mergeFields fields more).lookup key).bind (at? · rest) =
          (fields.lookup key).bind (at? · rest)
        cases hkey : more.lookup key with
        | none => rw [lookup_mergeFields_of_none hkey]
        | some v =>
          rw [at?, hkey] at hpath
          rw [lookup_mergeFields_of_some hmore hkey, Option.bind_some,
            ih (hmore.orderly hkey) hpath fun h => hstops (h.cons hkey)]
      | _ => exact absurd ⟨[], key, rest, _, rfl, rfl, fun _ he => by cases he⟩ hstops
    · have hnot : ∀ fields, b ≠ some (table fields) := fun fields he => hb ⟨fields, he⟩
      rw [mergeAt_of_base_not_table hnot, hpath, bind_at?_eq_none hnot]

/-! ## The law -/

/-- `merged` is `overlay` laid over `base`: what is found at the end of a path is

* the value on top where that is no table, or where there is no table under it;
* of two tables, one laid over the other;
* nothing below a value on top that is no table;
* what it was, where there is nothing on top and no such value above. -/
structure Overlaid (base overlay merged : List (String × Toml)) : Prop where
  value : ∀ path w, (table overlay).at? path = some w → (∀ fields, w ≠ table fields) →
    (table merged).at? path = some w
  fresh : ∀ path more, (table overlay).at? path = some (table more) →
    (∀ fields, (table base).at? path ≠ some (table fields)) →
    (table merged).at? path = some (table more)
  tables : ∀ path fields more, (table base).at? path = some (table fields) →
    (table overlay).at? path = some (table more) →
    (table merged).at? path = some (table (mergeFields fields more))
  below : ∀ path w key rest, (table overlay).at? path = some w → (∀ fields, w ≠ table fields) →
    (table merged).at? (path ++ key :: rest) = none
  kept : ∀ path, (table overlay).at? path = none → ¬ Stops (table overlay) path →
    (table merged).at? path = (table base).at? path

/-- **Merging lays one table over the other**, at every depth. -/
theorem overlaid_mergeFields (h : Ordered overlay) (base : List (String × Toml)) :
    Overlaid base overlay (mergeFields base overlay) := by
  have horderly := orderly_table.mpr h
  have hsome : ∀ path w, (table overlay).at? path = some w →
      (table (mergeFields base overlay)).at? path =
        some (mergeAt ((table base).at? path) w) := fun path w hpath =>
    at?_mergeAt_of_some (b := some (table base)) horderly hpath
  have hvalue : ∀ path w, (table overlay).at? path = some w → (∀ fields, w ≠ table fields) →
      (table (mergeFields base overlay)).at? path = some w := fun path w hpath hw => by
    rw [hsome path w hpath, mergeAt_of_not_table hw]
  refine ⟨hvalue, fun path more hpath hbase => ?_, fun path fields more hbase hpath => ?_,
    fun path w key rest hpath hw => ?_, fun path hpath hstops => ?_⟩
  · rw [hsome path _ hpath, mergeAt_of_base_not_table hbase]
  · rw [hsome path _ hpath, hbase]
    rfl
  · rw [at?_append, hvalue path w hpath hw]
    exact at?_eq_none_of_not_table hw key rest
  · exact at?_mergeAt_of_none (b := some (table base)) horderly hpath hstops

end PluginManager.Toml
