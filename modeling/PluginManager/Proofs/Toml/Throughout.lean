import PluginManager.Proofs.Toml.Merge
import PluginManager.Toml.Document

/-!
# What lasts in documents

A document is made by reading values and inserting them under names.  What holds of every value that
can be read, and does not end when a name is inserted, holds of a whole document, at every depth.

* `Toml.Throughout`: a property of a value and of everything inside it.
* `Toml.Lasting`: a property that reading and inserting keep.
* `Toml.descend_filled`, `Block.apply_filled`: a change at the end of a path keeps it, by induction
  on the path, and so does a block.
* `Toml.readValue_throughout`: values have it, by induction on the depth of brackets.
* `Toml.parse_throughout`: **what lasts holds throughout every document**.
* `Toml.Throughout.merge`: one document laid over another keeps it.
-/

namespace PluginManager.Toml

variable {P : Toml → Prop} {name : String} {value v : Toml} {list : List Toml}
  {fields more : List (String × Toml)} {items items' : Items} {cs rest : List Char}

/-! ## Everything inside a value -/

/-- `P` holds of a value and of everything inside it. -/
inductive Throughout (P : Toml → Prop) : Toml → Prop
  | intro {v : Toml} (here : P v)
      (inArray : ∀ list, v = array list → ∀ w ∈ list, Throughout P w)
      (inTable : ∀ fields, v = table fields → ∀ field ∈ fields, Throughout P field.2) :
      Throughout P v

theorem Throughout.here (h : Throughout P v) : P v := by
  cases h with
  | intro here _ _ => exact here

theorem throughout_array :
    Throughout P (array list) ↔ P (array list) ∧ ∀ w ∈ list, Throughout P w := by
  constructor
  · rintro ⟨here, inArray, -⟩
    exact ⟨here, inArray _ rfl⟩
  · rintro ⟨here, inside⟩
    exact .intro here (fun _ he => by cases he; exact inside) fun _ he => by cases he

theorem throughout_table : Throughout P (table fields) ↔
    P (table fields) ∧ ∀ field ∈ fields, Throughout P field.2 := by
  constructor
  · rintro ⟨here, -, inTable⟩
    exact ⟨here, inTable _ rfl⟩
  · rintro ⟨here, inside⟩
    exact .intro here (fun _ he => by cases he) fun _ he => by cases he; exact inside

theorem Throughout.lookup (h : Throughout P (table fields))
    (hlookup : fields.lookup name = some v) : Throughout P v := by
  obtain ⟨before, after, rfl, -⟩ := List.lookup_eq_some_iff.mp hlookup
  exact (throughout_table.mp h).2 (name, v) (by simp)

/-! ## Properties that last -/

/-- Whatever can be read has the property, and inserting under a name keeps it. -/
structure Lasting (P : Toml → Prop) : Prop where
  string : ∀ s, P (string s)
  integer : ∀ n : Int, -Nat.pow 2 63 ≤ n → n < Nat.pow 2 63 → P (integer n)
  float : ∀ text, P (float text)
  boolean : ∀ b, P (boolean b)
  moment : ∀ text, P (moment text)
  array : ∀ list, P (array list)
  empty : P (table [])
  insert : ∀ fields name value, P (table fields) → P (table (Fields.insert name value fields))

theorem Lasting.throughout_array (hP : Lasting P) (h : ∀ w ∈ list, Throughout P w) :
    Throughout P (.array list) :=
  Toml.throughout_array.mpr ⟨hP.array list, h⟩

theorem forall_mem_insert {Q : String × Toml → Prop} (hnew : Q (name, value))
    (h : ∀ field ∈ fields, Q field) : ∀ field ∈ Fields.insert name value fields, Q field := by
  induction fields with
  | nil => simpa [Fields.insert] using hnew
  | cons field rest ih =>
    obtain ⟨n, v⟩ := field
    rw [List.forall_mem_cons] at h
    unfold Fields.insert
    split
    · exact List.forall_mem_cons.mpr ⟨hnew, List.forall_mem_cons.mpr h⟩
    · split
      · exact List.forall_mem_cons.mpr ⟨hnew, h.2⟩
      · exact List.forall_mem_cons.mpr ⟨h.1, ih h.2⟩

theorem Throughout.insert (hP : Lasting P) (h : Throughout P (table fields))
    (hvalue : Throughout P value) : Throughout P (table (Fields.insert name value fields)) := by
  obtain ⟨here, inside⟩ := throughout_table.mp h
  exact throughout_table.mpr ⟨hP.insert fields name value here, forall_mem_insert hvalue inside⟩

/-! ## Tables being filled -/

theorem finishItems_insert (name : String) (item : Item) (items : Items) :
    finishItems (Fields.insert name item items) =
      Fields.insert name item.finish (finishItems items) := by
  induction items with
  | nil => rfl
  | cons entry rest ih =>
    obtain ⟨n, i⟩ := entry
    rw [Fields.insert, finishItems, Fields.insert]
    split
    · rw [finishItems, finishItems]
    · split
      · rw [finishItems]
      · rw [finishItems, ih]

theorem lookup_finishItems (name : String) (items : Items) :
    (finishItems items).lookup name = (items.lookup name).map Item.finish := by
  induction items with
  | nil => rfl
  | cons entry rest ih =>
    obtain ⟨n, i⟩ := entry
    rw [finishItems, List.lookup_cons, List.lookup_cons]
    split
    · rfl
    · exact ih

theorem mem_finishAll {before : List Items} {done : List Toml} :
    v ∈ finishAll before done ↔ v ∈ done ∨ ∃ items ∈ before, v = table (finishItems items) := by
  induction before generalizing done with
  | nil => simp [finishAll]
  | cons items before ih =>
    rw [finishAll, ih]
    simp [or_left_comm, or_assoc]

/-- `P` holds of the table that is being filled, and throughout it. -/
def Filled (P : Toml → Prop) (items : Items) : Prop := Throughout P (table (finishItems items))

theorem Filled.nil (hP : Lasting P) : Filled P [] :=
  throughout_table.mpr ⟨hP.empty, fun _ hfield => by cases hfield⟩

theorem Filled.insert {item : Item} (hP : Lasting P) (h : Filled P items)
    (hitem : Throughout P item.finish) : Filled P (Fields.insert name item items) := by
  rw [Filled, finishItems_insert]
  exact Throughout.insert hP h hitem

theorem Filled.lookup {item : Item} (h : Filled P items) (hlookup : items.lookup name = some item) :
    Throughout P item.finish :=
  Throughout.lookup h (by rw [lookup_finishItems, hlookup]; rfl)

theorem throughout_tables (hP : Lasting P) {last : Items} {before : List Items} :
    Throughout P (Item.tables last before).finish ↔
      Filled P last ∧ ∀ items ∈ before, Filled P items := by
  rw [Item.finish, throughout_array, and_iff_right (hP.array _)]
  constructor
  · intro h
    exact ⟨h _ (mem_finishAll.mpr (.inl (List.mem_singleton.mpr rfl))),
      fun items hitems => h _ (mem_finishAll.mpr (.inr ⟨items, hitems, rfl⟩))⟩
  · rintro ⟨hlast, hbefore⟩ w hw
    obtain hw | ⟨items, hitems, rfl⟩ := mem_finishAll.mp hw
    · rw [List.mem_singleton.mp hw]
      exact hlast
    · exact hbefore items hitems

theorem descend_filled (hP : Lasting P) {dotted : Bool} {change : Origin → Items → Option Items}
    {path : List String} {origin : Origin}
    (hchange : ∀ o is is', Filled P is → change o is = some is' → Filled P is')
    (h : Filled P items) (hdescend : descend dotted change path origin items = some items') :
    Filled P items' := by
  induction path generalizing origin items items' with
  | nil => exact hchange _ _ _ h hdescend
  | cons name rest ih =>
    rw [descend, Option.map_eq_some_iff] at hdescend
    obtain ⟨item, hitem, rfl⟩ := hdescend
    refine h.insert hP ?_
    split at hitem
    · obtain ⟨inner, hinner, rfl⟩ := Option.map_eq_some_iff.mp hitem
      exact ih (.nil hP) hinner
    · cases hitem
    · rename_i o is hlookup
      split at hitem
      · cases hitem
      · obtain ⟨inner, hinner, rfl⟩ := Option.map_eq_some_iff.mp hitem
        exact ih (h.lookup hlookup) hinner
    · rename_i hlookup
      obtain ⟨last, hlast, rfl⟩ := Option.map_eq_some_iff.mp hitem
      obtain ⟨hold, hbefore⟩ := (throughout_tables hP).mp (h.lookup hlookup)
      exact (throughout_tables hP).mpr ⟨ih hold hlast, hbefore⟩

theorem Setting.apply_filled (hP : Lasting P) {s : Setting} (hvalue : Throughout P s.value)
    (h : Filled P items) (happly : s.apply items = some items') : Filled P items' := by
  refine descend_filled hP (fun o is is' his hchange => ?_) h happly
  split at hchange
  · cases hchange
  · split at hchange
    · cases hchange
    · cases hchange
      exact his.insert hP hvalue

/-! ## Values -/

theorem readSetting_throughout {value : Scan Toml} {s : Setting}
    (hvalue : ∀ cs v rest, value cs = some (v, rest) → Throughout P v)
    (h : readSetting value cs = some (s, rest)) : Throughout P s.value := by
  rw [readSetting] at h
  split at h
  · cases h
  · split at h
    · rw [Option.map_eq_some_iff] at h
      obtain ⟨⟨v, after⟩, hread, heq⟩ := h
      cases heq
      exact hvalue _ _ _ hread
    · cases h

theorem readItems_throughout (hP : Lasting P) {value : Scan Toml} {fuel : Nat} {done : List Toml}
    (hvalue : ∀ cs v rest, value cs = some (v, rest) → Throughout P v)
    (hdone : ∀ w ∈ done, Throughout P w) (h : readItems value fuel done cs = some (v, rest)) :
    Throughout P v := by
  have hreverse : ∀ {list : List Toml}, (∀ w ∈ list, Throughout P w) →
      Throughout P (.array list.reverse) := fun hlist =>
    hP.throughout_array fun w hw => hlist w (List.mem_reverse.mp hw)
  induction fuel generalizing done cs with
  | zero => cases h
  | succ fuel ih =>
    rw [readItems] at h
    split at h
    · cases h
      exact hreverse hdone
    · split at h
      · cases h
      · rename_i w _ hread
        have hdone' : ∀ u ∈ w :: done, Throughout P u :=
          List.forall_mem_cons.mpr ⟨hvalue _ _ _ hread, hdone⟩
        split at h
        · exact ih hdone' h
        · cases h
          exact hreverse hdone'
        · cases h

theorem readInline_throughout (hP : Lasting P) {value : Scan Toml} {fuel : Nat}
    (hvalue : ∀ cs v rest, value cs = some (v, rest) → Throughout P v) (hitems : Filled P items)
    (h : readInline value fuel items cs = some (v, rest)) : Throughout P v := by
  induction fuel generalizing items cs with
  | zero => cases h
  | succ fuel ih =>
    rw [readInline] at h
    split at h
    · cases h
    · rename_i s rest' hsetting
      split at h
      · cases h
      · rename_i items' happly
        have hfilled :=
          Setting.apply_filled hP (readSetting_throughout hvalue hsetting) hitems happly
        split at h
        · exact ih hfilled h
        · cases h
          exact hfilled
        · cases h

/-- What has nothing inside it. -/
def IsScalar : Toml → Prop
  | array _ => False
  | table _ => False
  | _ => True

theorem IsScalar.throughout (hscalar : v.IsScalar) (h : P v) : Throughout P v :=
  .intro h (fun _ he => by cases he; exact hscalar.elim) fun _ he => by cases he; exact hscalar.elim

theorem readMoment_eq_moment (h : readMoment cs = some (v, rest)) : ∃ text, v = .moment text := by
  rw [readMoment] at h
  split at h
  · obtain ⟨t, -, ht⟩ := Option.map_eq_some_iff.mp h
    cases ht
    exact ⟨_, rfl⟩
  · split at h
    · split at h
      · split at h
        · cases h
          exact ⟨_, rfl⟩
        · split at h <;> cases h <;> exact ⟨_, rfl⟩
      · cases h
        exact ⟨_, rfl⟩
    · cases h
      exact ⟨_, rfl⟩

theorem floatOf_eq_float {negative : Bool} {ds : List Char} {exponent : Int}
    (h : floatOf negative ds exponent = some v) : ∃ text, v = .float text := by
  rw [floatOf] at h
  split at h
  · cases h
    exact ⟨_, rfl⟩
  · split at h
    · cases h
      exact ⟨_, rfl⟩
    · cases h

theorem readFloat_eq_float (h : readFloat cs = some (v, rest)) : ∃ text, v = .float text := by
  have hfinish : ∀ negative ds exponent after,
      (floatOf negative ds exponent).map (·, after) = some (v, rest) → ∃ text, v = .float text := by
    intro negative ds exponent after hmap
    obtain ⟨w, hw, heq⟩ := Option.map_eq_some_iff.mp hmap
    cases heq
    exact floatOf_eq_float hw
  unfold readFloat at h
  dsimp only at h
  split at h
  · cases h
    exact ⟨_, rfl⟩
  · cases h
    exact ⟨_, rfl⟩
  · split at h
    · cases h
    · split at h
      · split at h
        · cases h
        · split at h <;> exact hfinish _ _ _ _ h
      · split at h
        · exact hfinish _ _ _ _ h
        · cases h

/-- Integers are read into 64 bits with a sign. -/
theorem integerOf_eq_integer {negative : Bool} {n : Nat}
    (h : integerOf negative n cs = some (v, rest)) :
    ∃ i : Int, v = .integer i ∧ -Nat.pow 2 63 ≤ i ∧ i < Nat.pow 2 63 := by
  rw [integerOf] at h
  split at h
  all_goals
    split at h
    · rename_i hn
      cases h
      refine ⟨_, rfl, ?_⟩
      rw [Nat.pow_eq] at hn ⊢
      omega
    · cases h

theorem readInteger_eq_integer (h : readInteger cs = some (v, rest)) :
    ∃ i : Int, v = .integer i ∧ -Nat.pow 2 63 ≤ i ∧ i < Nat.pow 2 63 := by
  unfold readInteger at h
  dsimp only at h
  split at h
  all_goals
    obtain ⟨_, -, hinteger⟩ := Option.bind_eq_some_iff.mp h
    exact integerOf_eq_integer hinteger

theorem readNumber_throughout (hP : Lasting P) (h : readNumber cs = some (v, rest)) :
    Throughout P v := by
  rw [readNumber] at h
  split at h
  · rename_i hmoment
    obtain ⟨text, rfl⟩ := readMoment_eq_moment (hmoment.trans h)
    exact IsScalar.throughout trivial (hP.moment text)
  · split at h
    · rename_i hfloat
      obtain ⟨text, rfl⟩ := readFloat_eq_float (hfloat.trans h)
      exact IsScalar.throughout trivial (hP.float text)
    · obtain ⟨i, rfl, hlow, hhigh⟩ := readInteger_eq_integer h
      exact IsScalar.throughout trivial (hP.integer i hlow hhigh)

theorem readValue_throughout (hP : Lasting P) {depth : Nat}
    (h : readValue depth cs = some (v, rest)) : Throughout P v := by
  induction depth using Nat.strongRecOn generalizing cs v rest with
  | ind depth ih =>
    rw [readValue.eq_def] at h
    dsimp only at h
    split at h
    · cases h
    · split at h
      · obtain ⟨s, -, hs⟩ := Option.map_eq_some_iff.mp h
        cases hs
        exact IsScalar.throughout trivial (hP.string _)
      · split at h
        · split at h
          · cases h
          · have hdeeper := fun cs v rest => @ih _ (Nat.lt_succ_self _) v cs rest
            split at h
            · exact readItems_throughout hP hdeeper (by simp) h
            · split at h
              · cases h
                exact Filled.nil hP
              · exact readInline_throughout hP hdeeper (.nil hP) h
        · split at h
          · cases h
            exact IsScalar.throughout trivial (hP.boolean _)
          · cases h
            exact IsScalar.throughout trivial (hP.boolean _)
          · exact readNumber_throughout hP h

/-! ## Blocks -/

theorem foldrM_invariant {α σ : Type} {Q : σ → Prop} {f : α → σ → Option σ} {xs : List α}
    {s s' : σ} (hstep : ∀ x ∈ xs, ∀ s s', Q s → f x s = some s' → Q s') (hs : Q s)
    (h : xs.foldrM f s = some s') : Q s' := by
  induction xs generalizing s' with
  | nil =>
    cases h
    exact hs
  | cons x rest ih =>
    rw [List.foldrM_cons] at h
    obtain ⟨s₁, hrest, hx⟩ := Option.bind_eq_some_iff.mp h
    rw [List.forall_mem_cons] at hstep
    exact hstep.1 _ _ (ih hstep.2 hrest) hx

/-- `P` holds throughout the values that a block sets. -/
def Block.Throughout (P : Toml → Prop) (b : Block) : Prop :=
  ∀ s ∈ b.settings, Toml.Throughout P s.value

theorem fill_filled (hP : Lasting P) {settings : List Setting}
    (hsettings : ∀ s ∈ settings, Throughout P s.value) (h : Filled P items)
    (hfill : fill settings items = some items') : Filled P items' :=
  foldrM_invariant (fun s hs _ _ => Setting.apply_filled hP (hsettings s hs)) h hfill

theorem Block.apply_filled (hP : Lasting P) {b : Block} (hb : b.Throughout P) (h : Filled P items)
    (happly : b.apply items = some items') : Filled P items' := by
  rw [Block.apply] at happly
  split at happly
  · exact fill_filled hP hb h happly
  · refine descend_filled hP (fun _ is is' his hchange => ?_) h happly
    obtain ⟨inner, hinner, rfl⟩ := Option.map_eq_some_iff.mp hchange
    obtain ⟨start, hstart, hfill⟩ := Option.bind_eq_some_iff.mp hinner
    refine his.insert hP (fill_filled hP hb ?_ hfill)
    split at hstart
    · cases hstart
      exact .nil hP
    · rename_i hlookup
      cases hstart
      exact his.lookup hlookup
    · cases hstart
  · refine descend_filled hP (fun _ is is' his hchange => ?_) h happly
    obtain ⟨before, hstart, hfill⟩ := Option.bind_eq_some_iff.mp hchange
    obtain ⟨last, hlast, rfl⟩ := Option.map_eq_some_iff.mp hfill
    refine his.insert hP ((throughout_tables hP).mpr ⟨fill_filled hP hb (.nil hP) hlast, ?_⟩)
    split at hstart
    · cases hstart
      simp
    · rename_i hlookup
      cases hstart
      exact List.forall_mem_cons.mpr ((throughout_tables hP).mp (his.lookup hlookup))
    · cases hstart

theorem readBlocks_throughout (hP : Lasting P) {fuel : Nat} {block : Block}
    {done blocks : List Block} (hblock : block.Throughout P) (hdone : ∀ b ∈ done, b.Throughout P)
    (h : readBlocks fuel block done cs = some blocks) : ∀ b ∈ blocks, b.Throughout P := by
  induction fuel generalizing block done cs with
  | zero => cases h
  | succ fuel ih =>
    have hall : ∀ b ∈ block :: done, b.Throughout P := List.forall_mem_cons.mpr ⟨hblock, hdone⟩
    rw [readBlocks] at h
    split at h
    · cases h
      exact hall
    · split at h
      · split at h
        · cases h
        · obtain ⟨_, -, hnext⟩ := Option.bind_eq_some_iff.mp h
          exact ih (fun s hs => by cases hs) hall hnext
      · split at h
        · obtain ⟨_, -, hnext⟩ := Option.bind_eq_some_iff.mp h
          exact ih hblock hdone hnext
        · split at h
          · cases h
          · rename_i hsetting
            obtain ⟨_, -, hnext⟩ := Option.bind_eq_some_iff.mp h
            have hvalue :=
              readSetting_throughout (fun _ _ _ => readValue_throughout hP) hsetting
            refine ih (fun s hs => ?_) hdone hnext
            obtain rfl | hs := List.mem_cons.mp hs
            · exact hvalue
            · exact hblock s hs

/-- **What lasts holds throughout a document**, however its text arranges it. -/
theorem parse_throughout (hP : Lasting P) {text : String} (h : parse text = some fields) :
    Throughout P (table fields) := by
  rw [parse] at h
  split at h
  · cases h
  · rename_i hblocks
    obtain ⟨items, hitems, rfl⟩ := Option.map_eq_some_iff.mp h
    have hall := readBlocks_throughout hP (fun s hs => by cases hs) (by simp) hblocks
    exact foldrM_invariant (Q := Filled P) (fun b hb _ _ => Block.apply_filled hP (hall b hb))
      (.nil hP) hitems

/-! ## One document over another -/

theorem Throughout.mergeFields (hP : Lasting P)
    (hmore : ∀ field ∈ more, ∀ base, Throughout P base → Throughout P (Toml.merge base field.2))
    (hvalues : ∀ field ∈ more, Throughout P field.2) (h : Throughout P (table fields)) :
    Throughout P (table (Toml.mergeFields fields more)) := by
  induction more generalizing fields with
  | nil =>
    rw [Toml.mergeFields]
    exact h
  | cons field rest ih =>
    obtain ⟨name, value⟩ := field
    rw [List.forall_mem_cons] at hmore hvalues
    rw [mergeFields_cons]
    refine ih hmore.2 hvalues.2 (h.insert hP ?_)
    cases hlookup : fields.lookup name with
    | none => exact hvalues.1
    | some old => exact hmore.1 old (h.lookup hlookup)

theorem Throughout.merge (hP : Lasting P) {base : Toml} (hbase : Throughout P base)
    (h : Throughout P v) : Throughout P (Toml.merge base v) := by
  induction h generalizing base with
  | @intro v here inArray inTable ihArray ihTable =>
    by_cases hboth : ∃ fields more, base = table fields ∧ v = table more
    · obtain ⟨fields, more, rfl, rfl⟩ := hboth
      rw [Toml.merge]
      exact Throughout.mergeFields hP (fun field hfield base => ihTable _ rfl field hfield)
        (inTable _ rfl) hbase
    · rw [Toml.merge]
      · exact .intro here inArray inTable
      · rintro fields more rfl rfl
        exact hboth ⟨fields, more, rfl, rfl⟩

end PluginManager.Toml
