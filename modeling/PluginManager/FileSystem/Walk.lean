import PluginManager.FileSystem.Calls

/-!
# Walking a tree

Everything below a directory, each directory before what is in it.  Links are met but not followed,
except at the root of the walk.

* `Visit`: a path with the names that lead to it from the root.
* `sortNames`: the names in order; `pairwise_sortNames` and `sortNames_perm` say so.
* `walk`: `enter` decides which entries are met at all, `order` in which order those of one
  directory come.
-/

namespace PluginManager.FileSystem

structure Visit where
  path : Path
  names : List String
  entry : Entry
  deriving Repr

namespace Visit

def depth (v : Visit) : Nat := v.names.length

def name (v : Visit) : String := v.names.getLastD ""

/-- The name of the directory it is in, when that is not the root of the walk. -/
def parentName? (v : Visit) : Option String := v.names.dropLast.getLast?

end Visit

/-- The orders in which a directory may be gone through. -/
inductive Order where
  | enumeration
  | sorted
  deriving DecidableEq, Repr

/-- Puts a name before the first that is not smaller. -/
def insertName (name : String) : List String → List String
  | [] => [name]
  | n :: rest => if name ≤ n then name :: n :: rest else n :: insertName name rest

def sortNames (names : List String) : List String := names.foldr insertName []

theorem insertName_perm (name : String) (names : List String) :
    (insertName name names).Perm (name :: names) := by
  induction names with
  | nil => exact List.Perm.refl _
  | cons n rest ih =>
    unfold insertName
    split
    · exact List.Perm.refl _
    · exact (ih.cons n).trans (List.Perm.swap name n rest)

theorem sortNames_perm (names : List String) : (sortNames names).Perm names := by
  induction names with
  | nil => exact List.Perm.refl _
  | cons n rest ih => exact (insertName_perm n (sortNames rest)).trans (ih.cons n)

theorem pairwise_insertName {name : String} {names : List String}
    (h : names.Pairwise (· ≤ ·)) : (insertName name names).Pairwise (· ≤ ·) := by
  induction names with
  | nil => simp [insertName]
  | cons n rest ih =>
    obtain ⟨hn, hr⟩ := List.pairwise_cons.mp h
    unfold insertName
    split
    · rename_i hle
      refine List.pairwise_cons.mpr ⟨?_, h⟩
      intro m hm
      rcases List.mem_cons.mp hm with rfl | hm
      · exact hle
      · exact String.le_trans hle (hn m hm)
    · rename_i hle
      refine List.pairwise_cons.mpr ⟨?_, ih hr⟩
      intro m hm
      rcases List.mem_cons.mp ((insertName_perm name rest).mem_iff.mp hm) with rfl | hm
      · exact (String.le_total m n).resolve_left hle
      · exact hn m hm

theorem pairwise_sortNames (names : List String) : (sortNames names).Pairwise (· ≤ ·) := by
  induction names with
  | nil => exact List.Pairwise.nil
  | cons n rest ih => exact pairwise_insertName ih

/-- The order in which names are enumerated makes no difference. -/
theorem sortNames_congr {names names' : List String} (h : names.Perm names') :
    sortNames names = sortNames names' :=
  List.Perm.eq_of_pairwise (fun _ _ _ _ => String.le_antisymm) (pairwise_sortNames names)
    (pairwise_sortNames names')
    ((sortNames_perm names).trans (h.trans (sortNames_perm names').symm))

def Order.arrange : Order → List String → List String
  | enumeration, names => names
  | sorted, names => sortNames names

theorem Order.arrange_perm (o : Order) (names : List String) : (o.arrange names).Perm names := by
  cases o with
  | enumeration => exact List.Perm.refl _
  | sorted => exact sortNames_perm names

/-- Visits what is below `location`; `levels` bounds the depth.  The limit on paths is put to the
root of a walk and not to the directories below. -/
def walkBelow (fs : FileSystem) (order : Order) (enter : Visit → Bool) :
    Nat → Location → Path → List String → List Visit
  | 0, _, _, _ => []
  | levels + 1, location, path, names =>
    (order.arrange (fs.names location)).flatMap fun name =>
      let k := location ++ [name]
      match fs.lookup k with
      | none => []
      | some entry =>
        let v : Visit := ⟨path.child name, names ++ [name], entry⟩
        if !enter v then []
        else if entry.isDirectory then v :: walkBelow fs order enter levels k v.path v.names
        else [v]

/-- A path that is just a dash names no directory to walk. -/
def isDash (p : Path) : Bool := p.components = [.normal "-"]

def walk (fs : FileSystem) (order : Order) (enter : Visit → Bool) (root : Path) :
    Except FileError (List Visit) :=
  if isDash root then .ok []
  else
    match fs.find false root with
    | .error e => .error e
    | .ok (_, .file ..) => .ok []
    | .ok (l, .directory _) => .ok (walkBelow fs order enter fs.height l root [])
    | .ok (_, .link _) =>
      match fs.find true root with
      | .error e => .error e
      | .ok (l, .directory _) => .ok (walkBelow fs order enter fs.height l root [])
      | .ok _ => .ok []

end PluginManager.FileSystem
