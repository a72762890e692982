import PluginManager.Path

/-!
# Roles

A component of a plugin is installed into one of four companion repositories.  The role fixes the
repository, the file by which its checkout is known, the files the component must ship and the
place the component gets inside the checkout.

* `Role.ofLabel?_eq_some_iff`: exactly the four labels are read, each as its own role.
* `Role.outputDirectory`: depends on role, author and component name alone.
-/

namespace PluginManager

inductive Role where
  | backend
  | admin
  | store
  | docker
  deriving DecidableEq, Repr, Inhabited

namespace Role

def all : List Role := [backend, admin, store, docker]

theorem mem_all (r : Role) : r ∈ all := by cases r <;> decide

def label : Role → String
  | backend => "backend"
  | admin => "admin"
  | store => "store"
  | docker => "docker"

instance : ToString Role := ⟨label⟩

def ofLabel? (text : String) : Option Role :=
  all.find? fun r => r.label = text

theorem ofLabel?_eq_some_iff {text : String} {r : Role} :
    ofLabel? text = some r ↔ r.label = text := by
  constructor
  · intro h
    simpa using List.find?_some h
  · rintro rfl
    cases r <;> decide

/-- The repository a target root of the role is a checkout of. -/
def repository : Role → String
  | backend => "bitcart"
  | admin => "bitcart-admin"
  | store => "bitcart-store"
  | docker => "bitcart-docker"

/-- The file at its root by which a checkout is known. -/
def marker : Role → String
  | backend => "gunicorn.conf.py"
  | docker => "setup.sh"
  | admin | store => "nuxt.config.js"

/-- What a component of the role must ship, relative to the component's directory. -/
def requiredFiles : Role → List Path
  | backend => [⟨"plugin.py"⟩]
  | admin | store => [⟨"index.js"⟩, ⟨"package.json"⟩, ⟨"config/index.js"⟩]
  | docker => []

/-- Where a component lands inside the target repository. -/
def outputDirectory (r : Role) (author component : String) : Path :=
  match r with
  | docker => (Path.mk "compose/plugins/docker").child (author ++ "_" ++ component)
  | backend => ((Path.mk "modules").child author).child component
  | admin | store => ((Path.mk "modules").child ("@" ++ author)).child component

end Role

end PluginManager
