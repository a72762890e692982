import PluginManager.Cache.Procedure
import PluginManager.Text.Blank

/-!
# The schema cache

The schema document is kept in a store beside the version it belongs to.  It is fetched when it is
missing, of another version, or too old.

* `versionOf?`: the version is the second-to-last piece of the address.
* `isFresh`: younger than the greatest age; a document from the future has age zero.
* `prepare`: the schema for an address.
-/

namespace PluginManager.Cache

def schemaKey : String := "plugin.schema.json"

def versionKey : String := "schema.version"

def versionOf? (url : String) : Option String :=
  match (Text.splitText '/' url).reverse with
  | _ :: version :: _ => if version = "" then none else some version
  | _ => none

def isFresh (now modified : Int) (maxAge : Nat) : Bool := max 0 (now - modified) < maxAge

def isMarkedAs (version : String) (marker : Bytes) : Bool :=
  Text.trim (Text.decodeLossy marker) = version

/-- Compiles what is in the store. -/
def useStored : Procedure Schema :=
  .read schemaKey fun
    | none => .fail (.schemaDocument .vanished)
    | some bytes =>
      match Schema.compile bytes with
      | .error defect => .fail (.schemaDocument defect)
      | .ok schema => .done schema

def refresh (url version : String) : Procedure Schema :=
  .fetch url fun body =>
    .write schemaKey body (.write versionKey (Text.encode version) useStored)

def prepareVersion (maxAge : Nat) (url version : String) : Procedure Schema :=
  .read versionKey fun
    | none => refresh url version
    | some marker =>
      if !isMarkedAs version marker then refresh url version
      else
        .modifiedAt schemaKey fun
          | none => refresh url version
          | some modified =>
            .now fun now =>
              if isFresh now modified maxAge then useStored else refresh url version

def prepare (maxAge : Nat) (url : String) : Procedure Schema :=
  match versionOf? url with
  | none => .fail (.schemaUrl url)
  | some version => prepareVersion maxAge url version

end PluginManager.Cache
