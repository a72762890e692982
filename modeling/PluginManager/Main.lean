import PluginManager.Application
import PluginManager.FileSystem.Listing

/-!
# The command

Runs a command line on the file system that the standard input lists, one entry to a line, and
prints what the command prints, then the listing afterwards.  Nothing outside is touched, and there
is no network.
-/

namespace PluginManager

partial def readListing (input : IO.FS.Stream) (fs : FileSystem) : IO FileSystem := do
  let line ← input.getLine
  if line.isEmpty then return fs
  match (Json.parse (Text.encode line)).toOption.bind Listing.ofJson? with
  | some (p, e) => readListing input (Listing.apply fs p e)
  | none => readListing input fs

def offline : Cache.Fetch := fun url => .error (.network url "there is no network")

def runOnListing (words : List String) : IO UInt32 := do
  let home := (← IO.getEnv "HOME").filter (· ≠ "")
  let fs ← readListing (← IO.getStdin) FileSystem.empty
  let (ending, after) := Application.run ⟨⟨home⟩, 1, offline⟩ words fs
  IO.print ending.output
  IO.eprint ending.errors
  for entry in after.below [] do
    IO.println (Listing.toJson Listing.contentToJson entry).render
  return ending.exitCode.toUInt32

end PluginManager

def main (words : List String) : IO UInt32 := PluginManager.runOnListing words
