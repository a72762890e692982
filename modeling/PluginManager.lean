import PluginManager.Application
import PluginManager.Archive.Basic
import PluginManager.Archive.Create
import PluginManager.Binary64
import PluginManager.Binary64.Shortest
import PluginManager.Cache.Directory
import PluginManager.Cache.Memory
import PluginManager.Cache.Prepare
import PluginManager.Cache.Procedure
import PluginManager.CommandLine.Basic
import PluginManager.CommandLine.Parser
import PluginManager.CommandLine.Word
import PluginManager.Decode
import PluginManager.Failure
import PluginManager.Fields
import PluginManager.FileSystem.Basic
import PluginManager.FileSystem.Calls
import PluginManager.FileSystem.Error
import PluginManager.FileSystem.Listing
import PluginManager.FileSystem.Resolve
import PluginManager.FileSystem.Task
import PluginManager.FileSystem.Tree
import PluginManager.FileSystem.Walk
import PluginManager.Install
import PluginManager.Json.Basic
import PluginManager.Json.Cursor
import PluginManager.Json.Numeral
import PluginManager.Json.Parser
import PluginManager.Json.Printer
import PluginManager.Main
import PluginManager.Manifest.Basic
import PluginManager.Manifest.Read
import PluginManager.Package
import PluginManager.Path
import PluginManager.Proofs.Cache.Address
import PluginManager.Proofs.Cache.Atomicity
import PluginManager.Proofs.Cache.Call
import PluginManager.Proofs.Cache.Concurrency
import PluginManager.Proofs.Cache.Decision
import PluginManager.Proofs.Cache.Provenance
import PluginManager.Proofs.Cache.Race
import PluginManager.Proofs.Cache.Retention
import PluginManager.Proofs.Cache.Stage
import PluginManager.Proofs.Cache.Transparency
import PluginManager.Proofs.Cache.Writers
import PluginManager.Proofs.CommandLine.Targets
import PluginManager.Proofs.FileSystem.Absolute
import PluginManager.Proofs.FileSystem.Canonical
import PluginManager.Proofs.FileSystem.Copy
import PluginManager.Proofs.FileSystem.CopyTree
import PluginManager.Proofs.FileSystem.Descent
import PluginManager.Proofs.FileSystem.Directories
import PluginManager.Proofs.FileSystem.Downward
import PluginManager.Proofs.FileSystem.Enumeration
import PluginManager.Proofs.FileSystem.Exactness
import PluginManager.Proofs.FileSystem.Footprint
import PluginManager.Proofs.FileSystem.Frame
import PluginManager.Proofs.FileSystem.Halfway
import PluginManager.Proofs.FileSystem.Leaves
import PluginManager.Proofs.FileSystem.Operations
import PluginManager.Proofs.FileSystem.Overlay
import PluginManager.Proofs.FileSystem.Preparation
import PluginManager.Proofs.FileSystem.Reaches
import PluginManager.Proofs.FileSystem.Recopy
import PluginManager.Proofs.FileSystem.Remove
import PluginManager.Proofs.FileSystem.Replace
import PluginManager.Proofs.FileSystem.Route
import PluginManager.Proofs.FileSystem.SameBelow
import PluginManager.Proofs.FileSystem.Shrink
import PluginManager.Proofs.FileSystem.Sight
import PluginManager.Proofs.FileSystem.SortedWalk
import PluginManager.Proofs.FileSystem.Spelling
import PluginManager.Proofs.FileSystem.Times
import PluginManager.Proofs.FileSystem.Visits
import PluginManager.Proofs.FileSystem.WayDown
import PluginManager.Proofs.FileSystem.Written
import PluginManager.Proofs.Install.Again
import PluginManager.Proofs.Install.Confinement
import PluginManager.Proofs.Install.Effect
import PluginManager.Proofs.Install.InForce
import PluginManager.Proofs.Install.Layout
import PluginManager.Proofs.Install.Modes
import PluginManager.Proofs.Install.Operation
import PluginManager.Proofs.Install.Output
import PluginManager.Proofs.Install.Plan
import PluginManager.Proofs.Install.Questions
import PluginManager.Proofs.Install.Repeat
import PluginManager.Proofs.Install.Run
import PluginManager.Proofs.Install.Separation
import PluginManager.Proofs.Install.Site
import PluginManager.Proofs.Install.Stop
import PluginManager.Proofs.Install.Targets
import PluginManager.Proofs.Install.Touch
import PluginManager.Proofs.Install.Undo
import PluginManager.Proofs.Install.Validated
import PluginManager.Proofs.Manifest.Components
import PluginManager.Proofs.Manifest.Decoding
import PluginManager.Proofs.Manifest.Verdict
import PluginManager.Proofs.Package.ArchiveName
import PluginManager.Proofs.Package.Arrangement
import PluginManager.Proofs.Package.Artifacts
import PluginManager.Proofs.Package.Checks
import PluginManager.Proofs.Package.Contents
import PluginManager.Proofs.Package.Frame
import PluginManager.Proofs.Package.Independence
import PluginManager.Proofs.Package.Members
import PluginManager.Proofs.Package.Needs
import PluginManager.Proofs.Package.Repositories
import PluginManager.Proofs.Package.Reproduction
import PluginManager.Proofs.Package.Stripping
import PluginManager.Proofs.Package.Unpacked
import PluginManager.Proofs.Path.Absolute
import PluginManager.Proofs.Path.Ancestors
import PluginManager.Proofs.Path.Descent
import PluginManager.Proofs.Path.Downward
import PluginManager.Proofs.Path.Place
import PluginManager.Proofs.Path.Steps
import PluginManager.Proofs.Settings.Home
import PluginManager.Proofs.Settings.Layers
import PluginManager.Proofs.Settings.MaxAge
import PluginManager.Proofs.Settings.Presets
import PluginManager.Proofs.Text.Cut
import PluginManager.Proofs.Text.Order
import PluginManager.Proofs.Text.Utf8
import PluginManager.Proofs.Toml.Merge
import PluginManager.Proofs.Toml.Tables
import PluginManager.Proofs.Toml.Throughout
import PluginManager.Role
import PluginManager.Schema.Compile
import PluginManager.Schema.Meta
import PluginManager.Schema.Validate
import PluginManager.Schema.Violation
import PluginManager.Settings.Basic
import PluginManager.Settings.Load
import PluginManager.Settings.Read
import PluginManager.Target
import PluginManager.Text.Blank
import PluginManager.Text.Quoted
import PluginManager.Text.Split
import PluginManager.Text.Unprintable
import PluginManager.Text.Utf8
import PluginManager.Toml.Basic
import PluginManager.Toml.Document
import PluginManager.Toml.Numeral
import PluginManager.Toml.Text
import PluginManager.Validation
