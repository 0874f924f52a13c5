import InfraGraph.Main
import InfraGraph.Proofs.Path
import InfraGraph.Proofs.Path.Relative
import InfraGraph.Proofs.SortedMap
import InfraGraph.Proofs.Failure
import InfraGraph.Proofs.Graph.Lineage
import InfraGraph.Proofs.Graph.Paths
import InfraGraph.Proofs.Graph.Dependencies
import InfraGraph.Proofs.Archive.Plan
import InfraGraph.Proofs.Text.ByteOrder
import InfraGraph.Proofs.Graph.Closure
import InfraGraph.Proofs.Archive.Names
import InfraGraph.Proofs.Archive.Contents
import InfraGraph.Proofs.Attachment.Memory
import InfraGraph.Proofs.Archive.Success
import InfraGraph.Proofs.Archive.Shape
import InfraGraph.Proofs.FileTree.Basic
import InfraGraph.Proofs.Path.Absolute
import InfraGraph.Proofs.FileTree.System
import InfraGraph.Proofs.Archive.Unpack
import InfraGraph.Proofs.Archive.Tree
import InfraGraph.Proofs.Import.NodeIds
import InfraGraph.Proofs.Import.Scan
import InfraGraph.Proofs.Import.Reconstruct
import InfraGraph.Proofs.Import.Upload
import InfraGraph.Proofs.Import.Folder
import InfraGraph.Proofs.Import.Restore
import InfraGraph.Proofs.Graph.Copy
import InfraGraph.Proofs.Import.Found
import InfraGraph.Proofs.RoundTrip
import InfraGraph.Proofs.Archive.Confinement
import InfraGraph.Proofs.Graph.Worklist
import InfraGraph.Proofs.Json.RoundTrip
import InfraGraph.Proofs.Attachment.Record
import InfraGraph.Proofs.Attachment.Requests
import InfraGraph.Proofs.FileTree.Operations
import InfraGraph.Proofs.Attachment.Place
import InfraGraph.Proofs.Attachment.Tidy
import InfraGraph.Proofs.Attachment.Mirror
import InfraGraph.Proofs.Attachment.Changes
import InfraGraph.Proofs.Attachment.Agreement
import InfraGraph.Proofs.Attachment.Exact
import InfraGraph.Proofs.Attachment.Lookup
import InfraGraph.Proofs.Archive.Twin
import InfraGraph.Proofs.Archive.Relabel
import InfraGraph.Proofs.Archive.Irrelevant
import InfraGraph.Proofs.Archive.Failures
import InfraGraph.Proofs.Import.Visit
import InfraGraph.Proofs.Graph.Forest
import InfraGraph.Proofs.Import.Edges
import InfraGraph.Proofs.Config.Declarations
import InfraGraph.Proofs.Import.WellFormed
import InfraGraph.Proofs.Import.Isolation
import InfraGraph.Proofs.Import.Coverage
import InfraGraph.Proofs.FileTree.Listing
import InfraGraph.Proofs.Import.Places
import InfraGraph.Proofs.Import.Attached
import InfraGraph.Proofs.Import.Restorable
import InfraGraph.Proofs.Import.PathIds
import InfraGraph.Proofs.Import.Stable
import InfraGraph.Proofs.Hcl.Lexical
import InfraGraph.Proofs.Hcl.Keys
import InfraGraph.Proofs.Hcl.Written
import InfraGraph.Proofs.Hcl.Escapes
import InfraGraph.Proofs.Hcl.Plain
import InfraGraph.Proofs.Hcl.Terms
import InfraGraph.Proofs.Hcl.Values
import InfraGraph.Proofs.Hcl.Body
import InfraGraph.Proofs.Config.ReadBack
import InfraGraph.Proofs.Import.Writable
import InfraGraph.Proofs.Import.Stability
import InfraGraph.Proofs.Graph.Preorder
import InfraGraph.Proofs.Archive.Levels
import InfraGraph.Proofs.Catalog.Refresher
import InfraGraph.Proofs.Json.Pretty
import InfraGraph.Proofs.Decimal.Nearest
import InfraGraph.Proofs.Decimal.Shortest
import InfraGraph.Proofs.Json.Number
import InfraGraph.Proofs.Json.Float
import InfraGraph.Proofs.Graph.Json
import InfraGraph.Proofs.Import.Saved
import InfraGraph.Proofs.Graph.Siblings
import InfraGraph.Proofs.Graph.FirstFault
import InfraGraph.Proofs.Import.Linking
import InfraGraph.Proofs.Config.Parts
import InfraGraph.Proofs.Import.Directories
import InfraGraph.Proofs.Import.Dependencies
import InfraGraph.Proofs.Hcl.Literals
import InfraGraph.Proofs.Config.Literals
import InfraGraph.Proofs.Graph.Parents
import InfraGraph.Proofs.Graph.Layout
import InfraGraph.Proofs.Graph.PostOrder
import InfraGraph.Proofs.Graph.Sizing
import InfraGraph.Proofs.Graph.Fit
import InfraGraph.Proofs.Import.Schedules
import InfraGraph.Proofs.Import.StableIds
import InfraGraph.Proofs.Catalog.Directory
import InfraGraph.Proofs.Attachment.Commute
import InfraGraph.Proofs.FileTree.Unlinked
import InfraGraph.Proofs.Attachment.Workplace
import InfraGraph.Proofs.Attachment.Trusted
import InfraGraph.Proofs.Attachment.Failing
import InfraGraph.Proofs.Decimal.Bits
import InfraGraph.Proofs.Decimal.Whole
import InfraGraph.Proofs.Json.Whole
import InfraGraph.Proofs.Graph.Lossless
import InfraGraph.Proofs.Graph.Additions
import InfraGraph.Proofs.Attachment.Identity
import InfraGraph.Proofs.Config.ModuleNames
