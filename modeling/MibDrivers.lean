import MibDrivers.Binary64
import MibDrivers.CommandLine.Arguments
import MibDrivers.CommandLine.Completion
import MibDrivers.CommandLine.Grammar
import MibDrivers.CommandLine.Invocation
import MibDrivers.CommandLine.Session
import MibDrivers.Descriptor
import MibDrivers.Descriptor.Json
import MibDrivers.Driver.Plan
import MibDrivers.Driver.Source
import MibDrivers.Dump.Basic
import MibDrivers.Dump.Node
import MibDrivers.Dump.Source
import MibDrivers.Dump.Writer
import MibDrivers.Entries
import MibDrivers.Error
import MibDrivers.Failure
import MibDrivers.Forest.Basic
import MibDrivers.Forest.Display
import MibDrivers.Forest.Insert
import MibDrivers.Forest.Reconcile
import MibDrivers.Forest.Traversal
import MibDrivers.Generation.Report
import MibDrivers.Generation.Request
import MibDrivers.Host.Basic
import MibDrivers.Host.Flat
import MibDrivers.Host.Tree
import MibDrivers.Json.Basic
import MibDrivers.Json.Compact
import MibDrivers.Json.Document
import MibDrivers.Json.Fields
import MibDrivers.Json.Mismatch
import MibDrivers.Json.Token
import MibDrivers.Main
import MibDrivers.Naming.Identifier
import MibDrivers.Naming.Registry
import MibDrivers.Oid
import MibDrivers.Proofs.Containment
import MibDrivers.Proofs.Forest.Nodes
import MibDrivers.Settings.Basic
import MibDrivers.Settings.Expansion
import MibDrivers.Settings.Layering
import MibDrivers.Settings.Load
import MibDrivers.Settings.Overrides
import MibDrivers.Settings.Reader
import MibDrivers.Settings.Validity
import MibDrivers.Settings.Writer
import MibDrivers.SystemGroup
import MibDrivers.Text.Alphanumeric
import MibDrivers.Text.Blank
import MibDrivers.Text.Casing
import MibDrivers.Text.Decimal
import MibDrivers.Text.Quoted
import MibDrivers.Text.Replace
import MibDrivers.Text.Split
import MibDrivers.Text.Unprintable
import MibDrivers.Text.Utf8
import MibDrivers.Toml.Document
import MibDrivers.Toml.Quoting
import MibDrivers.Toml.Scalar
import MibDrivers.Toml.Value
import MibDrivers.WorkingSet
import MibDrivers.Proofs.Forest.Merge
import MibDrivers.Proofs.Forest.Nesting
import MibDrivers.Proofs.Forest.MergeCases
import MibDrivers.Proofs.Forest.Reconcile
import MibDrivers.Proofs.Forest.Preservation
import MibDrivers.Proofs.Forest.Runs
import MibDrivers.Proofs.Forest.Insertion
import MibDrivers.Proofs.Forest.Legality
import MibDrivers.Proofs.Forest.Arrival
import MibDrivers.Proofs.Forest.Canonical
import MibDrivers.Proofs.Forest.Construction
import MibDrivers.Proofs.Forest.Refusal
import MibDrivers.Proofs.Forest.Placement
import MibDrivers.Proofs.Naming.Registry
import MibDrivers.Proofs.Driver.Mirror
import MibDrivers.Proofs.Driver.Layout
import MibDrivers.Proofs.Driver.References
import MibDrivers.Proofs.Naming.Identifier
import MibDrivers.Proofs.Driver.TypeNames
import MibDrivers.Proofs.Driver.Header
import MibDrivers.Proofs.Naming.Requests
import MibDrivers.Proofs.Naming.Collision
import MibDrivers.Proofs.Driver.Methods
import MibDrivers.Proofs.Driver.Spelling
import MibDrivers.Proofs.Text.Lines
import MibDrivers.Proofs.Dotted
import MibDrivers.Proofs.Driver.Docs
import MibDrivers.Proofs.Driver.Reading
import MibDrivers.Proofs.Driver.RootName
import MibDrivers.Proofs.Entries
import MibDrivers.Proofs.Text.Utf8
import MibDrivers.Proofs.Host.Files
import MibDrivers.Proofs.Host.Runs
import MibDrivers.Proofs.Generation.Coherence
import MibDrivers.Proofs.Generation.Methods
import MibDrivers.Proofs.Results
import MibDrivers.Proofs.Json.Strings
import MibDrivers.Proofs.Json.Documents
import MibDrivers.Proofs.Dump.Rows
import MibDrivers.Proofs.Settings.Options
import MibDrivers.Proofs.Settings.Overrides
import MibDrivers.Proofs.Settings.VariableNames
import MibDrivers.Proofs.Settings.Specified
import MibDrivers.Proofs.Toml.Strings
import MibDrivers.Proofs.Toml.Lines
import MibDrivers.Proofs.Toml.Sections
import MibDrivers.Proofs.Settings.Reading
import MibDrivers.Proofs.Settings.Shown
import MibDrivers.Proofs.Settings.Precedence
import MibDrivers.Proofs.Forest.Unpinned
import MibDrivers.Proofs.Forest.Losses
import MibDrivers.Proofs.Driver.Access
import MibDrivers.Proofs.Driver.Breaks
import MibDrivers.Proofs.Driver.Descriptions
import MibDrivers.Proofs.Text.Replace
import MibDrivers.Proofs.Dump.Templates
import MibDrivers.Proofs.WorkingSet
import MibDrivers.Proofs.Dump.Nodes
import MibDrivers.Proofs.Dump.Listing
import MibDrivers.Proofs.Naming.Calls
import MibDrivers.Proofs.Settings.Exclusions
import MibDrivers.Proofs.Forest.Preorder
import MibDrivers.Proofs.Descriptor.Json
import MibDrivers.Proofs.Forest.Display
import MibDrivers.Proofs.Settings.Validity
import MibDrivers.Proofs.Forest.Search
import MibDrivers.Proofs.Forest.NestedMerges
