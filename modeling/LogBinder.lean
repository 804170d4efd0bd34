import LogBinder.Binding.Accessor
import LogBinder.Binding.Application
import LogBinder.Binding.Call
import LogBinder.Binding.Conversion
import LogBinder.Binding.Diagnostic
import LogBinder.Binding.Directive
import LogBinder.Binding.Error
import LogBinder.Binding.Options
import LogBinder.Binding.Overload
import LogBinder.Binding.Plan
import LogBinder.Binding.Planning
import LogBinder.Binding.Primitive
import LogBinder.Binding.Ranking
import LogBinder.Binding.Reader
import LogBinder.Binding.Registry
import LogBinder.Binding.Reload
import LogBinder.Binding.Scalar
import LogBinder.Binding.Scope
import LogBinder.Binding.Session
import LogBinder.Binding.SwitchName
import LogBinder.Config.Entry
import LogBinder.Config.Host
import LogBinder.Config.Memory
import LogBinder.Config.Node
import LogBinder.Config.Root
import LogBinder.Config.Source
import LogBinder.Config.Tree
import LogBinder.Expansion
import LogBinder.FormatProvider
import LogBinder.Inspect.Reader
import LogBinder.Inspect.Text
import LogBinder.Inspect.Value
import LogBinder.Json.Basic
import LogBinder.Json.Number
import LogBinder.Json.Reader
import LogBinder.Json.Stored
import LogBinder.Json.Token
import LogBinder.Level
import LogBinder.Number.Binary64
import LogBinder.Number.Decimal
import LogBinder.Number.Digits
import LogBinder.Number.Integer
import LogBinder.Number.Shortest
import LogBinder.Plugin.Catalog
import LogBinder.Plugin.Method
import LogBinder.Plugin.Sample
import LogBinder.Plugin.TypeRef
import LogBinder.Plugin.Value
import LogBinder.Proofs.Binding.Accessors
import LogBinder.Proofs.Binding.Agreement
import LogBinder.Proofs.Binding.Arguments
import LogBinder.Proofs.Binding.Attained
import LogBinder.Proofs.Binding.Bare
import LogBinder.Proofs.Binding.Building
import LogBinder.Proofs.Binding.Callbacks
import LogBinder.Proofs.Binding.Calls
import LogBinder.Proofs.Binding.Captured
import LogBinder.Proofs.Binding.Choices
import LogBinder.Proofs.Binding.Conservation
import LogBinder.Proofs.Binding.Construction
import LogBinder.Proofs.Binding.Declarations
import LogBinder.Proofs.Binding.Delivery
import LogBinder.Proofs.Binding.Drafting
import LogBinder.Proofs.Binding.Endings
import LogBinder.Proofs.Binding.Faults
import LogBinder.Proofs.Binding.Following
import LogBinder.Proofs.Binding.Inhabitants
import LogBinder.Proofs.Binding.Instances
import LogBinder.Proofs.Binding.Layout
import LogBinder.Proofs.Binding.Ledger
import LogBinder.Proofs.Binding.Leftover
import LogBinder.Proofs.Binding.Levels
import LogBinder.Proofs.Binding.Likeness
import LogBinder.Proofs.Binding.Nesting
import LogBinder.Proofs.Binding.Origins
import LogBinder.Proofs.Binding.Packages
import LogBinder.Proofs.Binding.Phases
import LogBinder.Proofs.Binding.Planned
import LogBinder.Proofs.Binding.Preserved
import LogBinder.Proofs.Binding.Receivers
import LogBinder.Proofs.Binding.Reinvocation
import LogBinder.Proofs.Binding.Requests
import LogBinder.Proofs.Binding.Returns
import LogBinder.Proofs.Binding.Service
import LogBinder.Proofs.Binding.Serving
import LogBinder.Proofs.Binding.Settled
import LogBinder.Proofs.Binding.Shorthand
import LogBinder.Proofs.Binding.Snapshots
import LogBinder.Proofs.Binding.Soundness
import LogBinder.Proofs.Binding.Subscribers
import LogBinder.Proofs.Binding.Supplied
import LogBinder.Proofs.Binding.Surface
import LogBinder.Proofs.Binding.Termination
import LogBinder.Proofs.Binding.Twins
import LogBinder.Proofs.Binding.Watched
import LogBinder.Proofs.Binding.Wiring
import LogBinder.Proofs.Binding.Yields
import LogBinder.Proofs.Config.Documents
import LogBinder.Proofs.Config.Edits
import LogBinder.Proofs.Config.Formats
import LogBinder.Proofs.Config.History
import LogBinder.Proofs.Config.Paths
import LogBinder.Proofs.Config.Positions
import LogBinder.Proofs.Config.Readings
import LogBinder.Proofs.Config.Variables
import LogBinder.Proofs.Json.Parts
import LogBinder.Proofs.Json.Persistence
import LogBinder.Proofs.Number.Comparison
import LogBinder.Proofs.Number.Numerals
import LogBinder.Proofs.Number.Separators
import LogBinder.Proofs.Plugin.Equality
import LogBinder.Proofs.Plugin.LevelNames
import LogBinder.Proofs.Plugin.Registration
import LogBinder.Proofs.Plugin.Surface
import LogBinder.Proofs.Related
import LogBinder.Proofs.Text.Characters
import LogBinder.Proofs.Text.Insertions
import LogBinder.Proofs.Text.Recasing
import LogBinder.Proofs.Text.Substitution
import LogBinder.Proofs.Text.Uris
import LogBinder.Proofs.Time.Durations
import LogBinder.Text.Ascii
import LogBinder.Text.Blank
import LogBinder.Text.Scan
import LogBinder.Text.Split
import LogBinder.Text.Visible
import LogBinder.Time.Calendar
import LogBinder.Time.Duration
import LogBinder.Time.Moment
import LogBinder.Toml.Basic
import LogBinder.Toml.Draft
import LogBinder.Toml.Moment
import LogBinder.Toml.Reader
import LogBinder.Toml.Scalar
import LogBinder.Uri
