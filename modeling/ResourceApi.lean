import ResourceApi.CommandLine
import ResourceApi.CommandLine.Run
import ResourceApi.Compilation
import ResourceApi.Document
import ResourceApi.Document.Encode
import ResourceApi.Document.Merge
import ResourceApi.Document.Printer
import ResourceApi.Document.Reader
import ResourceApi.Entries
import ResourceApi.Error
import ResourceApi.Executable
import ResourceApi.Executable.Execution
import ResourceApi.Executable.Input
import ResourceApi.Executable.Mount
import ResourceApi.Executable.Response
import ResourceApi.Executable.Validation
import ResourceApi.FilePath
import ResourceApi.Files
import ResourceApi.Fragment
import ResourceApi.Fragment.Dependencies
import ResourceApi.Fragment.Generation
import ResourceApi.Graph
import ResourceApi.Graph.Builder
import ResourceApi.Graph.Synthesis
import ResourceApi.Json
import ResourceApi.Json.Number
import ResourceApi.Json.Printer
import ResourceApi.Json.Reader
import ResourceApi.Literal
import ResourceApi.Literal.Reader
import ResourceApi.Main
import ResourceApi.Model
import ResourceApi.Model.Classify
import ResourceApi.Model.Decode
import ResourceApi.Model.Encode
import ResourceApi.Number.Binary64
import ResourceApi.Number.Decimal
import ResourceApi.Number.Shortest
import ResourceApi.OperationDocument
import ResourceApi.Options.Axes
import ResourceApi.Options.Cascade
import ResourceApi.Options.Field
import ResourceApi.Options.Generation
import ResourceApi.Path
import ResourceApi.Pattern
import ResourceApi.Pattern.Reader
import ResourceApi.Project
import ResourceApi.Project.Reader
import ResourceApi.Proofs.Compilation.Cells
import ResourceApi.Proofs.Compilation.Closed
import ResourceApi.Proofs.Compilation.Descriptions
import ResourceApi.Proofs.Compilation.Exposure
import ResourceApi.Proofs.Compilation.Fragments
import ResourceApi.Proofs.Compilation.InputWalk
import ResourceApi.Proofs.Compilation.Lookup
import ResourceApi.Proofs.Compilation.Names
import ResourceApi.Proofs.Compilation.Operations
import ResourceApi.Proofs.Compilation.Order
import ResourceApi.Proofs.Compilation.Projection
import ResourceApi.Proofs.Compilation.Resolvers
import ResourceApi.Proofs.Compilation.RootFields
import ResourceApi.Proofs.Compilation.Selections
import ResourceApi.Proofs.Compilation.Shape
import ResourceApi.Proofs.Compilation.Stages
import ResourceApi.Proofs.Compilation.WellFormed
import ResourceApi.Proofs.Compilation.Whole
import ResourceApi.Proofs.Document.Body
import ResourceApi.Proofs.Document.Closed
import ResourceApi.Proofs.Document.Completion
import ResourceApi.Proofs.Document.Description
import ResourceApi.Proofs.Document.Fields
import ResourceApi.Proofs.Document.Folding
import ResourceApi.Proofs.Document.Legible
import ResourceApi.Proofs.Document.Merge
import ResourceApi.Proofs.Document.Order
import ResourceApi.Proofs.Document.RoundTrip
import ResourceApi.Proofs.Document.Support
import ResourceApi.Proofs.Document.WellFormed
import ResourceApi.Proofs.Entries
import ResourceApi.Proofs.Except
import ResourceApi.Proofs.Executable.Mount
import ResourceApi.Proofs.Executable.NullItems
import ResourceApi.Proofs.Executable.Progress
import ResourceApi.Proofs.Executable.Visits
import ResourceApi.Proofs.Fragment.Acyclic
import ResourceApi.Proofs.Fragment.Dependencies
import ResourceApi.Proofs.Fragment.Generation
import ResourceApi.Proofs.Fragment.Order
import ResourceApi.Proofs.Fragment.References
import ResourceApi.Proofs.Fragment.Rules
import ResourceApi.Proofs.Fragment.Settled
import ResourceApi.Proofs.Fragment.Turns
import ResourceApi.Proofs.Fragment.Whole
import ResourceApi.Proofs.Graph.Builder
import ResourceApi.Proofs.Graph.Calls
import ResourceApi.Proofs.Graph.Closed
import ResourceApi.Proofs.Graph.Extension
import ResourceApi.Proofs.Graph.Inputs
import ResourceApi.Proofs.Graph.Interface
import ResourceApi.Proofs.Graph.Names
import ResourceApi.Proofs.Graph.Origin
import ResourceApi.Proofs.Graph.Root
import ResourceApi.Proofs.Graph.Source
import ResourceApi.Proofs.Graph.Spelling
import ResourceApi.Proofs.Graph.Step
import ResourceApi.Proofs.Graph.Switches
import ResourceApi.Proofs.Graph.Targets
import ResourceApi.Proofs.Graph.Visibility
import ResourceApi.Proofs.Graph.Walk
import ResourceApi.Proofs.Json.Equality
import ResourceApi.Proofs.Json.Reordering
import ResourceApi.Proofs.Literal.Formed
import ResourceApi.Proofs.Literal.Number
import ResourceApi.Proofs.Literal.RoundTrip
import ResourceApi.Proofs.Literal.Token
import ResourceApi.Proofs.Model.Naming
import ResourceApi.Proofs.Model.Nesting
import ResourceApi.Proofs.Model.Path
import ResourceApi.Proofs.Model.Plural
import ResourceApi.Proofs.Model.RoundTrip
import ResourceApi.Proofs.Model.Spelling
import ResourceApi.Proofs.Number.Rounding
import ResourceApi.Proofs.OperationDocument
import ResourceApi.Proofs.Options.Cascade
import ResourceApi.Proofs.Options.Generation
import ResourceApi.Proofs.Options.Nesting
import ResourceApi.Proofs.Options.Nullability
import ResourceApi.Proofs.Options.Types
import ResourceApi.Proofs.Path
import ResourceApi.Proofs.Request.RoundTrip
import ResourceApi.Proofs.Resolver.Agreement
import ResourceApi.Proofs.Resolver.Conformance
import ResourceApi.Proofs.Resolver.Failure
import ResourceApi.Proofs.Resolver.InputWalk
import ResourceApi.Proofs.Resolver.Isolation
import ResourceApi.Proofs.Resolver.Lockstep
import ResourceApi.Proofs.Resolver.Pages
import ResourceApi.Proofs.Resolver.References
import ResourceApi.Proofs.Resolver.Reports
import ResourceApi.Proofs.Resolver.Table
import ResourceApi.Proofs.Resolver.Visibility
import ResourceApi.Proofs.Signature
import ResourceApi.Proofs.Store.Agreement
import ResourceApi.Proofs.Store.Call
import ResourceApi.Proofs.Store.Consistency
import ResourceApi.Proofs.Store.Frame
import ResourceApi.Proofs.Store.Objects
import ResourceApi.Proofs.Store.Ranges
import ResourceApi.Proofs.Store.Reordering
import ResourceApi.Proofs.Store.Run
import ResourceApi.Proofs.Store.Sorting
import ResourceApi.Proofs.Text.Case
import ResourceApi.Proofs.Text.Reader
import ResourceApi.Proofs.Text.Word
import ResourceApi.Proofs.TypeRef
import ResourceApi.Proofs.TypeRef.Decoration
import ResourceApi.Request
import ResourceApi.Request.Reader
import ResourceApi.Resolver.Context
import ResourceApi.Resolver.Error
import ResourceApi.Resolver.Mutation
import ResourceApi.Resolver.Query
import ResourceApi.Resolver.Reference
import ResourceApi.Resolver.Segment
import ResourceApi.Resolver.Table
import ResourceApi.Scalar
import ResourceApi.Scalar.Patterns
import ResourceApi.Signature
import ResourceApi.Store
import ResourceApi.Store.Error
import ResourceApi.Store.Filter
import ResourceApi.Store.Sort
import ResourceApi.Text.CaseTable
import ResourceApi.Text.Character
import ResourceApi.Text.Plural
import ResourceApi.Text.PropertyTable
import ResourceApi.Text.Reader
import ResourceApi.Text.Words
import ResourceApi.Toml
import ResourceApi.Toml.Reader
import ResourceApi.TypeRef
