import CatalogLinker.Interner
import CatalogLinker.Main
import CatalogLinker.Proofs.Graph.DepthFirst
import CatalogLinker.Proofs.Resolution.Dependency
import CatalogLinker.Proofs.Resolution.Execution
import CatalogLinker.Proofs.Resolution.Steps
import CatalogLinker.Proofs.Text.Lines
import CatalogLinker.Proofs.Resolution.Course
import CatalogLinker.Proofs.Resolution.Requests
import CatalogLinker.Proofs.Resolution.Order
import CatalogLinker.Proofs.Resolution.Reach
import CatalogLinker.Proofs.Link.Assembly
import CatalogLinker.Proofs.Link.Registration
import CatalogLinker.Proofs.Heap.Memory
import CatalogLinker.Proofs.Heap.Image
import CatalogLinker.Proofs.Link.InitialMemory
import CatalogLinker.Proofs.Catalog.Order
import CatalogLinker.Proofs.Resolution.Calls
import CatalogLinker.Proofs.Resolution.Progress
import CatalogLinker.Proofs.Resolution.Trace
import CatalogLinker.Proofs.Link.Gathering
import CatalogLinker.Proofs.Link.CompiledSection
import CatalogLinker.Proofs.Postset.Cycles
import CatalogLinker.Proofs.Link.CompiledDependency
import CatalogLinker.Proofs.Link.CyclicPostsets
import CatalogLinker.Proofs.Resolution.SideModule
import CatalogLinker.Proofs.Proxy.Header
import CatalogLinker.Proofs.Proxy.Table
import CatalogLinker.Proofs.Link.Proxies
import CatalogLinker.Proofs.Resolution.Lockstep
import CatalogLinker.Proofs.Resolution.Reports
import CatalogLinker.Proofs.Link.Reporting
import CatalogLinker.Proofs.Link.Locality
import CatalogLinker.Proofs.Text.Blank
import CatalogLinker.Proofs.Markup.Entity
import CatalogLinker.Proofs.Markup.Attribute
import CatalogLinker.Proofs.Catalog.Writing
import CatalogLinker.Proofs.Outcome
import CatalogLinker.Proofs.Postset.Arrangement
import CatalogLinker.Proofs.Postset.Components
import CatalogLinker.Proofs.Text.Search
import CatalogLinker.Proofs.Heap.Grammar
import CatalogLinker.Proofs.Heap.Statement
import CatalogLinker.Proofs.CommandLine.Workspace
import CatalogLinker.Proofs.CommandLine.Run
import CatalogLinker.Proofs.FunctionBody.Renaming
import CatalogLinker.Proofs.FunctionBody.Agreement
import CatalogLinker.Proofs.Link.CompiledBodies
import CatalogLinker.Proofs.Catalog.Slots
import CatalogLinker.Proofs.Proxy.Offsets
import CatalogLinker.Proofs.Proxy.Rewriting
import CatalogLinker.Proofs.Catalog.JsonString
import CatalogLinker.Proofs.Catalog.LiteralSyntax
import CatalogLinker.Proofs.Catalog.Runs
import CatalogLinker.Proofs.Resolution.Undefined
import CatalogLinker.Proofs.Resolution.Postsets
import CatalogLinker.Proofs.Resolution.Signatures
import CatalogLinker.Proofs.Resolution.Repetition
import CatalogLinker.Proofs.Link.Repetition
import CatalogLinker.Proofs.Link.Forwarding
import CatalogLinker.Proofs.Catalog.Root
import CatalogLinker.Proofs.Link.RequestedValues
import CatalogLinker.Proofs.Link.Thunks
import CatalogLinker.Proofs.Resolution.CompiledCode
import CatalogLinker.Proofs.Request.Text
import CatalogLinker.Proofs.Config.Settings
import CatalogLinker.Proofs.Diagnostic.Severity
import CatalogLinker.Proofs.Interner.Symbols
import CatalogLinker.Proofs.Graph.Components
