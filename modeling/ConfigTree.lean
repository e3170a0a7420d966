import ConfigTree.Main
import ConfigTree.Proofs.Package.Inside
import ConfigTree.Proofs.Package.Answers
import ConfigTree.Proofs.Resolver.Outcome
import ConfigTree.Proofs.Node.Strings
import ConfigTree.Proofs.Resolver.Through
import ConfigTree.Proofs.Resolver.Following
import ConfigTree.Proofs.Resolver.Result
import ConfigTree.Proofs.Resolver.FirstFailure
import ConfigTree.Proofs.Node.Reordering
import ConfigTree.Proofs.Resolver.Cycles
import ConfigTree.Proofs.Resolver.Reordering
import ConfigTree.Proofs.Resolver.Reached
import ConfigTree.Proofs.Resolver.Visits
import ConfigTree.Proofs.Node.Missing
import ConfigTree.Proofs.Resolver.Reports
import ConfigTree.Proofs.Package.Calls
import ConfigTree.Proofs.Resolver.Searches
import ConfigTree.Proofs.Document.Includes
import ConfigTree.Proofs.Document.Standing
import ConfigTree.Proofs.Document.Faults
import ConfigTree.Proofs.Document.Expansion
import ConfigTree.Proofs.Document.ByName
import ConfigTree.Proofs.Package.Rooted
import ConfigTree.Proofs.Resolver.Modular
import ConfigTree.Proofs.Keyed
import ConfigTree.Proofs.Package.Histories
import ConfigTree.Proofs.Resolver.Afresh
import ConfigTree.Proofs.Json.Numbers
import ConfigTree.Proofs.Json.Proper
import ConfigTree.Proofs.Toml.Names
import ConfigTree.Proofs.Node.Parts
import ConfigTree.Proofs.Document.Keys
import ConfigTree.Proofs.Node.Same
import ConfigTree.Proofs.Resolver.Settled
import ConfigTree.Proofs.Document.Alike
import ConfigTree.Proofs.Path.Texts
import ConfigTree.Proofs.FileSystem.Walks
import ConfigTree.Proofs.FileSystem.Cleaning
import ConfigTree.Proofs.FileSystem.Current
import ConfigTree.Proofs.Document.Twins
import ConfigTree.Proofs.Document.Spelling
import ConfigTree.Proofs.Resolver.Directories
import ConfigTree.Proofs.Json.Reading
import ConfigTree.Proofs.Text.Ends
import ConfigTree.Proofs.Yaml.Ends
import ConfigTree.Proofs.CommandLine.Printing
import ConfigTree.Proofs.Node.Numbering
import ConfigTree.Proofs.Node.Places
import ConfigTree.Proofs.Resolver.Coercion
import ConfigTree.Proofs.Yaml.Mappings
import ConfigTree.Proofs.Routing
import ConfigTree.Proofs.Document.Shares
import ConfigTree.Proofs.CommandLine.Options
import ConfigTree.Proofs.CommandLine.Agreement
import ConfigTree.Proofs.Document.Neighbours
import ConfigTree.Proofs.Resolver.Neighbours
import ConfigTree.Proofs.Reference.Grammar
import ConfigTree.Proofs.Resolver.Literals
import ConfigTree.Proofs.Node.FromYaml
import ConfigTree.Proofs.Package.FirstMatch
import ConfigTree.Proofs.Path.Normal
import ConfigTree.Proofs.Path.Joining
import ConfigTree.Proofs.Path.Children
import ConfigTree.Proofs.Routing.Binding
import ConfigTree.Proofs.Json.Ordered
import ConfigTree.Proofs.Node.AsJson
import ConfigTree.Proofs.FileSystem.Absolute
import ConfigTree.Proofs.CommandLine.Bases
import ConfigTree.Proofs.Resolver.Homes
