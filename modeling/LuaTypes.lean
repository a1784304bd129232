import LuaTypes.Analysis
import LuaTypes.Artifact
import LuaTypes.Assignability
import LuaTypes.Build
import LuaTypes.Bundled
import LuaTypes.Call.Check
import LuaTypes.CommandLine.Command
import LuaTypes.Declaration.Parser
import LuaTypes.Declaration.Render
import LuaTypes.FileTree.Access
import LuaTypes.FileTree.Listing
import LuaTypes.Main
import LuaTypes.SymbolTable
import LuaTypes.Validation
import LuaTypes.Workspace.Files
import LuaTypes.Yaml.Load
import LuaTypes.Yaml.Printer
import LuaTypes.Proofs.Analysis.Consistent
import LuaTypes.Proofs.Artifact.RoundTrip
import LuaTypes.Proofs.Build.Reliable
import LuaTypes.Proofs.Call.RoundTrip
import LuaTypes.Proofs.Token.Reads
import LuaTypes.Proofs.Token.Slices
import LuaTypes.Proofs.Token.Scan
import LuaTypes.Proofs.TypeExpr.Lexemes
import LuaTypes.Proofs.TypeExpr.Reading
import LuaTypes.Proofs.Assignability.Acyclic
import LuaTypes.Proofs.Assignability.Unfolding
import LuaTypes.Proofs.Assignability.Reflexive
import LuaTypes.Proofs.Assignability.Source
import LuaTypes.Proofs.TypeExpr.RoundTrip
import LuaTypes.Proofs.TypeExpr.Phrase
import LuaTypes.Proofs.Text.Lines
import LuaTypes.Proofs.Declaration.Layout
import LuaTypes.Proofs.Declaration.Documentation
import LuaTypes.Proofs.Declaration.Statements
import LuaTypes.Proofs.Declaration.Blocks
import LuaTypes.Proofs.Declaration.RoundTrip
import LuaTypes.Proofs.Declaration.Canonical
import LuaTypes.Proofs.Build.Frame
import LuaTypes.Proofs.CommandLine.Frame
import LuaTypes.Proofs.Call.Faults
import LuaTypes.Proofs.TypeExpr.Faults
import LuaTypes.Proofs.TypeExpr.Numeral
import LuaTypes.Proofs.FileTree.Frame
import LuaTypes.Proofs.SymbolTable.Lookup
import LuaTypes.Proofs.Call.Arity
import LuaTypes.Proofs.Analysis.FileOrder
import LuaTypes.Proofs.Declaration.Faults
import LuaTypes.Proofs.Build.Faults
import LuaTypes.Proofs.TypeExpr.Completeness
import LuaTypes.Proofs.TypeExpr.LongestPrefix
import LuaTypes.Proofs.Declaration.Concatenation
import LuaTypes.Proofs.Declaration.Paragraphs
import LuaTypes.Proofs.Declaration.Placement
import LuaTypes.Proofs.Declaration.Conservation
import LuaTypes.Proofs.Declaration.Edits
import LuaTypes.Proofs.Declaration.Fences
import LuaTypes.Proofs.TypeExpr.Rejection
import LuaTypes.Proofs.Declaration.ErrorPlaces
import LuaTypes.Proofs.SymbolTable.Ancestors
import LuaTypes.Proofs.Assignability.Termination
import LuaTypes.Proofs.Assignability.Widening
import LuaTypes.Proofs.Call.Omission
import LuaTypes.Proofs.Validation.LiteralAlias
import LuaTypes.Proofs.Json.Induction
import LuaTypes.Proofs.Build.Torn
import LuaTypes.Proofs.Validation.RepeatedMember
import LuaTypes.Proofs.Validation.Links
import LuaTypes.Proofs.Build.Entries
import LuaTypes.Proofs.Workspace.Config
