import Vicinity.Bundle
import Vicinity.Bundle.Layout
import Vicinity.Bundle.Merge
import Vicinity.Candidate
import Vicinity.CodeUnit
import Vicinity.CommandLine
import Vicinity.CommandLine.Arguments
import Vicinity.CommandLine.Command
import Vicinity.Config
import Vicinity.Config.Check
import Vicinity.Config.Datum
import Vicinity.Config.Fault
import Vicinity.Config.Load
import Vicinity.Declaration
import Vicinity.Declaration.Comment
import Vicinity.Disk
import Vicinity.Disk.Files
import Vicinity.Disk.Reading
import Vicinity.Document
import Vicinity.Enclosing
import Vicinity.Engine
import Vicinity.FileTree
import Vicinity.Glob
import Vicinity.Identifier
import Vicinity.Language
import Vicinity.Language.Binding
import Vicinity.Language.Role
import Vicinity.LogLevel
import Vicinity.Main
import Vicinity.Path
import Vicinity.Position
import Vicinity.Provider
import Vicinity.Provider.Tables
import Vicinity.Provider.Workspace
import Vicinity.References
import Vicinity.Resolver
import Vicinity.Source
import Vicinity.Source.Error
import Vicinity.Source.Go
import Vicinity.Source.Indented
import Vicinity.Source.Indented.Numeral
import Vicinity.Source.Indented.Phrase
import Vicinity.Source.Indented.Quoted
import Vicinity.Source.Indented.Rule
import Vicinity.Source.Indented.Statement
import Vicinity.Source.Indented.Template
import Vicinity.Source.Indented.Token
import Vicinity.Source.Indented.Tokens
import Vicinity.Source.Lexicon
import Vicinity.Source.Scan
import Vicinity.Source.Script
import Vicinity.Symbol
import Vicinity.Symbol.Nesting
import Vicinity.Symbol.Outline
import Vicinity.Terminal
import Vicinity.Text.Alphanumeric
import Vicinity.Text.Blank
import Vicinity.Text.CodeRanges
import Vicinity.Text.Decimal
import Vicinity.Text.Letter
import Vicinity.Text.Lines
import Vicinity.Text.NameCharacter
import Vicinity.Text.Pattern
import Vicinity.Text.Search
import Vicinity.Text.Slice
import Vicinity.Text.Width
import Vicinity.Toolchain
import Vicinity.Yaml.Cursor
import Vicinity.Yaml.Node
import Vicinity.Yaml.Number
import Vicinity.Yaml.ScalarText
import Vicinity.Yaml.Timestamp
import Vicinity.Yaml.Token
import Vicinity.Yaml.Value
import Vicinity.Proofs.Bundle.Merging
import Vicinity.Proofs.Bundle.Packages
import Vicinity.Proofs.Declaration.Bounds
import Vicinity.Proofs.Declaration.Slices
import Vicinity.Proofs.Declaration.Identity
import Vicinity.Proofs.Declaration.Extent
import Vicinity.Proofs.Resolver.Provenance
import Vicinity.Proofs.Resolver.Questions
import Vicinity.Proofs.Resolver.Visits
import Vicinity.Proofs.Resolver.Resolution
import Vicinity.Proofs.Resolver.Reach
import Vicinity.Proofs.Enclosing.Locating
import Vicinity.Proofs.Engine.Gathering
import Vicinity.Proofs.References.Collecting
import Vicinity.Proofs.Resolver.Depth
import Vicinity.Proofs.Resolver.Sharing
import Vicinity.Proofs.Resolver.Frozen
import Vicinity.Proofs.Engine.Sweeping
import Vicinity.Proofs.Engine.Unanswered
import Vicinity.Proofs.Disk.Trees
import Vicinity.Proofs.Disk.Reading
import Vicinity.Proofs.Provider.Memory
import Vicinity.Proofs.Provider.Mentions
import Vicinity.Proofs.Provider.Snapshots
import Vicinity.Proofs.Provider.Reporting
import Vicinity.Proofs.Disk.Files
import Vicinity.Proofs.Disk.Relisting
import Vicinity.Proofs.Disk.Enumeration
import Vicinity.Proofs.Disk.DirectoryGlobs
import Vicinity.Proofs.FileTree.Inserting
import Vicinity.Proofs.FileTree.Snapshot
import Vicinity.Proofs.FileTree.Rendering
import Vicinity.Proofs.Language.Bindings
import Vicinity.Proofs.Text.Offsets
import Vicinity.Proofs.Source.Declarations
import Vicinity.Proofs.Config.Loading
import Vicinity.Proofs.Text.Searching
import Vicinity.Proofs.Declaration.Heads
import Vicinity.Proofs.Declaration.Expansion
import Vicinity.Proofs.Source.Literals
import Vicinity.Proofs.Source.Scanning
import Vicinity.Proofs.Source.Automaton
import Vicinity.Proofs.Source.CodeCharacters
import Vicinity.Proofs.Source.Closings
import Vicinity.Proofs.Source.Templates
import Vicinity.Proofs.Source.Headers
import Vicinity.Proofs.Source.Functions
import Vicinity.Proofs.Symbol.Outlines
import Vicinity.Proofs.Symbol.Nesting
import Vicinity.Proofs.Symbol.Rebuilding
import Vicinity.Proofs.Enclosing.Outermost
import Vicinity.Proofs.Source.Extracts
import Vicinity.Proofs.Source.Members
import Vicinity.Proofs.Source.Definitions
import Vicinity.Proofs.Candidate.Words
import Vicinity.Proofs.Candidate.Cursor
import Vicinity.Proofs.Candidate.Places
import Vicinity.Proofs.Resolver.Transcripts
import Vicinity.Proofs.Resolver.Candidates
import Vicinity.Proofs.References.Destinations
import Vicinity.Proofs.Resolver.Occurrences
import Vicinity.Proofs.Comment.Replacing
import Vicinity.Proofs.Comment.Tidying
import Vicinity.Proofs.Comment.Hashes
import Vicinity.Proofs.Comment.Marks
import Vicinity.Proofs.Comment.Seams
import Vicinity.Proofs.Path.Writing
import Vicinity.Proofs.Path.Normalizing
import Vicinity.Proofs.Path.Naming
import Vicinity.Proofs.Path.Workspace
import Vicinity.Proofs.Resolver.Confinement
