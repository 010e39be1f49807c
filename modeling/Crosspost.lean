import Crosspost.Text.Blank
import Crosspost.Text.Units
import Crosspost.Text.LowerCase
import Crosspost.Text.Lines
import Crosspost.Json.Reader
import Crosspost.Site.Registry
import Crosspost.Description.Token
import Crosspost.Description.Node
import Crosspost.Description.Document
import Crosspost.Description.Generated
import Crosspost.Description.Flags
import Crosspost.Config.UsernameFile
import Crosspost.EnvFile.Source
import Crosspost.RunId
import Crosspost.Workspace.Path
import Crosspost.Workspace.Tree
import Crosspost.Story.Format
import Crosspost.Story.StyleSheet
import Crosspost.Upload.Failure
import Crosspost.Log.Logger
import Crosspost.Command
import Crosspost.Main
import Crosspost.Proofs.Results
import Crosspost.Proofs.Description.Grammar
import Crosspost.Proofs.Description.Steps
import Crosspost.Proofs.Description.Parsing
import Crosspost.Proofs.Description.Lexing
import Crosspost.Proofs.Text.Trimming
import Crosspost.Proofs.Text.Units
import Crosspost.Proofs.Description.Segmentation
import Crosspost.Proofs.Site.Lookup
import Crosspost.Proofs.Description.Conditions
import Crosspost.Proofs.Description.Trees
import Crosspost.Proofs.Description.Depth
import Crosspost.Proofs.Description.Chains
import Crosspost.Proofs.Description.Switches
import Crosspost.Proofs.Description.Accounts
import Crosspost.Proofs.Description.Live
import Crosspost.Proofs.Description.Generating
import Crosspost.Proofs.Description.Failures
import Crosspost.Proofs.Description.Gaps
import Crosspost.Proofs.Description.Independence
import Crosspost.Proofs.Workspace.Paths
import Crosspost.Proofs.Workspace.Entries
import Crosspost.Proofs.Workspace.Runs
import Crosspost.Proofs.Upload.Filling
import Crosspost.Proofs.Upload.Restoring
import Crosspost.Proofs.Upload.Logging
import Crosspost.Proofs.Workspace.Directories
import Crosspost.Proofs.Workspace.Ways
import Crosspost.Proofs.Workspace.Appending
import Crosspost.Proofs.Upload.Opening
import Crosspost.Proofs.Upload.Outputs
import Crosspost.Proofs.Upload.Steps
import Crosspost.Proofs.Upload.Inputs
import Crosspost.Proofs.Upload.Keeping
import Crosspost.Proofs.Upload.Changes
import Crosspost.Proofs.Log.Sessions
import Crosspost.Proofs.Upload.Leftovers
import Crosspost.Proofs.Upload.Withholding
import Crosspost.Proofs.Description.Moving
import Crosspost.Proofs.Description.Joining
import Crosspost.Proofs.Description.Descent
import Crosspost.Proofs.Description.Refusals
import Crosspost.Proofs.Json.Fields
import Crosspost.Proofs.Json.Merging
import Crosspost.Proofs.Config.UsernameFiles
import Crosspost.Proofs.Config.Issues
import Crosspost.Proofs.Config.Repairs
import Crosspost.Proofs.Config.Canonical
import Crosspost.Proofs.Description.Elements
import Crosspost.Proofs.Description.Verbatim
import Crosspost.Proofs.Description.Parameters
import Crosspost.Proofs.Text.Splitting
import Crosspost.Proofs.Description.Layout
import Crosspost.Proofs.Workspace.Faults
import Crosspost.Proofs.Upload.Reporting
import Crosspost.Proofs.Description.Conditionals
import Crosspost.Proofs.Description.Unplaced
import Crosspost.Proofs.Text.LowerCase
import Crosspost.Proofs.Description.Expressions
import Crosspost.Proofs.Description.Flagged
import Crosspost.Proofs.Site.Naming
import Crosspost.Proofs.Description.Marked
import Crosspost.Proofs.Description.Brackets
import Crosspost.Proofs.Site.Mentions
import Crosspost.Proofs.Description.Nesting
import Crosspost.Proofs.Description.Echoes
import Crosspost.Proofs.Description.Shorthands
import Crosspost.Proofs.Description.Spellings
import Crosspost.Proofs.Description.ConditionGrammar
import Crosspost.Proofs.Description.Alternatives
import Crosspost.Proofs.Site.Construction
import Crosspost.Proofs.Description.Registries
import Crosspost.Proofs.Site.Handles
import Crosspost.Proofs.Description.Federated
import Crosspost.Proofs.Text.LineEnds
import Crosspost.Proofs.Description.Padding
import Crosspost.Proofs.Description.Places
import Crosspost.Proofs.Story.Lines
import Crosspost.Proofs.Upload.Rewriting
import Crosspost.Proofs.Number.Decimals
import Crosspost.Proofs.Text.Runs
import Crosspost.Proofs.Text.Replacing
import Crosspost.Proofs.Story.Escaping
import Crosspost.Proofs.Story.StyleTables
import Crosspost.Proofs.Story.Restyling
import Crosspost.Proofs.Description.Finishing
import Crosspost.Proofs.Upload.BlankDocuments
import Crosspost.Proofs.Description.Formatting
import Crosspost.Proofs.Story.Swapping
import Crosspost.Proofs.Log.Feeds
import Crosspost.Proofs.Upload.LogLines
import Crosspost.Proofs.Description.Occurrences
import Crosspost.Proofs.Description.Offsets
import Crosspost.Proofs.Text.Lowered
import Crosspost.Proofs.Config.Choices
import Crosspost.Proofs.Upload.CommandLines
