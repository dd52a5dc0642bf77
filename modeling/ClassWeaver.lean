import ClassWeaver.Annotations
import ClassWeaver.Command.Basic
import ClassWeaver.Command.Line
import ClassWeaver.Command.Run
import ClassWeaver.Command.Settings
import ClassWeaver.Error
import ClassWeaver.FilePath
import ClassWeaver.FileTree.Basic
import ClassWeaver.FileTree.Disk
import ClassWeaver.FileTree.Memory
import ClassWeaver.Fragment.IndexedStore
import ClassWeaver.Fragment.Key
import ClassWeaver.Fragment.Lexeme
import ClassWeaver.Fragment.Member
import ClassWeaver.Fragment.Merge
import ClassWeaver.Fragment.Source
import ClassWeaver.Fragment.Store
import ClassWeaver.Generation.ClassFile
import ClassWeaver.Generation.FileKind
import ClassWeaver.Generation.TableFile
import ClassWeaver.Generation.Update
import ClassWeaver.Main
import ClassWeaver.Model.Basic
import ClassWeaver.Model.Builder
import ClassWeaver.Model.Definition
import ClassWeaver.Model.Document
import ClassWeaver.Model.Marking
import ClassWeaver.Model.Snapshot
import ClassWeaver.Name
import ClassWeaver.Regeneration.Draft
import ClassWeaver.Regeneration.Report
import ClassWeaver.Regeneration.Run
import ClassWeaver.Signature
import ClassWeaver.Template.Basic
import ClassWeaver.Template.Catalog
import ClassWeaver.Template.Members
import ClassWeaver.Template.Reading
import ClassWeaver.Template.Standard
import ClassWeaver.Template.Tables
import ClassWeaver.Template.Tag
import ClassWeaver.Template.Value
import ClassWeaver.Template.Writing
import ClassWeaver.Text.Alphabetic
import ClassWeaver.Text.Blank
import ClassWeaver.Text.Numeric
import ClassWeaver.Text.Ranges
import ClassWeaver.Text.Search
import ClassWeaver.Text.UpperCase
import ClassWeaver.Text.Word
import ClassWeaver.Yaml.BlockScalar
import ClassWeaver.Yaml.Character
import ClassWeaver.Yaml.Node
import ClassWeaver.Yaml.Progress
import ClassWeaver.Yaml.Property
import ClassWeaver.Yaml.Resolution
import ClassWeaver.Yaml.ScalarReading
import ClassWeaver.Yaml.ScalarWriting
import ClassWeaver.Yaml.Shape
import ClassWeaver.Yaml.Token
import ClassWeaver.Yaml.Tree
import ClassWeaver.Proofs.Command.Listing
import ClassWeaver.Proofs.FilePath
import ClassWeaver.Proofs.FileTree.Memory
import ClassWeaver.Proofs.Fragment.Arrangement
import ClassWeaver.Proofs.Fragment.Assembly
import ClassWeaver.Proofs.Fragment.ClassHeader
import ClassWeaver.Proofs.Fragment.Clearing
import ClassWeaver.Proofs.Fragment.Commuting
import ClassWeaver.Proofs.Fragment.Continuation
import ClassWeaver.Proofs.Fragment.Frame
import ClassWeaver.Proofs.Fragment.Hollow
import ClassWeaver.Proofs.Fragment.IndexedStore
import ClassWeaver.Proofs.Fragment.Insertion
import ClassWeaver.Proofs.Fragment.Layout
import ClassWeaver.Proofs.Fragment.Lexing
import ClassWeaver.Proofs.Fragment.Lookup
import ClassWeaver.Proofs.Fragment.Lossless
import ClassWeaver.Proofs.Fragment.MemberGrammar
import ClassWeaver.Proofs.Fragment.Merging
import ClassWeaver.Proofs.Fragment.Naming
import ClassWeaver.Proofs.Fragment.Protection
import ClassWeaver.Proofs.Fragment.Reading
import ClassWeaver.Proofs.Fragment.Refreshing
import ClassWeaver.Proofs.Fragment.Remerging
import ClassWeaver.Proofs.Fragment.Rereading
import ClassWeaver.Proofs.Fragment.Scan
import ClassWeaver.Proofs.Fragment.Segmentation
import ClassWeaver.Proofs.Fragment.Shape
import ClassWeaver.Proofs.Fragment.Succession
import ClassWeaver.Proofs.Fragment.Thinning
import ClassWeaver.Proofs.Fragment.Tidiness
import ClassWeaver.Proofs.Fragment.Undoing
import ClassWeaver.Proofs.Fragment.Updating
import ClassWeaver.Proofs.Generation.Addressing
import ClassWeaver.Proofs.Generation.Arrangement
import ClassWeaver.Proofs.Generation.ClassFile
import ClassWeaver.Proofs.Generation.Completeness
import ClassWeaver.Proofs.Generation.Declarations
import ClassWeaver.Proofs.Generation.Emptying
import ClassWeaver.Proofs.Generation.Flags
import ClassWeaver.Proofs.Generation.Headers
import ClassWeaver.Proofs.Generation.MemberCalls
import ClassWeaver.Proofs.Generation.MemberText
import ClassWeaver.Proofs.Generation.Methods
import ClassWeaver.Proofs.Generation.Partners
import ClassWeaver.Proofs.Generation.Placement
import ClassWeaver.Proofs.Generation.Printing
import ClassWeaver.Proofs.Generation.Purging
import ClassWeaver.Proofs.Generation.Repetition
import ClassWeaver.Proofs.Generation.RoundTrip
import ClassWeaver.Proofs.Generation.Succession
import ClassWeaver.Proofs.Generation.TableFile
import ClassWeaver.Proofs.Generation.Values
import ClassWeaver.Proofs.Model.Building
import ClassWeaver.Proofs.Model.Calls
import ClassWeaver.Proofs.Model.Emptying
import ClassWeaver.Proofs.Model.Entries
import ClassWeaver.Proofs.Model.Flags
import ClassWeaver.Proofs.Model.Marking
import ClassWeaver.Proofs.Model.Ordering
import ClassWeaver.Proofs.Model.Plain
import ClassWeaver.Proofs.Model.Removal
import ClassWeaver.Proofs.Model.Roles
import ClassWeaver.Proofs.Model.Snapshot
import ClassWeaver.Proofs.Model.Unchanged
import ClassWeaver.Proofs.Name
import ClassWeaver.Proofs.Regeneration.Accounting
import ClassWeaver.Proofs.Regeneration.Emptying
import ClassWeaver.Proofs.Regeneration.Finishing
import ClassWeaver.Proofs.Regeneration.History
import ClassWeaver.Proofs.Regeneration.Isolation
import ClassWeaver.Proofs.Regeneration.Ordering
import ClassWeaver.Proofs.Regeneration.Protection
import ClassWeaver.Proofs.Regeneration.Refusal
import ClassWeaver.Proofs.Regeneration.Repetition
import ClassWeaver.Proofs.Regeneration.Report
import ClassWeaver.Proofs.Regeneration.Retrying
import ClassWeaver.Proofs.Regeneration.Running
import ClassWeaver.Proofs.Regeneration.Succession
import ClassWeaver.Proofs.Regeneration.Tasks
import ClassWeaver.Proofs.Signature
import ClassWeaver.Proofs.Signature.Declaration
import ClassWeaver.Proofs.Signature.Key
import ClassWeaver.Proofs.Signature.Nesting
import ClassWeaver.Proofs.Steps
import ClassWeaver.Proofs.Template.Calls
import ClassWeaver.Proofs.Template.Following
import ClassWeaver.Proofs.Template.Shapes
import ClassWeaver.Proofs.Text.Occurrence
import ClassWeaver.Proofs.Text.Trimming
import ClassWeaver.Proofs.Text.Words
import ClassWeaver.Proofs.TypeText
import ClassWeaver.Proofs.Yaml.Characters
import ClassWeaver.Proofs.Yaml.Nodes
import ClassWeaver.Proofs.Yaml.Shapes
