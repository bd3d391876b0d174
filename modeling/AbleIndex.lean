import AbleIndex.Command.Answer
import AbleIndex.Command.Arguments
import AbleIndex.Command.Invocation
import AbleIndex.Command.LogLevel
import AbleIndex.Command.Number
import AbleIndex.Completion.Candidate
import AbleIndex.Completion.Context
import AbleIndex.Completion.Report
import AbleIndex.Completion.Resolve
import AbleIndex.Decimal.Binary
import AbleIndex.Decimal.Fixed
import AbleIndex.Decimal.Shortest
import AbleIndex.Editor.Authority
import AbleIndex.Editor.Document
import AbleIndex.Editor.Server
import AbleIndex.Editor.Session
import AbleIndex.Editor.Uri
import AbleIndex.Files.Change
import AbleIndex.Files.Discovery
import AbleIndex.Files.Disk
import AbleIndex.Files.Host
import AbleIndex.Files.Path
import AbleIndex.Json.Basic
import AbleIndex.Json.Display
import AbleIndex.Json.Printer
import AbleIndex.Json.Reader
import AbleIndex.Language.Catalog
import AbleIndex.Main
import AbleIndex.Proofs.Candidates
import AbleIndex.Proofs.CodeLines
import AbleIndex.Proofs.CommandLines
import AbleIndex.Proofs.ContextForms
import AbleIndex.Proofs.CursorContext
import AbleIndex.Proofs.CursorLine
import AbleIndex.Proofs.Declarations
import AbleIndex.Proofs.DiskNames
import AbleIndex.Proofs.EditorCompletion
import AbleIndex.Proofs.ExitCodes
import AbleIndex.Proofs.ExtractorInvariant
import AbleIndex.Proofs.FailedRequests
import AbleIndex.Proofs.FirstRoot
import AbleIndex.Proofs.HiddenText
import AbleIndex.Proofs.History
import AbleIndex.Proofs.Indentation
import AbleIndex.Proofs.JsonText
import AbleIndex.Proofs.KeyRuns
import AbleIndex.Proofs.LineContexts
import AbleIndex.Proofs.LineEnds
import AbleIndex.Proofs.MemberCompletion
import AbleIndex.Proofs.Members
import AbleIndex.Proofs.Merging
import AbleIndex.Proofs.ModuleNames
import AbleIndex.Proofs.ObjectLiterals
import AbleIndex.Proofs.OwnPaths
import AbleIndex.Proofs.PathText
import AbleIndex.Proofs.PendingChanges
import AbleIndex.Proofs.PlainSight
import AbleIndex.Proofs.Precedence
import AbleIndex.Proofs.Printing
import AbleIndex.Proofs.Reading
import AbleIndex.Proofs.Recognition
import AbleIndex.Proofs.Registers
import AbleIndex.Proofs.Reports
import AbleIndex.Proofs.Rescan
import AbleIndex.Proofs.RescanSpacing
import AbleIndex.Proofs.Roots
import AbleIndex.Proofs.Runs
import AbleIndex.Proofs.ScanReport
import AbleIndex.Proofs.Scopes
import AbleIndex.Proofs.SearchOrder
import AbleIndex.Proofs.Segments
import AbleIndex.Proofs.Sessions
import AbleIndex.Proofs.SingleUpdate
import AbleIndex.Proofs.Spelling
import AbleIndex.Proofs.StoreOrder
import AbleIndex.Proofs.Uninterrupted
import AbleIndex.Settings
import AbleIndex.Sorted.Map
import AbleIndex.Sorted.Set
import AbleIndex.Source.Comment
import AbleIndex.Source.Declaration
import AbleIndex.Source.Indent
import AbleIndex.Source.ObjectKey
import AbleIndex.Source.Word
import AbleIndex.Symbols.Extractor
import AbleIndex.Symbols.Table
import AbleIndex.Text.Blank
import AbleIndex.Text.Digit
import AbleIndex.Text.Lines
import AbleIndex.Text.Printable
import AbleIndex.Text.Styling
import AbleIndex.Text.Units
import AbleIndex.Text.Upper
import AbleIndex.Text.Utf8
import AbleIndex.Watch.Event
import AbleIndex.Watch.Watcher
import AbleIndex.Workspace.Basic
import AbleIndex.Workspace.ModuleName
import AbleIndex.Workspace.OpenScan
import AbleIndex.Workspace.Operations
import AbleIndex.Workspace.Scan
import AbleIndex.Workspace.SearchRoots
