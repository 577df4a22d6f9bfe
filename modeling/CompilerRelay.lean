import CompilerRelay.Text.Utf8
import CompilerRelay.Text.Blank
import CompilerRelay.Text.Search
import CompilerRelay.Unicode.Category
import CompilerRelay.Unicode.CaseFolding
import CompilerRelay.Unicode.Property
import CompilerRelay.Unicode.Script
import CompilerRelay.Text.Quoted
import CompilerRelay.Path
import CompilerRelay.Path.Map
import CompilerRelay.Path.Uri
import CompilerRelay.Diagnostic
import CompilerRelay.OutputLine
import CompilerRelay.LineBuffer
import CompilerRelay.Command
import CompilerRelay.Package
import CompilerRelay.Template
import CompilerRelay.Event
import CompilerRelay.Store
import CompilerRelay.Watch
import CompilerRelay.Json
import CompilerRelay.Message
import CompilerRelay.Pattern.CharSet
import CompilerRelay.Pattern.Node
import CompilerRelay.Pattern
import CompilerRelay.Decimal
import CompilerRelay.Statement
import CompilerRelay.Json.Number
import CompilerRelay.Json.Reader
import CompilerRelay.Request
import CompilerRelay.Request.Reader
import CompilerRelay.FileTree
import CompilerRelay.FileTree.Access
import CompilerRelay.FileTree.Refusal
import CompilerRelay.FileTree.Walk
import CompilerRelay.FileTree.Replace
import CompilerRelay.Template.Generation
import CompilerRelay.Template.Origin
import CompilerRelay.Channel
import CompilerRelay.Config
import CompilerRelay.Config.Reader
import CompilerRelay.Failure
import CompilerRelay.Host
import CompilerRelay.Task
import CompilerRelay.Relay
import CompilerRelay.Relay.Editing
import CompilerRelay.Bridge
import CompilerRelay.Shell.Reader
import CompilerRelay.Shell.Expansion
import CompilerRelay.Shell.Format
import CompilerRelay.Shell.Machine
import CompilerRelay.Shell.Builtin
import CompilerRelay.Shell.Step
import CompilerRelay.Shell.Program
import CompilerRelay.Rehearsal
import CompilerRelay.CommandLine
import CompilerRelay.Rehearsal.Expectation
import CompilerRelay.Main
import CompilerRelay.Proofs.WatchHistory
import CompilerRelay.Proofs.LossyDecoding
import CompilerRelay.Proofs.LineFraming
import CompilerRelay.Proofs.ChannelRun
import CompilerRelay.Proofs.Chunking
import CompilerRelay.Proofs.StoreMirror
import CompilerRelay.Proofs.TaskSteps
import CompilerRelay.Proofs.RelayEvolution
import CompilerRelay.Proofs.RelayRun
import CompilerRelay.Proofs.RestartRun
import CompilerRelay.Proofs.RestartIsolation
import CompilerRelay.Proofs.PackageLocation
import CompilerRelay.Proofs.TemplateSubstitution
import CompilerRelay.Proofs.OutputStream
import CompilerRelay.Proofs.OutputSources
import CompilerRelay.Proofs.ResetResidue
import CompilerRelay.Proofs.InputLines
import CompilerRelay.Proofs.ServeLoop
import CompilerRelay.Proofs.ServeReplies
import CompilerRelay.Proofs.RelaySessions
import CompilerRelay.Proofs.TaskAssertions
import CompilerRelay.Proofs.LifecyclePhases
import CompilerRelay.Proofs.LifecycleRun
import CompilerRelay.Proofs.ExitNoticing
import CompilerRelay.Proofs.Cleaning
import CompilerRelay.Proofs.HeaderGrammar
import CompilerRelay.Proofs.Locators
import CompilerRelay.Proofs.WireView
import CompilerRelay.Proofs.ServeNotes
import CompilerRelay.Proofs.EventForwarding
import CompilerRelay.Proofs.PathExtension
import CompilerRelay.Proofs.FollowingPaths
import CompilerRelay.Proofs.SiblingPaths
import CompilerRelay.Proofs.WalkedFiles
import CompilerRelay.Proofs.Regeneration
import CompilerRelay.Proofs.AuthoredSources
import CompilerRelay.Proofs.CommandReading
import CompilerRelay.Proofs.UnheededLines
import CompilerRelay.Proofs.ReachingPaths
import CompilerRelay.Proofs.WalkOrder
import CompilerRelay.Proofs.TemplateStems
import CompilerRelay.Proofs.TemplateOutput
import CompilerRelay.Proofs.TemplateRemoval
import CompilerRelay.Proofs.PreprocessingAlgebra
import CompilerRelay.Proofs.RegenerableFiles
import CompilerRelay.Proofs.CappedLines
import CompilerRelay.Proofs.TokenSpelling
import CompilerRelay.Proofs.ValueSpelling
import CompilerRelay.Proofs.MessageFraming
import CompilerRelay.Proofs.ReaderProgress
import CompilerRelay.Proofs.RequestDecoding
import CompilerRelay.Proofs.RequestFaults
import CompilerRelay.Proofs.RejectedRequests
import CompilerRelay.Proofs.StoreHistory
import CompilerRelay.Proofs.WatchCleanup
import CompilerRelay.Proofs.GenerationFrame
import CompilerRelay.Proofs.PathSpelling
import CompilerRelay.Proofs.ExtensionPairs
import CompilerRelay.Proofs.TemplateAnswers
import CompilerRelay.Proofs.EndedTexts
import CompilerRelay.Proofs.ReorderedLines
import CompilerRelay.Proofs.AnchoredPatterns
import CompilerRelay.Proofs.DefinitionLines
import CompilerRelay.Proofs.ErrorReports
import CompilerRelay.Proofs.TaskEndings
import CompilerRelay.Proofs.WatchWaits
import CompilerRelay.Proofs.DefinitionLookup
import CompilerRelay.Proofs.FreshAnswers
import CompilerRelay.Proofs.Refreshing
import CompilerRelay.Proofs.FlushedLines
import CompilerRelay.Proofs.ShownPositions
import CompilerRelay.Proofs.References
import CompilerRelay.Proofs.LogPeriods
import CompilerRelay.Proofs.PairedPaths
import CompilerRelay.Proofs.ConfigReading
