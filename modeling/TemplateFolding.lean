import TemplateFolding.Text.Basic
import TemplateFolding.Text.Point
import TemplateFolding.Text.Rows
import TemplateFolding.Text.Bytes
import TemplateFolding.Text.Reader
import TemplateFolding.Template.Parameter
import TemplateFolding.Template.Forms
import TemplateFolding.Template.Declaration
import TemplateFolding.Template.Cursor
import TemplateFolding.Template.Occurrence
import TemplateFolding.Template.Preview
import TemplateFolding.Table
import TemplateFolding.Settings
import TemplateFolding.Editor.Edit
import TemplateFolding.Editor.Screen
import TemplateFolding.Editor.Basic
import TemplateFolding.Editor.Overlay
import TemplateFolding.Folding.Transition
import TemplateFolding.Folding.PartialFold
import TemplateFolding.Folding.Label
import TemplateFolding.Folding.Highlight
import TemplateFolding.Folding.FoldedEditor
import TemplateFolding.Folding.AutoFolder
import TemplateFolding.Report.Terminal
import TemplateFolding.Report.FoldedScreen
import TemplateFolding.Source.Path
import TemplateFolding.Source.Kind
import TemplateFolding.Number.Binary
import TemplateFolding.Number.Decimal
import TemplateFolding.Source.Report
import TemplateFolding.Format.Document
import TemplateFolding.Format.Json
import TemplateFolding.Format.Yaml
import TemplateFolding.Report.Documents
import TemplateFolding.Report.Summary
import TemplateFolding.Glob.Basic
import TemplateFolding.Glob.Match
import TemplateFolding.Source.FileTree
import TemplateFolding.Source.IgnoreRules
import TemplateFolding.Source.Project
import TemplateFolding.Toml.Item
import TemplateFolding.Toml.Scalar
import TemplateFolding.Toml.Quoted
import TemplateFolding.Toml.Document
import TemplateFolding.SettingsFile
import TemplateFolding.CommandLine.Arguments
import TemplateFolding.CommandLine.Invocation
import TemplateFolding.CommandLine.Outcome
import TemplateFolding.Report.Timestamp
import TemplateFolding.Main
import TemplateFolding.Proofs.Positions
import TemplateFolding.Proofs.DrawnFolds
import TemplateFolding.Proofs.ScreenText
import TemplateFolding.Proofs.ExactWidth
import TemplateFolding.Proofs.Tables
import TemplateFolding.Proofs.EditorRuns
import TemplateFolding.Proofs.PrintedLists
import TemplateFolding.Proofs.SparedMarkers
import TemplateFolding.Proofs.DrawnLabels
import TemplateFolding.Proofs.Draining
import TemplateFolding.Proofs.TrackedFoldings
import TemplateFolding.Proofs.Processing
import TemplateFolding.Proofs.Visibility
import TemplateFolding.Proofs.MovedText
import TemplateFolding.Proofs.CoveredText
import TemplateFolding.Proofs.FoundDeclarations
import TemplateFolding.Proofs.FoldedParts
import TemplateFolding.Proofs.WhatYouSee
import TemplateFolding.Proofs.ParameterGrammar
import TemplateFolding.Proofs.TrailingText
import TemplateFolding.Proofs.CompleteSearch
import TemplateFolding.Proofs.ScreenGeometry
import TemplateFolding.Proofs.TrackedText
import TemplateFolding.Proofs.NotificationChains
import TemplateFolding.Proofs.Holdings
import TemplateFolding.Proofs.Ownership
import TemplateFolding.Proofs.Renumbering
import TemplateFolding.Proofs.MirroredFoldings
import TemplateFolding.Proofs.NoHistory
import TemplateFolding.Proofs.RelaidText
import TemplateFolding.Proofs.ScreenOrder
import TemplateFolding.Proofs.StandingText
import TemplateFolding.Proofs.Rounds
import TemplateFolding.Proofs.StandingFoldings
import TemplateFolding.Proofs.WatchedCursor
import TemplateFolding.Proofs.FreshFoldings
import TemplateFolding.Proofs.HighlightSessions
import TemplateFolding.Proofs.CoveredExtents
import TemplateFolding.Proofs.HostFolds
import TemplateFolding.Proofs.UnderFolds
import TemplateFolding.Proofs.Quiescence
import TemplateFolding.Proofs.UndrawnStates
import TemplateFolding.Proofs.IndexedRows
import TemplateFolding.Proofs.FoldReports
import TemplateFolding.Proofs.GlobMatching
import TemplateFolding.Proofs.PrunedDirectories
import TemplateFolding.Proofs.ByteSlices
import TemplateFolding.Proofs.ReadBack
import TemplateFolding.Proofs.LoneParameters
import TemplateFolding.Proofs.InPlaceTokens
import TemplateFolding.Proofs.InPlaceReading
import TemplateFolding.Proofs.FreeHosts
import TemplateFolding.Proofs.PaintOrder
import TemplateFolding.Proofs.BatchOrder
import TemplateFolding.Proofs.PlainScreen
import TemplateFolding.Proofs.BatchContract
import TemplateFolding.Proofs.Suspensions
import TemplateFolding.Proofs.NormalPreviews
import TemplateFolding.Proofs.OverlapComponents
import TemplateFolding.Proofs.CheckedEditor
import TemplateFolding.Proofs.IndexHistory
