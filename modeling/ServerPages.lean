import ServerPages.Artifact.Digest
import ServerPages.Artifact.Key
import ServerPages.Artifact.Store
import ServerPages.Charset.Basic
import ServerPages.Charset.Declaration
import ServerPages.Charset.Name
import ServerPages.Charset.Table
import ServerPages.CommandLine.Flags
import ServerPages.CommandLine.Site
import ServerPages.Compilation.Compiler
import ServerPages.Compilation.Options
import ServerPages.Compilation.Session
import ServerPages.Diagnostics.Collector
import ServerPages.Diagnostics.Event
import ServerPages.Diagnostics.Fault
import ServerPages.Diagnostics.Issue
import ServerPages.Expression.Basic
import ServerPages.Expression.Dialect
import ServerPages.Expression.Grammar
import ServerPages.Expression.Segment
import ServerPages.Expression.Token
import ServerPages.Generation.Action
import ServerPages.Generation.Imports
import ServerPages.Generation.Literal
import ServerPages.Generation.Names
import ServerPages.Generation.State
import ServerPages.Generation.Tag
import ServerPages.Generation.Text
import ServerPages.Generation.Unit
import ServerPages.Generation.Value
import ServerPages.Generation.Writer
import ServerPages.Json.Parse
import ServerPages.Json.Value
import ServerPages.LineMap.Builder
import ServerPages.LineMap.OfTree
import ServerPages.LineMap.Stratum
import ServerPages.Main
import ServerPages.Markup.Element
import ServerPages.Markup.Name
import ServerPages.Markup.Token
import ServerPages.Parsing.Construct
import ServerPages.Parsing.Document
import ServerPages.Parsing.Native
import ServerPages.Parsing.PageSyntax
import ServerPages.Parsing.Parse
import ServerPages.Parsing.State
import ServerPages.Proofs.ActionWriting
import ServerPages.Proofs.AdmittedChildren
import ServerPages.Proofs.AnnotatedLines
import ServerPages.Proofs.BalancedDocuments
import ServerPages.Proofs.BalancedGeneration
import ServerPages.Proofs.BalancedVisits
import ServerPages.Proofs.BoundAttributes
import ServerPages.Proofs.BufferBalance
import ServerPages.Proofs.BufferSizes
import ServerPages.Proofs.Bytes
import ServerPages.Proofs.CleanPaths
import ServerPages.Proofs.CodeLayout
import ServerPages.Proofs.CodeWriter
import ServerPages.Proofs.CompilerCrash
import ServerPages.Proofs.CursorHistories
import ServerPages.Proofs.DeclaredEncodings
import ServerPages.Proofs.DirectiveTexts
import ServerPages.Proofs.DocumentContent
import ServerPages.Proofs.DualSyntax
import ServerPages.Proofs.FileTexts
import ServerPages.Proofs.FilledPlaces
import ServerPages.Proofs.FirstOccurrences
import ServerPages.Proofs.FreshNames
import ServerPages.Proofs.FreshUnits
import ServerPages.Proofs.FreshVisits
import ServerPages.Proofs.FunctionReferences
import ServerPages.Proofs.GuardedRequests
import ServerPages.Proofs.HandedUnits
import ServerPages.Proofs.HandlerPools
import ServerPages.Proofs.ImportNames
import ServerPages.Proofs.KeptProblems
import ServerPages.Proofs.LineMapText
import ServerPages.Proofs.LinkedCode
import ServerPages.Proofs.LinkedUnits
import ServerPages.Proofs.LinkedVisits
import ServerPages.Proofs.LinkingSteps
import ServerPages.Proofs.LiteralText
import ServerPages.Proofs.LoadedLibraries
import ServerPages.Proofs.MappedLines
import ServerPages.Proofs.MentionedLines
import ServerPages.Proofs.NodeCode
import ServerPages.Proofs.Numerals
import ServerPages.Proofs.ParseBookkeeping
import ServerPages.Proofs.PreparedTrees
import ServerPages.Proofs.ProblemLedger
import ServerPages.Proofs.QuotedValues
import ServerPages.Proofs.ReachedNodes
import ServerPages.Proofs.RepeatedChecks
import ServerPages.Proofs.RepeatedSteps
import ServerPages.Proofs.RepeatedValidation
import ServerPages.Proofs.RequestOrder
import ServerPages.Proofs.RestatedDirectives
import ServerPages.Proofs.RestoredPlaces
import ServerPages.Proofs.SavedVariables
import ServerPages.Proofs.ScannedText
import ServerPages.Proofs.Scriptless
import ServerPages.Proofs.SegmentedText
import ServerPages.Proofs.SharedRegistry
import ServerPages.Proofs.ShownText
import ServerPages.Proofs.SiteOutputs
import ServerPages.Proofs.SplicedWriters
import ServerPages.Proofs.StandingSettings
import ServerPages.Proofs.StoredAnswers
import ServerPages.Proofs.SubtreeSummaries
import ServerPages.Proofs.TagContract
import ServerPages.Proofs.TagPrograms
import ServerPages.Proofs.TagStatements
import ServerPages.Proofs.TagWriting
import ServerPages.Proofs.TextChunks
import ServerPages.Proofs.TransparentStore
import ServerPages.Proofs.TreeEdits
import ServerPages.Proofs.TreeShapes
import ServerPages.Proofs.UnitLayout
import ServerPages.Proofs.UnitWriting
import ServerPages.Proofs.UnreportedSteps
import ServerPages.Proofs.Utf8
import ServerPages.Proofs.ValueWriting
import ServerPages.Proofs.VisitSteps
import ServerPages.Proofs.WritingSteps
import ServerPages.Proofs.WrittenCode
import ServerPages.Service.Handle
import ServerPages.Service.Message
import ServerPages.Service.Params
import ServerPages.Service.Render
import ServerPages.Settings.Address
import ServerPages.Settings.Basic
import ServerPages.Settings.Duration
import ServerPages.Settings.EnvFile
import ServerPages.Source.Cursor
import ServerPages.Source.FileTree
import ServerPages.Source.Position
import ServerPages.TagLibrary.Descriptor
import ServerPages.TagLibrary.Document
import ServerPages.TagLibrary.Registry
import ServerPages.TagLibrary.Setter
import ServerPages.Text.Bytes
import ServerPages.Text.Float
import ServerPages.Text.Numeral
import ServerPages.Text.Quoted
import ServerPages.Text.SlashPath
import ServerPages.Text.Utf8
import ServerPages.Tree.Equivalence
import ServerPages.Tree.Kind
import ServerPages.Tree.Node
import ServerPages.Tree.PageInfo
import ServerPages.Tree.Walk
import ServerPages.Unicode.Case
import ServerPages.Unicode.Digit
import ServerPages.Unicode.Letter
import ServerPages.Unicode.Printable
import ServerPages.Unicode.Ranges
import ServerPages.Unicode.Space
import ServerPages.Validation.Directive
import ServerPages.Validation.Signature
import ServerPages.Validation.State
import ServerPages.Validation.Tag
import ServerPages.Validation.Validate
