import SheetAudit.Audit.Basic
import SheetAudit.Audit.Crew
import SheetAudit.Audit.Run
import SheetAudit.Choice
import SheetAudit.Color.Contrast
import SheetAudit.Color.Named
import SheetAudit.Color.Notation
import SheetAudit.Color.Resolver
import SheetAudit.CommandLine.Basic
import SheetAudit.CommandLine.Grammar
import SheetAudit.CommandLine.Help
import SheetAudit.CommandLine.Reading
import SheetAudit.CommandLine.Run
import SheetAudit.Decimal.Digits
import SheetAudit.Decimal.Double
import SheetAudit.Decimal.Reading
import SheetAudit.Failure
import SheetAudit.Files.Filter
import SheetAudit.Files.Ignore
import SheetAudit.Files.Path
import SheetAudit.Files.Scan
import SheetAudit.Files.Tree
import SheetAudit.Glob.Match
import SheetAudit.Glob.Pattern
import SheetAudit.Issue
import SheetAudit.Main
import SheetAudit.Name
import SheetAudit.Offsets.Block
import SheetAudit.Offsets.Comment
import SheetAudit.Offsets.Lines
import SheetAudit.Offsets.Pseudo
import SheetAudit.Offsets.Selector
import SheetAudit.Offsets.Sheet
import SheetAudit.Offsets.Specificity
import SheetAudit.Offsets.Text
import SheetAudit.Offsets.Value
import SheetAudit.Proofs.Amounts
import SheetAudit.Proofs.Arrangement
import SheetAudit.Proofs.Backslashes
import SheetAudit.Proofs.Blank
import SheetAudit.Proofs.Blanking
import SheetAudit.Proofs.Bounds
import SheetAudit.Proofs.Braces
import SheetAudit.Proofs.Bytes
import SheetAudit.Proofs.Cancellation
import SheetAudit.Proofs.CanonicalNames
import SheetAudit.Proofs.Closing
import SheetAudit.Proofs.ColorFixes
import SheetAudit.Proofs.ColorValues
import SheetAudit.Proofs.ColorWords
import SheetAudit.Proofs.Composition
import SheetAudit.Proofs.Compounds
import SheetAudit.Proofs.Contents
import SheetAudit.Proofs.Counting
import SheetAudit.Proofs.Draft
import SheetAudit.Proofs.Escapes
import SheetAudit.Proofs.Escaping
import SheetAudit.Proofs.Faultless
import SheetAudit.Proofs.Findings
import SheetAudit.Proofs.Firsts
import SheetAudit.Proofs.Flags
import SheetAudit.Proofs.FocusFindings
import SheetAudit.Proofs.FocusSelectors
import SheetAudit.Proofs.Gathering
import SheetAudit.Proofs.Governing
import SheetAudit.Proofs.Grammar
import SheetAudit.Proofs.Header
import SheetAudit.Proofs.Interleaving
import SheetAudit.Proofs.Judgement
import SheetAudit.Proofs.LeadingMark
import SheetAudit.Proofs.LinePositions
import SheetAudit.Proofs.Listings
import SheetAudit.Proofs.Majority
import SheetAudit.Proofs.Messages
import SheetAudit.Proofs.Nesting
import SheetAudit.Proofs.OneWorker
import SheetAudit.Proofs.OutlineFlags
import SheetAudit.Proofs.OwnDeclarations
import SheetAudit.Proofs.Painting
import SheetAudit.Proofs.Pieces
import SheetAudit.Proofs.Placement
import SheetAudit.Proofs.Places
import SheetAudit.Proofs.Planning
import SheetAudit.Proofs.Proposals
import SheetAudit.Proofs.PseudoClasses
import SheetAudit.Proofs.Purposes
import SheetAudit.Proofs.Quantities
import SheetAudit.Proofs.Ranges
import SheetAudit.Proofs.Recasing
import SheetAudit.Proofs.Recognition
import SheetAudit.Proofs.References
import SheetAudit.Proofs.Relocation
import SheetAudit.Proofs.Remarks
import SheetAudit.Proofs.Repetition
import SheetAudit.Proofs.Replacement
import SheetAudit.Proofs.Requirements
import SheetAudit.Proofs.Resolution
import SheetAudit.Proofs.Respacing
import SheetAudit.Proofs.RoundTrip
import SheetAudit.Proofs.Scans
import SheetAudit.Proofs.SelectorGrammar
import SheetAudit.Proofs.SelectorLists
import SheetAudit.Proofs.SingleColors
import SheetAudit.Proofs.Situation
import SheetAudit.Proofs.Spans
import SheetAudit.Proofs.StripTwice
import SheetAudit.Proofs.Structure
import SheetAudit.Proofs.Subjects
import SheetAudit.Proofs.Values
import SheetAudit.Proofs.Visibility
import SheetAudit.Proofs.Walk
import SheetAudit.Proofs.Weighing
import SheetAudit.Proofs.WeighingByIndex
import SheetAudit.Proofs.WellFormed
import SheetAudit.Property
import SheetAudit.Render.Format
import SheetAudit.Render.Frame
import SheetAudit.Render.Html
import SheetAudit.Render.Json
import SheetAudit.Render.Markdown
import SheetAudit.Render.Terminal
import SheetAudit.Repeats
import SheetAudit.Report.Basic
import SheetAudit.Report.Plan
import SheetAudit.Rules.Checker
import SheetAudit.Rules.Documentation
import SheetAudit.Rules.Focus
import SheetAudit.Rules.Layout
import SheetAudit.Rules.Motion
import SheetAudit.Rules.Naming
import SheetAudit.Rules.Quality
import SheetAudit.Rules.Requirement
import SheetAudit.Rules.Responsive
import SheetAudit.Rules.Spacing
import SheetAudit.Rules.Theming
import SheetAudit.Selector.Compound
import SheetAudit.Selector.List
import SheetAudit.Selector.Specificity
import SheetAudit.Settings
import SheetAudit.Settings.Loading
import SheetAudit.Settings.Reading
import SheetAudit.Sheet.Basic
import SheetAudit.Sheet.Purpose
import SheetAudit.Sheet.Query
import SheetAudit.Sheet.Reading
import SheetAudit.Sheet.Tree
import SheetAudit.Source.Block
import SheetAudit.Source.Cell
import SheetAudit.Source.Comment
import SheetAudit.Source.Section
import SheetAudit.Text.Blank
import SheetAudit.Text.Letter
import SheetAudit.Text.Lower
import SheetAudit.Text.Script
import SheetAudit.Text.Search
import SheetAudit.Text.Table
import SheetAudit.Toml.Quoted
import SheetAudit.Toml.Reading
import SheetAudit.Toml.Value
import SheetAudit.Toml.Word
import SheetAudit.Value.Literal
import SheetAudit.Value.Number
import SheetAudit.Value.Reference
