import DocumentTree.Config.Load
import DocumentTree.Document.Grammar
import DocumentTree.Document.Json
import DocumentTree.Log.Setup
import DocumentTree.Markdown.TextFunction
import DocumentTree.Rendering.Basic
import DocumentTree.Rendering.Sink
import DocumentTree.Store.Shorthand
import DocumentTree.Value.Equality
import DocumentTree.Proofs.Store.Links
import DocumentTree.Proofs.Store.Forest
import DocumentTree.Proofs.Outcome
import DocumentTree.Proofs.Store.Attachment
import DocumentTree.Proofs.Store.Operations
import DocumentTree.Proofs.Store.Run
import DocumentTree.Proofs.Document.Grammatical
import DocumentTree.Proofs.Document.Rules
import DocumentTree.Proofs.Document.LoweredGrammar
import DocumentTree.Proofs.Description.Direct
import DocumentTree.Proofs.Description.DirectLowering
import DocumentTree.Proofs.Description.Spelling
import DocumentTree.Proofs.Description.Building
import DocumentTree.Proofs.Description.Brackets
import DocumentTree.Proofs.Description.Mounting
import DocumentTree.Proofs.Document.RoundTrip
import DocumentTree.Proofs.Document.Handles
import DocumentTree.Proofs.Store.Contents
import DocumentTree.Proofs.Document.Fragments
import DocumentTree.Proofs.Document.Encoded
import DocumentTree.Proofs.Text.Trimming
import DocumentTree.Proofs.Markdown.Unescaping
import DocumentTree.Proofs.Markdown.BlockStarts
import DocumentTree.Proofs.Rendering.Described
import DocumentTree.Proofs.Text.Lines
import DocumentTree.Proofs.Markdown.Documents
import DocumentTree.Proofs.Markdown.ParagraphLine
import DocumentTree.Proofs.Markdown.Containment
import DocumentTree.Proofs.Document.Texts
import DocumentTree.Proofs.Markdown.LineCounts
import DocumentTree.Proofs.Markdown.Seams
import DocumentTree.Proofs.Markdown.Spans
import DocumentTree.Proofs.Markdown.Formatting
import DocumentTree.Proofs.Document.SameTrees
import DocumentTree.Proofs.Store.Calls
import DocumentTree.Proofs.Store.Moves
import DocumentTree.Proofs.Store.Steps
import DocumentTree.Proofs.Store.Refusals
import DocumentTree.Proofs.Store.TopLevel
import DocumentTree.Proofs.Store.Roles
import DocumentTree.Proofs.Document.Faults
import DocumentTree.Proofs.Markdown.Parts
import DocumentTree.Proofs.Markdown.Delimiters
import DocumentTree.Proofs.Markdown.Leaders
import DocumentTree.Proofs.Markdown.ParagraphStarts
import DocumentTree.Proofs.Markdown.Siblings
import DocumentTree.Proofs.Markdown.CodeSequences
import DocumentTree.Proofs.Markdown.Enclosures
import DocumentTree.Proofs.Markdown.TableFields
import DocumentTree.Proofs.Markdown.TableShape
import DocumentTree.Proofs.Markdown.CellTexts
import DocumentTree.Proofs.Store.TopSteps
import DocumentTree.Proofs.Store.TopPlaces
import DocumentTree.Proofs.Store.TopIndex
import DocumentTree.Proofs.Markdown.OptionScope
import DocumentTree.Proofs.Rendering.Debugging
import DocumentTree.Proofs.Description.FailedMounting
import DocumentTree.Proofs.Document.Places
import DocumentTree.Proofs.Document.Accounts
import DocumentTree.Proofs.Document.Dropped
import DocumentTree.Proofs.Document.UnknownRoles
import DocumentTree.Proofs.Document.Grouping
import DocumentTree.Proofs.Markdown.Signs
import DocumentTree.Proofs.Markdown.KeptTexts
import DocumentTree.Proofs.Markdown.CodeSpans
import DocumentTree.Proofs.Markdown.Titles
import DocumentTree.Proofs.Markdown.Destinations
import DocumentTree.Proofs.Document.Examination
import DocumentTree.Proofs.Document.FieldFaults
import DocumentTree.Proofs.Document.Decoding
import DocumentTree.Proofs.Markdown.HeadingLine
import DocumentTree.Proofs.Markdown.Fences
import DocumentTree.Proofs.Markdown.LinkBrackets
import DocumentTree.Proofs.Markdown.IndentedCode
import DocumentTree.Proofs.Markdown.BlockEnds
import DocumentTree.Proofs.Markdown.BlankLines
import DocumentTree.Proofs.Markdown.ListMarks
import DocumentTree.Proofs.Markdown.ItemRules
import DocumentTree.Proofs.Markdown.ItemContents
import DocumentTree.Proofs.Markdown.OrderedMarkers
import DocumentTree.Proofs.Markdown.Interruptions
import DocumentTree.Proofs.Number.Digits
import DocumentTree.Proofs.Json.Scalars
import DocumentTree.Proofs.Document.Outlines
import DocumentTree.Proofs.Markdown.OptionValues
import DocumentTree.Proofs.Markdown.Parentheses
import DocumentTree.Proofs.Config.Discovery
