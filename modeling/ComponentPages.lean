import ComponentPages.Main
import ComponentPages.Proofs.Expression.Rendering
import ComponentPages.Proofs.Expression.Reading
import ComponentPages.Proofs.Expression.Evaluation
import ComponentPages.Proofs.Compilation
import ComponentPages.Proofs.Counters
import ComponentPages.Proofs.Termination
import ComponentPages.Proofs.Markup.Piece
import ComponentPages.Proofs.Markup.Block
import ComponentPages.Proofs.Markup.Head
import ComponentPages.Proofs.Markup.Forest
import ComponentPages.Proofs.Markup.Paragraph
import ComponentPages.Proofs.Markup.Settling
import ComponentPages.Proofs.Markup.Mark
import ComponentPages.Proofs.Markup.Placeholder
import ComponentPages.Proofs.Markup.Quiet
import ComponentPages.Proofs.Expression.Clean
import ComponentPages.Proofs.Markup.Tree
import ComponentPages.Proofs.Markup.Meaning
import ComponentPages.Proofs.Markup.Library
import ComponentPages.Proofs.Markup.Argument
import ComponentPages.Proofs.Markup.Slot
import ComponentPages.Proofs.Markup.Filling
import ComponentPages.Proofs.Markup.Template
import ComponentPages.Proofs.Markup.Item
import ComponentPages.Proofs.Markup.Expansion
import ComponentPages.Proofs.Markup.Page
import ComponentPages.Proofs.Markup.Rereading
import ComponentPages.Proofs.Script.Assignment
import ComponentPages.Proofs.Guard
import ComponentPages.Proofs.Context
import ComponentPages.Proofs.Markup.Inside
import ComponentPages.Proofs.Markup.Search
import ComponentPages.Proofs.Markup.OpenTag
import ComponentPages.Proofs.Markup.Finished
import ComponentPages.Proofs.Fetch.Survival
import ComponentPages.Proofs.Script.Comment
import ComponentPages.Proofs.Markup.ScopeAttribute
import ComponentPages.Proofs.Fetch.Masking
import ComponentPages.Proofs.Markup.Relay
import ComponentPages.Proofs.Hook.Marking
import ComponentPages.Proofs.Hook.Passing
import ComponentPages.Proofs.Hook.Fetching
import ComponentPages.Proofs.Hook.Calls
import ComponentPages.Proofs.Hook.Backing
import ComponentPages.Proofs.Hook.Carrying
import ComponentPages.Proofs.Hook.Showing
import ComponentPages.Proofs.Checked.Basic
import ComponentPages.Proofs.Checked.Markup
import ComponentPages.Proofs.Checked.Attribute
import ComponentPages.Proofs.Checked.Expression
import ComponentPages.Proofs.Checked.Conditional
import ComponentPages.Proofs.Script.Enclosed
import ComponentPages.Proofs.Stylesheet
import ComponentPages.Proofs.Fetch.Relowering
import ComponentPages.Proofs.Fetch.Hiding
import ComponentPages.Proofs.Checked.Argument
import ComponentPages.Proofs.Checked.Component
import ComponentPages.Proofs.Checked.Script
import ComponentPages.Proofs.Checked.Signal
import ComponentPages.Proofs.Checked.Expansion
import ComponentPages.Proofs.Stylesheet.Separator
import ComponentPages.Proofs.Markup.Loading
import ComponentPages.Proofs.Project.Effects
import ComponentPages.Proofs.Project.Outputs
import ComponentPages.Proofs.Project.Watching
import ComponentPages.Proofs.Project.Link
import ComponentPages.Proofs.Attribute.Rejoining
import ComponentPages.Proofs.Attribute.Printing
import ComponentPages.Proofs.Markup.Resolution
import ComponentPages.Proofs.Markup.Deletion
import ComponentPages.Proofs.Markup.SingleRoot
import ComponentPages.Proofs.Binary64
import ComponentPages.Proofs.Script.Seed
import ComponentPages.Proofs.Script.Declaring
import ComponentPages.Proofs.Script.Turns
