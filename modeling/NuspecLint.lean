import NuspecLint.Main
import NuspecLint.Proofs.Markup.Comment
import NuspecLint.Proofs.Markup.RoundTrip
import NuspecLint.Proofs.Markup.TagPattern
import NuspecLint.Proofs.Markup.Tiling
import NuspecLint.Proofs.Markup.Unterminated
import NuspecLint.Proofs.Client.Wire
import NuspecLint.Proofs.Command.Agreement
import NuspecLint.Proofs.Command.Outcome
import NuspecLint.Proofs.Config.Lookup
import NuspecLint.Proofs.Rule.Description
import NuspecLint.Proofs.Rule.Hidden
import NuspecLint.Proofs.Rule.LineEnds
import NuspecLint.Proofs.Rule.Placeholder
import NuspecLint.Proofs.Server.History
import NuspecLint.Proofs.Position.Inverse
import NuspecLint.Proofs.Config.Nearest
import NuspecLint.Proofs.Markup.Completion
import NuspecLint.Proofs.Command.Listing
import NuspecLint.Proofs.Config.Fault
import NuspecLint.Proofs.Config.Selection
import NuspecLint.Proofs.Data.Reordering
import NuspecLint.Proofs.Data.Toml.Keys
import NuspecLint.Proofs.Config.KeyOrder
import NuspecLint.Proofs.Analysis
import NuspecLint.Proofs.Client.Order
import NuspecLint.Proofs.Command.Expansion
import NuspecLint.Proofs.Rule.Bounds
import NuspecLint.Proofs.Markup.AttributePlace
import NuspecLint.Proofs.Markup.DocumentOrder
import NuspecLint.Proofs.Markup.RightSpine
