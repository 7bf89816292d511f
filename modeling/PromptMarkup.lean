/-
A markup language for prompts: templates with expressions, blocks and tags that are turned into
conversations, one step at a time.
-/
import PromptMarkup.Main
import PromptMarkup.Proofs.Accepting
import PromptMarkup.Proofs.Agreement
import PromptMarkup.Proofs.Answers
import PromptMarkup.Proofs.Arriving
import PromptMarkup.Proofs.Bindings
import PromptMarkup.Proofs.Blame
import PromptMarkup.Proofs.Blocks
import PromptMarkup.Proofs.Chains
import PromptMarkup.Proofs.Confinement
import PromptMarkup.Proofs.Cycles
import PromptMarkup.Proofs.Deriving
import PromptMarkup.Proofs.Embedding
import PromptMarkup.Proofs.Endings
import PromptMarkup.Proofs.Equalities
import PromptMarkup.Proofs.Evaluating
import PromptMarkup.Proofs.Flushing
import PromptMarkup.Proofs.Following
import PromptMarkup.Proofs.Footprint
import PromptMarkup.Proofs.Governing
import PromptMarkup.Proofs.Hashes
import PromptMarkup.Proofs.Layout
import PromptMarkup.Proofs.Leaves
import PromptMarkup.Proofs.Limits
import PromptMarkup.Proofs.Lines
import PromptMarkup.Proofs.Lockstep
import PromptMarkup.Proofs.Memory
import PromptMarkup.Proofs.Messages
import PromptMarkup.Proofs.Moving
import PromptMarkup.Proofs.Nesting
import PromptMarkup.Proofs.Numbering
import PromptMarkup.Proofs.OptionalLinks
import PromptMarkup.Proofs.Order
import PromptMarkup.Proofs.Parameters
import PromptMarkup.Proofs.Parity
import PromptMarkup.Proofs.Parts
import PromptMarkup.Proofs.Passing
import PromptMarkup.Proofs.Paths
import PromptMarkup.Proofs.Pausing
import PromptMarkup.Proofs.Placement
import PromptMarkup.Proofs.Poised
import PromptMarkup.Proofs.Positions
import PromptMarkup.Proofs.Protocol
import PromptMarkup.Proofs.Questions
import PromptMarkup.Proofs.Radixes
import PromptMarkup.Proofs.Reading
import PromptMarkup.Proofs.Replacing
import PromptMarkup.Proofs.Resumption
import PromptMarkup.Proofs.Running
import PromptMarkup.Proofs.Safety
import PromptMarkup.Proofs.Scoping
import PromptMarkup.Proofs.Sessions
import PromptMarkup.Proofs.Sharing
import PromptMarkup.Proofs.Slicing
import PromptMarkup.Proofs.Soundness
import PromptMarkup.Proofs.Sources
import PromptMarkup.Proofs.Spans
import PromptMarkup.Proofs.Spelling
import PromptMarkup.Proofs.Spent
import PromptMarkup.Proofs.Splitting
import PromptMarkup.Proofs.Stack
import PromptMarkup.Proofs.Stamps
import PromptMarkup.Proofs.Table
import PromptMarkup.Proofs.Tallies
import PromptMarkup.Proofs.Tiling
import PromptMarkup.Proofs.Trail
import PromptMarkup.Proofs.Uninterrupted
import PromptMarkup.Proofs.Updates
import PromptMarkup.Proofs.Visits
