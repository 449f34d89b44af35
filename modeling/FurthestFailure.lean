import FurthestFailure.Interchange
import FurthestFailure.Regex.Prioritised
import FurthestFailure.Session
import FurthestFailure.Proofs.Correspondence
import FurthestFailure.Proofs.Correspondence.Loops
import FurthestFailure.Proofs.Everywhere
import FurthestFailure.Proofs.Reach
import FurthestFailure.Proofs.Walking
import FurthestFailure.Proofs.Correspondence.Grammar
import FurthestFailure.Proofs.Correspondence.Lockstep
import FurthestFailure.Proofs.Depth
import FurthestFailure.Proofs.Slots
import FurthestFailure.Proofs.Reading
import FurthestFailure.Proofs.Recording
import FurthestFailure.Proofs.FurthestReport
import FurthestFailure.Proofs.Coherence
import FurthestFailure.Proofs.Locality
import FurthestFailure.Proofs.Recognition
import FurthestFailure.Proofs.Recognition.Completeness
import FurthestFailure.Proofs.Unbounded
import FurthestFailure.Proofs.Renaming
import FurthestFailure.Proofs.Renaming.Assembling
import FurthestFailure.Proofs.Anew
import FurthestFailure.Proofs.Anew.Keeping
import FurthestFailure.Proofs.Anew.Adequacy
import FurthestFailure.Proofs.Renaming.Uniform
import FurthestFailure.Proofs.FixedPoints
import FurthestFailure.Proofs.Languages.RuleSets
import FurthestFailure.Proofs.Languages.Assembling
import FurthestFailure.Proofs.Languages.Unfolding
import FurthestFailure.Proofs.Languages.Order
import FurthestFailure.Proofs.Languages.Guarding
import FurthestFailure.Proofs.Languages.Building
import FurthestFailure.Proofs.Termination.Nullable
import FurthestFailure.Proofs.Termination.Settling
import FurthestFailure.Proofs.Termination
import FurthestFailure.Proofs.Likeness
import FurthestFailure.Proofs.Relabelling.Runs
import FurthestFailure.Proofs.Revaluing
import FurthestFailure.Proofs.Relating
import FurthestFailure.Proofs.Stepping
import FurthestFailure.Proofs.Stepping.SlotLife
import FurthestFailure.Proofs.Interleaving.Views
import FurthestFailure.Proofs.Interleaving.Halfway
import FurthestFailure.Proofs.Interleaving.Sharing
import FurthestFailure.Proofs.Interleaving.Safe
import FurthestFailure.Proofs.Interleaving.Endings
import FurthestFailure.Proofs.Interleaving.Pool
import FurthestFailure.Proofs.Ownership
import FurthestFailure.Proofs.Ownership.Runs
import FurthestFailure.Proofs.Ownership.Releasing
import FurthestFailure.Proofs.Ownership.Sessions
import FurthestFailure.Proofs.Ownership.Settling
import FurthestFailure.Proofs.Ownership.Handles
import FurthestFailure.Proofs.Merging
import FurthestFailure.Proofs.Chaining
import FurthestFailure.Proofs.EntryPoints
import FurthestFailure.Proofs.Expectations
import FurthestFailure.Proofs.Progress
import FurthestFailure.Proofs.Repeating
import FurthestFailure.Proofs.Counting
import FurthestFailure.Proofs.Counting.Limits
import FurthestFailure.Proofs.Merging.Folding
import FurthestFailure.Proofs.Merging.Grouping
import FurthestFailure.Proofs.Choosing
import FurthestFailure.Proofs.Choosing.Alternatives
import FurthestFailure.Proofs.Brackets.Words
import FurthestFailure.Proofs.Brackets
import FurthestFailure.Proofs.Readings
import FurthestFailure.Proofs.Ranges.Layout
import FurthestFailure.Proofs.Ranges
import FurthestFailure.Proofs.Spelling
import FurthestFailure.Proofs.Separating
import FurthestFailure.Proofs.Separating.Lists
import FurthestFailure.Proofs.Lookahead
import FurthestFailure.Proofs.Diagnostics
import FurthestFailure.Proofs.Interchange.Layout
import FurthestFailure.Proofs.Interchange
import FurthestFailure.Proofs.Scanning
import FurthestFailure.Proofs.Patterns.Closing
import FurthestFailure.Proofs.Patterns.Classes
import FurthestFailure.Proofs.Patterns.Steps
import FurthestFailure.Proofs.Patterns.Wrapping
import FurthestFailure.Proofs.Patterns.Searching
import FurthestFailure.Proofs.Patterns
