import TestWeave.Main
import TestWeave.Proofs.Characters
import TestWeave.Proofs.Reading
import TestWeave.Proofs.Operators
import TestWeave.Proofs.Rows
import TestWeave.Proofs.Tokens
import TestWeave.Proofs.Forest
import TestWeave.Proofs.Soft
import TestWeave.Proofs.Parts
import TestWeave.Proofs.Windows
import TestWeave.Proofs.Segments
import TestWeave.Proofs.Reprint
import TestWeave.Proofs.Splice
import TestWeave.Proofs.Layout
import TestWeave.Proofs.Prepared
import TestWeave.Proofs.Names
import TestWeave.Proofs.Moves
import TestWeave.Proofs.Lines
import TestWeave.Proofs.Quoting
import TestWeave.Proofs.Spelling
import TestWeave.Proofs.Additions
import TestWeave.Proofs.Rescan
import TestWeave.Proofs.Sites
import TestWeave.Proofs.Sketch
import TestWeave.Proofs.Woven
import TestWeave.Proofs.Kinds
import TestWeave.Proofs.Declared
import TestWeave.Proofs.Regrow
import TestWeave.Proofs.Remodel
import TestWeave.Proofs.Imported
import TestWeave.Proofs.Emission
import TestWeave.Proofs.Redirect
import TestWeave.Proofs.Files
import TestWeave.Proofs.Record
import TestWeave.Proofs.Ownership
import TestWeave.Proofs.Growth
import TestWeave.Proofs.Course
import TestWeave.Proofs.Decision
import TestWeave.Proofs.Exclusion
import TestWeave.Proofs.Entries
import TestWeave.Proofs.Synthesis
import TestWeave.Proofs.Series
import TestWeave.Proofs.Header
import TestWeave.Proofs.Listing
import TestWeave.Proofs.Swapping
import TestWeave.Proofs.Registered
import TestWeave.Proofs.Tiling
import TestWeave.Proofs.Semicolons
import TestWeave.Proofs.Nesting
import TestWeave.Proofs.Untouched
import TestWeave.Proofs.Arranged
import TestWeave.Proofs.Relisting
import TestWeave.Proofs.Shapes
import TestWeave.Proofs.Recast
import TestWeave.Proofs.Replanted
import TestWeave.Proofs.Remaining
import TestWeave.Proofs.Watched
import TestWeave.Proofs.Settled
import TestWeave.Proofs.Repeated
import TestWeave.Proofs.Rereading
import TestWeave.Proofs.Overlap
import TestWeave.Proofs.Separate
import TestWeave.Proofs.Flags
import TestWeave.Proofs.Substitution
import TestWeave.Proofs.Extended
import TestWeave.Proofs.Scanned
import TestWeave.Proofs.Simultaneous
import TestWeave.Proofs.Actions
import TestWeave.Proofs.Requests
import TestWeave.Proofs.Captured
import TestWeave.Proofs.Outcome
import TestWeave.Proofs.Respelled
import TestWeave.Proofs.Reached
import TestWeave.Proofs.Turns
import TestWeave.Proofs.Missed
import TestWeave.Proofs.Reordered
import TestWeave.Proofs.Numerals
import TestWeave.Proofs.Parameters
import TestWeave.Proofs.Positions
import TestWeave.Proofs.Lowered
import TestWeave.Proofs.Carried
import TestWeave.Proofs.Literals
import TestWeave.Proofs.KeyFiles
import TestWeave.Proofs.Builds
import TestWeave.Proofs.Shared
import TestWeave.Proofs.Fetches
import TestWeave.Proofs.Slices
import TestWeave.Proofs.Stepwise
