import FieldAutomation.Identity
import FieldAutomation.Packer.Objects
import FieldAutomation.Comparer.Objects
import FieldAutomation.Copying
import FieldAutomation.Settings.Document
import FieldAutomation.Recording.Bench
import FieldAutomation.Proofs.Stream.RoundTrip
import FieldAutomation.Proofs.Packing.RoundTrip
import FieldAutomation.Proofs.Packing.Comparison
import FieldAutomation.Proofs.Comparing.Bisimulation
import FieldAutomation.Proofs.Comparing.Termination
import FieldAutomation.Proofs.Stream.Materialization
import FieldAutomation.Proofs.Stream.Words
import FieldAutomation.Proofs.Stream.Decoding
import FieldAutomation.Proofs.Recording.Fields
import FieldAutomation.Proofs.Recording.Lifetime
import FieldAutomation.Proofs.Recording.Changes
import FieldAutomation.Proofs.Recording.Handles
import FieldAutomation.Proofs.Recording.Traces
import FieldAutomation.Proofs.Recording.Mirror
import FieldAutomation.Proofs.Recording.Chronicle
import FieldAutomation.Proofs.Comparing.Hooks
import FieldAutomation.Proofs.Comparing.Keeping
import FieldAutomation.Proofs.Packing.Independence
import FieldAutomation.Proofs.Traversal.Ending
import FieldAutomation.Proofs.Recording.Listing
import FieldAutomation.Proofs.Copying.Reproduction
import FieldAutomation.Proofs.Stream.Placement
import FieldAutomation.Proofs.Comparing.Independence
import FieldAutomation.Proofs.Traversal.Levels
import FieldAutomation.Proofs.Recording.Lines
import FieldAutomation.Proofs.Packing.Refusal
import FieldAutomation.Proofs.Packing.Hooks
import FieldAutomation.Proofs.Packing.Containment
import FieldAutomation.Proofs.Comparing.Numbers
import FieldAutomation.Proofs.Comparing.Records
import FieldAutomation.Proofs.Traversal.Reentry
import FieldAutomation.Proofs.Packing.Missing
import FieldAutomation.Proofs.Text.Rendering
import FieldAutomation.Proofs.Stream.Regrouping
import FieldAutomation.Proofs.Recording.Streams
import FieldAutomation.Proofs.Text.Paths
import FieldAutomation.Proofs.Traversal.Guards
import FieldAutomation.Proofs.Settings.Writing
