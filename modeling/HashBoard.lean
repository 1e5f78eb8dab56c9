import HashBoard.Checks
import HashBoard.Dag.Layout
import HashBoard.Main
import HashBoard.Simulation.Engagement
import HashBoard.Simulation.Trace
import HashBoard.Simulation.Trial
import HashBoard.Proofs.Alone.EpochChange
import HashBoard.Proofs.Clock.Drift
import HashBoard.Proofs.Commit.Failure
import HashBoard.Proofs.Fault.Worker
import HashBoard.Proofs.Feed.Pending
import HashBoard.Proofs.Finds.Attribution
import HashBoard.Proofs.Finds.Rounds
import HashBoard.Proofs.Finds.Waiting
import HashBoard.Proofs.Flags.InStep
import HashBoard.Proofs.Halt.Revival
import HashBoard.Proofs.Halt.Telemetry
import HashBoard.Proofs.Identity.TuneKey
import HashBoard.Proofs.Intensity.WalkDown
import HashBoard.Proofs.Items.LastChange
import HashBoard.Proofs.Once.Skipped
import HashBoard.Proofs.Phases.Diagram
import HashBoard.Proofs.Ready.Prepared
import HashBoard.Proofs.Search.Frame
import HashBoard.Proofs.Search.RampDown
import HashBoard.Proofs.Stall.Detection
import HashBoard.Proofs.Status.Word
import HashBoard.Proofs.Stock.Generation
import HashBoard.Proofs.Tally.Deltas
import HashBoard.Proofs.Tally.Flushes
import HashBoard.Proofs.Tally.Telescope
import HashBoard.Proofs.Polls.EpochChange
import HashBoard.Proofs.Spread.Course
import HashBoard.Proofs.Supply.Rails
import HashBoard.Proofs.Upload.Pieces
import HashBoard.Proofs.Dag.Reciprocal
import HashBoard.Proofs.Dag.Sizes
import HashBoard.Proofs.Hosts.RoundTrip
import HashBoard.Proofs.Settings.Knobs
