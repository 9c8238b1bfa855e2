import StreamRelay.Framing.Wire
import StreamRelay.Pieces
import StreamRelay.Main
import StreamRelay.Proofs.Buffer.Storage
import StreamRelay.Proofs.CommandLine.SizeGrammar
import StreamRelay.Proofs.Digest.Signatures
import StreamRelay.Proofs.Framing.Diagnosis
import StreamRelay.Proofs.Framing.Incremental
import StreamRelay.Proofs.Framing.Occurrences
import StreamRelay.Proofs.Framing.Schedule
import StreamRelay.Proofs.Framing.Withholding
import StreamRelay.Proofs.Limiter.Projection
import StreamRelay.Proofs.Pieces.Partition
import StreamRelay.Proofs.Program.Tuning
import StreamRelay.Proofs.Relay.Bookkeeping
import StreamRelay.Proofs.Relay.Liveness
import StreamRelay.Proofs.Relay.Pacing
import StreamRelay.Proofs.Relay.Reading
import StreamRelay.Proofs.Relay.Refinement
import StreamRelay.Proofs.Relay.Reporting
import StreamRelay.Proofs.Relay.Touching
import StreamRelay.Proofs.Relay.Truncation
import StreamRelay.Proofs.Relay.Waiting
import StreamRelay.Proofs.Report.ByteCounts
import StreamRelay.Proofs.Report.RateLines
import StreamRelay.Proofs.Sink.Closing
import StreamRelay.Proofs.Sink.Isolation
import StreamRelay.Proofs.Source.Lossless
