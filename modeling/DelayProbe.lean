import DelayProbe.Session
import DelayProbe.Proofs.Sound
import DelayProbe.Proofs.Grammar
import DelayProbe.Proofs.RoundTrip
import DelayProbe.Proofs.Layout
import DelayProbe.Proofs.Drawn
import DelayProbe.Proofs.Agreement
import DelayProbe.Proofs.History
import DelayProbe.Proofs.Refused
import DelayProbe.Proofs.Replay
import DelayProbe.Proofs.Ancestry
import DelayProbe.Proofs.Turns
import DelayProbe.Proofs.Idle
import DelayProbe.Proofs.Passing
import DelayProbe.Proofs.Tally
import DelayProbe.Proofs.Reprint
import DelayProbe.Proofs.Origin
import DelayProbe.Proofs.Mention
import DelayProbe.Proofs.Readback
import DelayProbe.Proofs.Translation
import DelayProbe.Proofs.Objection
import DelayProbe.Proofs.Lines
import DelayProbe.Proofs.Removal
import DelayProbe.Proofs.Flaw
import DelayProbe.Proofs.Diagnosis
import DelayProbe.Proofs.Exchange
import DelayProbe.Proofs.Interleaving
import DelayProbe.Proofs.Accepted
import DelayProbe.Proofs.Patterns
import DelayProbe.Proofs.Accrual
import DelayProbe.Proofs.Setting
import DelayProbe.Proofs.Metadata
