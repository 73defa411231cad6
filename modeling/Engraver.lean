import Engraver.Files.Place
import Engraver.Main
import Engraver.Proofs.Machine.Origin
import Engraver.Proofs.Machine.Sequence
import Engraver.Proofs.Session.History
import Engraver.Proofs.Session.Sharing
import Engraver.Survey.Photograph
import Engraver.Proofs.Hardware.Reckoning
import Engraver.Proofs.Machine.Agreement
import Engraver.Proofs.Session.Agreement
import Engraver.Proofs.Gcode.Grammar
import Engraver.Proofs.Gcode.RoundTrip
import Engraver.Proofs.Session.Bed
import Engraver.Proofs.Session.Stops
import Engraver.Proofs.Session.Drift
import Engraver.Proofs.Gcode.Sources
import Engraver.Proofs.Session.Speeds
import Engraver.Proofs.Session.Lock
import Engraver.Proofs.Session.Places
import Engraver.Proofs.Machine.Counters
import Engraver.Proofs.Session.Counters
import Engraver.Proofs.Session.Restart
import Engraver.Proofs.Console.DryRun
import Engraver.Proofs.Motion.Spreading
import Engraver.Proofs.Number.Whole
import Engraver.Proofs.Motion.Outcome
import Engraver.Proofs.Motion.Timing
import Engraver.Proofs.Motion.Drawing
import Engraver.Proofs.Motion.Windows
import Engraver.Proofs.Machine.Threshold
import Engraver.Proofs.Session.Feedrates
import Engraver.Proofs.Gcode.Decoration
import Engraver.Proofs.Hardware.Stopping
import Engraver.Proofs.Motion.Limit
import Engraver.Proofs.Number.Exact
import Engraver.Proofs.Motion.Remainder
import Engraver.Proofs.Machine.Landing
import Engraver.Proofs.Gcode.Checksum
import Engraver.Proofs.Gcode.ParameterOrder
import Engraver.Proofs.Session.Rejection
import Engraver.Proofs.Session.Opening
import Engraver.Proofs.Session.Bookkeeping
import Engraver.Proofs.Session.Direct
import Engraver.Proofs.Raster.Rows
import Engraver.Proofs.Survey.Cover
import Engraver.Proofs.Survey.Counting
import Engraver.Proofs.Survey.Pictures
import Engraver.Proofs.Survey.Visits
