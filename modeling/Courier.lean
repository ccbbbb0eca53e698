import Courier.Settings.Load
import Courier.Queue.Probe
import Courier.Transport.Recovery
import Courier.Transport.Session
import Courier.Proofs.Queue.Fates
import Courier.Proofs.Queue.Lifecycle
import Courier.Proofs.Queue.Slots
import Courier.Proofs.Transport.Calls
import Courier.Proofs.Transport.Closing
import Courier.Proofs.Transport.Draining
import Courier.Proofs.Transport.Idling
import Courier.Proofs.Transport.Isolation
import Courier.Proofs.Transport.Keeping
import Courier.Proofs.Transport.Sessions
import Courier.Proofs.Transport.Flushes
import Courier.Proofs.Transport.Signals
import Courier.Proofs.Task.Likeness
import Courier.Proofs.Json.Printing
import Courier.Proofs.Envelope.RoundTrip
import Courier.Proofs.Cache.Bounded
import Courier.Proofs.Cache.Failing
import Courier.Proofs.Cache.Loading
import Courier.Proofs.Cache.Reach
import Courier.Proofs.Cache.Storing
import Courier.Proofs.RateLimit.Log
import Courier.Proofs.Transport.Recovering
import Courier.Proofs.Task.Course
import Courier.Proofs.RateLimit.Filtering
import Courier.Proofs.RateLimit.Spacing
import Courier.Proofs.Envelope.Content
import Courier.Proofs.Seconds
import Courier.Proofs.Settings.Defaults
