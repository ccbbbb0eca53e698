import Courier.Category
import Courier.Outcome

/-!
# Log lines

Everything that is logged, with its level, its message and its fields. Envelopes are named by their
labels.
-/

namespace Courier

/-- How much a log line matters. -/
inductive Level where
  | trace
  | debug
  | warn
  | error
  deriving DecidableEq, Repr

def Level.name : Level → String
  | .trace => "TRACE"
  | .debug => "DEBUG"
  | .warn => "WARN"
  | .error => "ERROR"

/-- What a log line says. -/
inductive Notice where
  | hintNotRetryable (retry : Bool)
  | retryAlreadySet (retry : Bool)
  | resultAlreadySet (success : Bool)
  | gateChanged (connected : Bool)
  | entrySkipped (path error : String)
  | entryEvicted (path : String)
  | envelopeCached (label : String)
  | envelopeAlreadyCached (label : String)
  | cachingFailed (label error : String)
  | envelopeDiscarded (label : String)
  | discardFailed (label path error : String)
  | jobRejected (reason : RejectReason) (pending : Nat)
  | queueShuttingDown (pending : Nat)
  | jobFaulted (description : String)
  | limitApplied (category : Category) (nanos : Nat)
  | limitMalformed (entry : String)
  | limitUnknown (error : String)
  | itemDropped (label : String) (category : Category)
  | envelopeThrottled (label : String)
  | flushNotified (label : String)
  | envelopeDelivered (label : String) (code : Option Nat)
  | gateClosed (label : String)
  | envelopeRefused (label : String) (code : Option Nat)
  | exchangeFailed (label error : String)
  | submissionFaulted (label : String)
  | resultReported (label : String) (success : Bool)
  | transportStarted (maxQueueSize closeGraceSecs : Nat)
  | storeSkipped (label : String)
  | flushing (timeoutMs pending : Nat)
  | flushTimedOut (pending : Nat)
  | transportClosing (pending : Nat)
  | transportClosed
  | closeTimedOut (graceSecs pending : Nat)
  | envelopeRejected (label : String) (reason : RejectReason)
  | deliveryDisabled (label : String)
  deriving DecidableEq, Repr

namespace Notice

def level : Notice → Level
  | .entrySkipped .. | .gateClosed .. | .closeTimedOut .. | .envelopeRejected .. => .warn
  | .cachingFailed .. | .discardFailed .. | .jobFaulted .. | .envelopeRefused ..
  | .exchangeFailed .. | .submissionFaulted .. => .error
  | .deliveryDisabled .. => .trace
  | _ => .debug

def message : Notice → String
  | .hintNotRetryable _ => "hint is not retryable, no retry signal delivered"
  | .retryAlreadySet _ => "retry flag already set, ignoring"
  | .resultAlreadySet _ => "submission result already set, ignoring"
  | .gateChanged _ => "transport gate changed"
  | .entrySkipped .. => "skipping unreadable cache entry"
  | .entryEvicted _ => "cache full, evicted oldest envelope"
  | .envelopeCached _ => "envelope cached"
  | .envelopeAlreadyCached _ => "envelope already cached"
  | .cachingFailed .. => "failed to cache envelope"
  | .envelopeDiscarded _ => "envelope discarded from cache"
  | .discardFailed .. => "failed to discard envelope"
  | .jobRejected .. => "job rejected by dispatch queue"
  | .queueShuttingDown _ => "dispatch queue shutting down"
  | .jobFaulted _ => "send job panicked"
  | .limitApplied .. => "rate limit applied"
  | .limitMalformed _ => "skipping malformed rate limit entry"
  | .limitUnknown _ => "ignoring rate limit for unknown category"
  | .itemDropped .. => "item dropped, category is rate limited"
  | .envelopeThrottled _ => "envelope dropped, all items rate limited"
  | .flushNotified _ => "disk flush notification fired"
  | .envelopeDelivered .. => "envelope flushed"
  | .gateClosed _ => "transport gate closed, envelope kept for retry"
  | .envelopeRefused .. => "the transport failed to send the envelope"
  | .exchangeFailed .. => "sending the envelope failed"
  | .submissionFaulted _ => "envelope submission failed"
  | .resultReported .. => "marking envelope submission result"
  | .transportStarted .. => "transport started"
  | .storeSkipped _ => "envelope already cached, skipping store"
  | .flushing .. => "flushing transport"
  | .flushTimedOut _ => "flush timed out"
  | .transportClosing _ => "shutting down transport"
  | .transportClosed => "transport shut down"
  | .closeTimedOut .. =>
    "failed to shut down the send worker in time, cancelling queued envelopes"
  | .envelopeRejected .. => "envelope rejected"
  | .deliveryDisabled _ => "delivery disabled, dropping envelope"

def fields : Notice → List (String × String)
  | .hintNotRetryable retry => [("retry", toString retry)]
  | .retryAlreadySet retry => [("retry", toString retry)]
  | .resultAlreadySet success => [("success", toString success)]
  | .gateChanged connected => [("connected", toString connected)]
  | .entrySkipped path error => [("path", path), ("error", error)]
  | .entryEvicted path => [("path", path)]
  | .envelopeCached label => [("envelope", label)]
  | .envelopeAlreadyCached label => [("envelope", label)]
  | .cachingFailed label error => [("envelope", label), ("error", error)]
  | .envelopeDiscarded label => [("envelope", label)]
  | .discardFailed label path error => [("envelope", label), ("path", path), ("error", error)]
  | .jobRejected reason pending => [("reason", reason.name), ("pending", toString pending)]
  | .queueShuttingDown pending => [("pending", toString pending)]
  | .jobFaulted description => [("panic", description)]
  | .limitApplied category nanos =>
    [("category", category.name), ("secs", toString nanos ++ "ns")]
  | .limitMalformed entry => [("entry", entry)]
  | .limitUnknown error => [("error", error)]
  | .itemDropped label category => [("envelope", label), ("category", category.name)]
  | .envelopeThrottled label => [("envelope", label)]
  | .flushNotified label => [("envelope", label)]
  | .envelopeDelivered label code => [("envelope", label), ("response_code", describeCode code)]
  | .gateClosed label => [("envelope", label)]
  | .envelopeRefused label code => [("envelope", label), ("response_code", describeCode code)]
  | .exchangeFailed label error => [("envelope", label), ("error", error)]
  | .submissionFaulted label => [("envelope", label)]
  | .resultReported label success => [("envelope", label), ("success", toString success)]
  | .transportStarted maxQueueSize closeGraceSecs =>
    [("max_queue_size", toString maxQueueSize), ("close_grace_secs", toString closeGraceSecs)]
  | .storeSkipped label => [("envelope", label)]
  | .flushing timeoutMs pending =>
    [("timeout_ms", toString timeoutMs), ("pending", toString pending)]
  | .flushTimedOut pending => [("pending", toString pending)]
  | .transportClosing pending => [("pending", toString pending)]
  | .transportClosed => []
  | .closeTimedOut graceSecs pending =>
    [("grace_secs", toString graceSecs), ("pending", toString pending)]
  | .envelopeRejected label reason => [("envelope", label), ("reason", reason.name)]
  | .deliveryDisabled label => [("envelope", label)]

end Notice
end Courier
