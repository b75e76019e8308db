import Arks.Gateway

/-!
The gateway against services that may answer anything. A program here calls the
interfaces of its services and the two maps of the process. The deployed server does
the same, with the programs that its services run on Redis and the API server in the
place of the calls.
-/
namespace Arks.Interfaces
open Programs Programs.Prog Counters Services Gateway
open Effects (Metric ProcessingTime Bytes)

/-! ### The calls of a session -/

/-- What a session calls. With `recv` stand the variables of `Process` at that point. -/
inductive Op
  | recv (vars : Session)
  | send (resp : ProcessingResponse)
  | checkLimit (requests : List RateLimitRequest)
  | doLimit (requests : List RateLimitRequest)
  | incrUsage (requests : List QuotaRequest)
  | setUsage (requests : List QuotaRequest)
  | getUsage (requests : List QuotaRequest)
  | getQosByToken (token model : String)
  | getQuotaConfig (namespace_ name : String)
  | getModelList (namespace_ : String)
  | getModelsByToken (token : String)
  | record (metric : Metric)
  | now
  | loadTiming (requestID : String)
  | storeTiming (requestID : String) (timing : ProcessingTime)
  | deleteTiming (requestID : String)
  | writeBuffer (requestID : String) (data : Bytes)
  | deleteBuffer (requestID : String)

/-- No message is left when the stream is at its end or has been cancelled. -/
abbrev Reply : Op → Type
  | .recv _ => Option ProcessingRequest
  | .send _ => Unit
  | .checkLimit _ => Except String (List (Option RateLimitResponse))
  | .doLimit _ => Except String Unit
  | .incrUsage _ => Except String Unit
  | .setUsage _ => Except String Unit
  | .getUsage _ => Except String (List QuotaResult)
  | .getQosByToken _ _ => Except String (Option UserQos)
  | .getQuotaConfig _ _ => Except String QuotaConfig
  | .getModelList _ => Except String (List String)
  | .getModelsByToken _ => Except String (List String)
  | .record _ => Unit
  | .now => Int
  | .loadTiming _ => ProcessingTime
  | .storeTiming _ _ => Unit
  | .deleteTiming _ => Unit
  | .writeBuffer _ _ => Bytes
  | .deleteBuffer _ => Unit

abbrev Action := Prog Op Reply

/-- A call with its reply. -/
abbrev Call := Programs.Call Op Reply

abbrev ask (op : Op) : Action (Reply op) := Prog.issue op

/-- The server against services that are not looked into. -/
def server (rules : LimitConfig) (codec : Codec) : Server Action where
  ratelimiter := {
    checkLimit := fun requests => ask (.checkLimit requests)
    doLimit := fun requests => ask (.doLimit requests)
    getRuleByName := rules.getRule }
  quotaService := {
    incrUsage := fun requests => ask (.incrUsage requests)
    setUsage := fun requests => ask (.setUsage requests)
    getUsage := fun requests => ask (.getUsage requests) }
  configProvider := {
    getQosByToken := fun token model => ask (.getQosByToken token model)
    getQuotaConfig := fun ns name => ask (.getQuotaConfig ns name)
    getModelList := fun ns => ask (.getModelList ns)
    getModelsByToken := fun token => ask (.getModelsByToken token) }
  collector metric := ask (.record metric)
  now := ask .now
  loadTiming requestID := ask (.loadTiming requestID)
  storeTiming requestID timing := ask (.storeTiming requestID timing)
  deleteTiming requestID := ask (.deleteTiming requestID)
  writeBuffer requestID data := ask (.writeBuffer requestID data)
  deleteBuffer requestID := ask (.deleteBuffer requestID)
  codec := codec

/-! ### The services on Redis -/

section OnRedis
variable (limiter : RedisRateLimter) (quotas : RedisQuotaService) (codec : Codec)

variable {limiter quotas codec}

end OnRedis

end Arks.Interfaces
