import Arks.Programs
import Arks.Counters

/-!
What the gateway does to the world: it reads the clock, talks to Redis and to
the API server, records metrics and keeps two maps of its own. `perform` is what
an operation does when nothing goes wrong. `Acts` adds what can go wrong: a call
that fails before or after it took effect, and a cache that lags behind the API
server. A Redis pipeline is not atomic, so its commands are separate operations.
-/
namespace Arks.Effects
open Programs Api Counters

/-- An error of the Redis client; `nil` is its answer to a missing key. -/
inductive RedisErr
  | nil
  | failed (message : String)
deriving DecidableEq,Repr

def RedisErr.text : RedisErr → String
  | nil => "redis: nil"
  | failed message => message

/-- The code that reads the clock. -/
inductive Caller
  | checkLimit (requests : List RateLimitRequest)
  | doLimit (requests : List RateLimitRequest)
  | elsewhere
deriving DecidableEq,Repr

/-- The calls of the metrics collector. -/
inductive Metric
  | request (namespace_ user model : String) (milliseconds : Int) (status : String)
  | tokenUsage (namespace_ user model : String) (inputTokens outputTokens : Int)
  | respProcessingTime (namespace_ user model : String) (milliseconds : Int)
  | rateLimitHit (namespace_ user model ruleName : String)
deriving DecidableEq,Repr

/-- `processingTime`; an absent start is the zero time. -/
structure ProcessingTime where
  startTime : Option Int
  duration : Int
deriving DecidableEq,Repr

abbrev Bytes := List UInt8

inductive Op
  | now (caller : Caller)
  | random (bound : Int)
  | get (key : String)
  | ttl (key : String)
  | incrBy (key : String) (amount : Int)
  | expire (key : String) (seconds : Int)
  | set (key : String) (value : Int)
  | listTokens (token : String)
  | listEndpoints (namespace_ : String)
  | getQuota (namespace_ name : String)
  | listQuotas
  | updateQuotaStatus (quota : ArksQuota)
  | record (metric : Metric)
  | loadTiming (requestID : String)
  | storeTiming (requestID : String) (timing : ProcessingTime)
  | deleteTiming (requestID : String)
  | writeBuffer (requestID : String) (data : Bytes)
  | deleteBuffer (requestID : String)

abbrev Reply : Op → Type
  | .now _ => Int
  | .random _ => Int
  | .get _ => Except RedisErr Int
  | .ttl _ => Except RedisErr Int
  | .incrBy _ _ => Except RedisErr Unit
  | .expire _ _ => Except RedisErr Unit
  | .set _ _ => Except RedisErr Unit
  | .listTokens _ => Except String (List ArksToken)
  | .listEndpoints _ => Except String (List ArksEndpoint)
  | .getQuota _ _ => Except String ArksQuota
  | .listQuotas => Except String (List ArksQuota)
  | .updateQuotaStatus _ => Except String Unit
  | .record _ => Unit
  | .loadTiming _ => ProcessingTime
  | .storeTiming _ _ => Unit
  | .deleteTiming _ => Unit
  | .writeBuffer _ _ => Bytes
  | .deleteBuffer _ => Unit

/-- The programs of the gateway. -/
abbrev Action := Prog Op Reply

/-- Issue one operation. -/
abbrev ask (op : Op) : Action (Reply op) := Prog.issue op

/-- A Redis string that holds an integer, with the moment it expires. -/
structure Cell where
  value : Int
  expireAt : Option Int
deriving DecidableEq,Repr

/-- Everything the gateway's replicas share. `quotas` are the stored objects and
    `past` the versions they replaced. `increments` is for reasoning only: the
    increments that Redis carried out, the newest first. -/
structure World where
  clock : Int
  redis : String → Option Cell
  increments : List (String × Int)
  tokens : List ArksToken
  endpoints : List ArksEndpoint
  quotas : List ArksQuota
  past : List ArksQuota
  timings : String → Option ProcessingTime
  buffers : String → Option Bytes

/-- A world in which nothing has been counted yet. -/
def World.fresh (tokens : List ArksToken) (endpoints : List ArksEndpoint) (quotas : List ArksQuota) : World where
  clock := 0
  redis _ := none
  increments := []
  tokens := tokens
  endpoints := endpoints
  quotas := quotas
  past := []
  timings _ := none
  buffers _ := none

/-- A key is gone once its time has passed. -/
def Cell.live (cell : Cell) (clock : Int) : Bool :=
  match cell.expireAt with
  | none => true
  | some t => decide (clock ≤ t)

def World.cell (w : World) (key : String) : Option Cell := (w.redis key).filter (fun cell => cell.live w.clock)

/-- The integer at a key, zero when the key is missing. -/
def World.value (w : World) (key : String) : Int := ((w.cell key).map Cell.value).getD 0

def World.put (w : World) (key : String) (cell : Option Cell) : World :=
  { w with redis := fun k => if k = key then cell else w.redis k }

def maxInt64 : Int := 2 ^ 63 - 1
def minInt64 : Int := -2 ^ 63

/-- `TTL` in nanoseconds: -2 for a missing key, -1 for one that does not expire. -/
def ttlOf (w : World) (key : String) : Int :=
  match w.cell key with
  | none => -2
  | some cell =>
    match cell.expireAt with
    | none => -1
    | some t => (t - w.clock + second / 2) / second * second

/-- The stored quota of that name. -/
def World.quota (w : World) (namespace_ name : String) : Option ArksQuota :=
  w.quotas.find? (fun q => q.namespace_.val = namespace_ && q.name.val = name)

/-- Store `quota` in place of the version it replaces. -/
def World.replaceQuota (w : World) (old quota : ArksQuota) : World :=
  { w with
    quotas := w.quotas.map (fun q => if q = old then quota else q)
    past := old :: w.past }

/-- The version after a write to the status of `q`. -/
def ArksQuota.withStatus (q : ArksQuota) (status : List QuotaStatus) : ArksQuota :=
  { q with resourceVersion := q.resourceVersion + 1,quotaStatus := status }

/-- What an operation answers and leaves behind when it succeeds. -/
def perform : (op : Op) → World → Reply op × World
  | .now _,w => (w.clock,w)
  | .random _,w => (0,w)
  | .get key,w =>
    match w.cell key with
    | none => (.error .nil,w)
    | some cell => (.ok cell.value,w)
  | .ttl key,w => (.ok (ttlOf w key),w)
  | .incrBy key amount,w =>
    let sum := w.value key + amount
    if minInt64 ≤ sum ∧ sum ≤ maxInt64 then
      (.ok (),{ w.put key (some ⟨sum,(w.cell key).bind Cell.expireAt⟩) with
        increments := (key,amount) :: w.increments })
    else (.error (.failed "ERR increment or decrement would overflow"),w)
  | .expire key seconds,w =>
    match w.cell key with
    | none => (.ok (),w)
    | some cell => (.ok (),w.put key
        (if seconds ≤ 0 then none else some ⟨cell.value,some (w.clock + seconds * second)⟩))
  | .set key value,w => (.ok (),w.put key (some ⟨value,none⟩))
  | .listTokens token,w => (.ok (w.tokens.filter (fun t => t.token = token)),w)
  | .listEndpoints namespace_,w => (.ok (w.endpoints.filter (fun e => e.namespace_.val = namespace_)),w)
  | .getQuota namespace_ name,w =>
    match w.quota namespace_ name with
    | none => (.error ("arksquotas.arks.ai \"" ++ name ++ "\" not found"),w)
    | some q => (.ok q,w)
  | .listQuotas,w => (.ok w.quotas,w)
  | .updateQuotaStatus quota,w =>
    match w.quota quota.namespace_ quota.name with
    | none => (.error ("arksquotas.arks.ai \"" ++ quota.name.val ++ "\" not found"),w)
    | some q =>
      if q.resourceVersion = quota.resourceVersion then
        (.ok (),w.replaceQuota q (ArksQuota.withStatus q quota.quotaStatus))
      else (.error "the object has been modified",w)
  | .record _,w => ((),w)
  | .loadTiming requestID,w =>
    let timing := (w.timings requestID).getD ⟨none,0⟩
    (timing,{ w with timings := fun id => if id = requestID then some timing else w.timings id })
  | .storeTiming requestID timing,w =>
    ((),{ w with timings := fun id => if id = requestID then some timing else w.timings id })
  | .deleteTiming requestID,w =>
    ((),{ w with timings := fun id => if id = requestID then none else w.timings id })
  | .writeBuffer requestID data,w =>
    let buffer := (w.buffers requestID).getD [] ++ data
    (buffer,{ w with buffers := fun id => if id = requestID then some buffer else w.buffers id })
  | .deleteBuffer requestID,w =>
    ((),{ w with buffers := fun id => if id = requestID then none else w.buffers id })

/-- The reply of a call that failed, for the calls that can. -/
def failure : (op : Op) → String → Option (Reply op)
  | .get _,message => some (.error (.failed message))
  | .ttl _,message => some (.error (.failed message))
  | .incrBy _ _,message => some (.error (.failed message))
  | .expire _ _,message => some (.error (.failed message))
  | .set _ _,message => some (.error (.failed message))
  | .listTokens _,message => some (.error message)
  | .listEndpoints _,message => some (.error message)
  | .getQuota _ _,message => some (.error message)
  | .listQuotas,message => some (.error message)
  | .updateQuotaStatus _,message => some (.error message)
  | _,_ => none

/-- Calls to the Redis server. -/
def Op.isRedis : Op → Bool
  | .get _ | .ttl _ | .incrBy _ _ | .expire _ _ | .set _ _ => true
  | _ => false

/-- The key that a Redis command is about. -/
def keyOf : Op → Option String
  | .get key | .ttl key | .incrBy key _ | .expire key _ | .set key _ => some key
  | _ => none

/-- An operation in a world where the calls in `fails` may fail. The random part
    is any number below its bound, and a quota read from the cache is any version
    there has been. -/
inductive Acts (fails : Op → Prop) (w : World) : (op : Op) → Reply op → World → Prop
  | done (op : Op) : Acts fails w op (perform op w).1 (perform op w).2
  | refused {op : Op} {message : String} {r : Reply op} : fails op → failure op message = some r → Acts fails w op r w
  | unheard {op : Op} {message : String} {r : Reply op} : fails op → failure op message = some r →
      Acts fails w op r (perform op w).2
  | random {bound n : Int} : 0 ≤ n → n < bound → Acts fails w (.random bound) n w
  | staleQuota {namespace_ name : String} {q : ArksQuota} : q ∈ w.quotas ++ w.past → q.namespace_.val = namespace_ →
      q.name.val = name → Acts fails w (.getQuota namespace_ name) (.ok q) w
  | staleQuotas {qs : List ArksQuota} : (∀ q ∈ qs,q ∈ w.quotas ++ w.past) → Acts fails w .listQuotas (.ok qs) w

/-- What happens without the gateway: time passes, and users edit the resources.
    Nobody but the gateway writes a quota's status. -/
inductive Passes (w : World) : World → Prop
  | tick {t : Int} : w.clock ≤ t → Passes w { w with clock := t }
  | tokens (tokens : List ArksToken) : Passes w { w with tokens := tokens }
  | endpoints (endpoints : List ArksEndpoint) : Passes w { w with endpoints := endpoints }
  | quotaSpec {q : ArksQuota} (items : List QuotaItem) : q ∈ w.quotas →
      Passes w (w.replaceQuota q { q with resourceVersion := q.resourceVersion + 1,quotas := items })
  | newQuota {q : ArksQuota} : w.quota q.namespace_ q.name = none → q.quotaStatus = [] →
      Passes w { w with quotas := w.quotas ++ [q] }

/-! ### What Redis answers and keeps -/

/-- The sum of the increments that a key got. -/
def charged (key : String) : List (String × Int) → Int
  | [] => 0
  | (k,n) :: increments => (if k = key then n else 0) + charged key increments

/-- A read of Redis gives the value or says that the key is missing. -/
theorem perform_get (w : World) (key : String) :
    (w.cell key = none ∧ (perform (.get key) w).1 = .error .nil ∧ w.value key = 0) ∨
      (perform (.get key) w).1 = .ok (w.value key) := by
  cases found : w.cell key with
  | none => exact .inl ⟨rfl,by simp [perform,found],by simp [World.value,found]⟩
  | some cell => exact .inr (by simp [perform,found,World.value])

/-- A Redis call that did not fail was carried out. -/
def Heard (op : Op) (r : Reply op) : Prop := op.isRedis = true → ∀ message, failure op message ≠ some r

/-- The same as a test on the answer. -/
def heard : (op : Op) → Reply op → Bool
  | .get _,.error (.failed _) | .ttl _,.error (.failed _) | .incrBy _ _,.error (.failed _) | .expire _ _,.error (.failed _)
  | .set _ _,.error (.failed _) => false
  | _,_ => true

variable {op : Op} {r : Reply op} {fails : Op → Prop} {w w' : World}

theorem heard_of_test (passes : heard op r = true) : Heard op r := by
  intro redis message failed
  cases op with
  | get _ | ttl _ | incrBy _ _ | expire _ _ | set _ _ => cases failed; cases passes
  | _ => cases redis

theorem acts_heard (act : Acts fails w op r w')
    (heard : Heard op r) (redis : op.isRedis = true) : r = (perform op w).1 ∧ w' = (perform op w).2 := by
  cases act with
  | done => exact ⟨rfl,rfl⟩
  | refused _ failed => exact absurd failed (heard redis _)
  | unheard _ failed => exact absurd failed (heard redis _)
  | random | staleQuota | staleQuotas => cases redis

/-- The other calls leave Redis and the clock alone. -/
theorem acts_aside (act : Acts fails w op r w')
    (aside : op.isRedis = false) : w'.redis = w.redis ∧ w'.increments = w.increments ∧ w'.clock = w.clock := by
  have performed : (perform op w).2.redis = w.redis ∧ (perform op w).2.increments = w.increments ∧
      (perform op w).2.clock = w.clock := by
    cases op with
    | updateQuotaStatus q =>
      simp only [perform]
      split
      · exact ⟨rfl,rfl,rfl⟩
      · split <;> exact ⟨rfl,rfl,rfl⟩
    | getQuota ns name =>
      simp only [perform]
      split <;> exact ⟨rfl,rfl,rfl⟩
    | _ => first | exact ⟨rfl,rfl,rfl⟩ | cases aside
  cases act with
  | done => exact performed
  | refused _ _ => exact ⟨rfl,rfl,rfl⟩
  | unheard _ _ => exact performed
  | random | staleQuota | staleQuotas => exact ⟨rfl,rfl,rfl⟩

/-- An increment that is heard of is carried out. -/
theorem perform_incrBy {key : String} {n : Int} (heard : Heard (.incrBy key n) (perform (.incrBy key n) w).1) :
    perform (.incrBy key n) w = (.ok (),{ w.put key (some ⟨w.value key + n,(w.cell key).bind Cell.expireAt⟩) with
      increments := (key,n) :: w.increments }) := by
  simp only [perform] at heard ⊢
  split
  · rfl
  · rename_i full
    rw [if_neg full] at heard
    exact absurd rfl (heard rfl "ERR increment or decrement would overflow")

/-- What an operation adds to the log of increments. -/
def logged : Op → List (String × Int)
  | .incrBy key n => [(key,n)]
  | _ => []

theorem acts_logged (act : Acts fails w op r w') (heard : Heard op r) : w'.increments = logged op ++ w.increments := by
  cases redis : op.isRedis with
  | false =>
    rw [(acts_aside act redis).2.1]
    cases op <;> first | rfl | cases redis
  | true =>
    obtain ⟨rfl,rfl⟩ := acts_heard act heard redis
    cases op with
    | incrBy key n =>
      rw [perform_incrBy heard]
      rfl
    | get key | expire key n =>
      simp only [perform]
      split <;> rfl
    | ttl | set => rfl
    | _ => cases redis

/-- No call moves the clock. -/
theorem acts_clock (act : Acts fails w op r w') : w'.clock = w.clock := by
  cases redis : op.isRedis with
  | false => exact (acts_aside act redis).2.2
  | true =>
    have performed : (perform op w).2.clock = w.clock := by
      cases op with
      | get key | incrBy key n | expire key n =>
        simp only [perform]
        split <;> rfl
      | ttl | set => rfl
      | _ => cases redis
    cases act with
    | done => exact performed
    | refused _ _ => rfl
    | unheard _ _ => exact performed
    | _ => rfl

end Arks.Effects
