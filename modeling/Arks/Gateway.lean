import Arks.Services

/-!
The external processor: the handlers of the four messages that Envoy sends for a
request, and the loop that keeps one session's variables between them. The
server is written against the interfaces of its services, over any monad. The
JSON and event stream decoders are third-party code and come as parameters. A
handler that dereferences a nil pointer has no result.
-/
namespace Arks.Gateway
open Counters Effects Services

/-! ### Messages -/

/-- `HeaderValue`; the gateway writes and reads raw values. -/
structure HeaderValue where
  key : String
  value : String
  rawValue : String
deriving DecidableEq,Repr

def rawHeader (key rawValue : String) : HeaderValue := ⟨key,"",rawValue⟩

inductive ProcessingRequest
  | requestHeaders (headers : List HeaderValue)
  | requestBody (body : Bytes)
  | responseHeaders (headers : List HeaderValue)
  | responseBody (body : Bytes) (endOfStream : Bool)
  | unknown
deriving DecidableEq

/-- The error body, before it is written as JSON. -/
structure ErrorMessage where
  message : String
  code : Int
deriving DecidableEq,Repr

inductive ProcessingResponse
  | empty
  | requestHeaders (setHeaders : List HeaderValue) (clearRouteCache : Bool)
  | requestBody (setHeaders : List HeaderValue)
  | responseHeaders (setHeaders : List HeaderValue) (clearRouteCache : Bool)
  | responseBody (setHeaders : List HeaderValue)
  | immediateResponse (status : Int) (setHeaders : List HeaderValue) (body : ErrorMessage)
deriving DecidableEq,Repr

def generateErrorMessage (message : String) (code : Int) : ErrorMessage := ⟨message,code⟩

def generateErrorResponse (statusCode : Int) (headers : List HeaderValue) (body : String) : ProcessingResponse :=
  .immediateResponse statusCode (headers ++ [⟨"Content-Type","application/json",""⟩])
    (generateErrorMessage body statusCode)

/-- The headers a response headers message sets, none for any other message. -/
def ProcessingResponse.responseSetHeaders : ProcessingResponse → List HeaderValue
  | .responseHeaders setHeaders _ => setHeaders
  | _ => []

def responseErrorProcessing (resp : ProcessingResponse) (respErrorCode : Int) (errMsg : String) : ProcessingResponse :=
  generateErrorResponse respErrorCode resp.responseSetHeaders errMsg

/-! ### Decoded bodies -/

/-- The request body; absent fields are nil pointers. -/
structure ReqBody where
  model : String
  stream : Option Bool
  streamOptions : Option (Option Bool)
deriving DecidableEq,Repr

structure CompletionUsage where
  promptTokens : Int
  completionTokens : Int
  totalTokens : Int
deriving DecidableEq,Repr

/-- `openai.CompletionUsage` that no JSON has filled in. -/
def CompletionUsage.zero : CompletionUsage := ⟨0,0,0⟩

structure RespBody where
  model : String
  usage : CompletionUsage
deriving DecidableEq,Repr

/-- A chunk of a streamed response, with the number of its choices. -/
structure ChatCompletionChunk where
  choices : Nat
  usage : CompletionUsage
deriving DecidableEq,Repr

/-- The third-party decoders and encoders. `decodeStream` gives the chunks that a
    fresh stream decoder yields from a buffer, and its error. -/
structure Codec where
  unmarshalRequest : Bytes → Except String ReqBody
  unmarshalResponse : Bytes → Except String RespBody
  decodeStream : Bytes → List ChatCompletionChunk × Option String
  rateLimitJSON : RateLimitResponse → String
  quotaJSON : QuotaResult → String
  text : Bytes → String

structure Server (m : Type → Type) where
  ratelimiter : RateLimterInterface m
  quotaService : QuotaService m
  configProvider : ConfigProvider m
  collector : Metric → m Unit
  now : m Int
  loadTiming : String → m ProcessingTime
  storeTiming : String → ProcessingTime → m Unit
  deleteTiming : String → m Unit
  writeBuffer : String → Bytes → m Bytes
  deleteBuffer : String → m Unit
  codec : Codec

variable {m : Type → Type} [Monad m] (s : Server m)

/-! ### Limits -/

/-- The loop over a user's limits: one request for each rule whose type has an
    amount, and an error for the first rule that is not configured. -/
def limitRequests (getRuleByName : String → Option LimitRuleConfig) (qos : UserQos)
    (amount : LimitType → Option Int) : List RateLimit → Except String (List RateLimitRequest)
  | [] => .ok []
  | limit :: limits =>
    match getRuleByName limit.type with
    | none => .error ("rule " ++ limit.type ++ " not found")
    | some rule =>
      match limitRequests getRuleByName qos amount limits with
      | .error e => .error e
      | .ok requests =>
        match amount rule.type with
        | some n => .ok (toRateLimitRequest qos limit.type limit.value n :: requests)
        | none => .ok requests

/-- The rules of a user's limits are all configured. -/
def KnownRules (getRuleByName : String → Option LimitRuleConfig) (limits : List RateLimit) : Prop :=
  ∀ limit ∈ limits, (getRuleByName limit.type).isSome = true

/-- The request that a limit leads to. -/
def limitRequest (getRuleByName : String → Option LimitRuleConfig) (qos : UserQos) (amount : LimitType → Option Int)
    (limit : RateLimit) : Option RateLimitRequest :=
  (getRuleByName limit.type).bind (fun rule =>
    (amount rule.type).map (fun n => toRateLimitRequest qos limit.type limit.value n))

theorem limitRequests_known {getRuleByName : String → Option LimitRuleConfig} {qos : UserQos}
    {amount : LimitType → Option Int} {limits : List RateLimit} (known : KnownRules getRuleByName limits) :
    limitRequests getRuleByName qos amount limits = .ok (limits.filterMap (limitRequest getRuleByName qos amount)) := by
  induction limits with
  | nil => rfl
  | cons limit limits ih =>
    have rest := ih (fun l member => known l (.tail _ member))
    obtain ⟨rule,found⟩ := Option.isSome_iff_exists.mp (known limit (.head _))
    simp only [limitRequests,found,rest,List.filterMap_cons,limitRequest,Option.bind_some]
    cases amount rule.type <;> rfl

theorem limitRequests_ok {getRuleByName : String → Option LimitRuleConfig} {qos : UserQos}
    {amount : LimitType → Option Int} {limits : List RateLimit} {requests : List RateLimitRequest}
    (built : limitRequests getRuleByName qos amount limits = .ok requests) :
    requests = limits.filterMap (limitRequest getRuleByName qos amount) := by
  have known : KnownRules getRuleByName limits := by
    induction limits generalizing requests with
    | nil => simp [KnownRules]
    | cons limit limits ih =>
      cases found : getRuleByName limit.type with
      | none => simp [limitRequests,found] at built
      | some rule =>
        cases rest : limitRequests getRuleByName qos amount limits with
        | error e => simp [limitRequests,found,rest] at built
        | ok requests =>
          intro l member
          rcases List.mem_cons.mp member with rfl | member
          · simp [found]
          · exact ih rest l member
  rw [limitRequests_known known] at built
  exact (Except.ok.inj built).symm

def doLimits (qos : UserQos) (amount : LimitType → Option Int) : m (Except String Unit) :=
  match limitRequests s.ratelimiter.getRuleByName qos amount qos.rateLimits with
  | .error e => pure (.error e)
  | .ok requests => s.ratelimiter.doLimit requests

def requestAmount : LimitType → Option Int
  | .request => some 1
  | .token => none

def tokenAmount (count : Int) : LimitType → Option Int
  | .request => none
  | .token => some count

/-- Tokens are not counted yet when a request comes in. -/
def checkAmount : LimitType → Option Int
  | .request => some 1
  | .token => some 0

def doRequestRateLimit (qos : UserQos) : m (Except String Unit) := doLimits s qos requestAmount

def doTokenRateLimit (qos : UserQos) (count : Int) : m (Except String Unit) := doLimits s qos (tokenAmount count)

def doTokenQuotaLimit (qos : UserQos) (countMap : String → Int) : m (Except String Unit) :=
  if qos.quotaName = "" then pure (.ok ())
  else do
    match ← s.configProvider.getQuotaConfig qos.namespace_ qos.quotaName with
    | .error e => pure (.error e)
    | .ok quotaConf => s.quotaService.incrUsage (qosToQuotaRequests quotaConf countMap)

def headerError (key rawValue : String) (status : Int) (message : String) : ProcessingResponse :=
  generateErrorResponse status [rawHeader key rawValue] message

def checkTokenQuotaLimit (qos : UserQos) : m (Option ProcessingResponse) := do
  match ← s.configProvider.getQuotaConfig qos.namespace_ qos.quotaName with
  | .error e => pure (some (headerError "x-error-quota" "true" 500 e))
  | .ok quotaConf =>
    match ← s.quotaService.getUsage (qosToQuotaRequests quotaConf (fun _ => 0)) with
    | .error e => pure (some (headerError "x-error-quota" "true" 500 e))
    | .ok usage =>
      match usage.find? QuotaResult.overLimit with
      | some usage => pure (some (headerError "x-error-quota" "true" 429 (s.codec.quotaJSON usage)))
      | none => pure none

/-- The first response that is over its limit. -/
def firstOver : List (Option RateLimitResponse) → Option RateLimitResponse
  | [] => none
  | none :: rest => firstOver rest
  | some r :: rest => if r.overLimit then some r else firstOver rest

def checkRateLimit (qos : UserQos) : m (Option ProcessingResponse) :=
  match limitRequests s.ratelimiter.getRuleByName qos checkAmount qos.rateLimits with
  | .error e => pure (some (headerError "x-error-rate-limit" "true" 500 e))
  | .ok requests => do
    match ← s.ratelimiter.checkLimit requests with
    | .error e => pure (some (headerError "x-error-rate-limit" "true" 500 e))
    | .ok resp =>
      match firstOver resp with
      | none => pure none
      | some r => do
        s.collector (.rateLimitHit qos.namespace_ qos.user qos.model r.ruleName)
        pure (some (headerError "x-error-rate-limit" "true" 429 (s.codec.rateLimitJSON r)))

/-! ### The request -/

/-- `unicode.ToLower`, exact where its result is an ASCII character. -/
def toLower (c : Char) : Char :=
  if c = Char.ofNat 0x130 then 'i'
  else if c = Char.ofNat 0x212A then 'k'
  else c.toLower

/-- The text after the scheme of a bearer authorization. -/
def bearer (auth : String) : Option String :=
  if "Bearer ".toList.isPrefixOf auth.toList then some (String.ofList (auth.toList.drop 7)) else none

/-- The token of the first bearer authorization, empty when there is none. -/
def tokenOf : List HeaderValue → String
  | [] => ""
  | n :: headers =>
    if n.key.toList.map toLower = "authorization".toList then (bearer n.rawValue).getD (tokenOf headers)
    else tokenOf headers

def handleRequestHeaders (headers : List HeaderValue) : ProcessingResponse × String :=
  let token := tokenOf headers
  if token = "" then (headerError "x-error-token" "true" 401 "no token found in request headers",token)
  else (.requestHeaders [rawHeader "x-went-into-req-headers" "true"] true,token)

/-- The routing headers of an accepted request. -/
def routingHeaders (model : String) (qos : UserQos) : List HeaderValue :=
  [rawHeader "model" model,rawHeader "namespace" qos.namespace_,rawHeader "username" qos.user]

/-- What `HandleRequestBody` returns. -/
structure RequestResult where
  resp : ProcessingResponse
  qos : Option UserQos
  model : String
  stream : Bool

/-- The quota is only checked for a qos that names one. -/
def checkQuota (qos : UserQos) : m (Option ProcessingResponse) :=
  if qos.quotaName = "" then pure none else checkTokenQuotaLimit s qos

/-- `HandleRequestBody` from the limits on. -/
def admitRequest (qos : UserQos) (model : String) (stream : Bool) : m RequestResult := do
  match ← checkRateLimit s qos with
  | some errRes => pure ⟨errRes,some qos,model,stream⟩
  | none =>
    match ← checkQuota s qos with
    | some errResp => pure ⟨errResp,some qos,model,stream⟩
    | none =>
      match ← doRequestRateLimit s qos with
      | .error _ => pure ⟨headerError "x-error-rate-limit" "rate limit error" 500 "rate limit error",some qos,model,stream⟩
      | .ok _ => pure ⟨.requestBody (routingHeaders model qos),some qos,model,stream⟩

def handleRequestBody (body : Bytes) (token : String) : m RequestResult :=
  match s.codec.unmarshalRequest body with
  | .error _ => pure ⟨headerError "x-error-request-body-processing" "true" 400 "error processing request body",none,"",false⟩
  | .ok reqBody =>
    let model := reqBody.model
    if model = "" then pure ⟨headerError "x-error-no-model-in-request" model 400 "no model in request body",none,model,false⟩
    else do
      match ← s.configProvider.getQosByToken token model with
      | .error e => pure ⟨headerError "x-error-token" e 500 "error to get qos by token",none,model,false⟩
      | .ok none => pure ⟨headerError "x-error-token" "token error" 401 "token error",none,model,false⟩
      | .ok (some qos) =>
        let missing := "model " ++ model ++ " does not exist"
        match ← s.configProvider.getModelList qos.namespace_ with
        | .error _ => pure ⟨headerError "x-error-no-model-backends" model 500 missing,some qos,model,false⟩
        | .ok modelList =>
          if model ∉ modelList then
            pure ⟨headerError "x-error-no-model-backends" model 400 missing,some qos,model,false⟩
          else
            let stream := reqBody.stream.getD false
            if stream ∧ reqBody.streamOptions.join ≠ some true then
              pure ⟨headerError "x-error-no-stream-options-include-usage" "include_usage for stream_options not set"
                400 "no stream with usage option available",some qos,model,stream⟩
            else admitRequest s qos model stream

/-! ### The response -/

/-- A decimal number in the range of an `int`, zero when the text is none. -/
def atoi (text : String) : Int :=
  let digits (cs : List Char) : Option Int :=
    if cs ≠ [] ∧ cs.all Char.isDigit then some (cs.foldl (fun n c => n * 10 + (c.toNat - '0'.toNat : Nat)) 0) else none
  match text.toList with
  | '-' :: cs => ((digits cs).map (fun n => max minInt64 (-n))).getD 0
  | '+' :: cs => ((digits cs).map (min maxInt64)).getD 0
  | cs => ((digits cs).map (min maxInt64)).getD 0

/-- The last status header counts. -/
def statusOf (headers : List HeaderValue) : Int :=
  headers.foldl (fun statusCode h => if h.key = ":status" then atoi h.rawValue else statusCode) 0

def handleResponseHeaders (headers : List HeaderValue) : ProcessingResponse × Int :=
  (.responseHeaders (rawHeader "x-went-into-resp-headers" "true" :: headers.map (fun h => rawHeader h.key h.rawValue)) true,
    statusOf headers)

/-- The usage after the loop over a stream's chunks: the last chunk without
    choices decides. -/
def streamUsage : CompletionUsage → List ChatCompletionChunk → CompletionUsage
  | usage,[] => usage
  | usage,evt :: rest => streamUsage (if evt.choices = 0 then evt.usage else usage) rest

def tokenCountMap (usage : CompletionUsage) : String → Int
  | "prompt" => usage.promptTokens
  | "response" => usage.completionTokens
  | "total" => usage.totalTokens
  | _ => 0

/-- What `HandleResponseBody` has when it returns: the response, whether the
    response is complete, and the counts it has read. -/
structure BodyResult where
  resp : ProcessingResponse
  complete : Bool
  usage : CompletionUsage

/-- The end of `HandleResponseBody`: charge the tokens that the response used. -/
def chargeUsage (qos : Option UserQos) (usage : CompletionUsage) (complete : Bool) : m (Option BodyResult) :=
  if usage.totalTokens = 0 then pure (some ⟨.responseBody [],complete,.zero⟩)
  else
    match qos with
    | none => pure none
    | some qos => do
      match ← doTokenRateLimit s qos usage.totalTokens with
      | .error e => pure (some ⟨headerError "x-error-rate-limit" "true" 500 e,true,usage⟩)
      | .ok _ =>
        match ← doTokenQuotaLimit s qos (tokenCountMap usage) with
        | .error e => pure (some ⟨headerError "x-error-quota" "true" 500 e,true,usage⟩)
        | .ok _ => pure (some ⟨.responseBody [],true,usage⟩)

def handleStreamBody (body : Bytes) (qos : Option UserQos) (complete : Bool) : m (Option BodyResult) :=
  let (chunks,err) := s.codec.decodeStream body
  match err with
  | some err => pure (some ⟨headerError "x-error-streaming" "true" 500 err,true,.zero⟩)
  | none => chargeUsage s qos (streamUsage .zero chunks) complete

def handleWholeBody (requestID : String) (body : Bytes) (endOfStream : Bool) (qos : Option UserQos) (complete : Bool) :
    m (Option BodyResult) := do
  let finalBody ← s.writeBuffer requestID body
  if !endOfStream then pure (some ⟨.responseBody [],complete,.zero⟩)
  else
    s.deleteBuffer requestID
    match s.codec.unmarshalResponse finalBody with
    | .error e => pure (some ⟨headerError "x-error-response-unmarshal" "true" 500 e,true,.zero⟩)
    | .ok res =>
      if res.model = "" then
        -- the message is the last piece of the body, not the whole of it
        let content := s.codec.text body
        pure (some ⟨headerError "x-error-response-unknown" "true" 500 (if content ≠ "" then content else "unknown response"),
          true,.zero⟩)
      else chargeUsage s qos res.usage complete

/-- Whole milliseconds of a duration. -/
def milliseconds (d : Int) : Int := d.tdiv 1000000

/-- The deferred part of `HandleResponseBody`. -/
def finishResponse (requestID : String) (timing : ProcessingTime) (qos : Option UserQos) (model : String)
    (hasCompleted endOfStream : Bool) (result : BodyResult) : m (Option (ProcessingResponse × Bool)) := do
  let now ← s.now
  let duration := timing.duration + (now - timing.startTime.getD 0)
  if !hasCompleted && result.complete && endOfStream then
    match qos with
    | none => pure none
    | some qos => do
      s.collector (.tokenUsage qos.namespace_ qos.user model result.usage.promptTokens result.usage.completionTokens)
      s.collector (.respProcessingTime qos.namespace_ qos.user model (milliseconds duration))
      s.deleteTiming requestID
      pure (some (result.resp,result.complete))
  else do
    let later ← s.now
    s.storeTiming requestID ⟨some later,duration⟩
    pure (some (result.resp,result.complete))

/-- The start of the time that this message takes. -/
def startTiming (pt : ProcessingTime) : m Int :=
  match pt.startTime with
  | some t => pure t
  | none => s.now

def handleBody (requestID : String) (body : Bytes) (endOfStream : Bool) (qos : Option UserQos) (stream complete : Bool) :
    m (Option BodyResult) :=
  if stream then handleStreamBody s body qos complete
  else handleWholeBody s requestID body endOfStream qos complete

def handleResponseBody (requestID : String) (body : Bytes) (endOfStream : Bool) (qos : Option UserQos) (model : String)
    (stream hasCompleted : Bool) : m (Option (ProcessingResponse × Bool)) := do
  let pt ← s.loadTiming requestID
  let start ← startTiming s pt
  match ← handleBody s requestID body endOfStream qos stream hasCompleted with
  | none => pure none
  | some result => finishResponse s requestID ⟨some start,pt.duration⟩ qos model hasCompleted endOfStream result

/-! ### The session -/

/-- The variables of `Process`. -/
structure Session where
  qos : Option UserQos
  statusCode : Int
  model : String
  token : String
  stream : Bool
  requestStart : Option Int
  completed : Bool
deriving DecidableEq,Repr

def Session.initial : Session := ⟨none,0,"","",false,none,false⟩

/-- `time.Since`, which saturates for the zero time. -/
def since (now : Int) : Option Int → Int
  | none => maxInt64
  | some t => now - t

def recordRequest (session : Session) (statusCode : Int) : m (Option Unit) :=
  match session.qos with
  | none => pure none
  | some qos => do
    let now ← s.now
    s.collector (.request qos.namespace_ qos.user session.model (milliseconds (since now session.requestStart))
      (toString statusCode))
    pure (some ())

/-- The answer to a piece of the response body, and whether the response is complete. -/
def answerBody (requestID : String) (session : Session) (body : Bytes) (endOfStream : Bool) :
    m (Option (ProcessingResponse × Bool)) :=
  if session.statusCode ≠ 200 then
    pure (some (responseErrorProcessing .empty session.statusCode (s.codec.text body),session.completed))
  else handleResponseBody s requestID body endOfStream session.qos session.model session.stream session.completed

/-- The body of the loop in `Process`. -/
def processRequest (requestID : String) (session : Session) :
    ProcessingRequest → m (Option (ProcessingResponse × Session))
  | .requestHeaders headers => do
    let requestStart ← s.now
    let (resp,token) := handleRequestHeaders headers
    pure (some (resp,{ session with requestStart := some requestStart,token := token }))
  | .requestBody body => do
    let result ← handleRequestBody s body session.token
    pure (some (result.resp,{ session with qos := result.qos,model := result.model,stream := result.stream }))
  | .responseHeaders headers => do
    let (resp,statusCode) := handleResponseHeaders headers
    let session := { session with statusCode := statusCode }
    if statusCode = 500 then
      match ← recordRequest s session statusCode with
      | none => pure none
      | some _ => pure (some (responseErrorProcessing resp statusCode "",session))
    else pure (some (resp,session))
  | .responseBody body endOfStream => do
    match ← answerBody s requestID session body endOfStream with
    | none => pure none
    | some (resp,completed) =>
      let session := { session with completed := completed }
      match ← recordRequest s session session.statusCode with
      | none => pure none
      | some _ => pure (some (resp,session))
  | .unknown => pure (some (.empty,session))

/-- `Process` on the messages of a session: the responses it sends, and its
    variables when it did not crash. -/
def process (requestID : String) (session : Session) :
    List ProcessingRequest → m (List ProcessingResponse × Option Session)
  | [] => pure ([],some session)
  | req :: reqs => do
    match ← processRequest s requestID session req with
    | none => pure ([],none)
    | some (resp,session) => do
      let (resps,final) ← process requestID session reqs
      pure (resp :: resps,final)

/-- The server on Redis and the API server. -/
def newServer (ratelimiter : RedisRateLimter) (quotaService : RedisQuotaService) (codec : Codec) : Server Action where
  ratelimiter := ratelimiter.interface
  quotaService := quotaService.interface
  configProvider := arksConfigProvider
  collector metric := ask (.record metric)
  now := ask (.now .elsewhere)
  loadTiming requestID := ask (.loadTiming requestID)
  storeTiming requestID timing := ask (.storeTiming requestID timing)
  deleteTiming requestID := ask (.deleteTiming requestID)
  writeBuffer requestID data := ask (.writeBuffer requestID data)
  deleteBuffer requestID := ask (.deleteBuffer requestID)
  codec := codec

/-! Texts for the samples: a request for the model `chat` and its answer. -/

def chatRequest : Bytes := "\x7b\"model\":\"chat\"\x7d".toUTF8.toList

def chatAnswer : Bytes :=
  "\x7b\"model\":\"chat\",\"usage\":\x7b\"prompt_tokens\":1,\"completion_tokens\":2,\"total_tokens\":3\x7d\x7d".toUTF8.toList

/-- The decoders on these texts. -/
def chatCodec : Codec where
  unmarshalRequest body := if body = chatRequest then .ok ⟨"chat",none,none⟩ else .error "unexpected end of JSON input"
  unmarshalResponse body := if body = chatAnswer then .ok ⟨"chat",⟨1,2,3⟩⟩ else .error "unexpected end of JSON input"
  decodeStream _ := ([],none)
  rateLimitJSON _ := ""
  quotaJSON _ := ""
  text _ := ""

/-! ### Sessions with a qos -/

section Present
open Programs
variable {O : Type} {R : O → Type} {answers : (op : O) → R op → Prop} {s : Server (Prog O R)} {requestID : String}
  {session : Session} {qos : UserQos}

theorem recordRequest_present (present : session.qos = some qos) (statusCode : Int) :
    Within answers (fun _ => True) (fun r => r = some ()) (recordRequest s session statusCode) := by
  unfold recordRequest
  rw [present]
  refine within_bind within_trivial (fun now _ => ?_)
  exact within_bind within_trivial (fun _ _ => rfl)

theorem chargeUsage_present (usage : CompletionUsage) (complete : Bool) :
    Within answers (fun _ => True) (fun r => r.isSome = true) (chargeUsage s (some qos) usage complete) := by
  unfold chargeUsage
  split
  · rfl
  · refine within_bind within_trivial (fun limited _ => ?_)
    rcases limited with e | _
    · rfl
    · refine within_bind within_trivial (fun charged _ => ?_)
      rcases charged with e | _ <;> rfl

private theorem handleBody_present (body : Bytes) (endOfStream stream complete : Bool) :
    Within answers (fun _ => True) (fun r => r.isSome = true)
      (handleBody s requestID body endOfStream (some qos) stream complete) := by
  unfold handleBody
  split
  · unfold handleStreamBody
    split
    split
    · rfl
    · exact chargeUsage_present _ complete
  · refine within_bind within_trivial (fun finalBody _ => ?_)
    split
    · rfl
    · refine within_bind within_trivial (fun _ _ => ?_)
      split
      · rfl
      · split
        · rfl
        · exact chargeUsage_present _ complete

theorem finishResponse_present (timing : ProcessingTime) (model : String) (hasCompleted endOfStream : Bool)
    (result : BodyResult) : Within answers (fun _ => True) (fun r => r.isSome = true)
      (finishResponse s requestID timing (some qos) model hasCompleted endOfStream result) := by
  refine within_bind within_trivial (fun now _ => ?_)
  split
  · exact within_bind within_trivial (fun _ _ => within_bind within_trivial (fun _ _ =>
      within_bind within_trivial (fun _ _ => rfl)))
  · exact within_bind within_trivial (fun _ _ => within_bind within_trivial (fun _ _ => rfl))

/-- A piece of the response is handled, and the qos stays. -/
theorem responseBody_present (present : session.qos = some qos) (body : Bytes) (endOfStream : Bool) :
    Within answers (fun _ => True) (fun r => ∃ resp next, r = some (resp,next) ∧ next.qos = some qos)
      (processRequest s requestID session (.responseBody body endOfStream)) := by
  have answered : Within answers (fun _ => True) (fun r => r.isSome = true)
      (answerBody s requestID session body endOfStream) := by
    unfold answerBody
    split
    · rfl
    rw [present]
    refine within_bind within_trivial (fun pt _ => within_bind within_trivial (fun start _ => ?_))
    refine within_bind (handleBody_present body endOfStream _ _) (fun handled is => ?_)
    obtain ⟨result,rfl⟩ := Option.isSome_iff_exists.mp is
    exact finishResponse_present ..
  refine within_bind answered (fun handled is => ?_)
  obtain ⟨⟨resp,completed⟩,rfl⟩ := Option.isSome_iff_exists.mp is
  refine within_bind (recordRequest_present (by exact present) _) (fun recorded is => ?_)
  subst is
  exact ⟨_,_,rfl,present⟩

end Present

end Arks.Gateway
