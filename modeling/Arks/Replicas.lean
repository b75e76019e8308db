import Arks.Sessions

/-!
The gateway in operation: any number of sessions, each fed by Envoy with the
messages of one request, and any number of replicas that run the quota pass over
and over. All of them share one world, and each of their operations is a step of
its own. `session_follows` is the rule for protocols: it is enough to look at the
two places where a session counts, the admission of a request and the charge of a
response.
-/
namespace Arks.Replicas
open Programs Programs.Prog Api Counters Effects Services Gateway Sessions

/-- How far Envoy has come with a request. -/
inductive Phase
  | opening | requested | forwarded | answering | over
deriving DecidableEq,Repr

/-- The messages that Envoy may send next; a request without a body goes from its
    headers to the response at once. -/
def accepts : Phase → ProcessingRequest → Bool
  | .opening,.requestHeaders _ => true
  | .requested,.requestBody _ => true
  | .requested,.responseHeaders _ => true
  | .forwarded,.responseHeaders _ => true
  | .answering,.responseBody _ _ => true
  | _,_ => false

/-- An immediate response ends the session, and so does the end of the body. -/
def nextPhase (msg : ProcessingRequest) (resp : ProcessingResponse) : Phase :=
  if isImmediate resp then .over
  else match msg with
    | .requestHeaders _ => .requested
    | .requestBody _ => .forwarded
    | .responseHeaders _ => .answering
    | .responseBody _ endOfStream => if endOfStream then .over else .answering
    | .unknown => .over

/-- What a party keeps between two of its programs: the session with what it has
    sent, the newest first, or nothing for a replica. -/
inductive Local
  | session (phase : Phase) (vars : Session) (sent : List ProcessingResponse)
  | crashed
  | replica

/-- What the replicas are built from, and the id that each session draws. Replicas
    differ in the jitter of their limiters only, and a smaller jitter gives no time
    to live that a larger one does not give. -/
structure Deployment (ι : Type) where
  limiter : RedisRateLimter
  quotas : RedisQuotaService
  codec : Codec
  requestID : ι → String

variable {ι : Type} (D : Deployment ι)

def Deployment.server : Server Action := newServer D.limiter D.quotas D.codec
def Deployment.provider : ArksProvider := ⟨D.quotas.interface⟩

@[simp] theorem server_now : D.server.now = ask (.now .elsewhere) := rfl
@[simp] theorem server_collector (metric : Metric) : D.server.collector metric = ask (.record metric) := rfl
@[simp] theorem server_loadTiming (requestID : String) : D.server.loadTiming requestID = ask (.loadTiming requestID) := rfl
@[simp] theorem server_storeTiming (requestID : String) (timing : ProcessingTime) :
    D.server.storeTiming requestID timing = ask (.storeTiming requestID timing) := rfl
@[simp] theorem server_deleteTiming (requestID : String) :
    D.server.deleteTiming requestID = ask (.deleteTiming requestID) := rfl
@[simp] theorem server_writeBuffer (requestID : String) (data : Bytes) :
    D.server.writeBuffer requestID data = ask (.writeBuffer requestID data) := rfl
@[simp] theorem server_deleteBuffer (requestID : String) :
    D.server.deleteBuffer requestID = ask (.deleteBuffer requestID) := rfl

def Deployment.handle (i : ι) (vars : Session) (sent : List ProcessingResponse) (msg : ProcessingRequest) : Action Local := do
  match ← processRequest D.server (D.requestID i) vars msg with
  | none => pure .crashed
  | some (resp,vars) => pure (.session (nextPhase msg resp) vars (resp :: sent))

def Deployment.pass : Action Local := do
  let _ ← D.provider.syncQuotaUsage
  pure .replica

/-- The programs that a party at rest takes up. -/
inductive Starts (i : ι) : Local → Action Local → Prop
  | message {phase : Phase} {vars : Session} {sent : List ProcessingResponse} {msg : ProcessingRequest} :
      accepts phase msg = true → Starts i (.session phase vars sent) (D.handle i vars sent msg)
  | pass : Starts i .replica D.pass

/-- The system, where the calls in `fails` may fail. -/
def Deployment.system (fails : Op → Prop) : System Op Reply ι World Local where
  act _ op w r w' := Acts fails w op r w'
  env := Passes
  start := Starts D

/-- A deployment with the known rules, for sessions about the model `chat`. -/
def small (ι : Type) [ToString ι] : Deployment ι where
  limiter := newRedisRateLimter "arks" 0
  quotas := ⟨"arks"⟩
  codec := chatCodec
  requestID := toString

/-- Every session is still to come. -/
def AtRest (l : Local) : Prop := l = .session .opening .initial [] ∨ l = .replica

/-! ### Increments in a trace -/

/-- Who increments the key by this event, and by how much. -/
def addsTo (key : String) (e : Event Op Reply ι) : Option (ι × Int) :=
  match e.op with
  | .incrBy k n => if k = key then some (e.who,n) else none
  | _ => none

theorem addsTo_some {key : String} {e : Event Op Reply ι} {i : ι} {n : Int} (adds : addsTo key e = some (i,n)) :
    e.who = i ∧ e.op = .incrBy key n := by
  obtain ⟨who,op,r⟩ := e
  cases op with
  | incrBy k m =>
    simp only [addsTo] at adds
    split at adds
    · rename_i same
      cases adds
      exact ⟨rfl,by rw [same]⟩
    · cases adds
  | _ => cases adds

/-- What a key got grows by what the event adds. -/
theorem charged_acts {key : String} {i : ι} {op : Op} {r : Reply op} {fails : Op → Prop} {w w' : World}
    (act : Acts fails w op r w') (heard : Heard op r) :
    charged key w'.increments = ((addsTo key ⟨i,op,r⟩).elim 0 Prod.snd) + charged key w.increments := by
  rw [acts_logged act heard]
  cases op with
  | incrBy k n =>
    simp only [logged,List.singleton_append,charged,addsTo]
    split <;> rfl
  | _ => exact (Int.zero_add _).symm

/-! ### Protocols of a session -/

/-- Operations that no counter depends on. -/
def Plain : Op → Prop
  | .now .elsewhere => True
  | .record _ | .loadTiming _ | .storeTiming _ _ | .deleteTiming _ | .writeBuffer _ _ | .deleteBuffer _ => True
  | .listTokens _ | .listEndpoints _ => True
  | _ => False

section Rules
variable {A : Type} {answers : (op : Op) → Reply op → Prop} {protocol : Protocol Op Reply A} {a : A} {R : A → Prop}

/-- The protocol does not see the plain operations. -/
def Blind (answers : (op : Op) → Reply op → Prop) (protocol : Protocol Op Reply A) : Prop :=
  ∀ a op, Plain op → protocol.allowed a op ∧ ∀ r, answers op r → protocol.observe a op r = a

theorem follows_plain {α : Type} (blind : Blind answers protocol) {Q : α → Prop} {p : Action α}
    (plain : Within answers Plain Q p) : Follows answers protocol (fun b v => b = a ∧ Q v) p a :=
  follows_of_within (fun op ok => blind a op ok) plain

variable {owned : ArksToken → Prop} {served : ArksEndpoint → Prop} {D}

/-- A qos that the stores give for a token and a model. -/
def Grants (owned : ArksToken → Prop) (served : ArksEndpoint → Prop) (token model : String) (qos : UserQos) : Prop :=
  ∃ obj, owned obj ∧ obj.token = token ∧ qosOf obj model = some qos ∧
    ∃ ep, served ep ∧ ep.namespace_ = obj.namespace_ ∧ ep.name.val = model

theorem getQosByToken_plain (token model : String) :
    Within answers Plain (fun _ => True) (getQosByToken token model) := by
  simp only [getQosByToken,issue_bind,within_call]
  refine ⟨trivial,fun listed _ => ?_⟩
  rcases listed with e | _ | ⟨obj,others⟩
  · trivial
  · trivial
  · dsimp only
    split <;> trivial

theorem getModelList_plain (ns : String) : Within answers Plain (fun _ => True) (getModelList ns) := by
  simp only [getModelList,issue_bind,within_call]
  refine ⟨trivial,fun listed _ => ?_⟩
  cases listed <;> trivial

/-- A request is turned away without being counted, or its qos is admitted. -/
theorem follows_requestBody (blind : Blind answers protocol) (owned : ArksToken → Prop) (served : ArksEndpoint → Prop)
    {R : A → RequestResult → Prop} {body : Bytes} {token : String}
    (rejected : ∀ result, isImmediate result.resp = true → R a result)
    (admitted : ∀ qos model stream, (Stored owned served answers → Grants owned served token model qos) →
      Follows answers protocol R (admitRequest D.server qos model stream) a) :
    Follows answers protocol R (handleRequestBody D.server body token) a := by
  unfold handleRequestBody
  cases D.server.codec.unmarshalRequest body with
  | error e => exact rejected _ rfl
  | ok reqBody =>
    dsimp only
    split
    · exact rejected _ rfl
    have resolving : Within answers Plain (fun r => Stored owned served answers → ∀ found, r = .ok found →
        ∃ obj, owned obj ∧ obj.token = token ∧ ∃ qos, qosOf obj reqBody.model = some qos ∧ found = some qos)
        (getQosByToken token reqBody.model) := by
      refine within_imp (getQosByToken_plain token reqBody.model) (fun stored => ?_)
      exact within_mono (getQosByToken_spec stored token reqBody.model) (by rintro op rfl; trivial) (fun _ ok => ok)
    refine follows_bind (follows_plain blind resolving) ?_
    rintro _ found ⟨rfl,resolved⟩
    rcases found with e | _ | qos
    · exact rejected _ rfl
    · exact rejected _ rfl
    have listing : Within answers Plain (fun r => Stored owned served answers → ∀ models, r = .ok models →
        ∀ model ∈ models, ∃ ep, served ep ∧ ep.namespace_.val = qos.namespace_ ∧ ep.name.val = model)
        (getModelList qos.namespace_) := by
      refine within_imp (getModelList_plain qos.namespace_) (fun stored => ?_)
      exact within_mono (getModelList_spec stored qos.namespace_) (by rintro op rfl; trivial) (fun _ ok => ok)
    refine follows_bind (follows_plain blind listing) ?_
    rintro _ models ⟨rfl,listed⟩
    rcases models with e | models
    · exact rejected _ rfl
    dsimp only
    split
    · exact rejected _ rfl
    rename_i known
    split
    · exact rejected _ rfl
    refine admitted _ _ _ (fun stored => ?_)
    obtain ⟨obj,member,owner,qos',named,same⟩ := resolved stored _ rfl
    obtain rfl := Option.some.inj same
    obtain ⟨ep,exists_,homed,model⟩ := listed stored models rfl _ (not_not.mp known)
    exact ⟨obj,member,owner,named,ep,exists_,KubeName.ext (homed.trans (qosOf_namespace named)),model⟩

private theorem startTiming_plain (pt : ProcessingTime) :
    Within answers Plain (fun _ => True) (startTiming D.server pt) := by
  unfold startTiming
  split
  · trivial
  · exact ⟨trivial,fun _ _ => trivial⟩

private theorem finishResponse_plain (requestID : String) (timing : ProcessingTime) (qos : Option UserQos) (model : String)
    (hasCompleted endOfStream : Bool) (result : BodyResult) :
    Within answers Plain (fun _ => True)
      (finishResponse D.server requestID timing qos model hasCompleted endOfStream result) := by
  simp only [finishResponse,server_now,issue_bind,within_call]
  refine ⟨trivial,fun now _ => ?_⟩
  split
  · cases qos <;> simp [Plain]
  · simp [Plain]

theorem recordRequest_plain (vars : Session) (statusCode : Int) :
    Within answers Plain (fun _ => True) (recordRequest D.server vars statusCode) := by
  unfold recordRequest
  cases vars.qos <;> simp [Plain]

private theorem follows_handleBody (blind : Blind answers protocol) (idle : R a) {qos : Option UserQos}
    (charged : ∀ usage complete,
      Follows answers protocol (fun b _ => R b) (chargeUsage D.server qos usage complete) a)
    (requestID : String) (body : Bytes) (endOfStream stream complete : Bool) :
    Follows answers protocol (fun b _ => R b) (handleBody D.server requestID body endOfStream qos stream complete) a := by
  unfold handleBody
  split
  · unfold handleStreamBody
    dsimp only
    split
    · exact idle
    · exact charged _ _
  · have written := blind a (.writeBuffer requestID body) trivial
    have deleted := blind a (.deleteBuffer requestID) trivial
    simp only [handleWholeBody,server_writeBuffer,issue_bind,follows_call]
    refine ⟨written.1,fun whole possible => ?_⟩
    rw [written.2 _ possible]
    split
    · exact idle
    simp only [server_deleteBuffer,issue_bind,follows_call]
    refine ⟨deleted.1,fun _ possible => ?_⟩
    rw [deleted.2 _ possible]
    split
    · exact idle
    · split
      · exact idle
      · exact charged _ _

/-- Around the charge, the handler of a response body only does plain things. -/
theorem follows_responseBody (blind : Blind answers protocol) (idle : R a) {qos : Option UserQos} (charged : ∀ usage complete,
      Follows answers protocol (fun b _ => R b) (chargeUsage D.server qos usage complete) a)
    (requestID : String) (body : Bytes) (endOfStream : Bool) (model : String) (stream hasCompleted : Bool) :
    Follows answers protocol (fun b _ => R b)
      (handleResponseBody D.server requestID body endOfStream qos model stream hasCompleted) a := by
  have loaded := blind a (.loadTiming requestID) trivial
  simp only [handleResponseBody,server_loadTiming,issue_bind,follows_call]
  refine ⟨loaded.1,fun pt possible => ?_⟩
  rw [loaded.2 _ possible]
  refine follows_bind (follows_plain blind (startTiming_plain pt)) ?_
  rintro _ start ⟨rfl,_⟩
  refine follows_bind (follows_handleBody blind idle charged requestID body endOfStream stream hasCompleted) ?_
  intro b result reached
  cases result with
  | none => exact reached
  | some result =>
    refine follows_mono (follows_plain blind (finishResponse_plain _ _ _ _ _ _ _)) ?_
    rintro _ _ ⟨rfl,_⟩
    exact reached

/-! ### A session as a whole -/

/-- What a protocol state has to do with a party at rest: `I` during a session, by
    its phase and its qos, `E` once it has ended, by the last response it sent, and
    `replica` for a replica. -/
def Keeps (I : Phase → Option UserQos → A → Prop) (E : A → Option ProcessingResponse → Prop) (replica : A → Prop) (a : A) :
    Local → Prop
  | .session .over _ sent => E a sent.head?
  | .session phase vars _ => I phase vars.qos a
  | .crashed => E a none
  | .replica => replica a

/-- What is to be shown of the two places where a session counts. -/
structure SessionRules (D : Deployment ι) (owned : ArksToken → Prop) (served : ArksEndpoint → Prop)
    (answers : (op : Op) → Reply op → Prop) (protocol : Protocol Op Reply A) (I : Phase → Option UserQos → A → Prop)
    (E : A → Option ProcessingResponse → Prop) : Prop where
  blind : Blind answers protocol
  requested : ∀ qos a, I .opening qos a → I .requested qos a
  answering : ∀ qos a, I .requested qos a ∨ I .forwarded qos a → I .answering qos a
  ended : ∀ phase qos a last, I phase qos a → E a last
  admitted : ∀ old a token qos model stream, I .requested old a →
    (Stored owned served answers → Grants owned served token model qos) →
    Follows answers protocol (fun b result => result.qos = some qos ∧
      if isImmediate result.resp then E b (some result.resp) else I .forwarded (some qos) b)
      (admitRequest D.server qos model stream) a
  charged : ∀ qos a usage complete, I .answering qos a →
    Follows answers protocol (fun b _ => I .answering qos b) (chargeUsage D.server qos usage complete) a

/-- Headers change neither the counters nor the qos of the session. -/
theorem processHeaders_plain (requestID : String) (vars : Session) {msg : ProcessingRequest}
    (headers : (∃ hs, msg = .requestHeaders hs) ∨ ∃ hs, msg = .responseHeaders hs) :
    Within answers Plain (fun r => ∀ resp vars', r = some (resp,vars') → vars'.qos = vars.qos)
      (processRequest D.server requestID vars msg) := by
  rcases headers with ⟨hs,rfl⟩ | ⟨hs,rfl⟩
  · simp only [processRequest,server_now,issue_bind,within_call]
    refine ⟨trivial,fun t _ => ?_⟩
    simp only [pure_eq,within_ret,Option.some.injEq,Prod.mk.injEq]
    rintro resp vars' ⟨_,rfl⟩
    rfl
  · simp only [processRequest]
    split
    · refine within_bind (recordRequest_plain _ _) ?_
      intro recorded _
      cases recorded with
      | none => simp
      | some _ =>
        simp only [pure_eq,within_ret,Option.some.injEq,Prod.mk.injEq]
        rintro resp vars' ⟨_,rfl⟩
        rfl
    · simp only [pure_eq,within_ret,Option.some.injEq,Prod.mk.injEq]
      rintro resp vars' ⟨_,rfl⟩
      rfl

private theorem follows_answerBody (blind : Blind answers protocol) (idle : R a) {vars : Session} (charged : ∀ usage complete,
      Follows answers protocol (fun b _ => R b) (chargeUsage D.server vars.qos usage complete) a)
    (requestID : String) (body : Bytes) (endOfStream : Bool) :
    Follows answers protocol (fun b r => R b ∧ ∀ resp vars', r = some (resp,vars') → vars'.qos = vars.qos)
      (processRequest D.server requestID vars (.responseBody body endOfStream)) a := by
  have answered : Follows answers protocol (fun b _ => R b) (answerBody D.server requestID vars body endOfStream) a := by
    unfold answerBody
    split
    · exact idle
    · exact follows_responseBody blind idle charged requestID body endOfStream vars.model vars.stream vars.completed
  refine follows_bind answered ?_
  intro b handled reached
  rcases handled with _ | ⟨resp,completed⟩
  · exact ⟨reached,by simp⟩
  refine follows_bind (follows_plain blind (recordRequest_plain _ _)) ?_
  rintro _ recorded ⟨rfl,_⟩
  cases recorded with
  | none => exact ⟨reached,by simp⟩
  | some _ =>
    refine ⟨reached,?_⟩
    simp only [Option.some.injEq,Prod.mk.injEq]
    rintro resp vars' ⟨_,rfl⟩
    rfl

/-- Headers leave the protocol where it is. -/
theorem headers_follow {I : Phase → Option UserQos → A → Prop} {E : A → Option ProcessingResponse → Prop}
    {replica : A → Prop} (rules : SessionRules D owned served answers protocol I E) {i : ι} {vars : Session}
    {sent : List ProcessingResponse} {msg : ProcessingRequest} (next : Phase)
    (isHeaders : (∃ hs, msg = .requestHeaders hs) ∨ ∃ hs, msg = .responseHeaders hs)
    (leads : ∀ resp, isImmediate resp = false → nextPhase msg resp = next) (holds : I next vars.qos a) :
    Follows answers protocol (Keeps I E replica) (D.handle i vars sent msg) a := by
  refine follows_bind (follows_plain rules.blind (processHeaders_plain _ _ isHeaders)) ?_
  rintro _ r ⟨rfl,same⟩
  rcases r with _ | ⟨resp,vars'⟩
  · exact rules.ended _ _ _ _ holds
  have owner := same resp vars' rfl
  have ends := rules.ended _ _ _ (some resp) holds
  cases immediate : isImmediate resp with
  | true => simpa [Keeps,nextPhase,immediate] using ends
  | false =>
    simp only [pure_eq,follows_ret,leads resp immediate]
    cases next <;> simp [Keeps,owner,holds,ends]

/-- A session follows a protocol when its admission and its charges do. -/
theorem session_follows {I : Phase → Option UserQos → A → Prop} {E : A → Option ProcessingResponse → Prop}
    {replica : A → Prop} (rules : SessionRules D owned served answers protocol I E)
    (pass : ∀ a, replica a → Follows answers protocol (fun b _ => replica b) D.provider.syncQuotaUsage a)
    {i : ι} {l : Local} {p : Action Local} (rests : Keeps I E replica a l) (begins : Starts D i l p) :
    Follows answers protocol (Keeps I E replica) p a := by
  cases begins with
  | pass =>
    refine follows_bind (pass a rests) ?_
    intro b _ reached
    exact reached
  | @message phase vars sent msg sendable =>
    cases phase <;> cases msg <;> simp only [accepts,Bool.false_eq_true] at sendable
    case opening.requestHeaders hs =>
      exact headers_follow rules .requested (.inl ⟨hs,rfl⟩) (fun resp open_ => by simp [nextPhase,open_])
        (rules.requested _ _ rests)
    case requested.responseHeaders hs =>
      exact headers_follow rules .answering (.inr ⟨hs,rfl⟩) (fun resp open_ => by simp [nextPhase,open_])
        (rules.answering _ _ (.inl rests))
    case forwarded.responseHeaders hs =>
      exact headers_follow rules .answering (.inr ⟨hs,rfl⟩) (fun resp open_ => by simp [nextPhase,open_])
        (rules.answering _ _ (.inr rests))
    case requested.requestBody body =>
      have handled : Follows answers protocol (fun b result =>
          if isImmediate result.resp then E b (some result.resp) else I .forwarded result.qos b)
          (handleRequestBody D.server body vars.token) a := by
        refine follows_requestBody rules.blind owned served (fun result immediate => ?_) ?_
        · simpa [immediate] using rules.ended _ _ _ (some result.resp) rests
        · intro qos model stream granted
          refine follows_mono (rules.admitted _ _ _ qos model stream rests granted) ?_
          rintro b result ⟨owner,reached⟩
          rwa [owner]
      refine follows_bind (Q := fun b r => ∃ resp vars', r = some (resp,vars') ∧
        if isImmediate resp then E b (some resp) else I .forwarded vars'.qos b) ?_ ?_
      · refine follows_bind handled ?_
        intro b result reached
        exact ⟨_,_,rfl,reached⟩
      · rintro b _ ⟨resp,vars',rfl,reached⟩
        cases immediate : isImmediate resp <;> simpa [Keeps,nextPhase,immediate] using reached
    case answering.responseBody body endOfStream =>
      refine follows_bind (follows_answerBody rules.blind (R := fun b => I .answering vars.qos b) rests
        (fun usage complete => rules.charged _ _ usage complete rests) _ body endOfStream) ?_
      rintro b r ⟨reached,same⟩
      rcases r with _ | ⟨resp,vars'⟩
      · exact rules.ended _ _ _ _ reached
      have owner := same resp vars' rfl
      have ends := rules.ended _ _ _ (some resp) reached
      cases immediate : isImmediate resp with
      | true => simpa [Keeps,nextPhase,immediate] using ends
      | false => cases endOfStream <;> simp [Keeps,nextPhase,immediate,owner,reached,ends]

end Rules

/-! ### What a session issues -/

section Issues
variable {answers : (op : Op) → Reply op → Prop} {P : Op → Prop}

/-- The requests are for the limits of this qos. -/
def ForQos (qos : UserQos) (requests : List RateLimitRequest) : Prop :=
  ∀ req ∈ requests, ∃ ruleName limit n, req = toRateLimitRequest qos ruleName limit n

theorem limitRequests_forQos {getRuleByName : String → Option LimitRuleConfig} {qos : UserQos}
    {amount : LimitType → Option Int} {limits : List RateLimit} {requests : List RateLimitRequest}
    (built : limitRequests getRuleByName qos amount limits = .ok requests) : ForQos qos requests := by
  intro req member
  rw [limitRequests_ok built] at member
  obtain ⟨limit,_,made⟩ := List.mem_filterMap.mp member
  obtain ⟨rule,_,made⟩ := Option.bind_eq_some_iff.mp made
  obtain ⟨n,_,rfl⟩ := Option.map_eq_some_iff.mp made
  exact ⟨_,_,_,rfl⟩

theorem keys_forQos {c : RedisRateLimter} {qos : UserQos} {requests : List RateLimitRequest} (own : ForQos qos requests)
    {req : RateLimitRequest} {key : String} (used : c.Keys requests req key) :
    ∃ ruleName rule start, c.config.getRule ruleName = some rule ∧ key = rateKey c.keyPrefix qos ruleName start := by
  obtain ⟨member,rule,now,known,rfl⟩ := used
  obtain ⟨ruleName,limit,n,rfl⟩ := own req member
  exact ⟨ruleName,rule,windowOf rule now,known,rfl⟩

/-- `P` holds for what a session issues for the quota of a qos. -/
structure QuotaIssues (D : Deployment ι) (answers : (op : Op) → Reply op → Prop) (P : Op → Prop) (qos : UserQos) :
    Prop where
  getQuota : P (.getQuota qos.namespace_ qos.quotaName)
  usage : ∀ obj, answers (.getQuota qos.namespace_ qos.quotaName) (.ok obj) → ∀ type,
    P (.get (quotaKey D.quotas.keyPrefix obj.namespace_ obj.name type)) ∧
      ∀ n, P (.incrBy (quotaKey D.quotas.keyPrefix obj.namespace_ obj.name type) n)

/-- `P` holds for what a session issues for the rate limits of a qos. -/
structure RateIssues (D : Deployment ι) (P : Op → Prop) (qos : UserQos) : Prop where
  record : ∀ metric, P (.record metric)
  random : ∀ bound, P (.random bound)
  check : ∀ requests, ForQos qos requests → P (.now (.checkLimit requests))
  limit : ∀ requests, ForQos qos requests → P (.now (.doLimit requests))
  rate : ∀ ruleName rule start, D.limiter.config.getRule ruleName = some rule →
    P (.get (rateKey D.limiter.keyPrefix qos ruleName start)) ∧ P (.ttl (rateKey D.limiter.keyPrefix qos ruleName start)) ∧
      (∀ n, P (.incrBy (rateKey D.limiter.keyPrefix qos ruleName start) n)) ∧
      ∀ seconds, P (.expire (rateKey D.limiter.keyPrefix qos ruleName start) seconds)

section Quota
variable {D} {qos : UserQos} (issues : QuotaIssues D answers P qos)
include issues

theorem checkQuota_within :
    Within answers P (fun o => ∀ resp ∈ o, isImmediate resp = true) (checkQuota D.server qos) := by
  refine checkQuota_rule (getQuotaConfig_within issues.getQuota) ?_
  rintro conf ⟨obj,possible,rfl⟩
  refine getUsage_within _ ?_
  intro req member
  obtain ⟨item,_,rfl⟩ := List.mem_map.mp member
  exact (issues.usage obj possible _).1

theorem doTokenQuotaLimit_within (countMap : String → Int) :
    Within answers P (fun _ => True) (doTokenQuotaLimit D.server qos countMap) := by
  unfold doTokenQuotaLimit
  split
  · trivial
  refine within_bind (getQuotaConfig_within issues.getQuota) ?_
  intro read found
  rcases read with e | conf
  · trivial
  obtain ⟨obj,possible,rfl⟩ := found conf rfl
  refine incrUsage_within _ ?_
  intro req member
  obtain ⟨item,_,rfl⟩ := List.mem_map.mp member
  exact (issues.usage obj possible _).2 _

end Quota

section Rate
variable {D} {qos : UserQos} (issues : RateIssues D P qos)
include issues

theorem checkRateLimit_within :
    Within answers P (fun o => ∀ resp ∈ o, isImmediate resp = true) (checkRateLimit D.server qos) := by
  refine checkRateLimit_rule (fun requests built => ?_) (fun _ => issues.record _)
  have own := limitRequests_forQos built
  refine checkLimit_within _ (issues.check _ own) ?_
  intro req key used
  obtain ⟨ruleName,rule,start,known,rfl⟩ := keys_forQos own used
  exact ⟨(issues.rate _ _ _ known).1,(issues.rate _ _ _ known).2.1⟩

theorem doLimits_within (amount : LimitType → Option Int) :
    Within answers P (fun _ => True) (doLimits D.server qos amount) := by
  unfold doLimits
  split
  · trivial
  rename_i requests built
  have own := limitRequests_forQos built
  refine doLimit_within _ (issues.limit _ own) issues.random ?_
  intro req key used
  obtain ⟨ruleName,rule,start,known,rfl⟩ := keys_forQos own used
  obtain ⟨_,ttl,incr,expire⟩ := issues.rate ruleName rule start known
  exact ⟨ttl,incr _,expire⟩

theorem admitRequest_within (quota : QuotaIssues D answers P qos) (model : String) (stream : Bool) :
    Within answers P (fun result => result.qos = some qos) (admitRequest D.server qos model stream) := by
  unfold admitRequest
  refine within_bind (checkRateLimit_within issues) (fun rate _ => ?_)
  cases rate with
  | some resp => simp
  | none =>
    refine within_bind (checkQuota_within quota) (fun allowance _ => ?_)
    cases allowance with
    | some resp => simp
    | none =>
      refine within_bind (doLimits_within issues _) (fun limited _ => ?_)
      cases limited <;> simp

theorem chargeUsage_within (quota : QuotaIssues D answers P qos) (usage : CompletionUsage) (complete : Bool) :
    Within answers P (fun _ => True) (chargeUsage D.server (some qos) usage complete) := by
  unfold chargeUsage
  split
  · trivial
  refine within_bind (doLimits_within issues _) (fun limited _ => ?_)
  rcases limited with e | _
  · trivial
  refine within_bind (doTokenQuotaLimit_within quota _) (fun charged _ => ?_)
  cases charged <;> trivial

end Rate
end Issues
end Arks.Replicas
