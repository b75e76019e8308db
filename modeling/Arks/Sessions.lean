import Arks.Gateway

/-!
Which requests Envoy forwards. An exchange is what Envoy sends over one session;
the request goes on to a backend when none of the messages of its request phase
was answered with an immediate response. Redis may answer anything here, and the
API server may fail, but what it lists is in its store.
-/
namespace Arks.Sessions
open Programs Programs.Prog Api Counters Effects Services Gateway

def isImmediate : ProcessingResponse → Bool
  | .immediateResponse _ _ _ => true
  | _ => false

def isResponse : ProcessingRequest → Bool
  | .responseHeaders _ | .responseBody _ _ => true
  | _ => false

/-- The messages of one session. Envoy sends a body message only for a request
    that has a body. -/
structure Exchange where
  headers : List HeaderValue
  body : Option Bytes
  response : List ProcessingRequest
  responds : ∀ msg ∈ response, isResponse msg = true

def Exchange.messages (x : Exchange) : List ProcessingRequest :=
  .requestHeaders x.headers :: (x.body.toList.map .requestBody ++ x.response)

/-- The answers to the messages of the request phase. -/
def Exchange.requestPhase (x : Exchange) (resps : List ProcessingResponse) : List ProcessingResponse :=
  resps.take (1 + x.body.toList.length)

def Forwarded (x : Exchange) (resps : List ProcessingResponse) : Prop :=
  ∀ resp ∈ x.requestPhase resps, isImmediate resp = false

/-- The answers that the stores of tokens and endpoints allow. -/
def StoreAnswers (tokens : List ArksToken) (endpoints : List ArksEndpoint) : (op : Op) → Reply op → Prop
  | .listTokens token,r => (∃ e, r = .error e) ∨ r = .ok (tokens.filter (fun t => t.token = token))
  | .listEndpoints ns,r => (∃ e, r = .error e) ∨ r = .ok (endpoints.filter (fun e => e.namespace_.val = ns))
  | _,_ => True

theorem acts_storeAnswers {fails : Op → Prop} {w w' : World} {op : Op} {r : Reply op} (step : Acts fails w op r w') :
    StoreAnswers w.tokens w.endpoints op r := by
  cases step with
  | done op => cases op <;> first | exact .inr rfl | trivial
  | refused _ failed | unheard _ failed =>
    cases op <;> first | trivial | (cases failed; exact .inl ⟨_,rfl⟩)
  | random | staleQuota | staleQuotas => trivial

/-- The bearer token is that of an `ArksToken` with an entry for the model, the
    endpoint exists in its namespace, and the routing headers were set from the
    qos that the token gives on the model. -/
def Resolved (codec : Codec) (tokens : List ArksToken) (endpoints : List ArksEndpoint) (x : Exchange)
    (resps : List ProcessingResponse) : Prop :=
  ∃ obj ∈ tokens, obj.token = tokenOf x.headers ∧
    ∃ body ∈ x.body, ∃ reqBody, codec.unmarshalRequest body = .ok reqBody ∧
      (∃ entry ∈ obj.qos, entry.arksEndpoint = reqBody.model) ∧
      (∃ ep ∈ endpoints, ep.namespace_ = obj.namespace_ ∧ ep.name.val = reqBody.model) ∧
      ∃ qos, qosOf obj reqBody.model = some qos ∧
        .requestBody [rawHeader "model" qos.model,rawHeader "namespace" qos.namespace_,rawHeader "username" qos.user] ∈
          x.requestPhase resps

variable (limiter : RedisRateLimter) (quotas : RedisQuotaService) (codec : Codec)
variable (tokens : List ArksToken) (endpoints : List ArksEndpoint)

/-- Every run of the session that forwards the request has resolved it. -/
def Authenticates (x : Exchange) : Prop :=
  ∀ requestID resps final, Returns (StoreAnswers tokens endpoints)
    (process (newServer limiter quotas codec) requestID .initial x.messages) (resps,final) →
      Forwarded x resps → Resolved codec tokens endpoints x resps

@[simp] theorem headerError_immediate (key rawValue : String) (status : Int) (message : String) :
    isImmediate (headerError key rawValue status message) = true := rfl

variable {limiter quotas codec tokens endpoints}

section Handlers
variable {answers : (op : Op) → Reply op → Prop}

/-- The check of the rates calls the limiter, and records a hit. -/
theorem checkRateLimit_rule {P : Op → Prop} {qos : UserQos}
    (checks : ∀ requests, limitRequests limiter.config.getRule qos checkAmount qos.rateLimits = .ok requests →
      Within answers P (fun _ => True) (limiter.checkLimit requests)) (records : ∀ metric, P (.record metric)) :
    Within answers P (fun o => ∀ resp ∈ o, isImmediate resp = true) (checkRateLimit (newServer limiter quotas codec) qos) := by
  unfold checkRateLimit
  split
  · simp
  rename_i requests built
  refine within_bind (checks requests built) (fun checked _ => ?_)
  rcases checked with e | resp
  · simp
  cases exceeds : firstOver resp with
  | none => simp [exceeds]
  | some r =>
    simp only [exceeds]
    refine ⟨records _,fun _ _ => ?_⟩
    rintro _ ⟨⟩
    rfl

/-- The check of a quota reads its configuration and what was used of it. -/
theorem checkQuota_rule {P : Op → Prop} {qos : UserQos} {Good : QuotaConfig → Prop}
    (reads : Within answers P (fun r => ∀ conf, r = .ok conf → Good conf) (getQuotaConfig qos.namespace_ qos.quotaName))
    (uses : ∀ conf, Good conf → Within answers P (fun _ => True) (quotas.getUsage (qosToQuotaRequests conf (fun _ => 0)))) :
    Within answers P (fun o => ∀ resp ∈ o, isImmediate resp = true) (checkQuota (newServer limiter quotas codec) qos) := by
  unfold checkQuota
  split
  · simp
  refine within_bind reads (fun read found => ?_)
  rcases read with e | conf
  · simp
  refine within_bind (uses conf (found conf rfl)) (fun used _ => ?_)
  rcases used with e | usage
  · simp
  cases exceeds : usage.find? QuotaResult.overLimit <;> simp [exceeds]

private theorem checkRateLimit_immediate (qos : UserQos) :
    Within answers (fun _ => True) (fun o => ∀ resp ∈ o, isImmediate resp = true)
      (checkRateLimit (newServer limiter quotas codec) qos) :=
  checkRateLimit_rule (fun _ _ => within_trivial) (fun _ => trivial)

private theorem checkQuota_immediate (qos : UserQos) :
    Within answers (fun _ => True) (fun o => ∀ resp ∈ o, isImmediate resp = true)
      (checkQuota (newServer limiter quotas codec) qos) :=
  checkQuota_rule (getQuotaConfig_within trivial) (fun _ _ => within_trivial)

/-- Past the checks, the only answer that lets the request on sets the routing
    headers. -/
theorem admitRequest_routes (qos : UserQos) (model : String) (stream : Bool) :
    Within answers (fun _ => True)
      (fun result => isImmediate result.resp = false → result.resp = .requestBody (routingHeaders model qos))
      (admitRequest (newServer limiter quotas codec) qos model stream) := by
  unfold admitRequest
  refine within_bind (checkRateLimit_immediate qos) ?_
  intro rate immediate
  cases rate with
  | some resp => simp [immediate resp rfl]
  | none =>
    refine within_bind (checkQuota_immediate qos) ?_
    intro quota immediate
    cases quota with
    | some resp => simp [immediate resp rfl]
    | none =>
      refine within_bind (within_trivial) ?_
      intro limited _
      cases limited <;> simp

end Handlers

/-- Every object that is listed belongs to the stores. -/
structure Stored (owned : ArksToken → Prop) (served : ArksEndpoint → Prop) (answers : (op : Op) → Reply op → Prop) :
    Prop where
  tokens : ∀ token objs, answers (.listTokens token) (.ok objs) → ∀ obj ∈ objs, owned obj ∧ obj.token = token
  endpoints : ∀ ns eps, answers (.listEndpoints ns) (.ok eps) → ∀ ep ∈ eps, served ep ∧ ep.namespace_.val = ns

private theorem storeAnswers_stored (tokens : List ArksToken) (endpoints : List ArksEndpoint) :
    Stored (· ∈ tokens) (· ∈ endpoints) (StoreAnswers tokens endpoints) := by
  constructor
  · rintro token objs (⟨e,failed⟩ | listed) obj member
    · cases failed
    · cases listed
      simpa using member
  · rintro ns eps (⟨e,failed⟩ | listed) ep member
    · cases failed
    · cases listed
      simpa using member

section Lookups
variable {owned : ArksToken → Prop} {served : ArksEndpoint → Prop} {answers : (op : Op) → Reply op → Prop}

/-- A qos comes from an `ArksToken` with the token, from its entry for the model. -/
theorem getQosByToken_spec (stored : Stored owned served answers) (token model : String) :
    Within answers (fun op => op = .listTokens token)
      (fun r => ∀ found, r = .ok found →
        ∃ obj, owned obj ∧ obj.token = token ∧ ∃ qos, qosOf obj model = some qos ∧ found = some qos)
      (getQosByToken token model) := by
  simp only [getQosByToken,issue_bind,within_call,true_and]
  intro listed possible
  rcases listed with e | _ | ⟨obj,others⟩
  · simp
  · simp
  · obtain ⟨owner,same⟩ := stored.tokens token _ possible obj List.mem_cons_self
    cases named : qosOf obj model with
    | none => simp [named]
    | some qos =>
      simp only [named,pure_eq,within_ret,Except.ok.injEq]
      rintro found rfl
      exact ⟨obj,owner,same,qos,named,rfl⟩

theorem getModelList_spec (stored : Stored owned served answers) (ns : String) :
    Within answers (fun op => op = .listEndpoints ns)
      (fun r => ∀ models, r = .ok models → ∀ model ∈ models, ∃ ep, served ep ∧ ep.namespace_.val = ns ∧ ep.name.val = model)
      (getModelList ns) := by
  simp only [getModelList,issue_bind,within_call,true_and]
  intro listed possible
  rcases listed with e | endpoints
  · simp
  · simp only [pure_eq,within_ret,Except.ok.injEq]
    rintro models rfl model member
    obtain ⟨ep,present,named⟩ := List.mem_map.mp member
    obtain ⟨serves,homed⟩ := stored.endpoints ns endpoints possible ep present
    exact ⟨ep,serves,homed,named⟩

end Lookups

theorem qosOf_namespace {obj : ArksToken} {model : String} {qos : UserQos} (named : qosOf obj model = some qos) :
    qos.namespace_ = obj.namespace_.val := by
  simp only [qosOf,Option.map_eq_some_iff] at named
  obtain ⟨entry,_,rfl⟩ := named
  rfl

theorem qosOf_entry {obj : ArksToken} {model : String} {qos : UserQos} (named : qosOf obj model = some qos) :
    qos.model = model ∧ ∃ entry ∈ obj.qos, entry.arksEndpoint = model := by
  simp only [qosOf,Option.map_eq_some_iff] at named
  obtain ⟨entry,found,rfl⟩ := named
  have same : entry.arksEndpoint = model := by simpa using List.find?_some found
  exact ⟨same,entry,List.mem_of_find?_eq_some found,same⟩

/-- An accepted body names a model that the token may use and that exists. -/
theorem handleRequestBody_resolves (body : Bytes) (token : String) :
    Within (StoreAnswers tokens endpoints) (fun _ => True)
      (fun result => isImmediate result.resp = false →
        ∃ obj ∈ tokens, obj.token = token ∧ ∃ reqBody, codec.unmarshalRequest body = .ok reqBody ∧
          (∃ ep ∈ endpoints, ep.namespace_ = obj.namespace_ ∧ ep.name.val = reqBody.model) ∧
          ∃ qos, qosOf obj reqBody.model = some qos ∧ result.resp = .requestBody (routingHeaders reqBody.model qos))
      (handleRequestBody (newServer limiter quotas codec) body token) := by
  unfold handleRequestBody
  cases parsed : codec.unmarshalRequest body with
  | error e => simp [newServer,parsed]
  | ok reqBody =>
    have read : (newServer limiter quotas codec).codec.unmarshalRequest body = .ok reqBody := parsed
    simp only [read]
    split
    · simp
    have stored := storeAnswers_stored tokens endpoints
    refine within_bind (within_mono (getQosByToken_spec stored token reqBody.model) (fun _ _ => trivial)
      (fun _ ok => ok)) ?_
    intro found resolved
    rcases found with e | found
    · simp
    obtain ⟨obj,member,owner,qos,named,rfl⟩ := resolved found rfl
    refine within_bind (within_mono (getModelList_spec stored qos.namespace_) (fun _ _ => trivial) (fun _ ok => ok)) ?_
    intro models listed
    rcases models with e | models
    · simp
    dsimp only
    split
    · simp
    rename_i known
    obtain ⟨ep,exists_,homed,model⟩ := listed models rfl _ (not_not.mp known)
    split
    · simp
    refine within_mono (admitRequest_routes qos reqBody.model _) (fun _ _ => trivial) ?_
    intro result routes forwarded
    refine ⟨obj,member,owner,reqBody,rfl,⟨ep,exists_,?_,model⟩,qos,named,routes forwarded⟩
    exact KubeName.ext (homed.trans (qosOf_namespace named))

variable {answers : (op : Op) → Reply op → Prop} {requestID : String} {session : Session}

/-- One message, then the rest of the session. -/
theorem returns_process_cons {s : Server Action}
    {req : ProcessingRequest} {reqs : List ProcessingRequest} {resps : List ProcessingResponse}
    {final : Option Session} (run : Returns answers (process s requestID session (req :: reqs)) (resps,final)) :
    (Returns answers (processRequest s requestID session req) none ∧ resps = [] ∧ final = none) ∨
      ∃ resp session' rest, Returns answers (processRequest s requestID session req) (some (resp,session')) ∧
        Returns answers (process s requestID session' reqs) (rest,final) ∧ resps = resp :: rest := by
  rw [process,returns_bind] at run
  obtain ⟨handled,first,run⟩ := run
  rcases handled with _ | ⟨resp,session'⟩
  · simp only [pure_eq,returns_ret,Prod.mk.injEq] at run
    exact .inl ⟨first,run⟩
  · rw [returns_bind] at run
    obtain ⟨⟨rest,final'⟩,second,run⟩ := run
    simp only [pure_eq,returns_ret,Prod.mk.injEq] at run
    obtain ⟨rfl,rfl⟩ := run
    exact .inr ⟨resp,session',rest,first,second,rfl⟩

theorem returns_requestHeaders {headers : List HeaderValue} {result : Option (ProcessingResponse × Session)}
    (run : Returns answers (processRequest (newServer limiter quotas codec) requestID session (.requestHeaders headers))
      result) :
    ∃ session', session'.token = tokenOf headers ∧ result = some ((handleRequestHeaders headers).1,session') := by
  simp only [processRequest,newServer,issue_bind,returns_call,pure_eq,returns_ret] at run
  obtain ⟨t,_,rfl⟩ := run
  refine ⟨_,?_,rfl⟩
  simp only [handleRequestHeaders]
  split <;> rfl

theorem returns_requestBody {body : Bytes} {result : Option (ProcessingResponse × Session)}
    (run : Returns answers (processRequest (newServer limiter quotas codec) requestID session (.requestBody body))
      result) :
    ∃ handled session', Returns answers (handleRequestBody (newServer limiter quotas codec) body session.token) handled ∧
      result = some (handled.resp,session') := by
  rw [processRequest,returns_bind] at run
  obtain ⟨handled,first,run⟩ := run
  simp only [pure_eq,returns_ret] at run
  exact ⟨handled,_,first,run⟩

/-- A session without a token is answered at once. -/
theorem handleRequestHeaders_immediate {headers : List HeaderValue} :
    isImmediate (handleRequestHeaders headers).1 = true ↔ tokenOf headers = "" := by
  unfold handleRequestHeaders
  by_cases missing : tokenOf headers = ""
  · simp [missing]
  · simp [missing,isImmediate]

/-- A session whose request has a body is forwarded only when it is resolved. -/
theorem body_resolves {x : Exchange} {body : Bytes} (sent : x.body = some body) :
    Authenticates limiter quotas codec tokens endpoints x := by
  intro requestID resps final run forwarded
  have messages : x.messages = .requestHeaders x.headers :: .requestBody body :: x.response := by
    simp [Exchange.messages,sent]
  rw [messages] at run
  rcases returns_process_cons run with ⟨first,_,_⟩ | ⟨resp,session,rest,first,later,rfl⟩
  · obtain ⟨_,_,impossible⟩ := returns_requestHeaders first
    cases impossible
  obtain ⟨session',token,same⟩ := returns_requestHeaders first
  simp only [Option.some.injEq,Prod.mk.injEq] at same
  obtain ⟨rfl,rfl⟩ := same
  rcases returns_process_cons later with ⟨second,_,_⟩ | ⟨resp,session',rest,second,_,rfl⟩
  · obtain ⟨_,_,_,impossible⟩ := returns_requestBody second
    cases impossible
  obtain ⟨handled,_,answered,same⟩ := returns_requestBody second
  simp only [Option.some.injEq,Prod.mk.injEq] at same
  obtain ⟨rfl,rfl⟩ := same
  have phase : x.requestPhase ((handleRequestHeaders x.headers).1 :: handled.resp :: rest) =
      [(handleRequestHeaders x.headers).1,handled.resp] := by
    simp [Exchange.requestPhase,sent]
  have passed : isImmediate handled.resp = false := forwarded _ (by rw [phase]; simp)
  obtain ⟨obj,stored,owner,reqBody,parsed,endpoint,qos,named,routes⟩ :=
    returns_within (handleRequestBody_resolves body _) answered passed
  obtain ⟨model,entry⟩ := qosOf_entry named
  refine ⟨obj,stored,owner.trans token,body,sent,reqBody,parsed,entry,endpoint,qos,named,?_⟩
  rw [phase,routes,model]
  simp [routingHeaders]

/-- A session without a body is forwarded as soon as it carries any token. -/
theorem bodyless_forwarded {x : Exchange} (bodyless : x.body = none) (token : tokenOf x.headers ≠ "") :
    ¬ Authenticates limiter quotas codec tokens endpoints x := by
  intro holds
  obtain ⟨⟨resps,final⟩,run⟩ := returns_exists
    (fun op => ⟨_,acts_storeAnswers (.done op : Acts (fun _ => False) (.fresh tokens endpoints []) op _ _)⟩)
    (process (newServer limiter quotas codec) "" .initial x.messages)
  have forwarded : Forwarded x resps := by
    have messages : x.messages = .requestHeaders x.headers :: x.response := by simp [Exchange.messages,bodyless]
    rw [messages] at run
    rcases returns_process_cons run with ⟨_,rfl,_⟩ | ⟨resp,session,rest,first,_,rfl⟩
    · simp [Forwarded,Exchange.requestPhase]
    obtain ⟨_,_,same⟩ := returns_requestHeaders first
    simp only [Option.some.injEq,Prod.mk.injEq] at same
    obtain ⟨rfl,rfl⟩ := same
    have passes : isImmediate (handleRequestHeaders x.headers).1 = false := by
      rw [← Bool.not_eq_true,handleRequestHeaders_immediate]
      exact token
    simp [Forwarded,Exchange.requestPhase,bodyless,passes]
  obtain ⟨_,_,_,body,sent,_⟩ := holds "" resps final run forwarded
  simp [bodyless] at sent

/-- Requests are only forwarded once they are resolved, except those without a
    body: they pass with any token at all. -/
theorem forwarded_resolved_iff (limiter : RedisRateLimter) (quotas : RedisQuotaService) (codec : Codec)
    (tokens : List ArksToken) (endpoints : List ArksEndpoint) (x : Exchange) :
    Authenticates limiter quotas codec tokens endpoints x ↔ x.body.isSome = true ∨ tokenOf x.headers = "" := by
  constructor
  · intro holds
    by_contra neither
    simp only [not_or,Bool.not_eq_true,Option.isSome_eq_false_iff,Option.isNone_iff_eq_none] at neither
    exact bodyless_forwarded neither.1 neither.2 holds
  · rintro (sent | missing)
    · obtain ⟨body,sent⟩ := Option.isSome_iff_exists.mp sent
      exact body_resolves sent
    · intro requestID resps final run forwarded
      rcases returns_process_cons run with ⟨first,_,_⟩ | ⟨resp,session,rest,first,_,rfl⟩
      · obtain ⟨_,_,impossible⟩ := returns_requestHeaders first
        cases impossible
      obtain ⟨_,_,same⟩ := returns_requestHeaders first
      simp only [Option.some.injEq,Prod.mk.injEq] at same
      obtain ⟨rfl,rfl⟩ := same
      have passed := forwarded _ (by rw [Exchange.requestPhase,Nat.add_comm]; exact .head _)
      rw [handleRequestHeaders_immediate.mpr missing] at passed
      cases passed

/-- A request without a body and with a token that nobody owns: it is forwarded. -/
theorem unowned_token_forwarded : ¬ ∀ limiter quotas codec, Authenticates limiter quotas codec [] []
    ⟨[⟨"authorization","","Bearer nobody"⟩],none,[],by simp⟩ := by
  intro all
  have codec : Codec := ⟨fun _ => .error "",fun _ => .error "",fun _ => ([],none),fun _ => "",fun _ => "",fun _ => ""⟩
  exact bodyless_forwarded rfl (by decide) (all ⟨"",newLimitConfig,0⟩ ⟨""⟩ codec)

end Arks.Sessions
