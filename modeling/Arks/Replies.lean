import Arks.Exchanges

/-!
What a session answers. `Process` sends one response for each message that it gets: one of
the kind of the message, or an error that ends the request, whose status stands in the body
again and is never a success. Which errors there are depends on the message and on the
status of the upstream response only. A request that the rate limiter turns away is counted
as a hit, under the labels of the user, and no other is.
-/
namespace Arks.Replies
open Programs Programs.Prog Counters Services Gateway Interfaces Exchanges
open Effects (Metric ProcessingTime Bytes)

/-! ### Responses -/

/-- An error with this status: the body repeats it, and the last header says that the body is JSON. -/
def Refuses (status : Int) : ProcessingResponse → Prop
  | .immediateResponse code headers body =>
    code = status ∧ body.code = status ∧ headers.getLast? = some ⟨"Content-Type","application/json",""⟩
  | _ => False

/-- The errors of a request that is turned away. -/
def TurnsAway (resp : ProcessingResponse) : Prop := ∃ status ∈ [400,401,429,500], Refuses status resp

/-- What `HandleRequestBody` answers: the request goes on, or it is turned away. -/
def Decides (resp : ProcessingResponse) : Prop := (∃ set, resp = .requestBody set) ∨ TurnsAway resp

/-- The response to a message, where `upstream` is the status of the response so far. -/
def Answers (upstream : Int) : ProcessingRequest → ProcessingResponse → Prop
  | .requestHeaders headers,resp => if tokenOf headers = "" then Refuses 401 resp else ∃ set, resp = .requestHeaders set true
  | .requestBody _,resp => Decides resp
  | .responseHeaders headers,resp =>
    if statusOf headers = 500 then Refuses 500 resp else ∃ set, resp = .responseHeaders set true
  | .responseBody _ _,resp =>
    if upstream = 200 then resp = .responseBody [] ∨ Refuses 500 resp else Refuses upstream resp
  | .unknown,resp => resp = .empty

/-- The rate limiter is to blame. -/
def throttled : ProcessingResponse → Bool
  | .immediateResponse status headers _ => decide (status = 429) && headers.any (fun h => h.key = "x-error-rate-limit")
  | _ => false

section Responses
variable {key rawValue message : String} {status : Int}

theorem refuses_generated (status : Int) (headers : List HeaderValue) (message : String) :
    Refuses status (generateErrorResponse status headers message) := ⟨rfl,rfl,List.getLast?_concat⟩

theorem refuses_headerError : Refuses status (headerError key rawValue status message) := refuses_generated ..

theorem turnsAway_headerError (known : status ∈ [400,401,429,500]) : TurnsAway (headerError key rawValue status message) :=
  ⟨status,known,refuses_headerError⟩

theorem throttled_status (other : status ≠ 429) (headers : List HeaderValue) :
    throttled (generateErrorResponse status headers message) = false := by
  simp [throttled,generateErrorResponse,other]

private theorem throttled_refused {resp : ProcessingResponse} (refuses : Refuses status resp) (other : status ≠ 429) :
    throttled resp = false := by
  cases resp with
  | immediateResponse code headers body => simp [throttled,refuses.1,other]
  | _ => rfl

private theorem throttled_limit : throttled (headerError "x-error-rate-limit" "true" 429 message) = true := by
  simp [throttled,headerError,generateErrorResponse,rawHeader]

theorem throttled_key (other : key ≠ "x-error-rate-limit") : throttled (headerError key rawValue status message) = false := by
  simp [throttled,headerError,generateErrorResponse,rawHeader,other]

end Responses

/-! ### Hits -/

/-- The labels of a call of `RecordRateLimitHit`: namespace, user, model and rule. -/
def hitOf : Op → Option (String × String × String × String)
  | .record (.rateLimitHit ns user model ruleName) => some (ns,user,model,ruleName)
  | _ => none

def hits (calls : List Call) : List (String × String × String × String) := calls.filterMap (fun call => hitOf call.1)

/-- The response that a call sends. -/
def sentBy : Op → Option ProcessingResponse
  | .send resp => some resp
  | _ => none

def sent (calls : List Call) : List ProcessingResponse := calls.filterMap (fun call => sentBy call.1)

/-- The rate limiter found the first rule over its limit among its replies, and that is recorded and answered. -/
def Throttles (codec : Codec) (qos : UserQos) (calls : List Call) (resp : ProcessingResponse) : Prop :=
  ∃ requests replies r, ⟨.checkLimit requests,.ok replies⟩ ∈ calls ∧ firstOver replies = some r ∧
    hits calls = [(qos.namespace_,qos.user,qos.model,r.ruleName)] ∧
    resp = headerError "x-error-rate-limit" "true" 429 (codec.rateLimitJSON r)

/-- A request is turned away by the rate limiter with a hit, or in another way without one. -/
def Tells (codec : Codec) (qos : UserQos) (calls : List Call) (resp : ProcessingResponse) : Prop :=
  (throttled resp = false ∧ hits calls = []) ∨ (throttled resp = true ∧ Throttles codec qos calls resp)

section Calls
variable {rules : LimitConfig} {codec : Codec} {requestID : String} {vars vars' : Session} {calls more : List Call}
  {qos : UserQos} {resp : ProcessingResponse}

@[simp] theorem hits_append : hits (calls ++ more) = hits calls ++ hits more := List.filterMap_append ..

@[simp] theorem sent_append : sent (calls ++ more) = sent calls ++ sent more := List.filterMap_append ..

/-- Calls that neither send nor record a hit. -/
def Mute (op : Op) : Prop := hitOf op = none ∧ sentBy op = none

theorem mute_hits (mute : ∀ call ∈ calls, Mute call.1) : hits calls = [] :=
  List.filterMap_eq_nil_iff.mpr (fun call is => (mute call is).1)

private theorem mute_charge : ∀ {op : Op}, isCharge op = true → Mute op
  | .doLimit _,_ | .getQuotaConfig _ _,_ | .incrUsage _,_ => ⟨rfl,rfl⟩

theorem mute_response {op : Op} (is : ResponseCall requestID op) : Mute op := by
  cases op with
  | record metric => cases metric <;> first | exact ⟨rfl,rfl⟩ | cases is
  | recv | send => cases is
  | _ => exact ⟨rfl,rfl⟩

private theorem sent_request {op : Op} (is : RequestCall op) : sentBy op = none := by
  cases op with
  | send => cases is
  | _ => rfl

theorem recordRequest_mute (session : Session) (statusCode : Int) :
    Issues Mute (fun _ => True) (recordRequest (server rules codec) session statusCode) := by
  unfold recordRequest
  split
  · trivial
  · exact ⟨⟨rfl,rfl⟩,fun _ _ => ⟨⟨rfl,rfl⟩,fun _ _ => trivial⟩⟩

/-! ### The request -/

/-- `checkRateLimit` records a hit with every request that it turns away for a limit. -/
theorem checkRateLimit_tells {answer : Option ProcessingResponse}
    (run : Runs (checkRateLimit (server rules codec) qos) calls answer) :
    (answer = none → hits calls = []) ∧ ∀ resp ∈ answer, TurnsAway resp ∧ Tells codec qos calls resp := by
  unfold checkRateLimit at run
  split at run
  · obtain ⟨rfl,rfl⟩ := runs_ret.mp run
    refine ⟨nofun,?_⟩
    rintro resp ⟨⟩
    exact ⟨turnsAway_headerError (by decide),.inl ⟨throttled_status (by decide) _,rfl⟩⟩
  · rename_i requests _
    obtain ⟨replies,rest,rfl,later⟩ := runs_call.mp run
    cases replies with
    | error e =>
      obtain ⟨rfl,rfl⟩ := runs_ret.mp later
      refine ⟨nofun,?_⟩
      rintro resp ⟨⟩
      exact ⟨turnsAway_headerError (by decide),.inl ⟨throttled_status (by decide) _,rfl⟩⟩
    | ok replies =>
      dsimp only [Prog.bind] at later
      cases over_ : firstOver replies with
      | none =>
        rw [over_] at later
        obtain ⟨rfl,rfl⟩ := runs_ret.mp later
        exact ⟨fun _ => rfl,nofun⟩
      | some r =>
        rw [over_] at later
        obtain ⟨_,last,rfl,ends⟩ := runs_call.mp later
        obtain ⟨rfl,rfl⟩ := runs_ret.mp ends
        refine ⟨nofun,?_⟩
        rintro resp ⟨⟩
        exact ⟨turnsAway_headerError (by decide),
          .inr ⟨throttled_limit,requests,replies,r,.head _,over_,rfl,rfl⟩⟩

private theorem checkQuota_tells {answer : Option ProcessingResponse}
    (run : Runs (checkQuota (server rules codec) qos) calls answer) :
    hits calls = [] ∧ ∀ resp ∈ answer, TurnsAway resp ∧ throttled resp = false := by
  have away : ∀ {status : Int} {rawValue message : String}, status ∈ [400,401,429,500] →
      ∀ resp ∈ some (headerError "x-error-quota" rawValue status message), TurnsAway resp ∧ throttled resp = false := by
    rintro status rawValue message known resp ⟨⟩
    exact ⟨turnsAway_headerError known,throttled_key (by decide)⟩
  unfold checkQuota checkTokenQuotaLimit at run
  split at run
  · obtain ⟨rfl,rfl⟩ := runs_ret.mp run
    exact ⟨rfl,nofun⟩
  · obtain ⟨conf,rest,rfl,later⟩ := runs_call.mp run
    cases conf with
    | error e =>
      obtain ⟨rfl,rfl⟩ := runs_ret.mp later
      exact ⟨rfl,away (by decide)⟩
    | ok conf =>
      obtain ⟨usage,last,rfl,ends⟩ := runs_call.mp later
      cases usage with
      | error e =>
        obtain ⟨rfl,rfl⟩ := runs_ret.mp ends
        exact ⟨rfl,away (by decide)⟩
      | ok usage =>
        dsimp only [Prog.bind] at ends
        split at ends
        · obtain ⟨rfl,rfl⟩ := runs_ret.mp ends
          exact ⟨rfl,away (by decide)⟩
        · obtain ⟨rfl,rfl⟩ := runs_ret.mp ends
          exact ⟨rfl,nofun⟩

private theorem admitRequest_tells {model : String} {stream : Bool} {result : RequestResult}
    (run : Runs (admitRequest (server rules codec) qos model stream) calls result) :
    Decides result.resp ∧ Tells codec qos calls result.resp := by
  obtain ⟨limited,first,rest,rfl,checks,later⟩ := runs_bind.mp run
  obtain ⟨quiet,limits⟩ := checkRateLimit_tells checks
  cases limited with
  | some resp =>
    obtain ⟨rfl,rfl⟩ := runs_ret.mp later
    obtain ⟨away,tells⟩ := limits resp rfl
    rw [List.append_nil]
    exact ⟨.inr away,tells⟩
  | none =>
    obtain ⟨answer,second,rest,rfl,quotas,later⟩ := runs_bind.mp later
    obtain ⟨still,answers⟩ := checkQuota_tells quotas
    cases answer with
    | some resp =>
      obtain ⟨rfl,rfl⟩ := runs_ret.mp later
      obtain ⟨away,other⟩ := answers resp rfl
      exact ⟨.inr away,.inl ⟨other,by simp [quiet rfl,still]⟩⟩
    | none =>
      obtain ⟨counted,third,rest,rfl,counts,later⟩ := runs_bind.mp later
      have silent := mute_hits (fun call is => mute_charge ((runs_within (doLimits_charges qos requestAmount) counts).1 call is))
      have none_ : ∀ last : List Call, last = [] → hits (first ++ (second ++ (third ++ last))) = [] := by
        rintro _ rfl
        simp only [hits_append,quiet rfl,still,silent]
        rfl
      cases counted with
      | error e =>
        obtain ⟨rfl,rfl⟩ := runs_ret.mp later
        exact ⟨.inr (turnsAway_headerError (by decide)),.inl ⟨throttled_status (by decide) _,none_ _ rfl⟩⟩
      | ok =>
        obtain ⟨rfl,rfl⟩ := runs_ret.mp later
        exact ⟨.inl ⟨_,rfl⟩,.inl ⟨rfl,none_ _ rfl⟩⟩

/-- What a turn tells of the rate limiter: the user is the one that the token was resolved to. -/
def TellsUser (codec : Codec) (calls : List Call) (resp : ProcessingResponse) : Prop :=
  (throttled resp = false ∧ hits calls = []) ∨ (throttled resp = true ∧
    ∃ token model qos, ⟨.getQosByToken token model,.ok (some qos)⟩ ∈ calls ∧ Throttles codec qos calls resp)

/-- What comes after without a hit changes nothing. -/
theorem tellsUser_more (tells : TellsUser codec calls resp) (last : hits more = []) : TellsUser codec (calls ++ more) resp := by
  have same : hits (calls ++ more) = hits calls := by rw [hits_append,last,List.append_nil]
  rcases tells with ⟨other,none_⟩ | ⟨is,token,model,qos,resolved,requests,replies,r,checked,found,one,answer⟩
  · exact .inl ⟨other,same.trans none_⟩
  · exact .inr ⟨is,token,model,qos,List.mem_append_left _ resolved,requests,replies,r,List.mem_append_left _ checked,found,
      same.trans one,answer⟩

theorem refused_tells {key rawValue message : String} {status : Int} (known : status ∈ [400,401,429,500])
    (other : key ≠ "x-error-rate-limit") (quiet : hits calls = []) : Decides (headerError key rawValue status message) ∧
      TellsUser codec calls (headerError key rawValue status message) :=
  ⟨.inr (turnsAway_headerError known),.inl ⟨throttled_key other,quiet⟩⟩

private theorem handleRequestBody_tells {body : Bytes} {token : String} {result : RequestResult}
    (run : Runs (handleRequestBody (server rules codec) body token) calls result) :
    Decides result.resp ∧ TellsUser codec calls result.resp := by
  unfold handleRequestBody at run
  split at run
  · obtain ⟨rfl,rfl⟩ := runs_ret.mp run
    exact refused_tells (by decide) (by decide) rfl
  dsimp only at run
  split at run
  · obtain ⟨rfl,rfl⟩ := runs_ret.mp run
    exact refused_tells (by decide) (by decide) rfl
  obtain ⟨found,rest,rfl,later⟩ := runs_call.mp run
  rcases found with e | _ | qos
  · obtain ⟨rfl,rfl⟩ := runs_ret.mp later
    exact refused_tells (by decide) (by decide) rfl
  · obtain ⟨rfl,rfl⟩ := runs_ret.mp later
    exact refused_tells (by decide) (by decide) rfl
  obtain ⟨models,rest,rfl,listed⟩ := runs_call.mp later
  rcases models with e | models
  · obtain ⟨rfl,rfl⟩ := runs_ret.mp listed
    exact refused_tells (by decide) (by decide) rfl
  dsimp only [Prog.bind] at listed
  split at listed
  · obtain ⟨rfl,rfl⟩ := runs_ret.mp listed
    exact refused_tells (by decide) (by decide) rfl
  split at listed
  · obtain ⟨rfl,rfl⟩ := runs_ret.mp listed
    exact refused_tells (by decide) (by decide) rfl
  obtain ⟨decides,other | ⟨is,requests,replies,r,checked,over_,one,answer⟩⟩ := admitRequest_tells listed
  · exact ⟨decides,.inl ⟨other.1,other.2⟩⟩
  · exact ⟨decides,.inr ⟨is,_,_,qos,.head _,requests,replies,r,
      List.mem_cons_of_mem _ (.tail _ checked),over_,one,answer⟩⟩

/-! ### The response -/

theorem chargeUsage_answers (qos : Option UserQos) (usage : CompletionUsage) (complete : Bool) :
    Issues (fun _ => True) (fun result => ∀ b ∈ result, b.resp = .responseBody [] ∨ Refuses 500 b.resp)
      (chargeUsage (server rules codec) qos usage complete) := by
  unfold chargeUsage
  split
  · rintro b ⟨⟩
    exact .inl rfl
  split
  · exact nofun
  refine within_bind within_trivial (fun charged _ => ?_)
  cases charged with
  | error e =>
    rintro b ⟨⟩
    exact .inr refuses_headerError
  | ok =>
    refine within_bind within_trivial (fun charged _ => ?_)
    cases charged with
    | error e =>
      rintro b ⟨⟩
      exact .inr refuses_headerError
    | ok =>
      rintro b ⟨⟩
      exact .inl rfl

private theorem handleBody_answers (body : Bytes) (endOfStream : Bool) (qos : Option UserQos) (stream complete : Bool) :
    Issues (fun _ => True) (fun result => ∀ b ∈ result, b.resp = .responseBody [] ∨ Refuses 500 b.resp)
      (handleBody (server rules codec) requestID body endOfStream qos stream complete) := by
  unfold handleBody
  split
  · unfold handleStreamBody
    dsimp only
    split
    · rintro b ⟨⟩
      exact .inr refuses_headerError
    · exact chargeUsage_answers ..
  · refine within_ask trivial (fun whole => ?_)
    split
    · rintro b ⟨⟩
      exact .inl rfl
    refine within_ask trivial (fun _ => ?_)
    split
    · rintro b ⟨⟩
      exact .inr refuses_headerError
    split
    · rintro b ⟨⟩
      exact .inr refuses_headerError
    · exact chargeUsage_answers ..

private theorem finishResponse_answers (timing : ProcessingTime) (qos : Option UserQos) (model : String)
    (hasCompleted endOfStream : Bool)
    (result : BodyResult) : Issues (fun _ => True) (fun answer => ∀ a ∈ answer, a.1 = result.resp)
      (finishResponse (server rules codec) requestID timing qos model hasCompleted endOfStream result) := by
  refine within_ask trivial (fun now => ?_)
  dsimp only
  split
  · split
    · exact nofun
    refine within_ask trivial (fun _ => within_ask trivial (fun _ => within_ask trivial (fun _ => ?_)))
    rintro a ⟨⟩
    rfl
  · refine within_ask trivial (fun _ => within_ask trivial (fun _ => ?_))
    rintro a ⟨⟩
    rfl

/-- The response to a piece of the body. -/
theorem answerBody_answers (vars : Session) (body : Bytes) (endOfStream : Bool) :
    Issues (fun _ => True)
      (fun answer => ∀ a ∈ answer, Answers vars.statusCode (.responseBody body endOfStream) a.1 ∧ throttled a.1 = false)
      (answerBody (server rules codec) requestID vars body endOfStream) := by
  unfold answerBody
  split
  · rename_i other
    rintro a ⟨⟩
    refine ⟨?_,by simp [throttled,responseErrorProcessing,generateErrorResponse,ProcessingResponse.responseSetHeaders]⟩
    rw [Answers,if_neg other]
    exact refuses_generated ..
  · rename_i success
    refine within_ask trivial (fun pt => within_bind within_trivial (fun start _ => ?_))
    refine within_bind (handleBody_answers body endOfStream vars.qos vars.stream vars.completed) (fun result shown => ?_)
    cases result with
    | none => exact nofun
    | some result =>
      refine within_mono (finishResponse_answers ..) (fun _ _ => trivial) (fun answer same a is => ?_)
      rw [same a is,Answers,if_pos (not_not.mp success)]
      refine ⟨shown result rfl,?_⟩
      rcases shown result rfl with body | failed
      · rw [body]
        rfl
      · exact throttled_refused failed (by decide)

/-! ### A turn -/

private theorem handleRequestHeaders_answers (status : Int) (headers : List HeaderValue) :
    Answers status (.requestHeaders headers) (handleRequestHeaders headers).1 ∧
      throttled (handleRequestHeaders headers).1 = false := by
  unfold handleRequestHeaders Answers
  dsimp only
  split
  · exact ⟨refuses_headerError,throttled_key (by decide)⟩
  · exact ⟨⟨_,rfl⟩,rfl⟩

/-- No handler sends. -/
theorem processRequest_unsent (vars : Session) (msg : ProcessingRequest) :
    Issues (fun op => sentBy op = none) (fun _ => True)
      (processRequest (server rules codec) requestID vars msg) := by
  have records : ∀ session statusCode, Issues (fun op => sentBy op = none) (fun _ => True)
      (recordRequest (server rules codec) session statusCode) :=
    fun session statusCode => within_mono (recordRequest_mute session statusCode) (fun _ mute => mute.2) (fun _ is => is)
  cases msg with
  | requestHeaders headers => exact within_ask rfl (fun _ => trivial)
  | requestBody body =>
    exact within_bind (within_mono (handleRequestBody_calls body vars.token) (fun _ => sent_request) (fun _ is => is))
      (fun _ _ => trivial)
  | responseHeaders headers =>
    simp only [processRequest]
    split
    · refine within_bind (records _ _) (fun recorded_ _ => ?_)
      cases recorded_ <;> trivial
    · trivial
  | responseBody body endOfStream =>
    refine within_bind
      (within_mono (answerBody_calls vars body endOfStream) (fun _ is => (mute_response is).2) (fun _ is => is)) ?_
    intro answer _
    cases answer with
    | none => trivial
    | some answer =>
      refine within_bind (records _ _) (fun recorded_ _ => ?_)
      cases recorded_ <;> trivial
  | unknown => trivial

theorem turn_unsent {msg : ProcessingRequest} {result : Option (ProcessingResponse × Session)}
    (run : Runs (processRequest (server rules codec) requestID vars msg) calls result) : sent calls = [] :=
  List.filterMap_eq_nil_iff.mpr (runs_within (processRequest_unsent vars msg) run).1

/-- The status that a session holds once it has handled a message. -/
def upstreamAfter (upstream : Int) : ProcessingRequest → Int
  | .responseHeaders headers => statusOf headers
  | _ => upstream

/-- One message: the response answers it, and hits are told. -/
theorem turn_answers {msg : ProcessingRequest}
    (run : Runs (processRequest (server rules codec) requestID vars msg) calls (some (resp,vars'))) :
    Answers vars.statusCode msg resp ∧ TellsUser codec calls resp ∧ vars'.statusCode = upstreamAfter vars.statusCode msg := by
  cases msg with
  | requestHeaders headers =>
    obtain ⟨_,rest,rfl,later⟩ := runs_call.mp run
    obtain ⟨rfl,same⟩ := runs_ret.mp later
    obtain ⟨rfl,rfl⟩ := Prod.mk.inj (Option.some.inj same)
    obtain ⟨answers,other⟩ := handleRequestHeaders_answers vars.statusCode headers
    exact ⟨answers,.inl ⟨other,rfl⟩,rfl⟩
  | requestBody body =>
    obtain ⟨result,first,rest,rfl,handles,later⟩ := runs_bind.mp run
    obtain ⟨rfl,same⟩ := runs_ret.mp later
    obtain ⟨rfl,rfl⟩ := Prod.mk.inj (Option.some.inj same)
    rw [List.append_nil]
    obtain ⟨decides,tells⟩ := handleRequestBody_tells handles
    exact ⟨decides,tells,rfl⟩
  | responseHeaders headers =>
    simp only [processRequest] at run
    split at run
    · rename_i failed
      have is : statusOf headers = 500 := failed
      obtain ⟨recorded_,first,rest,rfl,records,later⟩ := runs_bind.mp run
      have mute := (runs_within (recordRequest_mute _ _) records).1
      cases recorded_ with
      | none => cases (runs_ret.mp later).2
      | some =>
        obtain ⟨rfl,same⟩ := runs_ret.mp later
        obtain ⟨rfl,rfl⟩ := Prod.mk.inj (Option.some.inj same)
        rw [List.append_nil,Answers,if_pos is,failed]
        exact ⟨refuses_generated ..,.inl ⟨throttled_status (by decide) _,mute_hits mute⟩,is.symm⟩
    · rename_i other
      have is : ¬ statusOf headers = 500 := other
      obtain ⟨rfl,same⟩ := runs_ret.mp run
      obtain ⟨rfl,rfl⟩ := Prod.mk.inj (Option.some.inj same)
      rw [Answers,if_neg is]
      exact ⟨⟨_,rfl⟩,.inl ⟨rfl,rfl⟩,rfl⟩
  | responseBody body endOfStream =>
    obtain ⟨answer,first,rest,rfl,answers,later⟩ := runs_bind.mp run
    have mute := fun call is => mute_response ((runs_within (answerBody_calls vars body endOfStream) answers).1 call is)
    cases answer with
    | none => cases (runs_ret.mp later).2
    | some answer =>
      obtain ⟨shown,other⟩ := (runs_within (answerBody_answers vars body endOfStream) answers).2 answer rfl
      obtain ⟨recorded_,second,last,rfl,records,ends⟩ := runs_bind.mp later
      have still := (runs_within (recordRequest_mute _ _) records).1
      cases recorded_ with
      | none => cases (runs_ret.mp ends).2
      | some =>
        obtain ⟨rfl,same⟩ := runs_ret.mp ends
        obtain ⟨rfl,rfl⟩ := Prod.mk.inj (Option.some.inj same)
        refine ⟨shown,.inl ⟨other,?_⟩,rfl⟩
        rw [List.append_nil,hits_append,mute_hits mute,mute_hits still]
        rfl
  | unknown =>
    obtain ⟨rfl,same⟩ := runs_ret.mp run
    obtain ⟨rfl,rfl⟩ := Prod.mk.inj (Option.some.inj same)
    exact ⟨rfl,.inl ⟨rfl,rfl⟩,rfl⟩

end Calls

/-! ### Sessions -/

/-- The status of the response after these turns, the newest first. -/
def upstream : List Turn → Int
  | [] => 0
  | turn :: older => upstreamAfter (upstream older) turn.msg

/-- Each turn has sent one response, which answers its message after the older turns. -/
def AllAnswered : List Turn → Prop
  | [] => True
  | turn :: older => (∃ resp, sent turn.calls = [resp] ∧ Answers (upstream older) turn.msg resp) ∧ AllAnswered older

section Sessions
variable {ι : Type} {h : Host ι} {i : ι} {t : View} {vars : Session}

theorem goes_answered (goes : Goes h i ⟨⟨none,none⟩,[]⟩ .initial t vars) :
    AllAnswered t.turns ∧ vars.statusCode = upstream t.turns := by
  induction goes with
  | here => exact ⟨trivial,rfl⟩
  | @turn t' vars' vars'' msg resp calls entry _ run _ ih =>
    obtain ⟨answered,status⟩ := ih
    obtain ⟨answers,_,after_⟩ := turn_answers run
    rw [status] at answers after_
    exact ⟨⟨⟨resp,by rw [sent_append,turn_unsent run]; rfl,answers⟩,answered⟩,after_⟩

/-- The turns whose response says that the rate limiter is to blame. -/
def throttledTurns (turns : List Turn) : Nat := turns.countP (fun turn => (sent turn.calls).any throttled)

/-- A turn tells all hits of the rate limiter. -/
def AllTold (codec : Codec) (turns : List Turn) : Prop :=
  ∀ turn ∈ turns, ∀ resp ∈ sent turn.calls, TellsUser codec turn.calls resp

theorem goes_told (goes : Goes h i ⟨⟨none,none⟩,[]⟩ .initial t vars) :
    AllTold h.codec t.turns ∧ (t.turns.flatMap (fun turn => hits turn.calls)).length = throttledTurns t.turns := by
  induction goes with
  | here => exact ⟨nofun,rfl⟩
  | @turn t' vars' vars'' msg resp calls entry _ run _ ih =>
    obtain ⟨told,count⟩ := ih
    obtain ⟨_,tells,_⟩ := turn_answers run
    have one : sent (calls ++ [⟨.send resp,()⟩]) = [resp] := by
      rw [sent_append,turn_unsent run]
      rfl
    have same : hits (calls ++ [⟨.send resp,()⟩]) = hits calls := by
      rw [hits_append]
      exact List.append_nil _
    refine ⟨?_,?_⟩
    · rintro turn is answer shown
      rcases List.mem_cons.mp is with rfl | older
      · rw [one] at shown
        cases List.mem_singleton.mp shown
        exact tellsUser_more tells rfl
      · exact told turn older answer shown
    · rw [List.flatMap_cons,List.length_append,count,throttledTurns,throttledTurns,List.countP_cons,one,same]
      rcases tells with ⟨other,none_⟩ | ⟨is,_,_,_,_,_,_,_,_,_,one,_⟩
      · simp [other,none_]
      · simp [is,one,Nat.add_comm]

end Sessions

section Results
variable {ι : Type} [DecidableEq ι]

/-- Every session sends one response for each message, in any interleaving of the sessions and whatever the services
    answer: it is of the kind of the message or an error that ends the request. A session that crashes does so
    without a response to its last message. -/
theorem sessions_answer (h : Host ι) (c d : Config Op Reply ι (Shared ι) Local) (opening : h.Opening c)
    (run : Reach h.system (fun _ => True) c d) (i : ι) (l : Local) (rests : d.prog i = .ret l) :
    (l ≠ .crashed → AllAnswered (d.shared.turns i)) ∧
      (l = .crashed → ∃ last older, d.shared.turns i = last :: older ∧ sent last.calls = [] ∧ AllAnswered older) := by
  have stands := (sessions_alone opening run i).2 l rests
  cases l with
  | waiting vars | returned vars => exact ⟨fun _ => (goes_answered stands).1,nofun⟩
  | crashed =>
    obtain ⟨t,vars,msg,calls,goes,last,_,turns⟩ := stands
    exact ⟨fun not => absurd rfl not,fun _ => ⟨_,_,turns,turn_unsent last,(goes_answered goes).1⟩⟩

/-- The hits that are recorded of a session are the requests that the rate limiter turned away in it: one hit for each,
    for the user that the token was resolved to and the rule that was over its limit. -/
theorem hits_are_rejections (h : Host ι) (c d : Config Op Reply ι (Shared ι) Local) (opening : h.Opening c)
    (run : Reach h.system (fun _ => True) c d) (i : ι) (vars : Session)
    (rests : d.prog i = .ret (.waiting vars) ∨ d.prog i = .ret (.returned vars)) :
    AllTold h.codec (d.shared.turns i) ∧
      ((d.shared.turns i).flatMap (fun turn => hits turn.calls)).length = throttledTurns (d.shared.turns i) := by
  rcases rests with rests | rests
  · exact goes_told ((sessions_alone opening run i).2 _ rests)
  · exact goes_told ((sessions_alone opening run i).2 _ rests)

end Results

/-- A session whose response comes in two pieces. -/
theorem sessions_answer_chat : ∃ vars, (chatted false [([],false),([7],true)]).1 = .returned vars ∧
    AllAnswered ((chatted false [([],false),([7],true)]).2.turns ()) := by
  obtain ⟨prog,run,over_⟩ := chatted_reach false [([],false),([7],true)]
  obtain ⟨vars,ended⟩ : ∃ vars, (chatted false [([],false),([7],true)]).1 = .returned vars := ⟨_,rfl⟩
  refine ⟨vars,ended,(sessions_answer solo soloOpening _ soloOpening_opening run () _ over_).1 ?_⟩
  rw [ended]
  exact nofun

/-- The rate limiter has the user over a limit. -/
def throttling : (op : Op) → Reply op
  | .checkLimit _ => .ok [some ⟨"rpm",true,10,10,60⟩]
  | op => admitting op

/-- A request for which the rate limiter is to blame. -/
def turnedAway : Local × Shared Unit := play solo ((chat false []).take 2) throttling () 3 (.waiting .initial,soloOpening.shared)

/-- One request is turned away, and there is one hit. -/
theorem hits_are_rejections_once : ∃ vars, turnedAway.1 = .returned vars ∧ throttledTurns (turnedAway.2.turns ()) = 1 ∧
    ((turnedAway.2.turns ()).flatMap (fun turn => hits turn.calls)).length = 1 := by
  obtain ⟨prog,run,over_⟩ := play_reach solo ((chat false []).take 2) throttling () 3 (.refl (c := soloOpening) trivial) rfl
  obtain ⟨vars,ended⟩ : ∃ vars, turnedAway.1 = .returned vars := ⟨_,rfl⟩
  have one : throttledTurns (turnedAway.2.turns ()) = 1 := by decide +kernel
  have told := hits_are_rejections solo soloOpening _ soloOpening_opening run () vars (.inr (over_.trans (by rw [← ended]; rfl)))
  exact ⟨vars,ended,one,told.2.trans one⟩

end Arks.Replies
