import Arks.RateSessions

/-!
What a namespace has to do with the gateway: the keys of its counters, its quotas,
and the sessions of its tokens. A session of the namespace reads and writes nothing
else, a session of another namespace none of it, and a quota pass treats one quota
after the other.
-/
namespace Arks.Tenants
open Programs Programs.Prog Api Counters Effects Services Gateway Sessions Replicas
open RateSessions (Made)
open RateSessions.Target (made_known)

variable {ι : Type} (D : Deployment ι) (N : KubeName)

/-! ### Keys -/

/-- The keys of the counters of namespace `N`. -/
inductive Mine : String → Prop
  | rate {qos : UserQos} {name : String} {rule : LimitRuleConfig} {start : Int} : PlainQos qos → qos.namespace_ = N.val →
      D.limiter.config.getRule name = some rule → Mine (rateKey D.limiter.keyPrefix qos name start)
  | quota (name : KubeName) (type : String) : Mine (quotaKey D.quotas.keyPrefix N name type)

variable {D N}

private theorem mine_rate_iff (made : Made D.limiter) {qos : UserQos} (plain : PlainQos qos) {name : String}
    {rule : LimitRuleConfig}
    (known : D.limiter.config.getRule name = some rule) (start : Int) :
    Mine D N (rateKey D.limiter.keyPrefix qos name start) ↔ qos.namespace_ = N.val := by
  constructor
  · intro mine
    generalize same : rateKey D.limiter.keyPrefix qos name start = key at mine
    cases mine with
    | rate plain' homed known' =>
      obtain ⟨dot,colon⟩ := known_rule_plain (made_known made known)
      obtain ⟨dot',colon'⟩ := known_rule_plain (made_known made known')
      exact (rateKey_inj plain plain' dot dot' colon colon' same).1.trans homed
    | quota name' type =>
      have digit := rateKey_digit D.limiter.keyPrefix qos name start
      rw [same] at digit
      exact absurd digit (quotaKey_digit _ _ _ _)
  · intro homed
    exact .rate plain homed known

theorem mine_quota_iff (ns name : KubeName) (type : String) :
    Mine D N (quotaKey D.quotas.keyPrefix ns name type) ↔ ns = N := by
  constructor
  · intro mine
    generalize same : quotaKey D.quotas.keyPrefix ns name type = key at mine
    cases mine with
    | rate plain homed known =>
      exact absurd (by rw [same]; exact rateKey_digit _ _ _ _) (quotaKey_digit D.quotas.keyPrefix ns name type)
    | quota name' type' =>
      exact KubeName.ext (quotaKey_inj ns.lacks_equals N.lacks_equals name.lacks_equals name'.lacks_equals same).1
  · rintro rfl
    exact .quota name type

/-! ### Sessions -/

/-- The namespace of the token, which is that of the first object with this token. -/
def ownerOf (tokens : List ArksToken) (token : String) : Option KubeName :=
  (tokens.find? (fun obj => obj.token = token)).map ArksToken.namespace_

variable (D N)

/-- What a session issues: on counters and quotas of `N` if it belongs to `N`, on others
    if it does not, and on its own entries in the maps of the process. -/
def Touches (own : Prop) (requestID : String) : Op → Prop
  | .now _ | .random _ | .listTokens _ | .listEndpoints _ | .record _ => True
  | .get key | .ttl key | .incrBy key _ | .expire key _ => Mine D N key ↔ own
  | .getQuota ns _ => ns = N.val ↔ own
  | .loadTiming id | .storeTiming id _ | .deleteTiming id | .writeBuffer id _ | .deleteBuffer id => id = requestID
  | .set _ _ | .listQuotas | .updateQuotaStatus _ => False

/-- The replies of an API server with these tokens. -/
def Configured (tokens : List ArksToken) : (op : Op) → Reply op → Prop
  | .listTokens token,r => ∀ objs, r = .ok objs → objs = tokens.filter (fun obj => obj.token = token)
  | .getQuota ns _,r => ∀ q, r = .ok q → q.namespace_.val = ns
  | _,_ => True

/-- The qos belongs to `N` if the session does. -/
structure Owned (own : Prop) (qos : UserQos) : Prop where
  plain : PlainQos qos
  home : qos.namespace_ = N.val ↔ own

/-- A session at rest: its token, and then its qos, belongs to `N` if the session does. -/
def Stands (own : Prop) (tokens : List ArksToken) : Local → Prop
  | .session .opening vars _ => vars.qos = none
  | .session .requested vars _ => vars.qos = none ∧ (ownerOf tokens vars.token = some N ↔ own)
  | .session .over _ _ => True
  | .session _ vars _ => ∀ qos, vars.qos = some qos → Owned N own qos
  | .crashed => True
  | .replica => False

variable {D N} {own : Prop} {tokens : List ArksToken} {requestID : String}

theorem rateIssues (made : Made D.limiter) {qos : UserQos} (owned : Owned N own qos) :
    RateIssues D (Touches D N own requestID) qos where
  record _ := trivial
  random _ := trivial
  check _ _ := trivial
  limit _ _ := trivial
  rate name rule start known := by
    have mine := (mine_rate_iff (N := N) made owned.plain known start).trans owned.home
    exact ⟨mine,mine,fun _ => mine,fun _ => mine⟩

theorem quotaIssues {qos : UserQos} (owned : Owned N own qos) :
    QuotaIssues D (Configured tokens) (Touches D N own requestID) qos where
  getQuota := owned.home
  usage obj read type := by
    have home : obj.namespace_ = N ↔ own := by
      rw [← owned.home,← read obj rfl]
      exact ⟨fun same => by rw [same],fun same => KubeName.ext same⟩
    have mine := (mine_quota_iff (D := D) obj.namespace_ obj.name type).trans home
    exact ⟨mine,fun _ => mine⟩

/-- The qos of the first object with the session's token. -/
theorem owned_of_token {token model : String} {obj : ArksToken} {others : List ArksToken} {qos : UserQos} {ep : ArksEndpoint}
    (owner : ownerOf tokens token = some N ↔ own) (listed : obj :: others = tokens.filter (fun obj => obj.token = token))
    (named : qosOf obj model = some qos) (served : ep.name.val = model) : Owned N own qos := by
  have found : tokens.find? (fun obj => obj.token = token) = some obj := by
    rw [← List.head?_filter,← listed]
    rfl
  have home := qosOf_namespace named
  have same := (qosOf_entry named).1
  obtain ⟨entry,_,rfl⟩ := Option.map_eq_some_iff.mp named
  refine ⟨⟨obj.namespace_.lacks_equals,obj.name.lacks_equals,?_⟩,?_⟩
  · rw [same,← served]
    exact ep.name.lacks_colon
  · rw [← owner,ownerOf,found,Option.map_some,Option.some.injEq]
    exact ⟨fun vals => KubeName.ext vals,fun names => by rw [← names]⟩

/-- The qos comes from the first object with the token. -/
theorem getQosByToken_touches (token model : String) :
    Within (Configured tokens) (Touches D N own requestID) (fun r => ∀ qos, r = .ok (some qos) →
      ∃ obj others, obj :: others = tokens.filter (fun obj => obj.token = token) ∧ qosOf obj model = some qos)
      (getQosByToken token model) := by
  simp only [getQosByToken,issue_bind,within_call]
  refine ⟨trivial,fun listed possible => ?_⟩
  rcases listed with e | _ | ⟨obj,others⟩
  · simp
  · simp
  · cases named : qosOf obj model with
    | none => simp [named]
    | some qos =>
      simp only [named,pure_eq,within_ret,Except.ok.injEq,Option.some.injEq]
      rintro _ rfl
      exact ⟨obj,others,possible _ rfl,named⟩

/-- Every listed model is the name of an endpoint. -/
theorem getModelList_touches (ns : String) :
    Within (Configured tokens) (Touches D N own requestID) (fun r => ∀ models, r = .ok models →
      ∀ model ∈ models, ∃ ep : ArksEndpoint, ep.name.val = model) (getModelList ns) := by
  simp only [getModelList,issue_bind,within_call]
  refine ⟨trivial,fun listed _ => ?_⟩
  rcases listed with e | eps
  · simp
  · simp only [pure_eq,within_ret,Except.ok.injEq]
    rintro _ rfl model member
    obtain ⟨ep,_,rfl⟩ := List.mem_map.mp member
    exact ⟨ep,rfl⟩

private theorem handleRequestBody_touches (made : Made D.limiter) {token : String} (owner : ownerOf tokens token = some N ↔ own)
    (body : Bytes) :
    Within (Configured tokens) (Touches D N own requestID)
      (fun result => isImmediate result.resp = false → ∀ qos, result.qos = some qos → Owned N own qos)
      (handleRequestBody D.server body token) := by
  unfold handleRequestBody
  cases D.server.codec.unmarshalRequest body with
  | error e => simp
  | ok reqBody =>
    dsimp only
    split
    · simp
    refine within_bind (getQosByToken_touches token reqBody.model) (fun found resolved => ?_)
    rcases found with e | _ | qos
    · simp
    · simp
    obtain ⟨obj,others,listed,named⟩ := resolved qos rfl
    refine within_bind (getModelList_touches qos.namespace_) (fun models served => ?_)
    rcases models with e | models
    · simp
    dsimp only
    split
    · simp
    rename_i known
    obtain ⟨ep,named'⟩ := served models rfl _ (not_not.mp known)
    have owned := owned_of_token owner listed named named'
    split
    · simp
    · refine within_mono (admitRequest_within (rateIssues made owned) (quotaIssues owned) _ _) (fun _ ok => ok) ?_
      rintro result kept _ qos' same
      rw [kept] at same
      cases same
      exact owned

theorem chargeUsage_touches (made : Made D.limiter) {qos : Option UserQos} (owned : ∀ q, qos = some q → Owned N own q)
    (usage : CompletionUsage) (complete : Bool) :
    Within (Configured tokens) (Touches D N own requestID) (fun _ => True) (chargeUsage D.server qos usage complete) := by
  cases qos with
  | none =>
    unfold chargeUsage
    split <;> trivial
  | some qos => exact chargeUsage_within (rateIssues made (owned qos rfl)) (quotaIssues (owned qos rfl)) usage complete

theorem recordRequest_touches (vars : Session) (statusCode : Int) :
    Within (Configured tokens) (Touches D N own requestID) (fun _ => True) (recordRequest D.server vars statusCode) := by
  unfold recordRequest
  cases vars.qos <;> simp [Touches]

private theorem handleResponseBody_touches (made : Made D.limiter) {qos : Option UserQos}
    (owned : ∀ q, qos = some q → Owned N own q)
    (body : Bytes) (endOfStream : Bool) (model : String) (stream hasCompleted : Bool) :
    Within (Configured tokens) (Touches D N own requestID) (fun _ => True)
      (handleResponseBody D.server requestID body endOfStream qos model stream hasCompleted) := by
  simp only [handleResponseBody,server_loadTiming,issue_bind,within_call]
  refine ⟨rfl,fun pt _ => ?_⟩
  have timed : Within (Configured tokens) (Touches D N own requestID) (fun _ => True) (startTiming D.server pt) := by
    unfold startTiming
    split
    · trivial
    · exact ⟨trivial,fun _ _ => trivial⟩
  have handled : Within (Configured tokens) (Touches D N own requestID) (fun _ => True)
      (handleBody D.server requestID body endOfStream qos stream hasCompleted) := by
    unfold handleBody
    split
    · unfold handleStreamBody
      dsimp only
      split
      · trivial
      · exact chargeUsage_touches made owned _ _
    · simp only [handleWholeBody,server_writeBuffer,issue_bind,within_call]
      refine ⟨rfl,fun whole _ => ?_⟩
      split
      · trivial
      simp only [server_deleteBuffer,issue_bind,within_call]
      refine ⟨rfl,fun _ _ => ?_⟩
      split
      · trivial
      · split
        · trivial
        · exact chargeUsage_touches made owned _ _
  refine within_bind timed (fun start _ => within_bind handled (fun result _ => ?_))
  cases result with
  | none => trivial
  | some result =>
    simp only [finishResponse,server_now,issue_bind,within_call]
    refine ⟨trivial,fun now _ => ?_⟩
    split
    · cases qos <;> simp [Touches]
    · simp [Touches]

theorem responseHeaders_touches (vars : Session) (headers : List HeaderValue) :
    Within (Configured tokens) (Touches D N own requestID) (fun r => ∀ resp vars', r = some (resp,vars') → vars'.qos = vars.qos)
      (processRequest D.server requestID vars (.responseHeaders headers)) := by
  simp only [processRequest]
  split
  · refine within_bind (recordRequest_touches _ _) (fun recorded _ => ?_)
    cases recorded with
    | none => simp
    | some _ =>
      rintro resp vars' same
      cases same
      rfl
  · rintro resp vars' same
    cases same
    rfl

private theorem responseBody_touches (made : Made D.limiter) {vars : Session} (owned : ∀ q, vars.qos = some q → Owned N own q)
    (body : Bytes) (endOfStream : Bool) :
    Within (Configured tokens) (Touches D N own requestID) (fun r => ∀ resp vars', r = some (resp,vars') → vars'.qos = vars.qos)
      (processRequest D.server requestID vars (.responseBody body endOfStream)) := by
  have answered : Within (Configured tokens) (Touches D N own requestID) (fun _ => True)
      (answerBody D.server requestID vars body endOfStream) := by
    unfold answerBody
    split
    · trivial
    · exact handleResponseBody_touches made owned _ _ _ _ _
  refine within_bind answered (fun handled _ => ?_)
  rcases handled with _ | ⟨resp,completed⟩
  · simp
  refine within_bind (recordRequest_touches _ _) (fun recorded _ => ?_)
  cases recorded with
  | none => simp
  | some _ =>
    rintro resp vars' same
    cases same
    rfl

/-- A message is handled inside the session's own namespace. -/
theorem handle_touches (made : Made D.limiter) {i : ι} {phase : Phase} {vars : Session} {sent : List ProcessingResponse}
    {msg : ProcessingRequest} (stands : Stands N own tokens (.session phase vars sent)) (sendable : accepts phase msg = true)
    (owner : ∀ headers, msg = .requestHeaders headers → (ownerOf tokens (tokenOf headers) = some N ↔ own)) :
    Within (Configured tokens) (Touches D N own (D.requestID i)) (Stands N own tokens) (D.handle i vars sent msg) := by
  cases phase <;> cases msg <;> simp only [accepts,Bool.false_eq_true] at sendable
  case opening.requestHeaders headers =>
    simp only [Deployment.handle,processRequest,server_now,issue_bind,call_bind,within_call]
    refine ⟨trivial,fun now _ => ?_⟩
    have owner' := owner headers rfl
    simp only [pure_eq,ret_bind,within_ret,nextPhase]
    split
    · trivial
    · refine ⟨stands,?_⟩
      unfold handleRequestHeaders
      dsimp only
      split <;> exact owner'
  case requested.requestBody body =>
    refine within_bind (Q := fun r => ∃ resp vars', r = some (resp,vars') ∧
      (isImmediate resp = false → ∀ qos, vars'.qos = some qos → Owned N own qos)) ?_ ?_
    · exact within_bind (handleRequestBody_touches made stands.2 body) (fun result owned => ⟨_,_,rfl,owned⟩)
    · rintro _ ⟨resp,vars',rfl,owned⟩
      cases immediate : isImmediate resp with
      | true => simp [nextPhase,immediate,Stands]
      | false => simpa [nextPhase,immediate,Stands] using owned immediate
  case requested.responseHeaders headers =>
    refine within_bind (responseHeaders_touches vars headers) (fun r same => ?_)
    rcases r with _ | ⟨resp,vars'⟩
    · trivial
    · cases immediate : isImmediate resp <;> simp [nextPhase,immediate,Stands,same resp vars' rfl,stands.1]
  case forwarded.responseHeaders headers =>
    refine within_bind (responseHeaders_touches vars headers) (fun r same => ?_)
    rcases r with _ | ⟨resp,vars'⟩
    · trivial
    · cases immediate : isImmediate resp with
      | true => simp [nextPhase,immediate,Stands]
      | false => simpa [nextPhase,immediate,Stands,same resp vars' rfl] using stands
  case answering.responseBody body endOfStream =>
    refine within_bind (responseBody_touches made stands body endOfStream) (fun r same => ?_)
    rcases r with _ | ⟨resp,vars'⟩
    · trivial
    · cases immediate : isImmediate resp with
      | true => simp [nextPhase,immediate,Stands]
      | false =>
        cases endOfStream with
        | true => simp [nextPhase,immediate,Stands]
        | false => simpa [nextPhase,immediate,Stands,same resp vars' rfl] using stands

/-! ### Passes -/

variable (D N)

/-- What a pass issues for a quota of `N`, or for another one. -/
def PassTouches (own : Bool) : Op → Prop
  | .now .elsewhere => True
  | .get key | .set key _ => Mine D N key ↔ own = true
  | .updateQuotaStatus q => q.namespace_ = N ↔ own = true
  | _ => False

/-- The quotas of `N`. -/
def part (quotas : List ArksQuota) : List ArksQuota := quotas.filter (fun q => q.namespace_ = N)

def partReply : Except String (List ArksQuota) → Except String (List ArksQuota)
  | .error e => .error e
  | .ok quotas => .ok (part N quotas)

/-- The second program is what the first one does for the quotas of `N`. The flag tells
    whether the quota it is at belongs to `N`; a pass comes to a quota with a read. -/
inductive Part : Bool → Action Local → Action Local → Prop
  | ret {own : Bool} : Part own (.ret .replica) (.ret .replica)
  | list {own : Bool} {next next' : Except String (List ArksQuota) → Action Local} :
      (∀ r own, Part own (next r) (next' (partReply N r))) → Part own (.call .listQuotas next) (.call .listQuotas next')
  | mine {own : Bool} {op : Op} {next next' : Reply op → Action Local} : PassTouches D N true op →
      (own = true ∨ ∃ key, op = .get key) → (∀ r, Part true (next r) (next' r)) → Part own (.call op next) (.call op next')
  | other {own : Bool} {op : Op} {next : Reply op → Action Local} {q : Action Local} : PassTouches D N false op →
      (own = false ∨ ∃ key, op = .get key) → (∀ r, Part false (next r) q) → Part own (.call op next) q

variable {D N}

/-- The rest of the work on a quota of `N`. -/
theorem part_mine {α : Type} {p : Action α} {k k' : α → Action Local} (touches : Issues (PassTouches D N true)
    (fun _ => True) p) (rest : ∀ v own, Part D N own (k v) (k' v)) : Part D N true (p >>= k) (p >>= k') := by
  induction p with
  | ret v => exact rest v true
  | call op next ih => exact .mine touches.1 (.inl rfl) (fun r => ih r (touches.2 r trivial))

private theorem part_other {α : Type} {p : Action α} {k : α → Action Local} {q : Action Local}
    (touches : Issues (PassTouches D N false) (fun _ => True) p) (rest : ∀ v own, Part D N own (k v) q) :
    Part D N false (p >>= k) q := by
  induction p with
  | ret v => exact rest v false
  | call op next ih => exact .other touches.1 (.inl rfl) (fun r => ih r (touches.2 r trivial))

theorem syncQuota_touches (q : ArksQuota) {own : Bool} (home : q.namespace_ = N ↔ own = true) :
    Issues (PassTouches D N own) (fun _ => True) (D.provider.syncQuota q) :=
  syncQuota_within D.quotas trivial (fun type => ⟨(mine_quota_iff _ _ type).trans home,fun _ =>
    (mine_quota_iff _ _ type).trans home⟩)
    (fun _ => home)

/-- The work on a quota is nothing, or begins with a read of one of its keys. -/
theorem syncQuota_begins (q : ArksQuota) : D.provider.syncQuota q = .ret () ∨
    ∃ key next, D.provider.syncQuota q = .call (.get key) next := by
  cases items : q.quotas with
  | nil =>
    left
    simp only [ArksProvider.syncQuota,quotaConfigOf,items,qosToQuotaRequests,List.map_nil]
    rfl
  | cons item rest =>
    right
    simp only [ArksProvider.syncQuota,quotaConfigOf,items,qosToQuotaRequests,List.map_cons]
    exact ⟨_,_,rfl⟩

private theorem part_syncQuota_mine {q : ArksQuota} (home : q.namespace_ = N) {k k' : Unit → Action Local}
    (rest : ∀ own, Part D N own (k ()) (k' ())) (own : Bool) :
    Part D N own (D.provider.syncQuota q >>= k) (D.provider.syncQuota q >>= k') := by
  have touches : Issues (PassTouches D N true) (fun _ => True) (D.provider.syncQuota q) :=
    syncQuota_touches q (by simp [home])
  rcases syncQuota_begins (D := D) q with idle | ⟨key,next,begins⟩
  · rw [idle]
    exact rest own
  · rw [begins] at touches ⊢
    exact .mine touches.1 (.inr ⟨key,rfl⟩) (fun r => part_mine (touches.2 r trivial) (fun _ => rest))

private theorem part_syncQuota_other {q : ArksQuota} (away : q.namespace_ ≠ N) {k : Unit → Action Local} {p : Action Local}
    (rest : ∀ own, Part D N own (k ()) p) (own : Bool) : Part D N own (D.provider.syncQuota q >>= k) p := by
  have touches : Issues (PassTouches D N false) (fun _ => True) (D.provider.syncQuota q) :=
    syncQuota_touches q (by simp [away])
  rcases syncQuota_begins (D := D) q with idle | ⟨key,next,begins⟩
  · rw [idle]
    exact rest own
  · rw [begins] at touches ⊢
    exact .other touches.1 (.inr ⟨key,rfl⟩) (fun r => part_other (touches.2 r trivial) (fun _ => rest))

private theorem part_syncQuotas (quotas : List ArksQuota) {k : Unit → Action Local} (rest : ∀ own, Part D N own (k ()) (k ()))
    (own : Bool) :
    Part D N own (D.provider.syncQuotas quotas >>= k) (D.provider.syncQuotas (part N quotas) >>= k) := by
  induction quotas generalizing own with
  | nil => exact rest own
  | cons q quotas ih =>
    simp only [ArksProvider.syncQuotas,bind_assoc]
    by_cases home : q.namespace_ = N
    · have kept : part N (q :: quotas) = q :: part N quotas := by simp [part,home]
      rw [kept]
      simp only [ArksProvider.syncQuotas,bind_assoc]
      exact part_syncQuota_mine home ih own
    · have dropped : part N (q :: quotas) = part N quotas := by simp [part,home]
      rw [dropped]
      exact part_syncQuota_other home ih own

/-- A pass, as `N` sees it, is a pass over the quotas of `N`. -/
theorem part_pass (own : Bool) : Part D N own D.pass D.pass := by
  simp only [Deployment.pass,ArksProvider.syncQuotaUsage,issue_bind,call_bind]
  refine .list (fun r own => ?_)
  cases r with
  | error e => exact .ret
  | ok quotas =>
    simp only [partReply,pure_eq,ret_bind,bind_assoc]
    exact part_syncQuotas quotas (fun _ => .ret) own

end Arks.Tenants
