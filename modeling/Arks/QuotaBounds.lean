import Arks.Admission
import Arks.QuotaRuns

/-!
How far a quota is overshot, and what happens then. The usage in Redis only grows,
by what is charged, so the quota check and the charge of a session are check first
and count later on one counter that never starts anew. A check that finds a usage
above its limit ends the session with the quota's error.
-/
namespace Arks.QuotaBounds
open Programs Programs.Prog Api Counters Effects Services Gateway Sessions
open Replicas QuotaRuns Admission Schedules

/-- A quota with limits that stay as they are, and one of them. -/
structure Limited where
  namespace_ : KubeName
  name : KubeName
  items : List QuotaItem
  item : QuotaItem
  listed : item ∈ items
  distinct : (items.map QuotaItem.type).Nodup

/-- What `GetQuotaConfig` gives for the quota. -/
def Limited.config (t : Limited) : QuotaConfig := ⟨t.name,t.namespace_,t.items⟩

/-- The request for this type. -/
def Limited.request (t : Limited) (countMap : String → Int) : QuotaRequest where
  identifier := [⟨"namespace",t.namespace_⟩,⟨"quotaname",t.name⟩,⟨"type",t.item.type⟩]
  limit := t.item.value
  request := countMap t.item.type

/-- The qos refers to the quota. -/
structure Limited.Uses (t : Limited) (qos : UserQos) : Prop where
  namespace_ : qos.namespace_ = t.namespace_.val
  quota : qos.quotaName = t.name.val

variable {ι : Type} (D : Deployment ι) (t : Limited)

/-- The key of the usage of this type. -/
def usageKey : String := quotaKey D.quotas.keyPrefix t.namespace_ t.name t.item.type

/-! ### The protocol of a session -/

/-- A check reads the usage once, and admits or turns away at once. -/
def looked (v : Int) : Stage → Stage
  | .idle => if v ≤ t.item.value then .charging 0 else .read 0 v
  | stage => stage

def counted : Stage → Stage
  | .charging _ => .charged
  | stage => stage

def observe (stage : Stage) : (op : Op) → Reply op → Stage
  | .get key,r => if key = usageKey D t then looked t (currentValue r) stage else stage
  | .incrBy key _,_ => if key = usageKey D t then counted stage else stage
  | _,_ => stage

/-- Admitted, whether or not it has charged since. -/
def Paying (stage : Stage) : Prop := stage = .charging 0 ∨ stage = .charged

def allowed (stage : Stage) : Op → Prop
  | .incrBy key _ => key = usageKey D t → Paying stage
  | _ => True

def protocol : Protocol Op Reply Stage := ⟨allowed D t,observe D t⟩

/-- The replies while Redis does not fail and the limits stay. -/
def Answers : (op : Op) → Reply op → Prop
  | .getQuota ns name,r => ∀ obj, r = .ok obj → obj.namespace_.val = ns ∧ obj.name.val = name ∧
      (obj.namespace_ = t.namespace_ → obj.name = t.name → obj.quotas = t.items)
  | .get _,r => ∀ message, r ≠ .error (.failed message)
  | _,_ => True

/-- The error of a request that is over its quota. -/
def Rejects (resp : ProcessingResponse) : Prop :=
  ∃ usage, resp = headerError "x-error-quota" "true" 429 (D.codec.quotaJSON usage)

/-- Whoever found the usage above the limit was turned away. -/
def TurnedAway (stage : Stage) (last : Option ProcessingResponse) : Prop :=
  ∀ w v, stage = .read w v → ∃ resp, last = some resp ∧ Rejects D resp

/-- Where a session stands, by its phase. -/
def Stands : Phase → Option UserQos → Stage → Prop
  | .opening,q,stage | .requested,q,stage => q = none ∧ stage = .idle
  | .forwarded,q,stage | .answering,q,stage =>
      (∀ w v, stage ≠ .read w v) ∧ ∀ qos, q = some qos → t.Uses qos → Paying stage
  | .over,_,stage => ∀ w v, stage ≠ .read w v

variable {D t}

theorem unseen_get {key : String} (other : key ≠ usageKey D t) : (protocol D t).Unseen (.get key) :=
  fun _ => ⟨trivial,fun _ => if_neg other⟩

theorem unseen_incrBy {key : String} (other : key ≠ usageKey D t) (n : Int) : (protocol D t).Unseen (.incrBy key n) :=
  fun _ => ⟨fun same => absurd same other,fun _ => if_neg other⟩

theorem unseen_plain {op : Op} (plain : Plain op) : (protocol D t).Unseen op := by
  intro stage
  cases op <;> first | exact plain.elim | exact ⟨trivial,fun _ => rfl⟩

theorem unseen_getQuota (ns name : String) : (protocol D t).Unseen (.getQuota ns name) := fun _ => ⟨trivial,fun _ => rfl⟩

theorem unseen_rate (qos : UserQos) : RateIssues D (protocol D t).Unseen qos := by
  have apart : ∀ ruleName start, rateKey D.limiter.keyPrefix qos ruleName start ≠ usageKey D t := by
    intro ruleName start same
    have digit := rateKey_digit D.limiter.keyPrefix qos ruleName start
    rw [same] at digit
    exact quotaKey_digit _ _ _ _ digit
  exact ⟨fun _ => unseen_plain trivial,fun _ _ => ⟨trivial,fun _ => rfl⟩,fun _ _ _ => ⟨trivial,fun _ => rfl⟩,
    fun _ _ _ => ⟨trivial,fun _ => rfl⟩,fun ruleName _ start _ => ⟨unseen_get (apart _ _),fun _ => ⟨trivial,fun _ => rfl⟩,
      unseen_incrBy (apart _ _),fun _ _ => ⟨trivial,fun _ => rfl⟩⟩⟩

variable {qos : UserQos} {stage : Stage}

/-- The usage of another quota. -/
theorem unseen_other (other : ¬ t.Uses qos) : QuotaIssues D (Answers t) (protocol D t).Unseen qos := by
  refine ⟨unseen_getQuota _ _,fun obj possible type => ?_⟩
  obtain ⟨ns,name,_⟩ := possible obj rfl
  have apart : quotaKey D.quotas.keyPrefix obj.namespace_ obj.name type ≠ usageKey D t := by
    intro same
    obtain ⟨namespaces,names,_⟩ := quotaKey_inj obj.namespace_.lacks_equals t.namespace_.lacks_equals
      obj.name.lacks_equals t.name.lacks_equals same
    exact other ⟨ns.symm.trans namespaces,name.symm.trans names⟩
  exact ⟨unseen_get apart,unseen_incrBy apart⟩

/-! ### The requests for the quota -/

/-- Requests for other types of the quota. -/
def Aside (D : Deployment ι) (t : Limited) (requests : List QuotaRequest) : Prop :=
  ∀ req ∈ requests, generateQuotaKey D.quotas.keyPrefix req ≠ usageKey D t

/-- The request for this type stands alone among requests for others. -/
theorem requests_split (D : Deployment ι) (t : Limited) (countMap : String → Int) :
    ∃ before after, qosToQuotaRequests t.config countMap = before ++ t.request countMap :: after ∧
      Aside D t before ∧ Aside D t after := by
  obtain ⟨before,after,split⟩ := List.append_of_mem t.listed
  have distinct := t.distinct
  rw [split,List.map_append,List.map_cons,List.nodup_append] at distinct
  obtain ⟨_,tail,apart⟩ := distinct
  have aside : ∀ items : List QuotaItem, (∀ l ∈ items, l.type ≠ t.item.type) →
      Aside D t (qosToQuotaRequests ⟨t.name,t.namespace_,items⟩ countMap) := by
    intro items others req member
    obtain ⟨l,listed,rfl⟩ := List.mem_map.mp member
    intro same
    exact others l listed (quotaKey_inj t.namespace_.lacks_equals t.namespace_.lacks_equals
      t.name.lacks_equals t.name.lacks_equals same).2.2
  have first : ∀ l ∈ before, l.type ≠ t.item.type :=
    fun l member => apart _ (List.mem_map_of_mem member) _ List.mem_cons_self
  have last : ∀ l ∈ after, l.type ≠ t.item.type :=
    fun l member same => (List.nodup_cons.mp tail).1 (same ▸ List.mem_map_of_mem member)
  refine ⟨_,_,by simp only [qosToQuotaRequests,Limited.config,split,List.map_append,List.map_cons]; rfl,
    aside before first,aside after last⟩

/-- The quota that `GetQuotaConfig` finds is the fixed one. -/
theorem config_eq (uses : t.Uses qos) {obj : ArksQuota}
    (possible : Answers t (.getQuota qos.namespace_ qos.quotaName) (.ok obj)) : quotaConfigOf obj = t.config := by
  obtain ⟨ns,name,limits⟩ := possible obj rfl
  have namespaces : obj.namespace_ = t.namespace_ := KubeName.ext (ns.trans uses.namespace_)
  have names : obj.name = t.name := KubeName.ext (name.trans uses.quota)
  rw [quotaConfigOf,limits namespaces names,namespaces,names]
  rfl

theorem uses_named (uses : t.Uses qos) : qos.quotaName ≠ "" := by
  rw [uses.quota]
  exact t.name.nonempty

/-! ### The check -/

private theorem getAll_append (s : RedisQuotaService) (a b : List QuotaRequest) :
    s.getAll (a ++ b) = s.getAll a >>= fun x => s.getAll b >>= fun y => pure (x ++ y) := by
  induction a with
  | nil => exact (bind_ret (s.getAll b)).symm
  | cons req a ih => simp [RedisQuotaService.getAll,ih]

theorem getAll_heard {requests : List QuotaRequest} (aside : Aside D t requests) :
    Within (Answers t) (protocol D t).Unseen (fun items => ∀ item ∈ items, ∀ message, item.2 ≠ .error (.failed message))
      (D.quotas.getAll requests) := by
  induction requests with
  | nil => simp [RedisQuotaService.getAll]
  | cons req requests ih =>
    simp only [RedisQuotaService.getAll,issue_bind,within_call]
    refine ⟨unseen_get (aside req (.head _)),fun getCmd heard => ?_⟩
    refine within_bind (ih (fun x member => aside x (.tail _ member))) (fun items rest => ?_)
    simp only [pure_eq,within_ret,List.mem_cons]
    rintro item (rfl | member)
    · exact heard
    · exact rest item member

/-- `GetUsage` leaves the session admitted or turned away, and says so. -/
theorem follows_getUsage {before after : List QuotaRequest} (left : Aside D t before) (right : Aside D t after)
    (countMap : String → Int) :
    Follows (Answers t) (protocol D t) (fun b r => ∃ v usage, b = looked t v .idle ∧ r = .ok usage ∧
        ∃ one ∈ usage, QuotaResult.overLimit one = decide (t.item.value < v))
      (D.quotas.getUsage (before ++ t.request countMap :: after)) .idle := by
  unfold RedisQuotaService.getUsage
  rw [getAll_append]
  simp only [bind_assoc]
  refine follows_bind (follows_unseen (getAll_heard left)) ?_
  rintro _ first ⟨rfl,heard⟩
  simp only [RedisQuotaService.getAll,issue_bind,call_bind,follows_call]
  refine ⟨trivial,fun getCmd possible => ?_⟩
  have read : (protocol D t).observe .idle (.get (generateQuotaKey D.quotas.keyPrefix (t.request countMap))) getCmd =
      looked t (currentValue getCmd) .idle := if_pos rfl
  rw [read]
  simp only [bind_assoc]
  refine follows_bind (follows_unseen (getAll_heard right)) ?_
  rintro _ rest ⟨rfl,heard'⟩
  simp only [pure_eq,ret_bind]
  have all : ∀ item ∈ first ++ (t.request countMap,getCmd) :: rest, ∀ message, item.2 ≠ .error (.failed message) := by
    simp only [List.mem_append,List.mem_cons]
    rintro item (member | rfl | member)
    · exact heard item member
    · exact possible
    · exact heard' item member
  split
  · rename_i message failed
    exact absurd failed (usageErr_ok all message)
  · refine ⟨_,_,rfl,usageResults_ok all,quotaResult (t.request countMap) (currentValue getCmd),?_,rfl⟩
    exact List.mem_map.mpr ⟨(t.request countMap,getCmd),by simp,rfl⟩

/-- A session is admitted at most at its limit, and turned away above it. -/
theorem follows_checkQuota (uses : t.Uses qos) :
    Follows (Answers t) (protocol D t) (fun b o => (o = none → b = .charging 0) ∧
      ∀ resp, o = some resp → isImmediate resp = true ∧ TurnedAway D b (some resp)) (checkQuota D.server qos) .idle := by
  unfold checkQuota checkTokenQuotaLimit
  rw [if_neg (uses_named uses)]
  refine follows_bind (follows_unseen (getQuotaConfig_within (unseen_getQuota _ _))) ?_
  rintro _ conf ⟨rfl,found⟩
  rcases conf with e | conf
  · simp [TurnedAway]
  obtain ⟨obj,possible,rfl⟩ := found conf rfl
  obtain ⟨before,after,split,left,right⟩ := requests_split D t (fun _ => 0)
  dsimp only
  rw [config_eq uses possible,split]
  refine follows_bind (follows_getUsage left right _) ?_
  rintro _ _ ⟨v,usage,rfl,rfl,one,member,verdict⟩
  cases exceeds : usage.find? QuotaResult.overLimit with
  | none =>
    have under : QuotaResult.overLimit one = false := by simpa using List.find?_eq_none.mp exceeds one member
    rw [verdict] at under
    have low : v ≤ t.item.value := not_lt.mp (of_decide_eq_false under)
    simp [exceeds,looked,low]
  | some result =>
    simp only [exceeds,pure_eq,follows_ret]
    refine ⟨by simp,fun resp same => ?_⟩
    cases same
    exact ⟨headerError_immediate _ _ _ _,fun _ _ _ => ⟨_,rfl,result,rfl⟩⟩

/-! ### The charge -/

private theorem incrAll_append (s : RedisQuotaService) (a b : List QuotaRequest) :
    s.incrAll (a ++ b) = s.incrAll a >>= fun x => s.incrAll b >>= fun y => pure (x.or y) := by
  induction a with
  | nil => simp [RedisQuotaService.incrAll,bind_ret]
  | cons req a ih => simp [RedisQuotaService.incrAll,ih,Option.or_assoc]

theorem unseen_incrAll {requests : List QuotaRequest} (aside : Aside D t requests) :
    Within (Answers t) (protocol D t).Unseen (fun _ => True) (D.quotas.incrAll requests) := by
  induction requests with
  | nil => trivial
  | cons req requests ih =>
    simp only [RedisQuotaService.incrAll,issue_bind,within_call]
    refine ⟨unseen_incrBy (aside req (.head _)) _,fun _ _ => within_bind (ih ?_) (fun _ _ => trivial)⟩
    exact fun x member => aside x (.tail _ member)

private theorem paying_counted (paying : Paying stage) : counted stage = .charged := by
  rcases paying with rfl | rfl <;> rfl

private theorem follows_doTokenQuotaLimit (uses : t.Uses qos) (countMap : String → Int) (paying : Paying stage) :
    Follows (Answers t) (protocol D t) (fun b _ => Paying b) (doTokenQuotaLimit D.server qos countMap) stage := by
  unfold doTokenQuotaLimit
  rw [if_neg (uses_named uses)]
  refine follows_bind (follows_unseen (getQuotaConfig_within (unseen_getQuota _ _))) ?_
  rintro _ conf ⟨rfl,found⟩
  rcases conf with e | conf
  · exact paying
  obtain ⟨obj,possible,rfl⟩ := found conf rfl
  obtain ⟨before,after,split,left,right⟩ := requests_split D t countMap
  dsimp only
  rw [config_eq uses possible,split]
  change Follows _ _ _ (D.quotas.incrUsage (before ++ t.request countMap :: after)) _
  unfold RedisQuotaService.incrUsage
  rw [incrAll_append]
  simp only [bind_assoc]
  refine follows_bind (follows_unseen (unseen_incrAll left)) ?_
  rintro _ _ ⟨rfl,_⟩
  simp only [RedisQuotaService.incrAll,issue_bind,call_bind,follows_call]
  refine ⟨fun _ => paying,fun r _ => ?_⟩
  have charged : (protocol D t).observe _ (.incrBy (generateQuotaKey D.quotas.keyPrefix (t.request countMap))
      (t.request countMap).request) r = .charged := (if_pos rfl).trans (paying_counted paying)
  rw [charged]
  simp only [bind_assoc]
  refine follows_bind (follows_unseen (unseen_incrAll right)) ?_
  rintro _ _ ⟨rfl,_⟩
  exact .inr rfl

/-! ### The session as a whole -/

theorem admitted_follows (uses : t.Uses qos) (model : String) (stream : Bool) :
    Follows (Answers t) (protocol D t) (fun b result => result.qos = some qos ∧
      if isImmediate result.resp then TurnedAway D b (some result.resp) else Stands t .forwarded (some qos) b)
      (admitRequest D.server qos model stream) .idle := by
  unfold admitRequest
  refine follows_bind (follows_unseen (checkRateLimit_within (unseen_rate qos))) ?_
  rintro _ rate ⟨rfl,immediate⟩
  cases rate with
  | some resp => simp [immediate resp rfl,TurnedAway]
  | none =>
    refine follows_bind (follows_checkQuota uses) ?_
    rintro b quota ⟨admitted,turned⟩
    cases quota with
    | some resp =>
      obtain ⟨immediate,away⟩ := turned resp rfl
      exact ⟨rfl,by rw [if_pos immediate]; exact away⟩
    | none =>
      obtain rfl := admitted rfl
      refine follows_bind (follows_unseen (doLimits_within (unseen_rate qos) requestAmount)) ?_
      rintro _ limited ⟨rfl,_⟩
      cases limited with
      | error e => simp [TurnedAway]
      | ok _ => simp [isImmediate,Stands,Paying]

theorem charged_follows (uses : t.Uses qos) (paying : Paying stage) (usage : CompletionUsage) (complete : Bool) :
    Follows (Answers t) (protocol D t) (fun b _ => Paying b) (chargeUsage D.server (some qos) usage complete) stage := by
  unfold chargeUsage
  split
  · exact paying
  refine follows_bind (follows_unseen (doLimits_within (unseen_rate qos) _)) ?_
  rintro _ limited ⟨rfl,_⟩
  rcases limited with e | _
  · exact paying
  refine follows_bind (follows_doTokenQuotaLimit uses _ paying) ?_
  intro b charged reached
  cases charged <;> exact reached

private theorem paying_unread (paying : Paying stage) (w v : Int) : stage ≠ .read w v := by
  rintro rfl
  rcases paying with same | same <;> cases same

theorem session_rules (D : Deployment ι) (t : Limited) :
    SessionRules D (fun _ => True) (fun _ => True) (Answers t) (protocol D t) (Stands t) (TurnedAway D) where
  blind := fun a op plain => ⟨(unseen_plain plain a).1,fun r _ => (unseen_plain plain a).2 r⟩
  requested _ _ opening := opening
  answering := by
    rintro q stage (requested | forwarded)
    · obtain ⟨rfl,rfl⟩ := requested
      exact ⟨by simp,by simp⟩
    · exact forwarded
  ended := by
    intro phase q stage last stands w v read
    cases phase <;> first
      | cases stands.2.symm.trans read
      | exact absurd read (stands.1 w v)
      | exact absurd read (stands w v)
  admitted := by
    rintro _ _ token qos model stream ⟨_,rfl⟩ _
    by_cases uses : t.Uses qos
    · exact admitted_follows uses model stream
    · refine follows_mono (follows_unseen (admitRequest_within (unseen_rate qos) (unseen_other uses) model stream)) ?_
      rintro _ result ⟨rfl,owner⟩
      refine ⟨owner,?_⟩
      split
      · simp [TurnedAway]
      · exact ⟨by simp,fun qos' same uses' => absurd (Option.some.inj same ▸ uses') uses⟩
  charged := by
    intro q stage usage complete stands
    cases q with
    | none =>
      unfold chargeUsage
      split <;> exact stands
    | some qos =>
      by_cases uses : t.Uses qos
      · refine follows_mono (charged_follows uses (stands.2 qos rfl uses) usage complete) ?_
        intro b _ paying
        exact ⟨paying_unread paying,fun _ _ _ => paying⟩
      · refine follows_mono (follows_unseen (chargeUsage_within (unseen_rate qos) (unseen_other uses) usage complete)) ?_
        rintro _ _ ⟨rfl,_⟩
        exact stands

/-- Every program that a party takes up follows the protocol; a pass may read the usage as it likes. -/
theorem starts_follow {i : ι} {l : Local} {p : Action Local}
    (rests : Keeps (Stands t) (TurnedAway D) (fun _ => True) stage l) (begins : Starts D i l p) :
    Follows (Answers t) (protocol D t) (Keeps (Stands t) (TurnedAway D) (fun _ => True)) p stage := by
  refine session_follows (session_rules D t) (fun _ _ => ?_) rests begins
  refine follows_of_allowed (P := fun op => ∀ b, (protocol D t).allowed b op) (fun b op ok => ok b) ?_
  exact syncQuotaUsage_within D.quotas (fun _ => trivial) (fun _ => trivial)
    (fun _ _ _ => ⟨fun _ => trivial,fun _ _ => trivial⟩) (fun _ _ => trivial)

/-! ### Runs -/

/-- Party `i` reads the usage of this type. -/
def Checks (D : Deployment ι) (t : Limited) (e : Event Op Reply ι) (i : ι) : Prop := e.who = i ∧ e.op = .get (usageKey D t)

/-- A charge of this type. -/
def Counts (D : Deployment ι) (t : Limited) (e : Event Op Reply ι) : Prop := ∃ n, e.op = .incrBy (usageKey D t) n

/-- At no moment of the trace are more than `k` sessions between their quota check and their charge. -/
def FewBetween (D : Deployment ι) (t : Limited) (k : Nat) (trace : List (Event Op Reply ι)) : Prop :=
  AtMost (Checks D t) (fun e i => e.who = i ∧ Counts D t e) k trace

/-- What is assumed of every moment of a run: the limits of the quota stay, no Redis
    call has failed, no charge was negative, and each session has charged the type at
    most once, by at most `m`. -/
structure Regular (D : Deployment ι) (t : Limited) (m : Int) (c : Config Op Reply ι (Traced Op Reply ι World) Local) :
    Prop where
  limits : ∀ q ∈ c.shared.state.quotas ++ c.shared.state.past, q.namespace_ = t.namespace_ → q.name = t.name →
    q.quotas = t.items
  heard : ∀ e ∈ c.shared.trace, Heard e.op e.reply
  charges : Charges D c.untraced
  amounts : ∀ e ∈ c.shared.trace, ∀ n, e.op = .incrBy (usageKey D t) n → 0 ≤ n ∧ n ≤ m
  once : c.shared.trace.Pairwise (fun e e' => Counts D t e → Counts D t e' → e.who ≠ e'.who)

/-- The usage as check first and count later sees it; its window never ends. -/
def counter (D : Deployment ι) (t : Limited) (m base : Int) : Counter (Event Op Reply ι) ι where
  window := 0
  base := base
  threshold := t.item.value
  largest := m
  opens := Checks D t
  adds := addsTo (usageKey D t)

theorem answers_acts {op : Op} {r : Reply op} {fails : Op → Prop} {w w' : World} (act : Acts fails w op r w')
    (limits : ∀ q ∈ w.quotas ++ w.past, q.namespace_ = t.namespace_ → q.name = t.name → q.quotas = t.items)
    (heard : Heard op r) : Answers t op r := by
  cases op with
  | get key =>
    rintro message rfl
    exact heard rfl message rfl
  | getQuota ns name =>
    rintro obj rfl
    suffices named : obj ∈ w.quotas ++ w.past ∧ obj.namespace_.val = ns ∧ obj.name.val = name from
      ⟨named.2.1,named.2.2,limits obj named.1⟩
    generalize reply : (Except.ok obj : Reply (.getQuota ns name)) = r at act
    cases act with
    | done =>
      simp only [perform] at reply
      split at reply
      · cases reply
      · rename_i q found
        cases reply
        have named := List.find?_some found
        simp only [Bool.and_eq_true,decide_eq_true_eq] at named
        exact ⟨List.mem_append_left _ (List.mem_of_find?_eq_some found),named⟩
    | refused _ failed =>
      cases failed
      cases reply
    | unheard _ failed =>
      cases failed
      cases reply
    | staleQuota version ns name =>
      cases reply
      exact ⟨version,ns,name⟩
  | _ => trivial

/-- A read that did not fail gives the usage. -/
theorem read_usage {fails : Op → Prop} {key : String} {r : Reply (.get key)} {w w' : World}
    (act : Acts fails w (.get key) r w') (heard : Heard (.get key) r) : currentValue r = w.value key :=
  (acts_get act).2.resolve_left (fun ⟨message,failed⟩ => heard rfl message (by rw [failed]; rfl))

private theorem observe_read (w v : Int) (op : Op) (r : Reply op) : observe D t (.read w v) op r = .read w v := by
  cases op with
  | get | incrBy => exact ite_self _
  | _ => rfl

private theorem observe_idle {op : Op} (other : op ≠ .get (usageKey D t)) (r : Reply op) : observe D t .idle op r = .idle := by
  cases op with
  | get key => exact if_neg (fun same => other (by rw [same]))
  | incrBy key n => exact ite_self _
  | _ => rfl

/-- A session at rest that has seen the usage above the limit was turned away. -/
theorem turned_away {l : Local} (kept : Keeps (Stands t) (TurnedAway D) (fun _ => True) stage l)
    (session : l ≠ .replica) {v : Int} (read : stage = .read 0 v) :
    ∃ vars resp sent, l = .session .over vars (resp :: sent) ∧ Rejects D resp := by
  subst read
  cases l with
  | replica => exact absurd rfl session
  | crashed =>
    obtain ⟨_,none_,_⟩ := kept 0 v rfl
    cases none_
  | session phase vars sent =>
    cases phase <;> first | cases kept.2 | exact absurd rfl (kept.1 0 v) | skip
    obtain ⟨resp,last,rejects⟩ := kept 0 v rfl
    cases sent with
    | nil => cases last
    | cons first sent =>
      cases last
      exact ⟨vars,_,sent,rfl,rejects⟩

section Simulation
variable [DecidableEq ι]

/-- The parties' stages after a trace. -/
def stages (D : Deployment ι) (t : Limited) (trace : List (Event Op Reply ι)) (i : ι) : Stage :=
  observed (protocol D t) .idle i trace

theorem stages_cons (e : Event Op Reply ι) (trace : List (Event Op Reply ι)) :
    stages D t (e :: trace) = Function.update (stages D t trace) e.who
      ((protocol D t).observe (stages D t trace e.who) e.op e.reply) := observed_cons (protocol D t) .idle e trace

/-- The gateway's state is one that check first and count later reaches by the same events. -/
structure Simulates (D : Deployment ι) (t : Limited) (m base : Int) (d : Traced Op Reply ι World) : Prop where
  reach : Reachable (counter D t m base) ⟨0,stages D t d.trace,d.trace⟩
  total : (counter D t m base).total d.trace = charged (usageKey D t) d.state.increments
  counted : ∀ i, stages D t d.trace i = .charged → ∃ e ∈ d.trace, e.who = i ∧ Counts D t e

/-- What is known of an operation that a party is about to have carried out. -/
structure Issued (D : Deployment ι) (t : Limited) (m : Int) (d : Traced Op Reply ι World) (i : ι) (op : Op) (r : Reply op) :
    Prop where
  allowed : (protocol D t).allowed (stages D t d.trace i) op
  heard : Heard op r
  amounts : ∀ n, op = .incrBy (usageKey D t) n → 0 ≤ n ∧ n ≤ m
  once : ∀ e ∈ d.trace, Counts D t ⟨i,op,r⟩ → Counts D t e → i ≠ e.who

variable {m base : Int} {d : Traced Op Reply ι World} {i : ι} {op : Op} {r : Reply op}

/-- An event that leaves the party where it is. -/
theorem reach_silent (sim : Simulates D t m base d) (silent : addsTo (usageKey D t) ⟨i,op,r⟩ = none)
    (same : (protocol D t).observe (stages D t d.trace i) op r = stages D t d.trace i) :
    Reachable (counter D t m base) ⟨0,stages D t (⟨i,op,r⟩ :: d.trace),⟨i,op,r⟩ :: d.trace⟩ := by
  rw [stages_cons,same,Function.update_eq_self]
  exact reachable_step sim.reach (.other silent)

/-- The read of a check. -/
theorem reach_checks (sim : Simulates D t m base d) {r : Reply (.get (usageKey D t))} (idle : stages D t d.trace i = .idle)
    (value : currentValue r = base + charged (usageKey D t) d.state.increments) :
    Reachable (counter D t m base)
      ⟨0,stages D t (⟨i,.get (usageKey D t),r⟩ :: d.trace),⟨i,.get (usageKey D t),r⟩ :: d.trace⟩ := by
  have opened := reachable_step sim.reach (.opens (e := ⟨i,.get (usageKey D t),r⟩) idle ⟨rfl,rfl⟩ rfl)
  have read := reachable_step opened (.reads (i := i) (w := 0) (v := currentValue r) (Function.update_self ..) (by
    intro _ _
    rw [value,← sim.total]
    simp [Counter.total,counter,addsTo]))
  simp only [Function.update_idem] at read
  have looks : (protocol D t).observe (stages D t d.trace i) (.get (usageKey D t)) r = looked t (currentValue r) .idle := by
    rw [idle]
    exact if_pos rfl
  rw [stages_cons,looks]
  by_cases low : currentValue r ≤ t.item.value
  · have charging := reachable_step read (.aims (i := i) (Function.update_self ..) low (fun other => absurd rfl other))
    simpa only [Function.update_idem,looked,if_pos low] using charging
  · simpa only [looked,if_neg low] using read

theorem reach_acts {fails : Op → Prop} (sim : Simulates D t m base d) (issued : Issued D t m d i op r)
    (usage : d.state.value (usageKey D t) = base + charged (usageKey D t) d.state.increments) {w' : World}
    (act : Acts fails d.state op r w') :
    Reachable (counter D t m base) ⟨0,stages D t (⟨i,op,r⟩ :: d.trace),⟨i,op,r⟩ :: d.trace⟩ := by
  cases op with
  | get key =>
    by_cases mine : key = usageKey D t
    · subst mine
      cases stage : stages D t d.trace i with
      | idle => exact reach_checks sim stage ((read_usage act issued.heard).trans usage)
      | _ =>
        refine reach_silent sim rfl ?_
        rw [stage]
        exact if_pos rfl
    · exact reach_silent sim rfl (if_neg mine)
  | incrBy key n =>
    by_cases mine : key = usageKey D t
    · subst mine
      rcases issued.allowed rfl with charging | charged
      · have counts : (protocol D t).observe (stages D t d.trace i) (.incrBy (usageKey D t) n) r = .charged := by
          rw [charging]
          exact if_pos rfl
        obtain ⟨low,high⟩ := issued.amounts n rfl
        rw [stages_cons,counts]
        exact reachable_step sim.reach (.adds charging (if_pos rfl) low high)
      · obtain ⟨e,member,same,counts⟩ := sim.counted i charged
        exact absurd same.symm (issued.once e member ⟨n,rfl⟩ counts)
    · exact reach_silent sim (if_neg mine) (if_neg mine)
  | _ => exact reach_silent sim rfl rfl

/-- Who is charged has counted. -/
theorem counted_acts (sim : Simulates D t m base d) {j : ι} (charged : stages D t (⟨i,op,r⟩ :: d.trace) j = .charged) :
    ∃ e ∈ (⟨i,op,r⟩ : Event Op Reply ι) :: d.trace, e.who = j ∧ Counts D t e := by
  have before : stages D t d.trace j = .charged →
      ∃ e ∈ (⟨i,op,r⟩ : Event Op Reply ι) :: d.trace, e.who = j ∧ Counts D t e := by
    intro charged
    obtain ⟨e,member,counts⟩ := sim.counted j charged
    exact ⟨e,.tail _ member,counts⟩
  rw [stages_cons] at charged
  by_cases other : j = i
  swap
  · rw [Function.update_of_ne other] at charged
    exact before charged
  subst other
  rw [Function.update_self] at charged
  cases op with
  | incrBy key n =>
    by_cases mine : key = usageKey D t
    · exact ⟨_,.head _,rfl,n,by rw [mine]⟩
    · exact before ((if_neg mine).symm.trans charged)
  | get key =>
    by_cases mine : key = usageKey D t
    · refine before ?_
      have looks : looked t (currentValue r) (stages D t d.trace j) = .charged := (if_pos mine).symm.trans charged
      cases stage : stages D t d.trace j with
      | idle =>
        rw [stage,looked] at looks
        split at looks <;> cases looks
      | charged => rfl
      | _ =>
        rw [stage] at looks
        exact looks
    · exact before ((if_neg mine).symm.trans charged)
  | _ => exact before charged

theorem simulates_acts {fails : Op → Prop} {w' : World} (sim : Simulates D t m base d) (issued : Issued D t m d i op r)
    (usage : d.state.value (usageKey D t) = base + charged (usageKey D t) d.state.increments)
    (act : Acts fails d.state op r w') : Simulates D t m base ⟨w',⟨i,op,r⟩ :: d.trace⟩ := by
  refine ⟨reach_acts sim issued usage act,?_,fun j charged => counted_acts sim charged⟩
  rw [charged_acts (i := i) act issued.heard,← sim.total]
  rfl

variable {fails : Op → Prop} {c d e : Config Op Reply ι (Traced Op Reply ι World) Local}

theorem run_kept (initial : Initial D c.untraced) (run : Reach (D.system fails).traced (Regular D t m) c d) :
    (∀ i, Guar ((D.system fails).act i) (Rely D c.untraced.shared.value) (May D) (Rests D c.untraced.shared.value)
      (d.untraced.prog i) d.untraced.shared) ∧ QuotaRuns.Sound D c.untraced.shared.value d.untraced.shared := by
  obtain ⟨holds,sound,_⟩ := run_sound (initial_guar initial) (initial_sound initial)
    (reach_untraced (fun _ ok => ok.charges) run)
  exact ⟨holds,sound⟩

theorem run_follows (initial : Initial D c.untraced) (fresh : c.shared.trace = [])
    (run : Reach (D.system fails).traced (Regular D t m) c d) (i : ι) :
    Follows (Answers t) (protocol D t) (Keeps (Stands t) (TurnedAway D) (fun _ => True)) (d.prog i)
      (stages D t d.shared.trace i) := by
  refine reach_follows (fun _ _ d e _ legal ok act traced => answers_acts act legal.limits
    (ok.heard _ (by rw [traced]; exact .head _))) (fun _ _ _ _ rests begins => starts_follow rests begins) fresh
    (fun i => ?_) run i
  obtain ⟨l,resting,kind⟩ := initial.rest i
  change c.prog i = _ at resting
  rw [resting]
  rcases kind with rfl | rfl
  · exact ⟨rfl,rfl⟩
  · trivial

/-- Every run of the gateway is one of check first and count later. -/
theorem run_simulates (initial : Initial D c.untraced) (fresh : c.shared.trace = [])
    (run : Reach (D.system fails).traced (Regular D t m) c d) :
    Simulates D t m (c.shared.state.value (usageKey D t)) d.shared := by
  refine reach_traced ⟨?_,?_,?_⟩ ?_ ?_ run
  · rw [fresh]
    exact ⟨_,.refl⟩
  · have empty : c.shared.state.increments = [] := initial.log
    rw [fresh,empty]
    rfl
  · intro i charged
    rw [fresh] at charged
    cases charged
  · intro d i op next r state before sim at_i acted ok
    have usage := (run_kept initial before).2.counted (usageKey D t) ⟨_,_,_,rfl⟩
    have follows := run_follows initial fresh before i
    rw [at_i] at follows
    refine simulates_acts sim ⟨follows.1,ok.heard _ (.head _),?_,?_⟩ usage acted
    · exact fun n incr => ok.amounts _ (.head _) n incr
    · exact fun e member => (List.pairwise_cons.mp ok.once).1 e member
  · intro d state sim passed
    refine ⟨sim.reach,?_,sim.counted⟩
    rw [sim.total]
    cases passed <;> rfl

/-! ### Above the limit -/

/-- Only a check takes a party from its start. -/
theorem stages_idle {trace : List (Event Op Reply ι)} {i : ι} (unchecked : ∀ e ∈ trace, ¬ Checks D t e i) :
    stages D t trace i = .idle := by
  induction trace with
  | nil => rfl
  | cons e trace ih =>
    have before := ih (fun x member => unchecked x (.tail _ member))
    rw [stages_cons]
    by_cases same : i = e.who
    · subst same
      rw [Function.update_self,before]
      exact observe_idle (fun looks => unchecked e (.head _) ⟨rfl,looks⟩) _
    · rwa [Function.update_of_ne same]

/-- Once the usage is above the limit, whoever checks it from then on has seen that. -/
theorem stages_above (initial : Initial D c.untraced) (run : Reach (D.system fails).traced (Regular D t m) c d)
    (further : Reach (D.system fails).traced (Regular D t m) d e) (above : t.item.value < d.shared.state.value (usageKey D t))
    {i : ι} (unchecked : ∀ a ∈ d.shared.trace, ¬ Checks D t a i) :
    (∀ a ∈ e.shared.trace, ¬ Checks D t a i) ∨ ∃ v, stages D t e.shared.trace i = .read 0 v := by
  refine reach_traced (I := fun s => (∀ a ∈ s.trace, ¬ Checks D t a i) ∨ ∃ v, stages D t s.trace i = .read 0 v)
    (.inl unchecked) ?_ (fun _ _ holds _ => holds) further
  intro f j op next r state before ih at_j acted ok
  by_cases other : i = j
  swap
  · rcases ih with unread | ⟨v,read⟩
    · refine .inl (fun a member checks => ?_)
      rcases List.mem_cons.mp member with rfl | member
      · exact other checks.1.symm
      · exact unread a member checks
    · exact .inr ⟨v,by rw [stages_cons,Function.update_of_ne other]; exact read⟩
  subst other
  rw [stages_cons,Function.update_self]
  rcases ih with unread | ⟨v,read⟩
  · by_cases looks : op = .get (usageKey D t)
    · -- the usage has only grown since
      subst looks
      obtain ⟨holds,sound⟩ := run_kept initial run
      obtain ⟨_,_,grows⟩ := run_sound holds sound (reach_untraced (fun _ ok => ok.charges) before)
      have grown := grows.usage (usageKey D t) ⟨_,_,_,rfl⟩
      have value := read_usage acted (ok.heard _ (.head _))
      have high : ¬ currentValue r ≤ t.item.value := by
        rw [value]
        exact not_le.mpr (above.trans_le grown)
      refine .inr ⟨currentValue r,?_⟩
      rw [stages_idle unread]
      exact (if_pos rfl).trans (if_neg high)
    · refine .inl (fun a member checks => ?_)
      rcases List.mem_cons.mp member with rfl | member
      · exact looks checks.2
      · exact unread a member checks
  · exact .inr ⟨v,by rw [read]; exact observe_read 0 v op r⟩

/-- The overshoot of a quota is bounded, whatever the order of the sessions' and the
    replicas' steps: with at most `k` sessions between their quota check and their
    charge, by what `k` sessions charge. Once the usage is above the limit, a session
    that checks it from then on ends with the quota's error. -/
theorem quota_bounded (largest : 0 ≤ m) (initial : Initial D c.untraced) (fresh : c.shared.trace = [])
    (run : Reach (D.system fails).traced (Regular D t m) c d) (further : Reach (D.system fails).traced (Regular D t m) d e)
    {k : Nat} (few : FewBetween D t k d.shared.trace) :
    d.shared.state.value (usageKey D t) ≤ max (c.shared.state.value (usageKey D t)) t.item.value + k * m ∧
    (t.item.value < d.shared.state.value (usageKey D t) → ∀ i l, e.prog i = .ret l → l ≠ .replica →
      (∀ a ∈ d.shared.trace, ¬ Checks D t a i) → (∃ a ∈ e.shared.trace, Checks D t a i) →
      ∃ vars resp sent, l = .session .over vars (resp :: sent) ∧ Rejects D resp) := by
  constructor
  · have sim := run_simulates initial fresh run
    have usage := (run_kept initial run).2.counted (usageKey D t) ⟨_,_,_,rfl⟩
    have bound := total_le (reachable_sound sim.reach) (atMost_mono (fun a i ⟨n,adds⟩ => by
      obtain ⟨who,incr⟩ := addsTo_some adds
      exact ⟨who,n,incr⟩) few) largest
    rw [sim.total] at bound
    exact usage.trans_le bound
  · rintro above i l resting session unchecked ⟨a,member,checks⟩
    have kept := run_follows initial fresh (reach_trans run further) i
    rw [resting] at kept
    rcases stages_above initial run further above unchecked with never | ⟨v,read⟩
    · exact absurd checks (never a member)
    · exact turned_away kept session read

end Simulation

/-- The two tokens that the quota of the sample allows. -/
def twoTokens : Limited where
  namespace_ := .team
  name := .basic
  items := [⟨"total",2⟩]
  item := ⟨"total",2⟩
  listed := List.mem_cons_self
  distinct := by decide

/-- Who checks the quota, and who charges it. -/
private def quotaCode (e : Event Op Reply (Fin 3)) : Option (Fin 3 × Bool) :=
  match e.op with
  | .get key => if key = usageKey (small (Fin 3)) twoTokens then some (e.who,false) else none
  | .incrBy key _ => if key = usageKey (small (Fin 3)) twoTokens then some (e.who,true) else none
  | _ => none

private theorem quotaCode_checks {e : Event Op Reply (Fin 3)} {i : Fin 3} :
    quotaCode e = some (i,false) ↔ Checks (small (Fin 3)) twoTokens e i := by
  obtain ⟨who,op,r⟩ := e
  cases op <;> simp [quotaCode,Checks,and_comm]

/-- What `Regular` asks, for the sample. -/
private def regularTest (trace : List (Event Op Reply (Fin 3))) (w : World) : Bool :=
  (w.quotas ++ w.past).all (fun q => decide (q.quotas = twoTokens.items)) && trace.all (fun e => heard e.op e.reply) &&
    w.increments.all (fun e => decide (0 ≤ e.2)) &&
    trace.all (fun e => match e.op with | .incrBy _ n => decide (0 ≤ n ∧ n ≤ 3) | _ => true) &&
    decide ((trace.filterMap quotaCode).filter Prod.snd).Nodup

private theorem regular_of_test (trace : List (Event Op Reply (Fin 3))) (w : World) (prog : Fin 3 → Action Local)
    (passes : regularTest trace w = true) : Regular (small (Fin 3)) twoTokens 3 ⟨⟨w,trace⟩,prog⟩ := by
  simp only [regularTest,Bool.and_eq_true,decide_eq_true_eq,List.all_eq_true] at passes
  obtain ⟨⟨⟨⟨limits,calls⟩,charges⟩,amounts⟩,once⟩ := passes
  refine ⟨fun q member _ _ => limits q member,fun e member => heard_of_test (calls e member),fun e member _ => charges e member,
    ?_,?_⟩
  · intro e member n is
    have bounded := amounts e member
    rw [is] at bounded
    exact of_decide_eq_true bounded
  · have apart := List.pairwise_filterMap.mp (List.pairwise_filter.mp once)
    refine apart.imp ?_
    rintro ⟨who,op,r⟩ ⟨who',op',r'⟩ differ ⟨n,rfl⟩ ⟨n',rfl⟩ rfl
    exact differ (who,true) (by simp [quotaCode]) (who,true) (by simp [quotaCode]) rfl rfl rfl

/-- A party that is back at rest in a session. -/
private def inSession : Action Local → Bool
  | .ret (.session _ _ _) => true
  | _ => false

private theorem inSession_ret {a : Action Local} (back : inSession a = true) : ∃ l, a = .ret l ∧ l ≠ .replica := by
  cases a with
  | call => cases back
  | ret l =>
    refine ⟨l,rfl,?_⟩
    rintro rfl
    cases back

/-- The answer of the first session takes the usage above the limit, and the second session is turned away. -/
theorem quota_bounded_answered :
    chargedOnce.shared.value (usageKey (small (Fin 3)) twoTokens) = 3 ∧
      chargedOnce.shared.value (usageKey (small (Fin 3)) twoTokens) ≤ max 0 2 + (1 : Nat) * 3 ∧
      ∃ vars resp sent, askedAgain.prog 1 = .ret (.session .over vars (resp :: sent)) ∧ Rejects (small (Fin 3)) resp := by
  have first : Reach ((small (Fin 3)).system redisUp).traced (Regular (small (Fin 3)) twoTokens 3) (opened.behind [])
      (chargedOnce.behind (record (small (Fin 3)) opened answeredMeanwhile ++ [])) :=
    run_reach _ regular_of_test (by decide +kernel)
  rw [List.append_nil] at first
  have second : Reach ((small (Fin 3)).system redisUp).traced (Regular (small (Fin 3)) twoTokens 3)
      (chargedOnce.behind (record (small (Fin 3)) opened answeredMeanwhile)) (askedAgain.behind _) :=
    run_reach _ regular_of_test (by decide +kernel)
  have codes : (record (small (Fin 3)) opened answeredMeanwhile).filterMap quotaCode =
      [(2,false),(0,true),(2,false),(0,false)] := by decide +kernel
  have few : FewBetween (small (Fin 3)) twoTokens 1 (record (small (Fin 3)) opened answeredMeanwhile) := by
    refine atMost_of_codes quotaCode (fun e i checks => quotaCode_checks.mpr checks) ?_ codes (by decide)
    rintro ⟨who,op,r⟩ i ⟨rfl,n,rfl⟩
    simp [quotaCode]
  have unchecked : ∀ a ∈ record (small (Fin 3)) opened answeredMeanwhile, ¬ Checks (small (Fin 3)) twoTokens a 1 := by
    intro a member checks
    have coded := List.mem_filterMap.mpr ⟨a,member,quotaCode_checks.mpr checks⟩
    rw [codes] at coded
    exact absurd coded (by decide)
  have asked : (1,false) ∈ (record (small (Fin 3)) chargedOnce (sends 1 "alice" ++ steps 1 7)).filterMap quotaCode := by
    decide +kernel
  obtain ⟨a,member,coded⟩ := List.mem_filterMap.mp asked
  obtain ⟨bound,refused⟩ := quota_bounded (by decide) opened_initial rfl first second few
  have high : chargedOnce.shared.value (usageKey (small (Fin 3)) twoTokens) = 3 := by decide +kernel
  have back : inSession (askedAgain.prog 1) = true := by decide +kernel
  obtain ⟨l,stands,session⟩ := inSession_ret back
  obtain ⟨vars,resp,sent,rfl,rejects⟩ := refused (high ▸ by decide) 1 l stands session unchecked
    ⟨a,List.mem_append_left _ member,quotaCode_checks.mp coded⟩
  exact ⟨high,bound,vars,resp,sent,stands,rejects⟩

end Arks.QuotaBounds
