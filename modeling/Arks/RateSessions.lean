import Arks.Admission
import Arks.Replicas

/-!
What a session does to one rate limit of one user. `Target.protocol` is an automaton
that reads a session's operations: the clock of `CheckLimit`, the value found in
that window, the clock of `DoLimit`, and the increment. A session of this user
increments only after it was admitted, and only in the window of its second clock
reading; everybody else leaves the counters alone.
-/
namespace Arks.RateSessions
open Programs Programs.Prog Api Counters Effects Services Gateway Sessions
open Replicas Admission
open Texts (Lacks)

variable {ι : Type} {D : Deployment ι}

/-- The limiter as `NewRedisRateLimter` makes it. -/
def Made (c : RedisRateLimter) : Prop := ∃ keyPrefix draw, 0 ≤ draw ∧ draw < 1000 ∧ c = newRedisRateLimter keyPrefix draw

/-- One limit of a user on a model. -/
structure Target (D : Deployment ι) where
  qos : UserQos
  limit : RateLimit
  rule : LimitRuleConfig
  made : Made D.limiter
  plain : PlainQos qos
  listed : limit ∈ qos.rateLimits
  distinct : (qos.rateLimits.map RateLimit.type).Nodup
  known : D.limiter.config.getRule limit.type = some rule

variable {requests : List RateLimitRequest} {rule : LimitRuleConfig}

namespace Target
variable (t : Target D)

/-- The key of the limit in the window that starts at `w`. -/
def key (w : Int) : String := rateKey D.limiter.keyPrefix t.qos t.limit.type w

/-- The request is for this limit. -/
def IsFor (req : RateLimitRequest) : Prop :=
  req.identifier = (toRateLimitRequest t.qos t.limit.type t.limit.value 0).identifier ∧ req.ruleName = t.limit.type

instance (req : RateLimitRequest) : Decidable (t.IsFor req) := by unfold IsFor; infer_instance

def Aims (requests : List RateLimitRequest) : Prop := ∃ req ∈ requests, t.IsFor req

instance (requests : List RateLimitRequest) : Decidable (t.Aims requests) := by unfold Aims; infer_instance

/-- What the check adds to the value it finds. -/
def amount : Int := (checkAmount t.rule.type).getD 0

/-- The check lets a session pass that found `v`. -/
def Admits (v : Int) : Prop := ¬ t.limit.value < int64 (v + t.amount)

def looked (key : String) (v : Int) : Stage → Stage
  | .opened w => if key = t.key w then .read w v else .opened w
  | stage => stage

def aimed (w : Int) : Stage → Stage
  | .read _ _ => .charging w
  | stage => stage

def counted (key : String) : Stage → Stage
  | .charging w => if key = t.key w then .charged else .charging w
  | stage => stage

def observe (stage : Stage) : (op : Op) → Reply op → Stage
  | .now (.checkLimit requests),now => if t.Aims requests then .opened (windowOf t.rule now) else stage
  | .now (.doLimit requests),now => if t.Aims requests then aimed (windowOf t.rule now) stage else stage
  | .get key,r => t.looked key (currentValue r) stage
  | .incrBy key _,_ => t.counted key stage
  | _,_ => stage

/-- An increment in window `w` is due. For tokens a session may charge again. -/
def Due (w : Int) (stage : Stage) : Prop := stage = .charging w ∨ t.rule.type = .token ∧ stage = .charged

/-- Admitted, or charging again. -/
def Ready (stage : Stage) : Prop := (∃ w v, stage = .read w v ∧ t.Admits v) ∨ t.rule.type = .token ∧ stage = .charged

def allowed (stage : Stage) : Op → Prop
  | .now (.checkLimit requests) => t.Aims requests → stage = .idle
  | .now (.doLimit requests) => t.Aims requests → t.Ready stage
  | .incrBy key n => ∀ w, key = t.key w → t.Due w stage ∧ (t.rule.type = .request → n = 1)
  | .expire key seconds => ∀ w, key = t.key w → ∀ s, Lasts t.rule s → s ≤ seconds
  | .set key _ => ∀ w, key ≠ t.key w
  | _ => True

def protocol : Protocol Op Reply Stage := ⟨t.allowed,t.observe⟩

/-- The token gives this user the fixed qos on the fixed model. -/
def Steady (obj : ArksToken) : Prop :=
  ∀ qos, qosOf obj t.qos.model = some qos → qos.namespace_ = t.qos.namespace_ → qos.user = t.qos.user → qos = t.qos

/-- The replies while Redis does not fail and the limits stay. -/
def Answers : (op : Op) → Reply op → Prop
  | .listTokens token,r => ∀ objs, r = .ok objs → ∀ obj ∈ objs, t.Steady obj ∧ obj.token = token
  | .listEndpoints ns,r => ∀ eps, r = .ok eps → ∀ ep ∈ eps, ep.namespace_.val = ns
  | .random bound,n => 0 ≤ n ∧ (0 < bound → n < bound)
  | .ttl _,r => ∃ left, r = .ok left
  | _,_ => True

/-! ### Operations that the protocol does not see -/

variable {t}

theorem unseen_get {key : String} (other : ∀ w, key ≠ t.key w) : t.protocol.Unseen (.get key) := by
  refine fun stage => ⟨trivial,fun r => ?_⟩
  cases stage with
  | opened w => simp [protocol,observe,looked,other w]
  | _ => rfl

theorem unseen_incrBy {key : String} (other : ∀ w, key ≠ t.key w) (n : Int) : t.protocol.Unseen (.incrBy key n) := by
  refine fun stage => ⟨fun w same => absurd same (other w),fun r => ?_⟩
  cases stage with
  | charging w => simp [protocol,observe,counted,other w]
  | _ => rfl

theorem unseen_expire {key : String} (other : ∀ w, key ≠ t.key w) (seconds : Int) : t.protocol.Unseen (.expire key seconds) :=
  fun _ => ⟨fun w same => absurd same (other w),fun _ => rfl⟩

private theorem unseen_set {key : String} (other : ∀ w, key ≠ t.key w) (value : Int) : t.protocol.Unseen (.set key value) :=
  fun _ => ⟨other,fun _ => rfl⟩

private theorem unseen_check (other : ¬ t.Aims requests) :
    t.protocol.Unseen (.now (.checkLimit requests)) :=
  fun _ => ⟨fun aims => absurd aims other,fun _ => if_neg other⟩

theorem unseen_limit (other : ¬ t.Aims requests) :
    t.protocol.Unseen (.now (.doLimit requests)) :=
  fun _ => ⟨fun aims => absurd aims other,fun _ => if_neg other⟩

theorem quotaKey_ne (keyPrefix ns name type : String) (w : Int) : quotaKey keyPrefix ns name type ≠ t.key w := by
  intro same
  have digit := rateKey_digit D.limiter.keyPrefix t.qos t.limit.type w
  rw [← key,← same] at digit
  exact quotaKey_digit _ _ _ _ digit

theorem unseen_plain {op : Op} (plain : Plain op) : t.protocol.Unseen op := by
  intro stage
  cases op with
  | now caller => cases caller <;> first | exact plain.elim | exact ⟨trivial,fun _ => rfl⟩
  | _ => first | exact plain.elim | exact ⟨trivial,fun _ => rfl⟩

theorem unseen_quota {answers : (op : Op) → Reply op → Prop} {qos : UserQos} :
    QuotaIssues D answers t.protocol.Unseen qos where
  getQuota := fun _ => ⟨trivial,fun _ => rfl⟩
  usage _ _ _ := ⟨unseen_get (quotaKey_ne _ _ _ _),unseen_incrBy (quotaKey_ne _ _ _ _)⟩

private theorem unseen_pass {answers : (op : Op) → Reply op → Prop} :
    Within answers t.protocol.Unseen (fun _ => True) D.provider.syncQuotaUsage :=
  syncQuotaUsage_within D.quotas (fun _ => ⟨trivial,fun _ => rfl⟩) (unseen_plain trivial)
    (fun _ _ _ => ⟨unseen_get (quotaKey_ne _ _ _ _),unseen_set (quotaKey_ne _ _ _ _)⟩)
    (fun _ _ => ⟨trivial,fun _ => rfl⟩)

theorem known_plain (t : Target D) {name : String}
    (known : D.limiter.config.getRule name = some rule) : Lacks '.' name ∧ Lacks ':' name := by
  obtain ⟨keyPrefix,draw,_,_,made⟩ := t.made
  rw [made] at known
  exact known_rule_plain known

/-- The key of another user, model, rule or window. -/
theorem rateKey_ne {qos : UserQos} (plain : PlainQos qos) {name : String} {start w : Int}
    (known : D.limiter.config.getRule name = some rule)
    (same : rateKey D.limiter.keyPrefix qos name start = t.key w) :
    (qos.namespace_ = t.qos.namespace_ ∧ qos.user = t.qos.user ∧ qos.model = t.qos.model) ∧ name = t.limit.type ∧
      start = w := by
  obtain ⟨dot,colon⟩ := t.known_plain known
  obtain ⟨dot',colon'⟩ := t.known_plain t.known
  obtain ⟨ns,user,model,names,starts⟩ := rateKey_inj plain t.plain dot dot' colon colon' same
  exact ⟨⟨ns,user,model⟩,names,starts⟩

theorem key_inj {w w' : Int} (same : t.key w = t.key w') : w = w' := (rateKey_ne t.plain t.known same).2.2

/-- A qos of another user or another model. -/
structure Other (t : Target D) (qos : UserQos) : Prop where
  plain : PlainQos qos
  differs : ¬ (qos.namespace_ = t.qos.namespace_ ∧ qos.user = t.qos.user ∧ qos.model = t.qos.model)

theorem isFor_same {qos : UserQos} {name : String} {value n : Int} (aims : t.IsFor (toRateLimitRequest qos name value n)) :
    (qos.namespace_ = t.qos.namespace_ ∧ qos.user = t.qos.user ∧ qos.model = t.qos.model) ∧ name = t.limit.type := by
  obtain ⟨labels,names⟩ := aims
  simp only [toRateLimitRequest,List.cons.injEq,Label.mk.injEq] at labels names
  tauto

theorem unseen_other {qos : UserQos} (other : t.Other qos) : RateIssues D t.protocol.Unseen qos := by
  have notAims : ∀ requests, ForQos qos requests → ¬ t.Aims requests := by
    rintro requests own ⟨req,member,aims⟩
    obtain ⟨name,value,n,rfl⟩ := own req member
    exact other.differs (isFor_same aims).1
  refine ⟨fun _ => unseen_plain trivial,fun _ _ => ⟨trivial,fun _ => rfl⟩,fun requests own => unseen_check (notAims _ own),
    fun requests own => unseen_limit (notAims _ own),fun name rule start known => ?_⟩
  have apart : ∀ w, rateKey D.limiter.keyPrefix qos name start ≠ t.key w :=
    fun w same => other.differs (rateKey_ne other.plain known same).1
  exact ⟨unseen_get apart,fun _ => ⟨trivial,fun _ => rfl⟩,unseen_incrBy apart,unseen_expire apart⟩

/-! ### The requests of the fixed user -/

/-- Requests of the user for other limits. -/
def Aside (t : Target D) (requests : List RateLimitRequest) : Prop :=
  ∀ req ∈ requests, ∃ name value n, req = toRateLimitRequest t.qos name value n ∧ name ≠ t.limit.type

private theorem aside_not_aims (aside : t.Aside requests) : ¬ t.Aims requests := by
  rintro ⟨req,member,aims⟩
  obtain ⟨name,value,n,rfl,differs⟩ := aside req member
  exact differs (isFor_same aims).2

theorem aside_key (aside : t.Aside requests) {req : RateLimitRequest} {key : String}
    (used : D.limiter.Keys requests req key) (w : Int) : key ≠ t.key w := by
  obtain ⟨member,rule,now,known,rfl⟩ := used
  obtain ⟨name,value,n,rfl,differs⟩ := aside req member
  exact fun same => differs (rateKey_ne t.plain known same).2.1

variable {amount : LimitType → Option Int} {before after : List RateLimitRequest}

/-- Limits of other types lead to requests for other limits. -/
theorem filterMap_aside {limits : List RateLimit} (others : ∀ l ∈ limits, l.type ≠ t.limit.type) :
    t.Aside (limits.filterMap (limitRequest D.limiter.config.getRule t.qos amount)) := by
  intro req member
  obtain ⟨l,listed,made⟩ := List.mem_filterMap.mp member
  obtain ⟨rule,_,made⟩ := Option.bind_eq_some_iff.mp made
  obtain ⟨n,_,rfl⟩ := Option.map_eq_some_iff.mp made
  exact ⟨_,_,_,rfl,others l listed⟩

/-- The request for this limit stands alone among requests for others. -/
theorem requests_split {n : Int} (counts : amount t.rule.type = some n)
    (built : limitRequests D.limiter.config.getRule t.qos amount t.qos.rateLimits = .ok requests) :
    ∃ before after, requests = before ++ toRateLimitRequest t.qos t.limit.type t.limit.value n :: after ∧
      t.Aside before ∧ t.Aside after := by
  obtain ⟨before,after,split⟩ := List.append_of_mem t.listed
  have distinct := t.distinct
  rw [split,List.map_append,List.map_cons,List.nodup_append] at distinct
  obtain ⟨_,tail,apart⟩ := distinct
  have mine : limitRequest D.limiter.config.getRule t.qos amount t.limit =
      some (toRateLimitRequest t.qos t.limit.type t.limit.value n) := by
    simp [limitRequest,t.known,counts]
  have first : ∀ l ∈ before, l.type ≠ t.limit.type :=
    fun l member => apart _ (List.mem_map_of_mem member) _ List.mem_cons_self
  have last : ∀ l ∈ after, l.type ≠ t.limit.type :=
    fun l member same => (List.nodup_cons.mp tail).1 (same ▸ List.mem_map_of_mem member)
  exact ⟨_,_,by rw [limitRequests_ok built,split,List.filterMap_append,List.filterMap_cons,mine],
    filterMap_aside first,filterMap_aside last⟩

/-- Without an amount for its type, this limit is not requested. -/
theorem requests_aside (skips : amount t.rule.type = none)
    (built : limitRequests D.limiter.config.getRule t.qos amount t.qos.rateLimits = .ok requests) : t.Aside requests := by
  intro req member
  rw [limitRequests_ok built] at member
  obtain ⟨l,_,made⟩ := List.mem_filterMap.mp member
  obtain ⟨rule,known,made⟩ := Option.bind_eq_some_iff.mp made
  obtain ⟨n,counts,rfl⟩ := Option.map_eq_some_iff.mp made
  refine ⟨_,_,_,rfl,fun same => ?_⟩
  rw [same,t.known] at known
  cases known
  rw [skips] at counts
  cases counts

/-! ### The check -/

private theorem readItems_append (a b : List (Option CheckItem)) :
    readItems (a ++ b) = readItems a >>= fun x => readItems b >>= fun y => pure (x ++ y) := by
  induction a with
  | nil => exact (bind_ret (readItems b)).symm
  | cons item a ih =>
    cases item with
    | none | some => simp [readItems,ih]

theorem unseen_items {answers : (op : Op) → Reply op → Prop} (aside : t.Aside requests)
    (now : Int) : Within answers t.protocol.Unseen (fun _ => True) (readItems (requests.map (D.limiter.checkItem now))) := by
  refine readItems_within ?_
  intro item member
  obtain ⟨req,listed,found⟩ := List.mem_map.mp member
  obtain ⟨rule,known,rfl⟩ := Option.map_eq_some_iff.mp found
  exact ⟨unseen_get (aside_key aside ⟨listed,rule,now,known,rfl⟩),fun _ => ⟨trivial,fun _ => rfl⟩⟩

private theorem checkAmount_eq (t : Target D) : checkAmount t.rule.type = some t.amount := by
  unfold amount
  cases t.rule.type <;> rfl

/-- `CheckLimit` leaves the session with the value it found in the window of its
    clock, and answers whether that value is over the limit. -/
theorem follows_checkLimit {answers : (op : Op) → Reply op → Prop} (left : t.Aside before) (right : t.Aside after) :
    Follows answers t.protocol (fun b r => ∃ w v, b = .read w v ∧ ∀ resp, r = .ok resp →
        ∃ one : RateLimitResponse, some one ∈ resp ∧ (one.overLimit = false → t.Admits v))
      (D.limiter.checkLimit (before ++ toRateLimitRequest t.qos t.limit.type t.limit.value t.amount :: after)) .idle := by
  have aims : t.Aims (before ++ toRateLimitRequest t.qos t.limit.type t.limit.value t.amount :: after) :=
    ⟨_,List.mem_append_right _ (.head _),rfl,rfl⟩
  simp only [RedisRateLimter.checkLimit,issue_bind,follows_call]
  refine ⟨fun _ => rfl,fun now _ => ?_⟩
  have opened : t.protocol.observe .idle (.now (.checkLimit
      (before ++ toRateLimitRequest t.qos t.limit.type t.limit.value t.amount :: after))) now =
        .opened (windowOf t.rule now) := if_pos aims
  have item : D.limiter.checkItem now (toRateLimitRequest t.qos t.limit.type t.limit.value t.amount) =
      some ⟨toRateLimitRequest t.qos t.limit.type t.limit.value t.amount,t.key (windowOf t.rule now)⟩ := by
    simp only [RedisRateLimter.checkItem,show (toRateLimitRequest t.qos t.limit.type t.limit.value t.amount).ruleName =
      t.limit.type from rfl,t.known,Option.map_some]
    rfl
  rw [opened,List.map_append,List.map_cons,item,readItems_append]
  simp only [bind_assoc]
  refine follows_bind (follows_unseen (unseen_items left now)) ?_
  rintro _ first ⟨rfl,_⟩
  simp only [readItems,issue_bind,call_bind,follows_call]
  refine ⟨trivial,fun getCmd _ => ⟨trivial,fun ttlCmd _ => ?_⟩⟩
  have found : t.protocol.observe (t.protocol.observe (.opened (windowOf t.rule now)) (.get (t.key (windowOf t.rule now)))
      getCmd) (.ttl (t.key (windowOf t.rule now))) ttlCmd = .read (windowOf t.rule now) (currentValue getCmd) := if_pos rfl
  rw [found]
  simp only [bind_assoc]
  refine follows_bind (follows_unseen (unseen_items right now)) ?_
  rintro _ rest ⟨rfl,_⟩
  simp only [pure_eq,ret_bind]
  split
  · exact ⟨_,_,rfl,fun resp ok => by cases ok⟩
  · refine ⟨_,_,rfl,fun resp ok => ?_⟩
    cases ok
    exact ⟨_,List.mem_map.mpr ⟨_,List.mem_append_right _ (.head _),rfl⟩,fun under => of_decide_eq_false under⟩

private theorem firstOver_none {resp : List (Option RateLimitResponse)} (none_ : firstOver resp = none) {one : RateLimitResponse}
    (member : some one ∈ resp) : one.overLimit = false := by
  induction resp with
  | nil => cases member
  | cons first rest ih =>
    cases first with
    | none =>
      rcases List.mem_cons.mp member with same | member
      · cases same
      · exact ih none_ member
    | some r =>
      rw [firstOver] at none_
      split at none_
      · cases none_
      · rename_i under
        rcases List.mem_cons.mp member with same | member
        · cases same
          simpa using under
        · exact ih none_ member

/-- A session that passes the check has found a value that admits it. -/
theorem follows_checkRateLimit {answers : (op : Op) → Reply op → Prop} :
    Follows answers t.protocol (fun b o => (∀ resp ∈ o, isImmediate resp = true) ∧
      (o = none → ∃ w v, b = .read w v ∧ t.Admits v)) (checkRateLimit D.server t.qos) .idle := by
  unfold checkRateLimit
  split
  · simp
  rename_i requests built
  obtain ⟨before,after,rfl,left,right⟩ := requests_split t.checkAmount_eq built
  refine follows_bind (follows_checkLimit left right) ?_
  rintro _ r ⟨w,v,rfl,answered⟩
  rcases r with e | resp
  · simp
  obtain ⟨one,member,admits⟩ := answered resp rfl
  cases exceeds : firstOver resp with
  | none =>
    simp only [exceeds,pure_eq,follows_ret]
    exact ⟨by simp,fun _ => ⟨w,v,rfl,admits (firstOver_none exceeds member)⟩⟩
  | some r =>
    simp only [exceeds,server_collector,issue_bind,follows_call]
    exact ⟨trivial,fun _ _ => by simp⟩

/-! ### The increment -/

/-- The time to live is at least the length of the window. -/
def Long (rule : LimitRuleConfig) (seconds : Int) : Prop := ∀ s, Lasts rule s → s ≤ seconds

/-- The commands that `DoLimit` queues at `now`. -/
inductive Queued (c : RedisRateLimter) (now : Int) : List RateLimitRequest → List LimitCmd → Prop
  | done : Queued c now [] []
  | skip {req : RateLimitRequest} {requests : List RateLimitRequest} {cmds : List LimitCmd} :
      c.config.getRule req.ruleName = none → Queued c now requests cmds → Queued c now (req :: requests) cmds
  | next {req : RateLimitRequest} {requests : List RateLimitRequest} {rule : LimitRuleConfig} {cmds : List LimitCmd}
      {expiry : List Int} : c.config.getRule req.ruleName = some rule → (∀ seconds ∈ expiry, Long rule seconds) →
      Queued c now requests cmds →
      Queued c now (req :: requests) (.incrBy (generateRateKey c.keyPrefix req rule (unix now)) req.request ::
        (expiry.map (.expire (generateRateKey c.keyPrefix req rule (unix now))) ++ cmds))

theorem formatSec_long {name : String} (known : newLimitConfig.getRule name = some rule)
    {extra : Int} (low : 0 ≤ extra) (high : extra < second) : Long rule (formatSec (int64 (windowSize rule + extra))) := by
  intro s lasts
  have size := lasts.size
  have positive := lasts.positive
  have short : windowSize rule ≤ 86400 * second := by
    obtain ⟨_,_,minute | day⟩ := newLimitConfig_cases known
    · rw [minute.size]
      decide
    · exact day.size.le
  unfold second at *
  rw [int64_of_fits ⟨by omega,by omega⟩,formatSec,if_neg (by unfold second; omega),
    Int.tdiv_eq_ediv_of_nonneg (by omega)]
  unfold second
  omega

theorem made_known {c : RedisRateLimter} (made : Made c) {name : String}
    (known : c.config.getRule name = some rule) : newLimitConfig.getRule name = some rule := by
  obtain ⟨keyPrefix,draw,_,_,rfl⟩ := made
  exact known

private theorem made_jitter {c : RedisRateLimter} (made : Made c) : c.jitter < second := by
  obtain ⟨keyPrefix,draw,_,below,rfl⟩ := made
  simp only [newRedisRateLimter,second]
  omega

/-- The random part is below its bound, and a time to live is always told. -/
structure Told (answers : (op : Op) → Reply op → Prop) : Prop where
  random : ∀ bound n, answers (.random bound) n → 0 ≤ n ∧ (0 < bound → n < bound)
  ttl : ∀ key r, answers (.ttl key) r → ∃ left, r = .ok left

section Queue
variable {c : RedisRateLimter} {answers : (op : Op) → Reply op → Prop} {P : Op → Prop}

theorem expireCmds_long (made : Made c) (drawn : ∀ bound n, answers (.random bound) n → 0 ≤ n ∧ (0 < bound → n < bound))
    (draw : ∀ bound, P (.random bound)) {name : String}
    (known : c.config.getRule name = some rule) (key : String) (ttl : Int) :
    Within answers P (fun cmds => ∃ expiry : List Int, cmds = expiry.map (.expire key) ∧
      ∀ seconds ∈ expiry, Long rule seconds) (c.expireCmds rule key ttl) := by
  have jitter := made_jitter made
  unfold RedisRateLimter.expireCmds RedisRateLimter.expiration
  by_cases fresh : ttl < 0
  · by_cases jitters : 0 < c.jitter
    · simp only [fresh,jitters,if_true,issue_bind,call_bind,within_call]
      refine ⟨draw _,?_⟩
      intro extra random
      obtain ⟨low,high⟩ := drawn _ _ random
      refine ⟨[_],rfl,?_⟩
      simp only [List.mem_singleton,forall_eq]
      exact formatSec_long (made_known made known) low ((high jitters).trans jitter)
    · simp only [fresh,jitters,if_true,if_false]
      refine ⟨[_],rfl,?_⟩
      simp only [List.mem_singleton,forall_eq]
      simpa [windowSize,int64] using formatSec_long (made_known made known) (le_refl 0) (by decide)
  · simp only [fresh,if_false]
    exact ⟨[],rfl,by simp⟩

theorem queueLimits_queued (made : Made c) (told : Told answers) (draw : ∀ bound, P (.random bound))
    (ttl : ∀ key, P (.ttl key)) (now : Int) (requests : List RateLimitRequest) :
    Within answers P (fun r => ∃ cmds, r = .ok cmds ∧ Queued c now requests cmds) (c.queueLimits now requests) := by
  induction requests with
  | nil => exact ⟨[],rfl,.done⟩
  | cons req requests ih =>
    rw [RedisRateLimter.queueLimits]
    cases known : c.config.getRule req.ruleName with
    | none =>
      refine within_mono ih (fun _ ok => ok) ?_
      rintro r ⟨cmds,rfl,queued⟩
      exact ⟨cmds,rfl,.skip known queued⟩
    | some rule =>
      simp only [issue_bind,within_call]
      refine ⟨ttl _,?_⟩
      intro _ answered
      obtain ⟨left,rfl⟩ := told.ttl _ _ answered
      refine within_bind (expireCmds_long made told.random draw known _ left) ?_
      rintro _ ⟨expiry,rfl,long⟩
      refine within_bind ih ?_
      rintro _ ⟨cmds,rfl,queued⟩
      exact ⟨_,rfl,.next known long queued⟩

end Queue

theorem answers_told (t : Target D) : Told t.Answers := ⟨fun _ _ drawn => drawn,fun _ _ answered => answered⟩

theorem runLimits_append (a b : List LimitCmd) :
    runLimits (a ++ b) = runLimits a >>= fun x => runLimits b >>= fun y => pure (x.or y) := by
  induction a with
  | nil => simp [runLimits,bind_ret]
  | cons cmd a ih =>
    cases cmd with
    | incrBy | expire => simp [runLimits,ih,Option.or_assoc]

theorem queued_aside {now : Int} {cmds : List LimitCmd} (aside : t.Aside requests)
    (queued : Queued D.limiter now requests cmds) : ∀ cmd ∈ cmds, t.protocol.Unseen cmd.op := by
  induction queued with
  | done => simp
  | skip _ _ ih => exact ih (fun req member => aside req (.tail _ member))
  | @next req requests rule cmds expiry known _ _ ih =>
    have other : ∀ w, generateRateKey D.limiter.keyPrefix req rule (unix now) ≠ t.key w :=
      aside_key aside ⟨.head _,rule,now,known,rfl⟩
    simp only [List.mem_cons,List.mem_append,List.mem_map]
    rintro cmd (rfl | ⟨seconds,_,rfl⟩ | member)
    · exact unseen_incrBy other _
    · exact unseen_expire other _
    · exact ih (fun req member => aside req (.tail _ member)) cmd member

private theorem unseen_long {key : String} {seconds : Int} (long : Long t.rule seconds) : t.protocol.Unseen
    (.expire key seconds) :=
  fun _ => ⟨fun _ _ => long,fun _ => rfl⟩

/-- Among the queued commands, the one increment of this limit takes the session to its end. -/
theorem follows_runLimits {now n : Int} (one : t.rule.type = .request → n = 1)
    (right : t.Aside after) (left : t.Aside before) {cmds : List LimitCmd}
    (queued : Queued D.limiter now (before ++ toRateLimitRequest t.qos t.limit.type t.limit.value n :: after) cmds)
    {stage : Stage} (due : t.Due (windowOf t.rule now) stage) :
    Follows t.Answers t.protocol (fun b _ => b = .charged) (runLimits cmds) stage := by
  induction before generalizing cmds with
  | nil =>
    cases queued with
    | skip unknown _ =>
      have known : D.limiter.config.getRule t.limit.type = none := unknown
      rw [t.known] at known
      cases known
    | @next _ _ rule cmds expiry known long queued =>
      have same : some t.rule = some rule := t.known.symm.trans known
      cases same
      have charged : ∀ r, t.protocol.observe stage (.incrBy (t.key (windowOf t.rule now)) n) r = .charged := by
        intro r
        rcases due with rfl | ⟨_,rfl⟩
        · exact if_pos rfl
        · rfl
      have rest : ∀ cmd ∈ expiry.map (LimitCmd.expire (t.key (windowOf t.rule now))) ++ cmds, t.protocol.Unseen cmd.op := by
        simp only [List.mem_append,List.mem_map]
        rintro cmd (⟨seconds,member,rfl⟩ | member)
        · exact unseen_long (long seconds member)
        · exact queued_aside right queued cmd member
      change Follows _ _ _ (runLimits (.incrBy (t.key (windowOf t.rule now)) n :: _)) stage
      simp only [runLimits,issue_bind,follows_call]
      refine ⟨?_,fun r _ => ?_⟩
      · intro w same
        cases key_inj same
        exact ⟨due,one⟩
      · rw [charged r]
        refine follows_bind (follows_unseen (runLimits_within rest)) ?_
        rintro _ _ ⟨rfl,_⟩
        rfl
  | cons req before ih =>
    have others : t.Aside before := fun x member => left x (.tail _ member)
    have first : t.Aside [req] := fun x member => left x (List.mem_singleton.mp member ▸ (.head _))
    cases queued with
    | skip _ queued => exact ih others queued
    | @next _ _ rule cmds expiry known long queued =>
      have queue : Queued D.limiter now [req] _ := .next known long .done
      have head := queued_aside first queue
      have whole : ∀ (a : LimitCmd) (b c : List LimitCmd), a :: (b ++ c) = (a :: (b ++ [])) ++ c := by simp
      rw [whole,runLimits_append]
      refine follows_bind (follows_unseen (runLimits_within head)) ?_
      rintro _ _ ⟨rfl,_⟩
      refine follows_bind (ih others queued) ?_
      rintro _ _ rfl
      rfl

/-- `DoLimit` for this limit takes an admitted session to its increment. -/
theorem follows_doLimit {n : Int} (one : t.rule.type = .request → n = 1)
    (left : t.Aside before) (right : t.Aside after) {stage : Stage} (ready : t.Ready stage) :
    Follows t.Answers t.protocol (fun b _ => b = .charged)
      (D.limiter.doLimit (before ++ toRateLimitRequest t.qos t.limit.type t.limit.value n :: after)) stage := by
  have aims : t.Aims (before ++ toRateLimitRequest t.qos t.limit.type t.limit.value n :: after) :=
    ⟨_,List.mem_append_right _ (.head _),rfl,rfl⟩
  simp only [RedisRateLimter.doLimit,issue_bind,follows_call]
  refine ⟨fun _ => ready,fun now _ => ?_⟩
  have due : t.Due (windowOf t.rule now) (t.protocol.observe stage (.now (.doLimit
      (before ++ toRateLimitRequest t.qos t.limit.type t.limit.value n :: after))) now) := by
    simp only [protocol,observe,if_pos aims]
    rcases ready with ⟨w,v,rfl,_⟩ | ⟨token,rfl⟩
    · exact .inl rfl
    · exact .inr ⟨token,rfl⟩
  refine follows_bind (follows_unseen (queueLimits_queued t.made t.answers_told (fun _ _ => ⟨trivial,fun _ => rfl⟩)
    (fun _ _ => ⟨trivial,fun _ => rfl⟩) now _)) ?_
  rintro _ _ ⟨rfl,cmds,rfl,queued⟩
  refine follows_bind (follows_runLimits one right left queued due) ?_
  rintro _ _ rfl
  rfl

theorem follows_doLimits {n : Int} (counts : amount t.rule.type = some n)
    (one : t.rule.type = .request → n = 1) {stage : Stage} (ready : t.Ready stage) :
    Follows t.Answers t.protocol (fun b _ => b = stage ∨ b = .charged) (doLimits D.server t.qos amount) stage := by
  unfold doLimits
  split
  · exact .inl rfl
  rename_i requests built
  obtain ⟨before,after,rfl,left,right⟩ := requests_split counts built
  exact follows_mono (follows_doLimit one left right ready) (fun _ _ charged => .inr charged)

/-- Limits of the other type are counted without this one. -/
theorem unseen_doLimits {answers : (op : Op) → Reply op → Prop} (skips : amount t.rule.type = none) :
    Within answers t.protocol.Unseen (fun _ => True) (doLimits D.server t.qos amount) := by
  unfold doLimits
  split
  · trivial
  rename_i requests built
  have aside := requests_aside skips built
  refine doLimit_within _ (unseen_limit (aside_not_aims aside)) (fun _ _ => ⟨trivial,fun _ => rfl⟩) ?_
  intro req key used
  have other := aside_key aside used
  exact ⟨fun _ => ⟨trivial,fun _ => rfl⟩,unseen_incrBy other _,unseen_expire other⟩

/-! ### The session as a whole -/

/-- Where a session stands, by its phase. -/
def Stands (t : Target D) : Phase → Option UserQos → Stage → Prop
  | .opening,q,stage | .requested,q,stage => q = none ∧ stage = .idle
  | .forwarded,q,stage | .answering,q,stage => ∀ qos, q = some qos →
      t.Other qos ∨ qos = t.qos ∧ (t.rule.type = .token → t.Ready stage)
  | .over,_,_ => True

private theorem token_ready {stage : Stage} (token : t.rule.type = .token) (ready : t.Ready stage) {b : Stage}
    (reached : b = stage ∨ b = .charged) : t.Ready b := by
  rcases reached with rfl | rfl
  · exact ready
  · exact .inr ⟨token,rfl⟩

/-- A qos that the stores give belongs to the fixed user and model, and is the fixed one, or does not. -/
theorem granted_cases {token model : String} {qos : UserQos}
    (granted : Grants t.Steady (fun _ => True) token model qos) : t.Other qos ∨ qos = t.qos := by
  obtain ⟨obj,steady,_,named,ep,_,_,served⟩ := granted
  have model_eq := (qosOf_entry named).1
  have plain : PlainQos qos := by
    obtain ⟨entry,found,rfl⟩ := Option.map_eq_some_iff.mp named
    refine ⟨obj.namespace_.lacks_equals,obj.name.lacks_equals,?_⟩
    rw [model_eq,← served]
    exact ep.name.lacks_colon
  by_cases same : qos.namespace_ = t.qos.namespace_ ∧ qos.user = t.qos.user ∧ qos.model = t.qos.model
  · refine .inr (steady qos ?_ same.1 same.2.1)
    rw [← same.2.2,model_eq]
    exact named
  · exact .inl ⟨plain,same⟩

private theorem answers_stored (t : Target D) : Stored t.Steady (fun _ => True) t.Answers :=
  ⟨fun _ objs listed => listed objs rfl,fun _ eps listed ep member => ⟨trivial,listed eps rfl ep member⟩⟩

theorem admitted_follows {stage : Stage} (idle : stage = .idle) (model : String) (stream : Bool) :
    Follows t.Answers t.protocol (fun b result => result.qos = some t.qos ∧
      if isImmediate result.resp then True else t.Stands .forwarded (some t.qos) b)
      (admitRequest D.server t.qos model stream) stage := by
  subst idle
  unfold admitRequest
  refine follows_bind follows_checkRateLimit ?_
  rintro b rate ⟨immediate,admitted⟩
  cases rate with
  | some resp => simp [immediate resp rfl]
  | none =>
    obtain ⟨w,v,rfl,admits⟩ := admitted rfl
    refine follows_bind (follows_unseen (checkQuota_within unseen_quota)) ?_
    rintro _ quota ⟨rfl,immediate⟩
    cases quota with
    | some resp => simp [immediate resp rfl]
    | none =>
      have ready : t.Ready (.read w v) := .inl ⟨w,v,rfl,admits⟩
      have counted : Follows t.Answers t.protocol (fun b _ => t.rule.type = .token → t.Ready b)
          (doLimits D.server t.qos requestAmount) (.read w v) := by
        cases kind : t.rule.type with
        | request =>
          refine follows_mono (follows_doLimits (n := 1) (by rw [kind]; rfl) (fun _ => rfl) ready) ?_
          intro _ _ _ token
          cases token
        | token =>
          refine follows_mono (follows_unseen (unseen_doLimits (by rw [kind]; rfl))) ?_
          rintro _ _ ⟨rfl,_⟩ _
          exact ready
      refine follows_bind counted ?_
      intro b limited reached
      cases limited with
      | error e => simp [headerError,generateErrorResponse,isImmediate]
      | ok _ =>
        refine ⟨rfl,?_⟩
        simp only [isImmediate,Bool.false_eq_true,if_false]
        intro qos same
        cases same
        exact .inr ⟨rfl,reached⟩

theorem charged_follows {stage : Stage} (ready : t.rule.type = .token → t.Ready stage) (usage : CompletionUsage)
    (complete : Bool) : Follows t.Answers t.protocol (fun b _ => t.rule.type = .token → t.Ready b)
      (chargeUsage D.server (some t.qos) usage complete) stage := by
  unfold chargeUsage
  split
  · exact ready
  have counted : Follows t.Answers t.protocol (fun b _ => t.rule.type = .token → t.Ready b)
      (doLimits D.server t.qos (tokenAmount usage.totalTokens)) stage := by
    cases kind : t.rule.type with
    | request =>
      refine follows_mono (follows_unseen (unseen_doLimits (by rw [kind]; rfl))) ?_
      intro _ _ _ token
      cases token
    | token =>
      refine follows_mono (follows_doLimits (n := usage.totalTokens) (by rw [kind]; rfl) ?_ (ready kind)) ?_
      · intro request
        rw [kind] at request
        cases request
      · intro _ _ reached _
        exact token_ready kind (ready kind) reached
  refine follows_bind counted ?_
  intro b limited reached
  rcases limited with e | _
  · exact reached
  refine follows_bind (follows_unseen (doTokenQuotaLimit_within unseen_quota _)) ?_
  rintro _ charged ⟨rfl,_⟩
  cases charged <;> exact reached

theorem session_rules (t : Target D) :
    SessionRules D t.Steady (fun _ => True) t.Answers t.protocol t.Stands (fun _ _ => True) where
  blind := fun a op plain => ⟨(unseen_plain plain a).1,fun r _ => (unseen_plain plain a).2 r⟩
  requested _ _ opening := opening
  answering := by
    rintro q stage (requested | forwarded)
    · intro qos some_
      rw [requested.1] at some_
      cases some_
    · exact forwarded
  ended _ _ _ _ _ := trivial
  admitted := by
    intro _ stage token qos model stream requested granted
    rcases granted_cases (granted t.answers_stored) with other | rfl
    · refine follows_mono (follows_unseen (admitRequest_within (unseen_other other) unseen_quota model stream)) ?_
      rintro _ result ⟨rfl,owner⟩
      refine ⟨owner,?_⟩
      split
      · trivial
      · intro qos same
        cases same
        exact .inl other
    · exact admitted_follows requested.2 model stream
  charged := by
    intro q stage usage complete stands
    cases q with
    | none =>
      unfold chargeUsage
      split <;> exact stands
    | some qos =>
      rcases stands qos rfl with other | ⟨rfl,ready⟩
      · refine follows_mono (follows_unseen (chargeUsage_within (unseen_other other) unseen_quota usage complete)) ?_
        rintro _ _ ⟨rfl,_⟩
        exact stands
      · refine follows_mono (charged_follows ready usage complete) ?_
        intro b _ reached qos same
        cases same
        exact .inr ⟨rfl,reached⟩

/-- Every program that a party takes up follows the protocol. -/
theorem starts_follow {i : ι} {l : Local} {p : Action Local} {stage : Stage}
    (rests : Keeps t.Stands (fun _ _ => True) (fun _ => True) stage l) (begins : Starts D i l p) :
    Follows t.Answers t.protocol (Keeps t.Stands (fun _ _ => True) (fun _ => True)) p stage :=
  session_follows t.session_rules (fun _ _ => follows_mono (follows_unseen unseen_pass) (fun _ _ _ => trivial)) rests begins

end Target
end Arks.RateSessions
