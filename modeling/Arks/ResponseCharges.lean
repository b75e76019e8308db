import Arks.Consumption

/-!
What a response is charged. The token limits come first, then the quota, each in a
pipeline of its own with the read of the quota in between. A counter is charged once
for each entry of its type, so an entry that is repeated is charged again, and a step of
the quota that fails leaves the limits charged.
-/
namespace Arks.ResponseCharges
open Programs Programs.Prog Counters Effects Services Gateway RateSessions
open Sessions Charges Consumption
open Api (RateLimitType TokenRateLimit QuotaItem ArksQuota)

/-! ### Counters by type -/

/-- The rule of a type that the schema admits. -/
def ruleOf : RateLimitType → LimitRuleConfig
  | .rpm => ⟨"rpm",.request,1,.minute⟩
  | .rpd => ⟨"rpd",.request,1,.day⟩
  | .tpm => ⟨"tpm",.token,1,.minute⟩
  | .tpd => ⟨"tpd",.token,1,.day⟩

/-- The counter of a user's limit at a moment. -/
def counter (c : RedisRateLimter) (qos : UserQos) (now : Int) (type : RateLimitType) : String :=
  rateKey c.keyPrefix qos type.text (windowOf (ruleOf type) now)

/-- The key of one type of the user's quota. -/
def quotaCounter (s : RedisQuotaService) (qos : UserQos) (type : String) : String :=
  quotaKey s.keyPrefix qos.namespace_ qos.quotaName type

variable {type : RateLimitType}

section Counters
variable {c : RedisRateLimter} {s : RedisQuotaService} {qos : UserQos} {now : Int} {limits : List TokenRateLimit}
  {items : List QuotaItem} {amount : LimitType → Option Int}

private theorem getRule_ruleOf (made : Made c) (type : RateLimitType) : c.config.getRule type.text = some (ruleOf type) := by
  obtain ⟨keyPrefix,draw,_,_,rfl⟩ := made
  show newLimitConfig.getRule type.text = some (ruleOf type)
  cases type <;> decide

private theorem counter_inj {type' : RateLimitType} (same : counter c qos now type = counter c qos now type') : type = type' := by
  have plain : ∀ type : RateLimitType, Texts.Lacks '.' type.text := by
    intro type
    cases type <;> decide
  obtain ⟨_,names,_⟩ := limitKey_inj (plain type) (plain type') same
  cases type <;> cases type' <;> first | rfl | exact absurd names (by decide)

theorem entryIncrements_types (made : Made c) (listed : qos.rateLimits = limits.map toRateLimit) :
    entryIncrements c qos amount now = limits.filterMap (fun limit =>
      (amount (ruleOf limit.type).type).map (fun n => (counter c qos now limit.type,n))) := by
  rw [entryIncrements,listed,List.filterMap_map]
  refine List.filterMap_congr (fun limit _ => ?_)
  simp only [Function.comp_apply,toRateLimit,getRule_ruleOf made,Option.bind_some]
  rfl

/-- A counter is charged once for each entry of its type. -/
theorem charged_counter (made : Made c) (listed : qos.rateLimits = limits.map toRateLimit) {n : Int}
    (counts : amount (ruleOf type).type = some n) :
    charged (counter c qos now type) (entryIncrements c qos amount now) =
    ((limits.map TokenRateLimit.type).count type : Int) * n := by
  rw [entryIncrements_types made listed]
  clear listed
  induction limits with
  | nil => simp [charged]
  | cons limit limits ih =>
    by_cases same : limit.type = type
    · subst same
      simp only [List.filterMap_cons,counts,Option.map_some,charged,if_true,ih,List.map_cons,List.count_cons_self]
      push_cast
      ring
    · have apart : counter c qos now limit.type ≠ counter c qos now type := mt counter_inj same
      rw [List.map_cons,List.count_cons_of_ne same,← ih,List.filterMap_cons]
      cases amount (ruleOf limit.type).type with
      | none => rfl
      | some m => simp [charged,apart]

private theorem quotaCounter_inj {type type' : String} (same : quotaCounter s qos type = quotaCounter s qos type') :
    type = type' := by
  have spelled : ∀ t, (quotaCounter s qos t).toList =
      (s.keyPrefix ++ ":namespace=" ++ qos.namespace_ ++ ".quotaname=" ++ qos.quotaName ++ ".type=").toList ++
        (t.toList ++ ['.']) := by
    intro t
    simp [quotaCounter,quotaKey,identifierText]
  have chars := congrArg String.toList same
  rw [spelled,spelled] at chars
  exact String.toList_inj.mp (List.append_cancel_right (List.append_cancel_left chars))

/-- The increments for the types of a quota. -/
def typeIncrements (s : RedisQuotaService) (qos : UserQos) (items : List QuotaItem) (countMap : String → Int) : List
    (String × Int) :=
  items.map (fun item => (quotaCounter s qos item.type,countMap item.type))

private theorem charged_quotaCounter {countMap : String → Int} {type : String} :
    charged (quotaCounter s qos type) (typeIncrements s qos items countMap) =
      ((items.map QuotaItem.type).count type : Int) * countMap type := by
  induction items with
  | nil => simp [typeIncrements,charged]
  | cons item items ih =>
    have first : typeIncrements s qos (item :: items) countMap =
        (quotaCounter s qos item.type,countMap item.type) :: typeIncrements s qos items countMap := rfl
    rw [first,charged,ih,List.map_cons]
    by_cases same : item.type = type
    · rw [same,List.count_cons_self,if_pos rfl]
      push_cast
      ring
    · rw [List.count_cons_of_ne same,if_neg (mt quotaCounter_inj same),zero_add]

theorem charged_apart {key : String} {incs : List (String × Int)} (apart : ∀ inc ∈ incs, inc.1 ≠ key) : charged key incs = 0 := by
  induction incs with
  | nil => rfl
  | cons inc incs ih =>
    rw [charged,if_neg (apart inc (by simp)),ih (fun other is => apart other (by simp [is]))]
    rfl

/-- The counters of the limits are no keys of the quota. -/
theorem types_counter {countMap : String → Int} :
    ∀ inc ∈ typeIncrements s qos items countMap, inc.1 ≠ counter c qos now type := by
  intro inc is same
  obtain ⟨item,_,rfl⟩ := List.mem_map.mp is
  have digit := rateKey_digit c.keyPrefix qos type.text (windowOf (ruleOf type) now)
  rw [← counter,← same] at digit
  exact quotaKey_digit _ _ _ _ digit

end Counters

/-! ### The two steps -/

/-- What the limiter issues to charge. -/
def LimiterOp : Op → Prop
  | .now _ | .random _ | .ttl _ => True
  | .incrBy key _ | .expire key _ => EndsInDigit key
  | _ => False

/-- The read of the quota failed. -/
def unread : Call Op Reply → Bool
  | ⟨.getQuota _ _,.error _⟩ => true
  | _ => false

/-- An increment in the pipeline of the limiter, or in the one of the quota. -/
def sends (limits : Bool) : Call Op Reply → Bool
  | ⟨.incrBy key n,_⟩ => ofLimiter (.incrBy key n) == limits
  | _ => false

/-- The specification of the user's quota, also in the versions of it that may be cached. A quota that
    is not named or not there has no types. -/
structure Specified (w : World) (qos : UserQos) (items : List QuotaItem) : Prop where
  unnamed : qos.quotaName = "" → items = []
  versions : ∀ q ∈ w.quotas ++ w.past, q.namespace_.val = qos.namespace_ → q.name.val = qos.quotaName → q.quotas = items
  missing : (∀ q ∈ w.quotas ++ w.past, q.namespace_.val = qos.namespace_ → q.name.val ≠ qos.quotaName) → items = []

section Steps
variable {c : RedisRateLimter} {s : RedisQuotaService} {codec : Codec} {limiter quota : Delivery} {w w' : World}
  {calls : List (Call Op Reply)} {qos : UserQos} {items : List QuotaItem} {countMap : String → Int} {r : Except String Unit}

theorem limiterOp_sends {op : Op} (own : LimiterOp op) (r : Reply op) : unread ⟨op,r⟩ = false ∧ sends false ⟨op,r⟩ = false := by
  cases op with
  | incrBy key n =>
    have mine : ofLimiter (.incrBy key n) = true := (ofLimiter_iff _).mpr ⟨key,rfl,own⟩
    exact ⟨rfl,by simp [sends,mine]⟩
  | now | random | ttl | expire => exact ⟨rfl,rfl⟩
  | _ => cases own

private theorem doLimits_ops {amount : LimitType → Option Int} :
    Issues LimiterOp (fun _ => True) (doLimits (newServer c s codec) qos amount) := by
  unfold doLimits
  split
  · trivial
  · refine doLimit_within c trivial (fun _ => trivial) ?_
    rintro req key ⟨_,rule,now,_,rfl⟩
    have digit := generateRateKey_digit c.keyPrefix req rule (unix now)
    exact ⟨trivial,digit,fun _ => digit⟩

/-- Without an increment for the limits none is sent. -/
theorem doLimits_unsent {amount : LimitType → Option Int} {now : Int} (none_ : entryIncrements c qos amount now = []) :
    Issues (fun op => isWrite op = false) (fun _ => True) (doLimits (newServer c s codec) qos amount) := by
  unfold doLimits
  split
  · trivial
  · rename_i requests built
    refine doLimit_within c rfl (fun _ => rfl) ?_
    rintro req key ⟨member,rule,now',known,rfl⟩
    have listed : requests = qos.rateLimits.filterMap (limitRequest c.config.getRule qos amount) := limitRequests_ok built
    rw [entryIncrements,← limitIncrements_entries,← listed,limitIncrements,List.filterMap_eq_nil_iff] at none_
    have unknown := none_ req member
    rw [known] at unknown
    cases unknown

/-- What a command does not change when it is carried out, it does not change at all. -/
theorem meets_keep {β : Type} {f : World → β} {op : Op} {r : Reply op} (ticks : ∀ w t, f { w with clock := t } = f w)
    (keeps : ∀ w, f (perform op w).2 = f w) (met : Meets limiter quota op w r w') : f w' = f w := by
  obtain ⟨t,_,reads,mine,other⟩ := met
  have fares : ∀ {delivery}, Fares delivery op { w with clock := t } r w' → f w' = f w := by
    intro delivery fares
    rw [← ticks w t]
    cases delivery with
    | whole =>
      obtain ⟨_,rfl,_⟩ := fares
      exact keeps _
    | refused =>
      obtain ⟨_,rfl⟩ := fares
      rfl
    | unreported =>
      obtain ⟨_,rfl,_⟩ := fares
      exact keeps _
  cases kind : isWrite op with
  | false =>
    rw [← ticks w t]
    cases reads kind with
    | done | unheard => exact keeps _
    | refused | random | staleQuota | staleQuotas => rfl
  | true =>
    by_cases limits : OfLimiter op
    · exact fares (mine kind limits)
    · exact fares (other kind limits)

/-- The limiter leaves the quotas as they are. -/
theorem perform_quotas {op : Op} (own : LimiterOp op) (w : World) :
    (perform op w).2.quotas ++ (perform op w).2.past = w.quotas ++ w.past := by
  cases op with
  | now | random | ttl => rfl
  | incrBy | expire =>
    simp only [perform]
    split <;> rfl
  | _ => cases own

/-- Without an increment the log stays as it is. -/
theorem perform_log {op : Op} (own : LimiterOp op) (unsent : ∀ r, sends true ⟨op,r⟩ = false) (w : World) :
    (perform op w).2.increments = w.increments := by
  cases op with
  | now | random | ttl => rfl
  | incrBy key n =>
    have mine : ofLimiter (.incrBy key n) = true := (ofLimiter_iff _).mpr ⟨key,rfl,own⟩
    have no := unsent (.ok ())
    simp [sends,mine] at no
  | expire =>
    simp only [perform]
    split <;> rfl
  | _ => cases own

private theorem incrAll_calls {requests : List QuotaRequest} {err : Option RedisErr} (run : Runs (s.incrAll requests) calls err) :
    (∀ call ∈ calls, unread call = false ∧ sends true call = false) ∧ calls.any (sends false) = !requests.isEmpty := by
  induction requests generalizing calls err with
  | nil =>
    obtain ⟨rfl,rfl⟩ := runs_ret.mp run
    simp
  | cons req requests ih =>
    obtain ⟨r,rest,rfl,later⟩ := runs_call.mp run
    have later : Runs (s.incrAll requests >>= fun err => pure ((errOf r).or err)) rest err := later
    obtain ⟨err',calls',last,rfl,runs,ends⟩ := runs_bind.mp later
    obtain ⟨rfl,rfl⟩ := runs_ret.mp ends
    have apart : ofLimiter (.incrBy (generateQuotaKey s.keyPrefix req) req.request) = false := by
      rw [← Bool.not_eq_true,ofLimiter_iff]
      rintro ⟨_,⟨⟩,digit⟩
      exact generateQuotaKey_digit _ _ digit
    rw [List.append_nil]
    constructor
    · intro call is
      rcases List.mem_cons.mp is with rfl | is
      · exact ⟨rfl,by simp [sends,apart]⟩
      · exact (ih runs).1 call is
    · simp [sends,apart]

private theorem meets_quota {ns name : String} {obj : ArksQuota} (met : Meets limiter quota (.getQuota ns name) w (.ok obj) w') :
    obj ∈ w.quotas ++ w.past ∧ obj.namespace_.val = ns ∧ obj.name.val = name := by
  obtain ⟨t,_,reads,_,_⟩ := met
  generalize read : (Except.ok obj : Reply (.getQuota ns name)) = answer at reads
  cases reads rfl with
  | done =>
    simp only [perform] at read
    split at read
    · cases read
    · rename_i found
      cases read
      have named := List.find?_some found
      simp only [Bool.and_eq_true,decide_eq_true_eq] at named
      exact ⟨List.mem_append_left _ (List.mem_of_find?_eq_some found),named⟩
  | refused _ failed | unheard _ failed =>
    cases failed
    cases read
  | staleQuota stored ns name =>
    cases read
    exact ⟨stored,ns,name⟩

/-- The increments for a quota as it was read are those for its types. -/
theorem quotaIncrements_read {obj : ArksQuota} (types : obj.quotas = items) (ns : obj.namespace_.val = qos.namespace_)
    (name : obj.name.val = qos.quotaName) :
    quotaIncrements s (qosToQuotaRequests (quotaConfigOf obj) countMap) = typeIncrements s qos items countMap := by
  rw [quotaIncrements,qosToQuotaRequests,typeIncrements,List.map_map,← types]
  refine List.map_congr_left (fun item _ => ?_)
  simp only [Function.comp_apply,quotaCounter,← ns,← name]
  rfl

/-- The read of the quota has failed, or the quota is charged for each of its types. -/
theorem doTokenQuotaLimit_piped (spec : Specified w qos items)
    (run : Runs (doTokenQuotaLimit (newServer c s codec) qos countMap) calls r)
    (played : Plays (Meets limiter quota) calls w w') :
    (∀ call ∈ calls, sends true call = false) ∧
    ((r.isOk = false ∧ calls.any unread = true ∧ Counted [] w w') ∨
      (calls.any unread = false ∧ calls.any (sends false) = !items.isEmpty ∧
        Piped quota (typeIncrements s qos items countMap) w r.isOk w')) := by
  unfold doTokenQuotaLimit at run
  split at run
  · rename_i unnamed
    obtain ⟨rfl,rfl⟩ := runs_ret.mp run
    rw [plays_nil.mp played,spec.unnamed unnamed]
    refine ⟨by simp,.inr ⟨rfl,rfl,?_,by simp [typeIncrements,Except.isOk,Except.toBool]⟩⟩
    rw [typeIncrements,List.map_nil,carries_nil]
    exact counted_refl _
  · obtain ⟨read,rest,rfl,later⟩ := runs_call.mp run
    obtain ⟨w₁,met,played₁⟩ := plays_cons.mp played
    have begun : Counted [] w w₁ := meets_read rfl met
    cases read with
    | error e =>
      obtain ⟨rfl,rfl⟩ := runs_ret.mp later
      rw [plays_nil.mp played₁]
      exact ⟨by simp [sends],.inl ⟨rfl,rfl,begun⟩⟩
    | ok obj =>
      obtain ⟨stored,ns,name⟩ := meets_quota met
      have types := spec.versions obj stored ns name
      have later : Runs (s.incrUsage (qosToQuotaRequests (quotaConfigOf obj) countMap)) rest r := later
      obtain ⟨counted,heard⟩ := incrUsage_piped later played₁
      obtain ⟨err,first,last,rfl,runs,ends⟩ := runs_bind.mp later
      obtain ⟨rfl,rfl⟩ := runs_ret.mp ends
      obtain ⟨others,sent⟩ := incrAll_calls runs
      rw [quotaIncrements_read types ns name] at counted heard
      rw [List.append_nil,List.any_cons,List.any_cons]
      refine ⟨fun call is => ?_,.inr ⟨?_,?_,counted_trans begun counted,heard⟩⟩
      · rcases List.mem_cons.mp is with rfl | is
        · rfl
        · exact (others call is).2
      · have read : first.any unread = false := by
          rw [List.any_eq_false]
          intro call is
          simp [(others call is).1]
        rw [read]
        rfl
      · rw [sent,← types,qosToQuotaRequests,List.isEmpty_map]
        rfl

end Steps

/-! ### The charge -/

/-- A step failed behind the charge of the limits: the replies of their pipeline were lost, the quota was
    not read, or its pipeline was refused. -/
def brokenOff (limiter quota : Delivery) (calls : List (Call Op Reply)) : Bool :=
  (decide (limiter = .unreported) && calls.any (sends true)) || calls.any unread ||
    (decide (quota = .refused) && calls.any (sends false))

section Charge
variable {c : RedisRateLimter} {s : RedisQuotaService} {codec : Codec} {limiter quota : Delivery} {w w' : World}
  {calls : List (Call Op Reply)} {qos : UserQos} {items : List QuotaItem} {usage : CompletionUsage} {complete : Bool}
  {result : BodyResult}

theorem any_false {p : Call Op Reply → Bool} (none_ : ∀ call ∈ calls, p call = false) : calls.any p = false := by
  rw [List.any_eq_false]
  intro call is
  simp [none_ call is]

theorem reads_unsent {limits : Bool} (reads : ∀ call ∈ calls, isWrite call.1 = false) : calls.any (sends limits) = false := by
  refine any_false (fun call is => ?_)
  have read := reads call is
  rcases call with ⟨op,r⟩
  cases op <;> first | rfl | cases read

/-- What the step of the limits leaves behind: no step of the quota, the quotas as they were, and an
    increment of its own only for a limit. -/
theorem doLimits_calls {amount : LimitType → Option Int} {r : Except String Unit}
    (run : Runs (doLimits (newServer c s codec) qos amount) calls r) (played : Plays (Meets limiter quota) calls w w') :
    calls.any unread = false ∧ calls.any (sends false) = false ∧ w'.quotas ++ w'.past = w.quotas ++ w.past ∧
      (calls.any (sends true) = false → w'.increments = w.increments) := by
  have own := (runs_within doLimits_ops run).1
  refine ⟨any_false (fun call is => (limiterOp_sends (own call is) call.2).1),
    any_false (fun call is => (limiterOp_sends (own call is) call.2).2),?_,fun unsent => ?_⟩
  · refine plays_keep (f := fun w => w.quotas ++ w.past) (fun call is _ _ met => ?_) played
    exact meets_keep (f := fun w => w.quotas ++ w.past) (fun _ _ => rfl) (perform_quotas (own call is)) met
  · refine plays_keep (f := fun w => w.increments) (fun call is _ _ met => ?_) played
    refine meets_keep (f := fun w => w.increments) (fun _ _ => rfl) (perform_log (own call is) (fun r => ?_)) met
    have no := List.any_eq_false.mp unsent call is
    rcases call with ⟨op,_⟩
    cases op <;> first | rfl | simpa [sends] using no

/-- The increments for the token limits of a qos. -/
def tokenIncrements (c : RedisRateLimter) (qos : UserQos) (usage : CompletionUsage) (now : Int) : List (String × Int) :=
  entryIncrements c qos (tokenAmount usage.totalTokens) now

theorem brokenOff_append {first second : List (Call Op Reply)} (read : first.any unread = false)
    (quotas : first.any (sends false) = false) (limits : ∀ call ∈ second, sends true call = false) :
    brokenOff limiter quota (first ++ second) = ((decide (limiter = .unreported) && first.any (sends true)) ||
      second.any unread || (decide (quota = .refused) && second.any (sends false))) := by
  simp only [brokenOff,List.any_append,read,quotas,any_false limits,Bool.or_false,Bool.false_or]

/-- The step of the limits failed: nothing was counted, or the replies of its pipeline were lost. -/
theorem limits_failed (made : Made c) {e : String}
    (limits : Runs (doTokenRateLimit (newServer c s codec) qos usage.totalTokens) calls (.error e))
    (played : Plays (Meets limiter quota) calls w w') : ∃ now, w.clock ≤ now ∧ now ≤ w'.clock ∧
      ((brokenOff limiter quota calls = false ∧ Counted [] w w') ∨
        (brokenOff limiter quota calls = true ∧ Counted (tokenIncrements c qos usage now) w w')) := by
  obtain ⟨read,quotas,_,logged⟩ := doLimits_calls limits played
  have broken := @brokenOff_append limiter quota calls [] read quotas (by simp)
  rw [List.append_nil] at broken
  rw [broken]
  rcases doLimits_piped made limits played with ⟨_,reads⟩ | ⟨now,_,low,high,counted,heard⟩
  · have counted := plays_reads reads played
    exact ⟨_,le_refl _,counted.clock,.inl ⟨by simp [reads_unsent reads],counted⟩⟩
  · refine ⟨now,low,high,?_⟩
    cases limiter with
    | whole => simp [Except.isOk,Except.toBool] at heard
    | refused => exact .inl ⟨by simp,counted⟩
    | unreported =>
      -- the increments of the pipeline are in the log, so one was sent
      have some_ : entryIncrements c qos (tokenAmount usage.totalTokens) now ≠ [] := by
        intro none_
        simp [none_,Except.isOk,Except.toBool] at heard
      have sent : calls.any (sends true) = true := by
        rw [← Bool.not_eq_false]
        intro unsent
        have same := counted.log.symm.trans (logged unsent)
        exact some_ (by simpa [Delivery.carries] using same)
      exact .inr ⟨by simp [sent],counted⟩

/-- The step of the limits was heard of: all of its increments were made. -/
theorem limits_heard (made : Made c)
    (limits : Runs (doTokenRateLimit (newServer c s codec) qos usage.totalTokens) calls (.ok ()))
    (played : Plays (Meets limiter quota) calls w w') : ∃ now, ReadBy calls now ∧ w.clock ≤ now ∧ now ≤ w'.clock ∧
      Counted (tokenIncrements c qos usage now) w w' ∧ (decide (limiter = .unreported) && calls.any (sends true)) = false := by
  rcases doLimits_piped made limits played with ⟨failed,_⟩ | ⟨now,read,low,high,counted,heard⟩
  · cases failed
  refine ⟨now,read,low,high,?_⟩
  cases limiter with
  | whole => exact ⟨counted,rfl⟩
  | refused | unreported =>
    have none_ : entryIncrements c qos (tokenAmount usage.totalTokens) now = [] := by
      simpa [Except.isOk,Except.toBool] using heard.symm
    have unsent : calls.any (sends true) = false := reads_unsent (runs_within (doLimits_unsent none_) limits).1
    rw [none_,carries_nil] at counted
    exact ⟨by rw [tokenIncrements,none_]; exact counted,by simp [unsent]⟩

/-- A charge fails before the limits, breaks off behind them, or is made as a whole. -/
theorem chargeUsage_made (made : Made c) (spec : Specified w qos items) (used : usage.totalTokens ≠ 0)
    (run : Runs (chargeUsage (newServer c s codec) (some qos) usage complete) calls (some result))
    (played : Plays (Meets limiter quota) calls w w') : ∃ now, w.clock ≤ now ∧ now ≤ w'.clock ∧
      ((brokenOff limiter quota calls = false ∧ isImmediate result.resp = true ∧ Counted [] w w') ∨
        (brokenOff limiter quota calls = true ∧ isImmediate result.resp = true ∧ Counted (tokenIncrements c qos usage now) w w') ∨
        (brokenOff limiter quota calls = false ∧ ReadBy calls now ∧
          Counted (tokenIncrements c qos usage now ++ typeIncrements s qos items (tokenCountMap usage)) w w')) := by
  rw [chargeUsage,if_neg used] at run
  obtain ⟨limited,first,rest,rfl,limits,later⟩ := runs_bind.mp run
  obtain ⟨w₁,played₁,played₂⟩ := plays_append.mp played
  cases limited with
  | error e =>
    obtain ⟨rfl,same⟩ := runs_ret.mp later
    cases same
    rw [plays_nil.mp played₂,List.append_nil]
    obtain ⟨now,low,high,⟨going,counted⟩ | ⟨broken,counted⟩⟩ := limits_failed made limits played₁
    · exact ⟨now,low,high,.inl ⟨going,rfl,counted⟩⟩
    · exact ⟨now,low,high,.inr (.inl ⟨broken,rfl,counted⟩)⟩
  | ok _ =>
    obtain ⟨read,quotas,kept,_⟩ := doLimits_calls limits played₁
    obtain ⟨now,readBy,low,high,counted,unsent⟩ := limits_heard made limits played₁
    obtain ⟨charge,second,last,rfl,charges,ends⟩ := runs_bind.mp later
    obtain ⟨w₂,played₃,played₄⟩ := plays_append.mp played₂
    have spec₁ : Specified w₁ qos items := ⟨spec.unnamed,by rw [kept]; exact spec.versions,by rw [kept]; exact spec.missing⟩
    obtain ⟨others,charged⟩ := doTokenQuotaLimit_piped spec₁ charges played₃
    have answered : last = [] ∧ isImmediate result.resp = !charge.isOk := by
      cases charge with
      | error | ok =>
        obtain ⟨rfl,same⟩ := runs_ret.mp ends
        cases same
        exact ⟨rfl,rfl⟩
    obtain ⟨rfl,told⟩ := answered
    rw [plays_nil.mp played₄,List.append_nil,brokenOff_append read quotas others,unsent,Bool.false_or]
    rcases charged with ⟨failed,unread,counted'⟩ | ⟨read',sent,counted',heard'⟩
    · refine ⟨now,low,high.trans counted'.clock,.inr (.inl ⟨by simp [unread],by rw [told,failed]; rfl,?_⟩)⟩
      simpa using counted_trans counted counted'
    · refine ⟨now,low,high.trans counted'.clock,.inr ?_⟩
      rw [read',sent,Bool.false_or]
      have both := counted_trans counted counted'
      cases quota with
      | whole | unreported => exact .inr ⟨by simp,readBy_left readBy,both⟩
      | refused =>
        by_cases empty : items = []
        · subst empty
          exact .inr ⟨rfl,readBy_left readBy,both⟩
        · refine .inl ⟨by simp [empty],?_,by simpa [Delivery.carries] using both⟩
          rw [told,heard']
          simp [typeIncrements,empty]

/-- A charge that is not answered with an error was made as a whole. -/
theorem chargeUsage_whole (made : Made c) (spec : Specified w qos items) (used : usage.totalTokens ≠ 0)
    (run : Runs (chargeUsage (newServer c s codec) (some qos) usage complete) calls (some result))
    (played : Plays (Meets limiter quota) calls w w') (let_on : isImmediate result.resp = false) :
    ∃ now, ReadBy calls now ∧ w.clock ≤ now ∧ now ≤ w'.clock ∧
      Counted (tokenIncrements c qos usage now ++ typeIncrements s qos items (tokenCountMap usage)) w w' := by
  obtain ⟨now,low,high,⟨_,immediate,_⟩ | ⟨_,immediate,_⟩ | ⟨_,read,counted⟩⟩ := chargeUsage_made made spec used run played
  · rw [immediate] at let_on
    cases let_on
  · rw [immediate] at let_on
    cases let_on
  · exact ⟨now,read,low,high,counted⟩

end Charge

/-! ### One charge for each type -/

/-- Every token counter of the window got the tokens of the response, every type of the quota its own count,
    and no other key changed. -/
structure ChargesEach (c : RedisRateLimter) (s : RedisQuotaService) (qos : UserQos) (limits : List TokenRateLimit)
    (items : List QuotaItem) (usage : CompletionUsage) (now : Int) (w w' : World) : Prop where
  byLimit : ∀ limit ∈ limits, (ruleOf limit.type).type = .token →
    charged (counter c qos now limit.type) w'.increments = charged (counter c qos now limit.type) w.increments + usage.totalTokens
  byType : ∀ item ∈ items, charged (quotaCounter s qos item.type) w'.increments =
    charged (quotaCounter s qos item.type) w.increments + tokenCountMap usage item.type
  others : ∀ key, (∀ limit ∈ limits, (ruleOf limit.type).type = .token → key ≠ counter c qos now limit.type) →
    (∀ item ∈ items, key ≠ quotaCounter s qos item.type) → w'.redis key = w.redis key

/-- The limits of this kind are for different types. -/
def Single (kind : LimitType) (limits : List TokenRateLimit) : Prop :=
  ∀ limit ∈ limits, (ruleOf limit.type).type = kind → (limits.map TokenRateLimit.type).count limit.type = 1

/-- Without tokens in total there are none of a configured type, and otherwise no type with tokens is repeated. -/
def Plain (limits : List TokenRateLimit) (items : List QuotaItem) (usage : CompletionUsage) : Prop :=
  if usage.totalTokens = 0 then ∀ item ∈ items, tokenCountMap usage item.type = 0
  else Single .token limits ∧
    ∀ item ∈ items, tokenCountMap usage item.type ≠ 0 → (items.map QuotaItem.type).count item.type = 1

instance (kind : LimitType) (limits : List TokenRateLimit) : Decidable (Single kind limits) :=
  inferInstanceAs (Decidable (∀ limit ∈ limits, (ruleOf limit.type).type = kind →
    (limits.map TokenRateLimit.type).count limit.type = 1))

instance (limits : List TokenRateLimit) (items : List QuotaItem) (usage : CompletionUsage) : Decidable
    (Plain limits items usage) :=
  inferInstanceAs (Decidable (if usage.totalTokens = 0 then ∀ item ∈ items, tokenCountMap usage item.type = 0
    else Single .token limits ∧
      ∀ item ∈ items, tokenCountMap usage item.type ≠ 0 → (items.map QuotaItem.type).count item.type = 1))

section Each
variable {c : RedisRateLimter} {s : RedisQuotaService} {codec : Codec} {limiter quota : Delivery} {w w' : World}
  {calls : List (Call Op Reply)} {qos : UserQos} {limits : List TokenRateLimit} {items : List QuotaItem} {usage : CompletionUsage}
  {now : Int} {incs : List (String × Int)}

private theorem charged_reverse (key : String) (incs : List (String × Int)) : charged key incs.reverse = charged key incs := by
  induction incs with
  | nil => rfl
  | cons inc incs ih =>
    rw [List.reverse_cons,charged_append,ih]
    simp only [charged]
    omega

theorem counted_charged (counted : Counted incs w w') (key : String) :
    charged key w'.increments = charged key w.increments + charged key incs := by
  rw [counted.log,charged_append,charged_reverse]
  omega

theorem mul_once {count : Nat} {n : Int} (used : n ≠ 0) : (count : Int) * n = n ↔ count = 1 := by
  constructor
  · intro same
    have one := Int.eq_one_of_mul_eq_self_left used same
    exact_mod_cast one
  · rintro rfl
    simp

/-- Each entry is counted once exactly when no type is repeated. -/
theorem entries_once (made : Made c) (listed : qos.rateLimits = limits.map toRateLimit) {kind : LimitType}
    {amount : LimitType → Option Int} {n : Int} (counts : amount kind = some n) (used : n ≠ 0) :
    (∀ limit ∈ limits, (ruleOf limit.type).type = kind → charged (counter c qos now limit.type)
      (entryIncrements c qos amount now) = n) ↔
      Single kind limits := by
  refine forall₂_congr (fun limit _ => forall_congr' (fun isKind => ?_))
  rw [charged_counter made listed (by rw [isKind,counts]),mul_once used]

/-- The increments of a whole charge, counter by counter. -/
theorem whole_charged_counter :
    charged (counter c qos now type) (tokenIncrements c qos usage now ++ typeIncrements s qos items (tokenCountMap usage)) =
      charged (counter c qos now type) (tokenIncrements c qos usage now) := by
  have apart : charged (counter c qos now type) (typeIncrements s qos items (tokenCountMap usage)) = 0 :=
    charged_apart types_counter
  rw [charged_append,apart,add_zero]

private theorem whole_charged_type {type : String} :
    charged (quotaCounter s qos type) (tokenIncrements c qos usage now ++ typeIncrements s qos items (tokenCountMap usage)) =
      ((items.map QuotaItem.type).count type : Int) * tokenCountMap usage type := by
  have apart : charged (quotaCounter s qos type) (tokenIncrements c qos usage now) = 0 := charged_apart (entries_quota _ _ _ _)
  rw [charged_append,charged_quotaCounter,apart,zero_add]

private theorem tokens_member (made : Made c) (listed : qos.rateLimits = limits.map toRateLimit) {inc : String × Int}
    (is : inc ∈ tokenIncrements c qos usage now) :
    ∃ limit ∈ limits, (ruleOf limit.type).type = .token ∧ inc.1 = counter c qos now limit.type := by
  rw [tokenIncrements,entryIncrements_types made listed] at is
  obtain ⟨limit,member,found⟩ := List.mem_filterMap.mp is
  obtain ⟨n,counts,rfl⟩ := Option.map_eq_some_iff.mp found
  refine ⟨limit,member,?_,rfl⟩
  cases kind : (ruleOf limit.type).type with
  | token => rfl
  | request =>
    rw [kind] at counts
    cases counts

/-- A whole charge is one for each type exactly when the configuration is plain. -/
theorem counted_each (made : Made c) (listed : qos.rateLimits = limits.map toRateLimit) (used : usage.totalTokens ≠ 0)
    (counted : Counted (tokenIncrements c qos usage now ++ typeIncrements s qos items (tokenCountMap usage)) w w') :
    ChargesEach c s qos limits items usage now w w' ↔ Plain limits items usage := by
  have byLimit : (∀ limit ∈ limits, (ruleOf limit.type).type = .token → charged (counter c qos now limit.type) w'.increments =
      charged (counter c qos now limit.type) w.increments + usage.totalTokens) ↔ Single .token limits := by
    have once := @entries_once _ _ _ now made listed _ _ _ (show tokenAmount usage.totalTokens .token = some _ from rfl) used
    rw [← once]
    refine forall₂_congr (fun limit _ => forall_congr' (fun _ => ?_))
    rw [counted_charged counted,whole_charged_counter,tokenIncrements]
    omega
  have byType : (∀ item ∈ items, charged (quotaCounter s qos item.type) w'.increments =
      charged (quotaCounter s qos item.type) w.increments + tokenCountMap usage item.type) ↔
        ∀ item ∈ items, tokenCountMap usage item.type ≠ 0 → (items.map QuotaItem.type).count item.type = 1 := by
    refine forall₂_congr (fun item _ => ?_)
    rw [counted_charged counted,whole_charged_type]
    by_cases zero : tokenCountMap usage item.type = 0
    · simp [zero]
    · rw [← mul_once zero]
      exact ⟨fun same _ => by omega,fun same => by have := same zero; omega⟩
  rw [Plain,if_neg used,← byLimit,← byType]
  refine ⟨fun each => ⟨each.byLimit,each.byType⟩,fun ⟨limited,typed⟩ => ⟨limited,typed,fun key unlimited untyped => ?_⟩⟩
  refine counted.others key (fun inc is same => ?_)
  rcases List.mem_append.mp is with is | is
  · obtain ⟨limit,member,isToken,named⟩ := tokens_member made listed is
    exact unlimited limit member isToken (same.symm.trans named)
  · obtain ⟨item,member,rfl⟩ := List.mem_map.mp is
    exact untyped item member same.symm

end Each

/-- A pipeline that is taken for done was done. -/
theorem piped_heard {delivery : Delivery} {incs : List (String × Int)} {w w' : World} (piped : Piped delivery incs w true w') :
    Counted incs w w' := by
  obtain ⟨counted,heard⟩ := piped
  cases delivery with
  | whole | unreported => exact counted
  | refused =>
    have empty : incs = [] := by simpa using heard
    rw [empty]
    exact counted

/-- A response that is let on is charged once for each configured type, and a request that is let on is counted
    once for each configured request limit, exactly when no type that counts is repeated and a response without
    tokens in total has none of a configured type. -/
theorem charges_each_iff (c : RedisRateLimter) (s : RedisQuotaService) (codec : Codec) (made : Made c) (limiter quota : Delivery)
    (w w' : World) (calls : List (Call Op Reply)) (played : Plays (Meets limiter quota) calls w w') :
    (∀ qos limits items usage complete result, qos.rateLimits = limits.map toRateLimit → Specified w qos items →
      Runs (chargeUsage (newServer c s codec) (some qos) usage complete) calls (some result) → isImmediate result.resp = false →
      ∃ now, (usage.totalTokens ≠ 0 → ReadBy calls now) ∧ w.clock ≤ now ∧ now ≤ w'.clock ∧
        (ChargesEach c s qos limits items usage now w w' ↔ Plain limits items usage)) ∧
    (∀ body token result, Runs (handleRequestBody (newServer c s codec) body token) calls result →
      isImmediate result.resp = false →
      ∃ qos now, result.qos = some qos ∧ ReadBy calls now ∧ w.clock ≤ now ∧ now ≤ w'.clock ∧
        ∀ limits, qos.rateLimits = limits.map toRateLimit → ((∀ limit ∈ limits, (ruleOf limit.type).type = .request → charged (counter c qos now limit.type) w'.increments =
            charged (counter c qos now limit.type) w.increments + 1) ↔ Single .request limits)) := by
  constructor
  · intro qos limits items usage complete result listed spec run let_on
    by_cases used : usage.totalTokens = 0
    · rw [chargeUsage,if_pos used] at run
      obtain ⟨rfl,_⟩ := runs_ret.mp run
      rw [plays_nil.mp played]
      refine ⟨w.clock,absurd used,le_refl _,le_refl _,?_⟩
      rw [Plain,if_pos used]
      constructor
      · intro each item member
        have same := each.byType item member
        omega
      · intro zero
        refine ⟨fun _ _ _ => by omega,fun item member => ?_,fun _ _ _ => rfl⟩
        rw [zero item member]
        omega
    · obtain ⟨now,read,low,high,counted⟩ := chargeUsage_whole made spec used run played let_on
      exact ⟨now,fun _ => read,low,high,counted_each made listed used counted⟩
  · intro body token result run let_on
    rcases handleRequestBody_decided made run played with ⟨immediate,_⟩ | ⟨qos,now,known,read,low,high,piped⟩
    · rw [immediate] at let_on
      cases let_on
    · rw [let_on] at piped
      have counted := piped_heard piped
      refine ⟨qos,now,known,read,low,high,fun limits listed => ?_⟩
      have once := @entries_once _ _ _ now made listed _ _ _ (show requestAmount .request = some 1 from rfl) (by decide)
      rw [← once]
      refine forall₂_congr (fun limit _ => forall_congr' (fun _ => ?_))
      rw [counted_charged counted]
      omega

/-! ### A charge of one user -/

def user (rateLimits : List TokenRateLimit) : UserQos := ⟨"alice","team-a","chat","plan",rateLimits.map toRateLimit⟩

def plan (items : List QuotaItem) : ArksQuota := ⟨.teamA,⟨"plan",by decide,by decide⟩,1,items,[]⟩

def spent : CompletionUsage := ⟨10,20,30⟩

def single : List TokenRateLimit := [⟨.tpm,100⟩]

def repeated : List TokenRateLimit := [⟨.tpm,100⟩,⟨.tpm,200⟩]

def totals : List QuotaItem := [⟨"total",1000⟩]

/-- The charge of a response with 30 tokens. -/
def charging (rateLimits : List TokenRateLimit) : Action (Option BodyResult) :=
  chargeUsage (newServer plainLimiter plainQuotas chatCodec) (some (user rateLimits)) spent true

/-- The charge in a store with this quota, with the pipelines faring this way. -/
def charge (limiter quota : Delivery) (rateLimits : List TokenRateLimit) (items : List QuotaItem) : Option BodyResult × World :=
  exec (performIn limiter quota) (charging rateLimits) (store rateLimits "plan" [plan items])

def chargeCalls (limiter quota : Delivery) (rateLimits : List TokenRateLimit) (items : List QuotaItem) :
    List (Programs.Call Op Reply) :=
  Programs.calls (performIn limiter quota) (charging rateLimits) (store rateLimits "plan" [plan items])

/-- Such a charge as a run, once it is known to end and with what kind of reply. -/
theorem charge_runs (limiter quota : Delivery) (rateLimits : List TokenRateLimit) (items : List QuotaItem) (immediate : Bool)
    (ok : always (performIn limiter quota) fits (charging rateLimits) (store rateLimits "plan" [plan items]) = true)
    (answered : (charge limiter quota rateLimits items).1.any (fun r => isImmediate r.resp == immediate) = true) :
    ∃ result, Runs (charging rateLimits) (chargeCalls limiter quota rateLimits items) (some result) ∧
      Plays (Meets limiter quota) (chargeCalls limiter quota rateLimits items) (store rateLimits "plan" [plan items])
        (charge limiter quota rateLimits items).2 ∧
      isImmediate result.resp = immediate := by
  obtain ⟨result,found,replies⟩ := (Option.any_eq_true _ _).mp answered
  have run := exec_runs (performIn limiter quota) (charging rateLimits) (store rateLimits "plan" [plan items])
  rw [show (exec _ _ _).1 = some result from found] at run
  exact ⟨result,run,exec_meets ok,by simpa using replies⟩

theorem single_runs : ∃ result, Runs (charging single) (chargeCalls .whole .whole single totals) (some result) ∧
    Plays (Meets .whole .whole) (chargeCalls .whole .whole single totals) (store single "plan" [plan totals])
      (charge .whole .whole single totals).2 ∧
    isImmediate result.resp = false :=
  charge_runs .whole .whole single totals false (by decide +kernel) (by decide +kernel)

theorem plan_specified (rateLimits : List TokenRateLimit) (items : List QuotaItem) :
    Specified (store rateLimits "plan" [plan items]) (user rateLimits) items where
  unnamed unnamed := absurd unnamed (by simp [user])
  versions q is _ _ := by
    cases List.mem_singleton.mp is
    rfl
  missing none_ := absurd rfl (none_ (plan items) (List.mem_singleton.mpr rfl) rfl)

theorem charges_each_iff_plain : ∃ now, ChargesEach plainLimiter plainQuotas (user single) single totals spent now
    (store single "plan" [plan totals]) (charge .whole .whole single totals).2 := by
  obtain ⟨_,run,played,let_on⟩ := single_runs
  obtain ⟨now,_,_,_,each⟩ := (charges_each_iff _ _ _ plainLimiter_made _ _ _ _ _ played).1 _ _ _ _ _ _ rfl
    (plan_specified _ _) run let_on
  exact ⟨now,each.mpr (by decide)⟩

/-- Two limits of one type are both charged to its counter. -/
theorem repeated_charged : ∃ calls result,
    Runs (charging repeated) calls (some result) ∧
    Plays (Meets .whole .whole) calls (store repeated "plan" [plan totals])
      (charge .whole .whole repeated totals).2 ∧ isImmediate result.resp = false ∧
    (charge .whole .whole repeated totals).2.clock = 0 ∧
    charged (counter plainLimiter (user repeated) 0 .tpm)
      (charge .whole .whole repeated totals).2.increments = 60 := by
  obtain ⟨result,run,played,let_on⟩ := charge_runs .whole .whole repeated totals false
    (by decide +kernel) (by decide +kernel)
  exact ⟨_,result,run,played,let_on,by decide +kernel,by decide +kernel⟩

/-! ### All or nothing -/

/-- Some entry of the qos has a token rule. -/
def tokenLimited (c : RedisRateLimter) (qos : UserQos) : Bool :=
  qos.rateLimits.any (fun limit => (c.config.getRule limit.type).any (fun rule => decide (rule.type = .token)))

theorem tokenIncrements_nil {c : RedisRateLimter} {qos : UserQos} {usage : CompletionUsage} {now : Int} :
    tokenIncrements c qos usage now = [] ↔ tokenLimited c qos = false := by
  rw [tokenIncrements,entryIncrements,List.filterMap_eq_nil_iff,tokenLimited,List.any_eq_false]
  refine forall₂_congr (fun limit _ => ?_)
  cases c.config.getRule limit.type with
  | none => simp
  | some rule => cases kind : rule.type <;> simp [kind,tokenAmount]

/-- The charge has made all increments for the limits and for the quota, or none. -/
def AllOrNone (c : RedisRateLimter) (s : RedisQuotaService) (qos : UserQos) (items : List QuotaItem) (usage : CompletionUsage)
    (w w' : World) : Prop :=
  (∃ now, w.clock ≤ now ∧ now ≤ w'.clock ∧
    Counted (tokenIncrements c qos usage now ++ typeIncrements s qos items (tokenCountMap usage)) w w') ∨ Counted [] w w'

section Whole
variable {c : RedisRateLimter} {s : RedisQuotaService} {qos : UserQos} {items : List QuotaItem} {usage : CompletionUsage}
  {w w' : World}

theorem counted_log {incs more : List (String × Int)} (counted : Counted incs w w')
    (counted' : Counted more w w') : incs = more :=
  List.reverse_inj.mp (List.append_cancel_right (counted.log.symm.trans counted'.log))

/-- The number of increments does not depend on the moment. -/
theorem tokenIncrements_length (now now' : Int) :
    (tokenIncrements c qos usage now).length = (tokenIncrements c qos usage now').length := by
  simp only [tokenIncrements,entryIncrements]
  induction qos.rateLimits with
  | nil => rfl
  | cons limit limits ih =>
    simp only [List.filterMap_cons]
    cases c.config.getRule limit.type with
    | none => exact ih
    | some rule => cases kind : rule.type <;> simpa [kind,tokenAmount] using ih

/-- The limits alone are all or nothing when there is nothing else, or no limit. -/
theorem part_whole {now : Int} (low : w.clock ≤ now) (high : now ≤ w'.clock)
    (counted : Counted (tokenIncrements c qos usage now) w w') :
    AllOrNone c s qos items usage w w' ↔ tokenLimited c qos = false ∨ items = [] := by
  constructor
  · rintro (⟨now',_,_,whole⟩ | nothing)
    · have same := congrArg List.length (counted_log counted whole)
      rw [List.length_append,tokenIncrements_length now now',typeIncrements,List.length_map] at same
      exact .inr (List.eq_nil_of_length_eq_zero (by omega))
    · exact .inl (tokenIncrements_nil.mp (counted_log counted nothing))
  · rintro (unlimited | rfl)
    · rw [tokenIncrements_nil.mpr unlimited] at counted
      exact .inr counted
    · exact .inl ⟨now,low,high,by simpa [typeIncrements] using counted⟩

end Whole

/-- A charge is all or nothing exactly when it is not broken off behind the limits, or when there is no limit or no
    quota to charge; and only a charge that is broken off is answered with an error and made in part. -/
theorem charge_whole_iff (c : RedisRateLimter) (s : RedisQuotaService) (codec : Codec) (made : Made c) (limiter quota : Delivery)
    (w w' : World) (calls : List (Call Op Reply)) (qos : UserQos) (items : List QuotaItem) (usage : CompletionUsage)
    (complete : Bool)
    (result : BodyResult) (spec : Specified w qos items) (used : usage.totalTokens ≠ 0)
    (run : Runs (chargeUsage (newServer c s codec) (some qos) usage complete) calls (some result))
    (played : Plays (Meets limiter quota) calls w w') :
    (AllOrNone c s qos items usage w w' ↔ brokenOff limiter quota calls = false ∨ tokenLimited c qos = false ∨ items = []) ∧
    ((isImmediate result.resp = true → AllOrNone c s qos items usage w w') ↔
      brokenOff limiter quota calls = false ∨ tokenLimited c qos = false ∨ items = []) := by
  obtain ⟨now,low,high,made'⟩ := chargeUsage_made made spec used run played
  rcases made' with ⟨going,_,counted⟩ | ⟨broken,immediate,counted⟩ | ⟨going,_,counted⟩
  · have whole : AllOrNone c s qos items usage w w' := .inr counted
    simp [going,whole]
  · have part : AllOrNone c s qos items usage w w' ↔ tokenLimited c qos = false ∨ items = [] := part_whole low high counted
    simp [broken,immediate,part]
  · have whole : AllOrNone c s qos items usage w w' := .inl ⟨now,low,high,counted⟩
    simp [going,whole]

/-- A charge whose steps succeed is whole. -/
theorem charge_whole_iff_plain : AllOrNone plainLimiter plainQuotas (user single) totals spent
    (store single "plan" [plan totals]) (charge .whole .whole single totals).2 := by
  obtain ⟨_,run,played,_⟩ := single_runs
  exact (charge_whole_iff _ _ _ plainLimiter_made _ _ _ _ _ _ _ _ _ _ (plan_specified _ _) (by decide) run played).1.mpr
    (.inl (by decide +kernel))

/-- The pipeline of the quota is refused: the reply is an error, the limits stay charged, and the quota is not. -/
theorem refused_partly : ∃ calls result,
    Runs (charging single) calls (some result) ∧
    Plays (Meets .whole .refused) calls (store single "plan" [plan totals])
      (charge .whole .refused single totals).2 ∧ isImmediate result.resp = true ∧
    charged (counter plainLimiter (user single) 0 .tpm) (charge .whole .refused single totals).2.increments = 30 ∧
    charged (quotaCounter plainQuotas (user single) "total")
      (charge .whole .refused single totals).2.increments = 0 := by
  obtain ⟨result,run,played,immediate⟩ := charge_runs .whole .refused single totals true
    (by decide +kernel) (by decide +kernel)
  exact ⟨_,result,run,played,immediate,by decide +kernel,by decide +kernel⟩

end Arks.ResponseCharges
