import Arks.Charges

/-!
What a request consumes. All checks of `HandleRequestBody` come before its only
pipeline, which counts one request for each entry of the qos with a request rule. A
request that is answered at once has consumed nothing, unless the pipeline was carried
out and the replies were lost.
-/
namespace Arks.Consumption
open Programs Programs.Prog Counters Effects Services Gateway RateSessions
open Sessions Charges

/-! ### Limits of a qos -/

/-- The increments for the entries of a qos whose rules have an amount. -/
def entryIncrements (c : RedisRateLimter) (qos : UserQos) (amount : LimitType → Option Int) (now : Int) : List (String × Int) :=
  qos.rateLimits.filterMap (fun limit => (c.config.getRule limit.type).bind (fun rule =>
    (amount rule.type).map (fun n => (rateKey c.keyPrefix qos limit.type (windowOf rule now),n))))

section Limits
variable {c : RedisRateLimter} {s : RedisQuotaService} {codec : Codec} {limiter quota : Delivery} {w w' : World}
  {calls : List (Call Op Reply)} {qos : UserQos} {amount : LimitType → Option Int}

theorem limitIncrements_entries (now : Int) (limits : List RateLimit) :
    limitIncrements c now (limits.filterMap (limitRequest c.config.getRule qos amount)) =
      limits.filterMap (fun limit => (c.config.getRule limit.type).bind (fun rule =>
        (amount rule.type).map (fun n => (rateKey c.keyPrefix qos limit.type (windowOf rule now),n)))) := by
  induction limits with
  | nil => rfl
  | cons limit limits ih =>
    cases known : c.config.getRule limit.type with
    | none => simpa [limitRequest,known] using ih
    | some rule =>
      cases counts : amount rule.type with
      | none => simpa [limitRequest,known,counts] using ih
      | some n =>
        simp only [List.filterMap_cons,limitRequest,known,counts,Option.bind_some,Option.map_some]
        rw [limitIncrements,List.filterMap_cons]
        simp only [toRateLimitRequest,known,Option.map_some]
        rw [← ih]
        rfl

/-- The limits of a qos fail before the pipeline or are counted in it, one increment for each entry. -/
theorem doLimits_piped (made : Made c) {r : Except String Unit} (run : Runs (doLimits (newServer c s codec) qos amount) calls r)
    (played : Plays (Meets limiter quota) calls w w') :
    (r.isOk = false ∧ ∀ call ∈ calls, isWrite call.1 = false) ∨ ∃ now, ReadBy calls now ∧ w.clock ≤ now ∧
      now ≤ w'.clock ∧ Piped limiter (entryIncrements c qos amount now) w r.isOk w' := by
  unfold doLimits at run
  split at run
  · obtain ⟨rfl,rfl⟩ := runs_ret.mp run
    exact .inl ⟨rfl,by simp⟩
  · rename_i requests built
    have listed : requests = qos.rateLimits.filterMap (limitRequest c.config.getRule qos amount) := limitRequests_ok built
    rcases doLimit_piped made run played with early | ⟨now,read,low,high,piped⟩
    · exact .inl early
    · rw [listed,limitIncrements_entries] at piped
      exact .inr ⟨now,read,low,high,piped⟩

end Limits

/-! ### Checks -/

section Checks
variable {c : RedisRateLimter} {s : RedisQuotaService} {codec : Codec} {answers : (op : Op) → Reply op → Prop}

private theorem checkRateLimit_reads (qos : UserQos) :
    Within answers (fun op => isWrite op = false) (fun o => ∀ resp ∈ o, isImmediate resp = true)
      (checkRateLimit (newServer c s codec) qos) :=
  checkRateLimit_rule (fun _ _ => checkLimit_within c rfl (fun _ _ _ => ⟨rfl,rfl⟩)) (fun _ => rfl)

private theorem checkQuota_reads (qos : UserQos) :
    Within answers (fun op => isWrite op = false) (fun o => ∀ resp ∈ o, isImmediate resp = true)
      (checkQuota (newServer c s codec) qos) :=
  checkQuota_rule (getQuotaConfig_within rfl) (fun _ _ => getUsage_within s (fun _ _ => rfl))

end Checks

section Requests
variable {c : RedisRateLimter} {s : RedisQuotaService} {codec : Codec} {limiter quota : Delivery} {w w' : World}
  {calls : List (Call Op Reply)} {result : RequestResult}

/-- The request was answered at once before the pipeline, or the pipeline decided. -/
def Decided (c : RedisRateLimter) (limiter : Delivery) (calls : List (Call Op Reply)) (w : World) (result : RequestResult)
    (w' : World) : Prop :=
  (isImmediate result.resp = true ∧ Counted [] w w') ∨ ∃ qos now, result.qos = some qos ∧ ReadBy calls now ∧ w.clock ≤ now ∧
    now ≤ w'.clock ∧ Piped limiter (entryIncrements c qos requestAmount now) w (!isImmediate result.resp) w'

variable {qos : UserQos} {amount : LimitType → Option Int}

private theorem admitRequest_decided (made : Made c) {model : String} {stream : Bool}
    (run : Runs (admitRequest (newServer c s codec) qos model stream) calls result)
    (played : Plays (Meets limiter quota) calls w w') : Decided c limiter calls w result w' := by
  obtain ⟨rate,first,rest,rfl,checks,later⟩ := runs_bind.mp run
  obtain ⟨w₁,played₁,played₂⟩ := plays_append.mp played
  obtain ⟨reads,immediate⟩ := runs_within (checkRateLimit_reads qos) checks
  have begun := plays_reads reads played₁
  cases rate with
  | some resp =>
    obtain ⟨rfl,rfl⟩ := runs_ret.mp later
    rw [plays_nil.mp played₂]
    exact .inl ⟨immediate resp rfl,begun⟩
  | none =>
    obtain ⟨allowance,second,third,rfl,checks',admits⟩ := runs_bind.mp later
    obtain ⟨w₂,played₃,played₄⟩ := plays_append.mp played₂
    obtain ⟨reads',immediate'⟩ := runs_within (checkQuota_reads qos) checks'
    have checked := counted_trans begun (plays_reads reads' played₃)
    cases allowance with
    | some resp =>
      obtain ⟨rfl,rfl⟩ := runs_ret.mp admits
      rw [plays_nil.mp played₄]
      exact .inl ⟨immediate' resp rfl,checked⟩
    | none =>
      obtain ⟨limited,fourth,last,rfl,limits,ends⟩ := runs_bind.mp admits
      obtain ⟨w₃,played₅,played₆⟩ := plays_append.mp played₄
      have answered : result.qos = some qos ∧ isImmediate result.resp = !limited.isOk ∧ w' = w₃ := by
        cases limited with
        | error | ok =>
          obtain ⟨rfl,rfl⟩ := runs_ret.mp ends
          exact ⟨rfl,rfl,plays_nil.mp played₆⟩
      obtain ⟨known,told,rfl⟩ := answered
      rcases doLimits_piped made limits played₅ with ⟨failed,reads⟩ | ⟨now,read,low,high,counted,heard⟩
      · exact .inl ⟨by rw [told,failed]; rfl,counted_trans checked (plays_reads reads played₅)⟩
      · refine .inr ⟨qos,now,known,readBy_right (readBy_right (readBy_left read)),checked.clock.trans low,high,
          counted_trans checked counted,?_⟩
        rw [told,Bool.not_not,heard]

theorem decided_later {w₁ : World} {begun : List (Call Op Reply)} (first : Counted [] w w₁)
    (later : Decided c limiter calls w₁ result w') : Decided c limiter (begun ++ calls) w result w' := by
  rcases later with ⟨immediate,counted⟩ | ⟨qos,now,known,read,low,high,counted,heard⟩
  · exact .inl ⟨immediate,counted_trans first counted⟩
  · exact .inr ⟨qos,now,known,readBy_right read,first.clock.trans low,high,counted_trans first counted,heard⟩

/-- An answer at once, without any call. -/
theorem decided_ret {answer : RequestResult} (immediate : isImmediate answer.resp = true)
    (run : Runs (pure answer : Action RequestResult) calls result) (played : Plays (Meets limiter quota) calls w w') :
    Decided c limiter calls w result w' := by
  obtain ⟨rfl,rfl⟩ := runs_ret.mp run
  rw [plays_nil.mp played]
  exact .inl ⟨immediate,counted_refl _⟩

private theorem getQosByToken_reads (token model : String) :
    Issues (fun op => isWrite op = false) (fun _ => True) (getQosByToken token model) := by
  refine ⟨rfl,fun found _ => ?_⟩
  rcases found with e | _ | ⟨obj,_⟩
  · trivial
  · trivial
  · simp only [Prog.bind]
    split <;> trivial

private theorem getModelList_reads (ns : String) :
    Issues (fun op => isWrite op = false) (fun _ => True) (getModelList ns) := by
  refine ⟨rfl,fun found _ => ?_⟩
  cases found <;> trivial

/-- The exits of `HandleRequestBody`, each before the pipeline or behind it. -/
theorem handleRequestBody_decided (made : Made c) {body : Bytes} {token : String}
    (run : Runs (handleRequestBody (newServer c s codec) body token) calls result)
    (played : Plays (Meets limiter quota) calls w w') : Decided c limiter calls w result w' := by
  unfold handleRequestBody at run
  split at run
  · exact decided_ret rfl run played
  dsimp only at run
  split at run
  · exact decided_ret rfl run played
  obtain ⟨found,first,rest,rfl,resolves,later⟩ := runs_bind.mp run
  obtain ⟨w₁,played₁,played₂⟩ := plays_append.mp played
  refine decided_later (plays_reads (runs_within (getQosByToken_reads _ _) resolves).1 played₁) ?_
  rcases found with e | _ | qos
  · exact decided_ret rfl later played₂
  · exact decided_ret rfl later played₂
  obtain ⟨models,second,third,rfl,lists,checks⟩ := runs_bind.mp later
  obtain ⟨w₂,played₃,played₄⟩ := plays_append.mp played₂
  refine decided_later (plays_reads (runs_within (getModelList_reads _) lists).1 played₃) ?_
  cases models with
  | error e => exact decided_ret rfl checks played₄
  | ok models =>
    dsimp only at checks
    split at checks
    · exact decided_ret rfl checks played₄
    split at checks
    · exact decided_ret rfl checks played₄
    · exact admitRequest_decided made checks played₄

/-! ### What is left alone -/

theorem entry_key {now : Int} {inc : String × Int}
    (is : inc ∈ entryIncrements c qos amount now) : ∃ limit ∈ qos.rateLimits, ∃ rule, c.config.getRule limit.type = some rule ∧
      amount rule.type = some inc.2 ∧ inc.1 = rateKey c.keyPrefix qos limit.type (windowOf rule now) := by
  obtain ⟨limit,member,made⟩ := List.mem_filterMap.mp is
  obtain ⟨rule,known,made⟩ := Option.bind_eq_some_iff.mp made
  obtain ⟨n,counts,rfl⟩ := Option.map_eq_some_iff.mp made
  exact ⟨limit,member,rule,known,counts,rfl⟩

/-- The limits of one type of rule leave the counters of the other alone, whatever the names. -/
theorem entries_other (made : Made c) {qos' : UserQos} {now start : Int} {name : String}
    {rule : LimitRuleConfig} (known : c.config.getRule name = some rule) (none_ : amount rule.type = none) :
    ∀ inc ∈ entryIncrements c qos amount now, inc.1 ≠ rateKey c.keyPrefix qos' name start := by
  intro inc is same
  obtain ⟨limit,_,rule',known',counts,key⟩ := entry_key is
  rw [key] at same
  have plain := (known_rule_plain (Target.made_known made known)).1
  have plain' := (known_rule_plain (Target.made_known made known')).1
  obtain ⟨_,names,_⟩ := limitKey_inj plain' plain same
  rw [names,known] at known'
  cases known'
  rw [none_] at counts
  cases counts

theorem entries_quota {now : Int} (keyPrefix ns name type : String) :
    ∀ inc ∈ entryIncrements c qos amount now, inc.1 ≠ quotaKey keyPrefix ns name type := by
  intro inc is same
  obtain ⟨limit,_,rule,_,_,key⟩ := entry_key is
  rw [key] at same
  have digit := rateKey_digit c.keyPrefix qos limit.type (windowOf rule now)
  rw [same] at digit
  exact quotaKey_digit _ _ _ _ digit

end Requests

/-- How the client gets the pipeline of the limiter through: it is sent once, or again since the replies were lost. -/
inductive Sending
  | once (delivery : Delivery)
  | again

/-- A call when the pipeline is sent that way. Sent again, its commands are carried out twice. -/
def MeetsSent (limiter : Sending) (quota : Delivery) (op : Op) (w : World) (r : Reply op) (w' : World) : Prop :=
  match limiter with
  | .once delivery => Meets delivery quota op w r w'
  | .again => ∃ r₁ w₁, (if isWrite op && ofLimiter op then Meets .whole quota op w r₁ w₁ else w₁ = w) ∧ Meets .whole quota op w₁ r w'

/-- When the pipeline is not sent again and its replies are not lost: a request that is answered at once has
    changed no key, and one that is let on has made one increment by one for each entry with a request rule, in
    the window of the clock that `DoLimit` read, and changed no other key, no token counter and no quota. -/
theorem request_consumes_share (c : RedisRateLimter) (s : RedisQuotaService) (codec : Codec) (made : Made c) (body : Bytes)
    (token : String) (w w' : World) (limiter : Sending) (quota : Delivery) (calls : List (Call Op Reply)) (result : RequestResult)
    (once : limiter ≠ .again) (reported : limiter ≠ .once .unreported)
    (run : Runs (handleRequestBody (newServer c s codec) body token) calls result)
    (played : Plays (MeetsSent limiter quota) calls w w') :
    (isImmediate result.resp = true → ∀ key, w'.redis key = w.redis key) ∧
    (isImmediate result.resp = false → ∃ qos now, result.qos = some qos ∧ ReadBy calls now ∧ w.clock ≤ now ∧ now ≤ w'.clock ∧
      Counted (entryIncrements c qos requestAmount now) w w' ∧
      (∀ qos' name rule start, c.config.getRule name = some rule → rule.type = .token →
        w'.redis (rateKey c.keyPrefix qos' name start) = w.redis (rateKey c.keyPrefix qos' name start)) ∧
      ∀ ns name type, w'.redis (quotaKey s.keyPrefix ns name type) = w.redis (quotaKey s.keyPrefix ns name type)) := by
  obtain ⟨delivery,rfl⟩ : ∃ delivery, limiter = .once delivery := by
    cases limiter with
    | once delivery => exact ⟨delivery,rfl⟩
    | again => exact absurd rfl once
  rcases handleRequestBody_decided made run played with ⟨immediate,counted⟩ | ⟨qos,now,known,read,low,high,counted,heard⟩
  · refine ⟨fun _ key => counted.others key (by simp),fun admitted => ?_⟩
    rw [immediate] at admitted
    cases admitted
  · constructor
    · intro immediate key
      rw [immediate] at heard
      have failed : delivery = .refused := by
        cases delivery with
        | whole => simp at heard
        | refused => rfl
        | unreported => exact absurd rfl reported
      rw [failed] at counted
      exact counted.others key (by simp [Delivery.carries])
    · intro admitted
      rw [admitted] at heard
      have counted : Counted (entryIncrements c qos requestAmount now) w w' := by
        cases delivery with
        | whole => exact counted
        | refused =>
          have empty : entryIncrements c qos requestAmount now = [] := by simpa using heard
          rw [empty]
          exact counted
        | unreported => exact absurd rfl reported
      refine ⟨qos,now,known,read,low,high,counted,?_,?_⟩
      · intro qos' name rule start isRule isToken
        exact counted.others _ (entries_other made isRule (by rw [isToken]; rfl))
      · intro ns name type
        exact counted.others _ (entries_quota _ _ _ _)

/-! ### A small store -/

/-- The limiter without jitter. -/
def plainLimiter : RedisRateLimter := newRedisRateLimter "arks-ratelimiter" 0

def plainQuotas : RedisQuotaService := ⟨"arks-quota"⟩

theorem plainLimiter_made : Made plainLimiter := ⟨"arks-ratelimiter",0,by decide,by decide,rfl⟩

/-- A token with these limits on one model, and the endpoint of the model. -/
def store (rateLimits : List Api.TokenRateLimit) (quota : String) (quotas : List Api.ArksQuota) : World :=
  World.fresh
    [⟨.teamA,.alice,"alice",[⟨"chat",rateLimits,quota⟩]⟩]
    [Api.chatEndpoint .teamA]
    quotas

/-- The request of the token. -/
def asking : Action RequestResult := handleRequestBody (newServer plainLimiter plainQuotas chatCodec) chatRequest "alice"

/-- The request with the limiter's pipeline faring this way. -/
def asked (limiter : Delivery) (w : World) : RequestResult × World := exec (performIn limiter .whole) asking w

theorem asked_meets (limiter : Delivery) (w : World) (ok : always (performIn limiter .whole) fits asking w = true) :
    ∃ calls, Runs asking calls (asked limiter w).1 ∧ Plays (MeetsSent (.once limiter) .whole) calls w (asked limiter w).2 :=
  ⟨_,exec_runs _ _ _,exec_meets ok⟩

def limited : World := store [⟨.rpm,5⟩,⟨.tpm,100⟩] "" []

/-- A request with one limit of each kind counts one request. -/
theorem request_consumes_share_limited : isImmediate (asked .whole limited).1.resp = false ∧
    ∃ qos now, (asked .whole limited).1.qos = some qos ∧ now ≤ (asked .whole limited).2.clock ∧
      Counted (entryIncrements plainLimiter qos requestAmount now) limited (asked .whole limited).2 := by
  obtain ⟨calls,run,played⟩ := asked_meets .whole limited (by decide +kernel)
  have admitted : isImmediate (asked .whole limited).1.resp = false := by decide +kernel
  obtain ⟨qos,now,known,_,_,high,counted,_⟩ :=
    (request_consumes_share plainLimiter plainQuotas _ plainLimiter_made chatRequest "alice" limited _ _ .whole calls _ (by simp)
      (by simp) run played).2 admitted
  exact ⟨admitted,qos,now,known,high,counted⟩

/-- A call with the commands of the limiter carried out twice. -/
def performAgain (op : Op) (w : World) : Reply op × World :=
  perform op (if isWrite op && ofLimiter op then (perform op w).2 else w)

private def fitsAgain : Action RequestResult → World → Bool
  | .call op _,w => heard op (perform op w).1 && heard op (performAgain op w).1
  | .ret _,_ => true

private theorem performAgain_meets (op : Op) (next : Reply op → Action RequestResult) (w : World)
    (fit : fitsAgain (.call op next) w = true) : MeetsSent .again .whole op w (performAgain op w).1 (performAgain op w).2 := by
  obtain ⟨first,second⟩ := Bool.and_eq_true_iff.mp fit
  refine ⟨(perform op w).1,if isWrite op && ofLimiter op then (perform op w).2 else w,?_,perform_meets (heard_of_test second)⟩
  split
  · exact perform_meets (heard_of_test first)
  · rfl

/-- The counter of the requests of the token. -/
def requestKey : String := "arks-ratelimiter:namespace=team-a.user=alice.model=chat.rpm:0"

/-- A request that is answered with an error since the replies of its pipeline were lost has been counted, and
    one whose pipeline is sent again is let on and has been counted twice. -/
theorem lost_replies_consumed :
    (∃ calls, Runs asking calls (asked .unreported limited).1 ∧
      Plays (MeetsSent (.once .unreported) .whole) calls limited (asked .unreported limited).2 ∧
      isImmediate (asked .unreported limited).1.resp = true ∧
      (asked .unreported limited).2.redis requestKey ≠ limited.redis requestKey) ∧
    ∃ calls, Runs asking calls (exec performAgain asking limited).1 ∧
      Plays (MeetsSent .again .whole) calls limited (exec performAgain asking limited).2 ∧
      isImmediate (exec performAgain asking limited).1.resp = false ∧
      (exec performAgain asking limited).2.value requestKey = limited.value requestKey + 2 := by
  constructor
  · obtain ⟨calls,run,played⟩ := asked_meets .unreported limited (by decide +kernel)
    exact ⟨calls,run,played,by decide +kernel,by decide +kernel⟩
  · exact ⟨_,exec_runs _ _ _,exec_plays_of performAgain_meets (by decide +kernel),by decide +kernel,by decide +kernel⟩

end Arks.Consumption
