import Arks.RateSessions

/-!
What the gateway counts in Redis, to the single increment. A pipeline is carried out as
a whole, refused as a whole, or carried out without the gateway hearing of it. Along a
run only the listed increments are made, and no other key changes its value or expiry.
-/
namespace Arks.Charges
open Programs Programs.Prog Counters Effects Services Gateway RateSessions
open RateSessions.Target (Queued made_known)

/-! ### Counting -/

/-- From `w` to `w'` Redis has made these increments, and nothing else has changed in it. -/
structure Counted (incs : List (String × Int)) (w w' : World) : Prop where
  clock : w.clock ≤ w'.clock
  log : w'.increments = incs.reverse ++ w.increments
  others : ∀ key, (∀ inc ∈ incs, inc.1 ≠ key) → w'.redis key = w.redis key
  values : w'.clock = w.clock → ∀ key, w'.value key = w.value key + charged key incs

theorem charged_append (key : String) (a b : List (String × Int)) : charged key (a ++ b) = charged key a + charged key b := by
  induction a with
  | nil => simp [charged]
  | cons inc a ih =>
    simp only [List.cons_append,charged,ih]
    omega

section Counted
variable {incs more : List (String × Int)} {w w₁ w' : World}

theorem counted_refl (w : World) : Counted [] w w := ⟨le_refl _,rfl,fun _ _ => rfl,fun _ _ => by simp [charged]⟩

theorem counted_trans (first : Counted incs w w₁) (second : Counted more w₁ w') : Counted (incs ++ more) w w' where
  clock := first.clock.trans second.clock
  log := by rw [second.log,first.log,List.reverse_append,List.append_assoc]
  others key apart := by
    rw [second.others key (fun inc is => apart inc (by simp [is])),first.others key (fun inc is => apart inc (by simp [is]))]
  values same key := by
    have still : w₁.clock = w.clock := le_antisymm (same ▸ second.clock) first.clock
    rw [second.values (same.trans still.symm) key,first.values still key,charged_append]
    omega

/-- What leaves Redis alone counts nothing. -/
theorem counted_aside (later : w.clock ≤ w'.clock) (redis : w'.redis = w.redis) (log : w'.increments = w.increments) :
    Counted [] w w' where
  clock := later
  log := log
  others key _ := by rw [redis]
  values same key := by simp [World.value,World.cell,redis,same,charged]

private theorem counted_tick {t : Int} (later : w.clock ≤ t) : Counted [] w { w with clock := t } := counted_aside later rfl rfl

/-- A cell with the expiry of a live one is live. -/
theorem bound_live {key : String} {n : Int} : Cell.live ⟨n,(w.cell key).bind Cell.expireAt⟩ w.clock = true := by
  cases found : w.cell key with
  | none => rfl
  | some cell =>
    have live := (Option.filter_eq_some_iff.mp found).2
    simpa [Cell.live] using live

theorem counted_incrBy {key : String} {n : Int} (heard : Heard (.incrBy key n) (perform (.incrBy key n) w).1) :
    Counted [(key,n)] w (perform (.incrBy key n) w).2 := by
  rw [perform_incrBy heard]
  refine ⟨le_refl _,rfl,fun other apart => ?_,fun _ other => ?_⟩
  · have distinct : other ≠ key := fun same => apart (key,n) (by simp) same.symm
    simp [World.put,distinct]
  · by_cases same : other = key
    · subst same
      have live : Cell.live ⟨w.value other + n,(w.cell other).bind Cell.expireAt⟩ w.clock = true := bound_live
      simp only [World.put,World.value,World.cell,if_true,Option.filter_some,charged] at live ⊢
      rw [if_pos live]
      simp
    · simp [World.put,World.value,World.cell,same,Ne.symm same,charged]

/-- An expiry for a key that was counted changes no value. -/
theorem counted_expire {key : String} {seconds : Int} (positive : 0 < seconds) (before : Counted incs w w₁)
    (member : ∃ inc ∈ incs, inc.1 = key) : Counted incs w (perform (.expire key seconds) w₁).2 := by
  cases found : w₁.cell key with
  | none =>
    simp only [perform,found]
    exact before
  | some cell =>
    simp only [perform,found,if_neg (not_le.mpr positive)]
    refine ⟨before.clock,before.log,fun other apart => ?_,fun still other => ?_⟩
    · have distinct : other ≠ key := by
        rintro rfl
        obtain ⟨inc,is,same⟩ := member
        exact apart inc is same
      simp only [World.put,if_neg distinct]
      exact before.others other apart
    · rw [← before.values still other]
      by_cases same : other = key
      · subst same
        have live : Cell.live ⟨cell.value,some (w₁.clock + seconds * second)⟩ w₁.clock = true := by
          have long : 0 ≤ seconds * second := Int.mul_nonneg (le_of_lt positive) (by decide)
          simp only [Cell.live,decide_eq_true_eq]
          omega
        simp only [World.value,found]
        simp only [World.put,World.cell,Option.filter_some,live,if_pos]
        rfl
      · simp [World.put,World.value,World.cell,same]

end Counted

/-! ### Pipelines -/

/-- How a pipeline fares: all of it is carried out, none of it is, or all of it is and the replies are lost. -/
inductive Delivery
  | whole | refused | unreported
deriving DecidableEq

def isWrite : Op → Bool
  | .incrBy _ _ | .expire _ _ | .set _ _ => true
  | _ => false

/-- The command is one of the limiter's, whose keys end in the start of a window. -/
def OfLimiter (op : Op) : Prop := ∃ key, keyOf op = some key ∧ EndsInDigit key

/-- A command of a pipeline that fares this way. -/
def Fares : Delivery → (op : Op) → World → Reply op → World → Prop
  | .whole,op,w,r,w' => r = (perform op w).1 ∧ w' = (perform op w).2 ∧ Heard op r
  | .refused,op,w,r,w' => (∃ message, failure op message = some r) ∧ w' = w
  | .unreported,op,w,r,w' => (∃ message, failure op message = some r) ∧ w' = (perform op w).2 ∧ Heard op (perform op w).1

/-- A call while nobody else writes to Redis. Time may pass before it, every read may fail, and the
    writes fare as the pipeline of their service does. -/
def Meets (limiter quota : Delivery) (op : Op) (w : World) (r : Reply op) (w' : World) : Prop :=
  ∃ t, w.clock ≤ t ∧
    (isWrite op = false → Acts (fun _ => True) { w with clock := t } op r w') ∧
    (isWrite op = true → OfLimiter op → Fares limiter op { w with clock := t } r w') ∧
    (isWrite op = true → ¬ OfLimiter op → Fares quota op { w with clock := t } r w')

/-- The increments that are made of those in a pipeline. -/
def Delivery.carries : Delivery → List (String × Int) → List (String × Int)
  | .refused,_ => []
  | _,incs => incs

/-- What a pipeline with these increments did, and whether the gateway takes it for done. -/
def Piped (delivery : Delivery) (incs : List (String × Int)) (w : World) (heard : Bool) (w' : World) : Prop :=
  Counted (delivery.carries incs) w w' ∧ heard = (decide (delivery = .whole) || incs.isEmpty)

private theorem carries_append (delivery : Delivery) (incs more : List (String × Int)) :
    delivery.carries (incs ++ more) = delivery.carries incs ++ delivery.carries more := by
  cases delivery <;> rfl

theorem carries_nil (delivery : Delivery) : delivery.carries [] = [] := by
  cases delivery <;> rfl

section Runs
variable {limiter quota : Delivery} {w w₁ w' : World} {calls : List (Call Op Reply)} {incs : List (String × Int)}

private theorem acts_read {op : Op} {r : Reply op} (read : isWrite op = false) (act : Acts (fun _ => True) w op r w') :
    w'.redis = w.redis ∧ w'.increments = w.increments := by
  cases redis : op.isRedis with
  | false => exact ⟨(acts_aside act redis).1,(acts_aside act redis).2.1⟩
  | true =>
    have performed : (perform op w).2 = w := by
      cases op with
      | get key =>
        simp only [perform]
        split <;> rfl
      | ttl key => rfl
      | incrBy | expire | set => cases read
      | _ => cases redis
    cases act with
    | done | unheard => rw [performed]; exact ⟨rfl,rfl⟩
    | _ => exact ⟨rfl,rfl⟩

theorem meets_read {op : Op} {r : Reply op} (read : isWrite op = false)
    (met : Meets limiter quota op w r w') : Counted [] w w' := by
  obtain ⟨t,later,reads,_,_⟩ := met
  have act := reads read
  obtain ⟨redis,log⟩ := acts_read read act
  refine counted_aside ?_ redis log
  rw [acts_clock act]
  exact later

/-- Calls that only read count nothing. -/
theorem plays_reads (reads : ∀ call ∈ calls, isWrite call.1 = false) (played : Plays (Meets limiter quota) calls w w') :
    Counted [] w w' := by
  induction played with
  | nil => exact counted_refl _
  | cons met _ ih =>
    have first := meets_read (reads ⟨_,_⟩ (.head _)) met
    exact counted_trans first (ih (fun call is => reads call (by simp [is])))

variable {key : String} {delivery : Delivery}

theorem failed_error {n : Int} {message : String} {r : Reply (.incrBy key n)}
    (failed : failure (.incrBy key n) message = some r) : errOf r ≠ none := by
  cases failed
  simp [errOf]

private theorem heard_ok {n : Int} (heard : Heard (.incrBy key n) (perform (.incrBy key n) w).1) :
    errOf (perform (.incrBy key n) w).1 = none := by
  rw [perform_incrBy heard]
  rfl

/-- An increment of a pipeline that fares this way. -/
theorem fares_incrBy {n : Int} {r : Reply (.incrBy key n)} (fares : Fares delivery (.incrBy key n) w r w') :
    Counted (delivery.carries [(key,n)]) w w' ∧ (errOf r = none ↔ delivery = .whole) := by
  cases delivery with
  | whole =>
    obtain ⟨rfl,rfl,heard⟩ := fares
    exact ⟨counted_incrBy heard,iff_of_true (heard_ok heard) rfl⟩
  | refused =>
    obtain ⟨⟨message,failed⟩,rfl⟩ := fares
    exact ⟨counted_refl _,iff_of_false (failed_error failed) (by simp)⟩
  | unreported =>
    obtain ⟨⟨message,failed⟩,rfl,heard⟩ := fares
    exact ⟨counted_incrBy heard,iff_of_false (failed_error failed) (by simp)⟩

/-- An expiry in such a pipeline, for a key that it has counted. -/
theorem fares_expire {n seconds : Int} {w₀ : World} {r : Reply (.expire key seconds)}
    (positive : 0 < seconds) (before : Counted (delivery.carries [(key,n)]) w₀ w)
    (fares : Fares delivery (.expire key seconds) w r w') :
    Counted (delivery.carries [(key,n)]) w₀ w' ∧ (delivery = .whole → errOf r = none) := by
  cases delivery with
  | whole =>
    obtain ⟨rfl,rfl,_⟩ := fares
    refine ⟨counted_expire positive before ⟨(key,n),by simp [Delivery.carries],rfl⟩,fun _ => ?_⟩
    simp only [perform]
    split <;> rfl
  | refused =>
    obtain ⟨_,rfl⟩ := fares
    exact ⟨before,by rintro ⟨⟩⟩
  | unreported =>
    obtain ⟨_,rfl,_⟩ := fares
    exact ⟨counted_expire positive before ⟨(key,n),by simp [Delivery.carries],rfl⟩,by rintro ⟨⟩⟩

/-- Time passes before a command of a service. -/
theorem meets_write {op : Op} {r : Reply op} (write : isWrite op = true) (met : Meets limiter quota op w r w') :
    ∃ w₁, Counted [] w w₁ ∧ (OfLimiter op → Fares limiter op w₁ r w') ∧ (¬ OfLimiter op → Fares quota op w₁ r w') := by
  obtain ⟨t,later,_,mine,other⟩ := met
  exact ⟨_,counted_tick later,mine write,other write⟩

/-- One increment in front of a pipeline; a pipeline answers with the first error. -/
theorem piped_cons {inc : String × Int} {incs : List (String × Int)} {first err later : Option RedisErr}
    {w₁ : World} (counted : Counted (delivery.carries [inc]) w w₁) (heard : first = none ↔ delivery = .whole)
    (same : delivery = .whole → err = later) (rest : Piped delivery incs w₁ later.isNone w') :
    Piped delivery (inc :: incs) w (first.or err).isNone w' := by
  obtain ⟨others,told⟩ := rest
  refine ⟨?_,?_⟩
  · have both := counted_trans counted others
    rwa [← carries_append] at both
  · by_cases whole : delivery = .whole
    · rw [heard.mpr whole,Option.none_or,same whole,told]
      simp [whole]
    · cases first with
      | none => exact absurd (heard.mp rfl) whole
      | some e => simp [whole]

/-! ### The limiter -/

/-- The increments that `DoLimit` is to make at a moment. -/
def limitIncrements (c : RedisRateLimter) (now : Int) (requests : List RateLimitRequest) : List (String × Int) :=
  requests.filterMap (fun req => (c.config.getRule req.ruleName).map (fun rule =>
    (generateRateKey c.keyPrefix req rule (unix now),req.request)))

variable {c : RedisRateLimter} {now : Int} {requests : List RateLimitRequest} {cmds : List LimitCmd} {err : Option RedisErr}

private theorem runLimits_expiries {n : Int} {w₀ : World} {expiry : List Int} (digit : EndsInDigit key)
    (positive : ∀ seconds ∈ expiry, 0 < seconds) (before : Counted (limiter.carries [(key,n)]) w₀ w)
    (run : Runs (runLimits (expiry.map (.expire key) ++ cmds)) calls err) (played : Plays (Meets limiter quota) calls w w') :
    ∃ w₁ rest later, Counted (limiter.carries [(key,n)]) w₀ w₁ ∧ Runs (runLimits cmds) rest later ∧
      Plays (Meets limiter quota) rest w₁ w' ∧ (limiter = .whole → err = later) := by
  induction expiry generalizing calls err w with
  | nil => exact ⟨w,calls,err,before,run,played,fun _ => rfl⟩
  | cons seconds expiry ih =>
    obtain ⟨r,rest,rfl,later⟩ := runs_call.mp run
    have later : Runs (runLimits (expiry.map (.expire key) ++ cmds) >>= fun err => pure ((errOf r).or err)) rest err := later
    obtain ⟨err',first,last,rfl,runs,ends⟩ := runs_bind.mp later
    obtain ⟨rfl,rfl⟩ := runs_ret.mp ends
    rw [List.append_nil] at played
    obtain ⟨w₁,met,plays⟩ := plays_cons.mp played
    obtain ⟨w₂,waited,mine,_⟩ := meets_write rfl met
    have still : Counted (limiter.carries [(key,n)]) w₀ w₂ := by
      have both := counted_trans before waited
      rwa [List.append_nil] at both
    obtain ⟨after,heard⟩ := fares_expire (positive seconds (by simp)) still (mine ⟨key,rfl,digit⟩)
    obtain ⟨w₃,rest,later',counted,goes,plays',same⟩ := ih (fun s is => positive s (by simp [is])) after runs plays
    refine ⟨w₃,rest,later',counted,goes,plays',fun whole => ?_⟩
    rw [heard whole,same whole]
    rfl

/-- The pipeline of `DoLimit`, one entry of the list after the other. -/
theorem runLimits_piped (made : Made c) (queued : Queued c now requests cmds) (run : Runs (runLimits cmds) calls err)
    (played : Plays (Meets limiter quota) calls w w') : Piped limiter (limitIncrements c now requests) w err.isNone w' := by
  induction queued generalizing calls err w with
  | done =>
    obtain ⟨rfl,rfl⟩ := runs_ret.mp run
    rw [plays_nil.mp played]
    exact ⟨by rw [limitIncrements,List.filterMap_nil,carries_nil]; exact counted_refl _,by simp [limitIncrements]⟩
  | skip unknown _ ih =>
    have same : ∀ {req : RateLimitRequest} {requests : List RateLimitRequest}, c.config.getRule req.ruleName = none →
        limitIncrements c now (req :: requests) = limitIncrements c now requests := by
      intro req requests unknown
      simp [limitIncrements,unknown]
    rw [same unknown]
    exact ih run played
  | @next req requests rule cmds expiry known long queued ih =>
    have first : limitIncrements c now (req :: requests) =
        (generateRateKey c.keyPrefix req rule (unix now),req.request) :: limitIncrements c now requests := by
      simp [limitIncrements,known]
    have positive : ∀ seconds ∈ expiry, 0 < seconds := by
      intro seconds is
      obtain ⟨s,lasts⟩ := newLimitConfig_lasts (made_known made known)
      exact lasts.positive.trans_le (long seconds is s lasts)
    have digit := generateRateKey_digit c.keyPrefix req rule (unix now)
    obtain ⟨r,rest,rfl,later⟩ := runs_call.mp run
    have later : Runs (runLimits _ >>= fun err => pure ((errOf r).or err)) rest err := later
    obtain ⟨err',calls',last,rfl,runs,ends⟩ := runs_bind.mp later
    obtain ⟨rfl,rfl⟩ := runs_ret.mp ends
    rw [List.append_nil] at played
    obtain ⟨w₁,met,plays⟩ := plays_cons.mp played
    obtain ⟨w₂,waited,mine,_⟩ := meets_write rfl met
    obtain ⟨counted,heard⟩ := fares_incrBy (mine ⟨_,rfl,digit⟩)
    have begun := counted_trans waited counted
    obtain ⟨w₃,rest,later',counted',goes,plays',same⟩ := runLimits_expiries digit positive begun runs plays
    rw [first]
    exact piped_cons counted' heard same (ih goes plays')

/-- Every random part is below its bound. -/
def Drawn : (op : Op) → Reply op → Prop
  | .random bound,n => 0 ≤ n ∧ (0 < bound → n < bound)
  | _,_ => True

private theorem meets_drawn {op : Op} {r : Reply op} (met : Meets limiter quota op w r w') : Drawn op r := by
  obtain ⟨t,_,reads,_,_⟩ := met
  cases op with
  | random bound =>
    cases reads rfl with
    | done => exact ⟨le_refl _,fun positive => positive⟩
    | random low high => exact ⟨low,fun _ => high⟩
    | refused _ failed => cases failed
    | unheard _ failed => cases failed
  | _ => trivial

private theorem plays_drawn (played : Plays (Meets limiter quota) calls w w') : ∀ call ∈ calls, Drawn call.1 call.2 := by
  induction played with
  | nil => simp
  | cons met _ ih =>
    intro call is
    rcases List.mem_cons.mp is with rfl | is
    · exact meets_drawn met
    · exact ih call is

/-- `DoLimit` up to its pipeline only reads. -/
theorem queueLimits_reads (made : Made c) (now : Int) (requests : List RateLimitRequest) :
    Within Drawn (fun op => isWrite op = false) (fun r => ∀ cmds, r = .ok cmds → Queued c now requests cmds)
      (c.queueLimits now requests) := by
  induction requests with
  | nil =>
    rintro _ ⟨⟩
    exact .done
  | cons req requests ih =>
    rw [RedisRateLimter.queueLimits]
    cases known : c.config.getRule req.ruleName with
    | none => exact within_mono ih (fun _ is => is) (fun r queued cmds same => .skip known (queued cmds same))
    | some rule =>
      simp only [issue_bind,within_call]
      refine ⟨rfl,fun read _ => ?_⟩
      rcases read with e | left
      · nofun
      refine within_bind (Target.expireCmds_long made (fun _ _ drawn => drawn) (fun _ => rfl) known _ left) ?_
      rintro _ ⟨expiry,rfl,long⟩
      refine within_bind ih (fun queued later => ?_)
      rcases queued with e | cmds
      · nofun
      · rintro _ ⟨⟩
        exact .next known long (later cmds rfl)

private theorem meets_now {caller : Caller} {now : Int} (met : Meets limiter quota (.now caller) w now w') : now = w'.clock := by
  obtain ⟨t,_,reads,_,_⟩ := met
  cases reads rfl with
  | done => rfl
  | refused _ failed => cases failed
  | unheard _ failed => cases failed

/-- The moment that `DoLimit` reads in the course of these calls. -/
def ReadBy (calls : List (Call Op Reply)) (now : Int) : Prop := ∃ requests, (⟨.now (.doLimit requests),now⟩ : Call Op Reply) ∈ calls

theorem readBy_right {first calls : List (Call Op Reply)} {now : Int} (read : ReadBy calls now) : ReadBy (first ++ calls) now :=
  read.imp (fun _ is => List.mem_append_right _ is)

theorem readBy_left {calls last : List (Call Op Reply)} {now : Int} (read : ReadBy calls now) : ReadBy (calls ++ last) now :=
  read.imp (fun _ is => List.mem_append_left _ is)

/-- `DoLimit` fails before its pipeline or sends it. -/
theorem doLimit_piped (made : Made c) {r : Except String Unit} (run : Runs (c.doLimit requests) calls r)
    (played : Plays (Meets limiter quota) calls w w') :
    (r.isOk = false ∧ ∀ call ∈ calls, isWrite call.1 = false) ∨ ∃ now, ReadBy calls now ∧ w.clock ≤ now ∧ now ≤ w'.clock ∧
      Piped limiter (limitIncrements c now requests) w r.isOk w' := by
  obtain ⟨now,rest,rfl,later⟩ := runs_call.mp run
  obtain ⟨w₁,met,played₁⟩ := plays_cons.mp played
  have later : Runs (c.queueLimits now requests >>= _) rest r := later
  obtain ⟨queued,first,last,rfl,queues,sends⟩ := runs_bind.mp later
  obtain ⟨w₂,played₂,played₃⟩ := plays_append.mp played₁
  have asked : Counted [] w w₁ := meets_read rfl met
  obtain ⟨reads,commands⟩ := runs_within_answers (queueLimits_reads made now requests) queues (plays_drawn played₂)
  have begun : Counted [] w w₂ := counted_trans asked (plays_reads reads played₂)
  cases queued with
  | error e =>
    obtain ⟨rfl,rfl⟩ := runs_ret.mp sends
    refine .inl ⟨rfl,fun call is => ?_⟩
    rcases List.mem_cons.mp is with rfl | is
    · rfl
    · exact reads call (by simpa using is)
  | ok cmds =>
    obtain ⟨err,calls',last,rfl,runs,ends⟩ := runs_bind.mp sends
    obtain ⟨rfl,rfl⟩ := runs_ret.mp ends
    rw [List.append_nil] at played₃
    obtain ⟨counted,heard⟩ := runLimits_piped made (commands cmds rfl) runs played₃
    have moment : now = w₁.clock := meets_now met
    refine .inr ⟨now,⟨requests,.head _⟩,?_,?_,counted_trans begun counted,?_⟩
    · rw [moment]
      exact asked.clock
    · rw [moment]
      exact (plays_reads reads played₂).clock.trans counted.clock
    · rw [← heard]
      cases err <;> rfl

/-! ### The quotas -/

variable {s : RedisQuotaService}

/-- The increments that `IncrUsage` is to make. -/
def quotaIncrements (s : RedisQuotaService) (requests : List QuotaRequest) : List (String × Int) :=
  requests.map (fun req => (generateQuotaKey s.keyPrefix req,req.request))

theorem generateQuotaKey_digit (keyPrefix : String) (req : QuotaRequest) : ¬ EndsInDigit (generateQuotaKey keyPrefix req) := by
  have ends : ∃ front d, (generateQuotaKey keyPrefix req).toList = front ++ [d] ∧ d.isDigit = false := by
    rw [generateQuotaKey,String.toList_append]
    rcases identifierText_dot req.identifier with empty | ⟨front,spelled⟩
    · exact ⟨keyPrefix.toList,':',by rw [empty,List.append_nil,String.toList_append]; rfl,by decide⟩
    · exact ⟨(keyPrefix ++ ":").toList ++ front,'.',by rw [spelled,List.append_assoc],by decide⟩
  obtain ⟨front,d,spelled,other⟩ := ends
  rintro ⟨front',d',spelled',digit⟩
  rw [spelled] at spelled'
  obtain ⟨_,same⟩ := List.append_inj' spelled' rfl
  cases same
  rw [other] at digit
  cases digit

private theorem incrAll_piped {requests : List QuotaRequest} (run : Runs (s.incrAll requests) calls err)
    (played : Plays (Meets limiter quota) calls w w') : Piped quota (quotaIncrements s requests) w err.isNone w' := by
  induction requests generalizing calls err w with
  | nil =>
    obtain ⟨rfl,rfl⟩ := runs_ret.mp run
    rw [plays_nil.mp played]
    exact ⟨by rw [quotaIncrements,List.map_nil,carries_nil]; exact counted_refl _,by simp [quotaIncrements]⟩
  | cons req requests ih =>
    obtain ⟨r,rest,rfl,later⟩ := runs_call.mp run
    have later : Runs (s.incrAll requests >>= fun err => pure ((errOf r).or err)) rest err := later
    obtain ⟨err',calls',last,rfl,runs,ends⟩ := runs_bind.mp later
    obtain ⟨rfl,rfl⟩ := runs_ret.mp ends
    rw [List.append_nil] at played
    obtain ⟨w₁,met,plays⟩ := plays_cons.mp played
    obtain ⟨w₂,waited,_,other⟩ := meets_write rfl met
    have apart : ¬ OfLimiter (.incrBy (generateQuotaKey s.keyPrefix req) req.request) := by
      rintro ⟨_,⟨⟩,digit⟩
      exact generateQuotaKey_digit _ _ digit
    obtain ⟨counted,heard⟩ := fares_incrBy (other apart)
    exact piped_cons (counted_trans waited counted) heard (fun _ => rfl) (ih runs plays)

theorem incrUsage_piped {requests : List QuotaRequest} {r : Except String Unit} (run : Runs (s.incrUsage requests) calls r)
    (played : Plays (Meets limiter quota) calls w w') : Piped quota (quotaIncrements s requests) w r.isOk w' := by
  obtain ⟨err,first,last,rfl,runs,ends⟩ := runs_bind.mp run
  obtain ⟨rfl,rfl⟩ := runs_ret.mp ends
  rw [List.append_nil] at played
  have piped := incrAll_piped runs played
  have same : (errorOr err).isOk = err.isNone := by cases err <;> rfl
  rw [same]
  exact piped

end Runs

/-! ### Runs that can be computed -/

def ofLimiter (op : Op) : Bool := (keyOf op).any (fun key => key.toList.getLast?.any Char.isDigit)

theorem ofLimiter_iff (op : Op) : ofLimiter op = true ↔ OfLimiter op := by
  unfold ofLimiter OfLimiter EndsInDigit
  cases keyOf op with
  | none => simp
  | some key =>
    simp only [Option.any_some,Option.some.injEq,exists_eq_left']
    constructor
    · intro digit
      obtain ⟨d,last,digit⟩ := (Option.any_eq_true _ _).mp digit
      obtain ⟨front,spelled⟩ := List.getLast?_eq_some_iff.mp last
      exact ⟨front,d,spelled,digit⟩
    · rintro ⟨front,d,spelled,digit⟩
      simp [spelled,digit]

/-- A command of a pipeline that fares this way, at once. -/
def performAs (delivery : Delivery) (op : Op) (w : World) : Reply op × World :=
  match delivery with
  | .whole => perform op w
  | .refused => ((failure op "connection refused").getD (perform op w).1,w)
  | .unreported => ((failure op "i/o timeout").getD (perform op w).1,(perform op w).2)

def performIn (limiter quota : Delivery) (op : Op) (w : World) : Reply op × World :=
  if isWrite op then performAs (if ofLimiter op then limiter else quota) op w else perform op w

/-- No counter is full. -/
def fits {α : Type} : Action α → World → Bool
  | .call op _,w => heard op (perform op w).1
  | .ret _,_ => true

section Computed
variable {limiter quota : Delivery} {α : Type}

theorem performAs_fares {delivery : Delivery} {op : Op} {w : World} (write : isWrite op = true)
    (heard : Heard op (perform op w).1) : Fares delivery op w (performAs delivery op w).1 (performAs delivery op w).2 := by
  have fails : ∀ message, ∃ r, failure op message = some r := by
    intro message
    cases op <;> first | exact ⟨_,rfl⟩ | cases write
  cases delivery with
  | whole => exact ⟨rfl,rfl,heard⟩
  | refused =>
    obtain ⟨r,failed⟩ := fails "connection refused"
    exact ⟨⟨"connection refused",by simp [performAs,failed]⟩,rfl⟩
  | unreported =>
    obtain ⟨r,failed⟩ := fails "i/o timeout"
    exact ⟨⟨"i/o timeout",by simp [performAs,failed]⟩,rfl,heard⟩

theorem performIn_meets {op : Op} {w : World} (heard : isWrite op = true → Heard op (perform op w).1) :
    Meets limiter quota op w (performIn limiter quota op w).1 (performIn limiter quota op w).2 := by
  refine ⟨w.clock,le_refl _,fun read => ?_,fun write mine => ?_,fun write other => ?_⟩
  · rw [performIn,if_neg (by simp [read])]
    exact .done op
  · rw [performIn,if_pos write,if_pos ((ofLimiter_iff op).mpr mine)]
    exact performAs_fares write (heard write)
  · rw [performIn,if_pos write,if_neg (mt (ofLimiter_iff op).mp other)]
    exact performAs_fares write (heard write)

theorem exec_meets {p : Action α} {w : World} (ok : always (performIn limiter quota) fits p w = true) :
    Plays (Meets limiter quota) (Programs.calls (performIn limiter quota) p w) w (exec (performIn limiter quota) p w).2 := by
  refine exec_plays_of (fun op next w fit => ?_) ok
  exact performIn_meets (fun _ => heard_of_test fit)

theorem perform_meets {op : Op} {w : World} (heard : Heard op (perform op w).1) :
    Meets .whole .whole op w (perform op w).1 (perform op w).2 := by
  have met : Meets .whole .whole op w _ _ := performIn_meets (fun _ => heard)
  simpa only [performIn,performAs,ite_self] using met

end Computed

end Arks.Charges
