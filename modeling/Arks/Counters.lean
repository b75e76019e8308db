import Arks.Api
import Arks.Floors
import Arks.Instants

/-!
What the gateway counts and under which key. Rate limits are counted per
identifier, rule and time window, quotas per namespace, quota and type; both
key generators write their fields one after the other into one text. Window
starts follow `time.Truncate`, which counts from year 1, with the `int64`
arithmetic of `time.Duration`.
-/
namespace Arks.Counters
open Texts Floors
open Api (KubeName ArksQuota)

export Arks.Instants (int64 int64_of_fits second unixToInternal)

/-! ### Rules and windows -/

inductive LimitUnit
  | second | minute | hour | day
deriving DecidableEq,Repr

def unitToSeconds : LimitUnit → Int
  | .second => 1
  | .minute => 60
  | .hour => 3600
  | .day => 86400

inductive LimitType
  | request | token
deriving DecidableEq,Repr

structure LimitRuleConfig where
  name : String
  type : LimitType
  period : Int
  unit : LimitUnit
deriving DecidableEq,Repr

/-- `LimitConfig`: the map from rule names to rules. -/
structure LimitConfig where
  rules : String → Option LimitRuleConfig

def LimitConfig.empty : LimitConfig := ⟨fun _ => none⟩

def LimitConfig.addRule (c : LimitConfig) (rule : LimitRuleConfig) : LimitConfig :=
  ⟨fun name => if name = rule.name then some rule else c.rules name⟩

def LimitConfig.getRule (c : LimitConfig) (name : String) : Option LimitRuleConfig := c.rules name

def newLimitConfig : LimitConfig :=
  (((LimitConfig.empty.addRule ⟨"rpm",.request,1,.minute⟩).addRule ⟨"rpd",.request,1,.day⟩).addRule
    ⟨"tpm",.token,1,.minute⟩).addRule ⟨"tpd",.token,1,.day⟩

/-- `Time.Unix`; a moment is the number of nanoseconds since the Unix epoch. -/
def unix (t : Int) : Int := t / second

/-- `Time.Truncate`, which rounds down to a multiple of `d` since year 1. -/
def truncate (t : Int) (d : Int) : Int := if d ≤ 0 then t else t - (t + unixToInternal * second) % d

/-- The length of a rule's window as a `time.Duration`. -/
def windowSize (rule : LimitRuleConfig) : Int := int64 (int64 (rule.period * unitToSeconds rule.unit) * second)

def getWindowStart (now : Int) (rule : LimitRuleConfig) : Int := unix (truncate (now * second) (windowSize rule))

/-- The rule's window lasts `s` seconds, in arithmetic that does not overflow. -/
structure Lasts (rule : LimitRuleConfig) (s : Int) : Prop where
  positive : 0 < s
  size : windowSize rule = s * second

variable {rule : LimitRuleConfig} {s : Int}

theorem getWindowStart_eq (lasts : Lasts rule s) (now : Int) :
    getWindowStart now rule = now - (now + unixToInternal) % s := by
  have long : ¬ s * second ≤ 0 := by
    have := lasts.positive
    unfold second
    omega
  have scaled : (now * second + unixToInternal * second) % (s * second) = ((now + unixToInternal) % s) * second := by
    rw [← Int.add_mul,Int.mul_comm,Int.mul_comm s,Int.mul_emod_mul_of_pos _ _ (by decide),Int.mul_comm]
  unfold getWindowStart truncate unix
  rw [lasts.size,if_neg long,scaled,← Int.sub_mul]
  exact Int.mul_ediv_cancel _ (by decide)

/-- A window starts at the last whole number of windows since year 1. -/
theorem getWindowStart_floor (lasts : Lasts rule s) :
    FloorOn (aligned unixToInternal s) Set.univ (getWindowStart · rule) :=
  (floorOn_aligned unixToInternal lasts.positive).congr (Set.subset_univ _) (fun now _ => getWindowStart_eq lasts now)

private theorem getWindowStart_le (lasts : Lasts rule s) (now : Int) :
    getWindowStart now rule ≤ now :=
  (getWindowStart_floor lasts).le (Set.mem_univ now)

theorem lt_getWindowStart_add (lasts : Lasts rule s) (now : Int) : now < getWindowStart now rule + s := by
  rw [getWindowStart_eq lasts]
  have := Int.emod_lt_of_pos (now + unixToInternal) lasts.positive
  omega

private theorem getWindowStart_mono (lasts : Lasts rule s) {a b : Int} (le : a ≤ b) :
    getWindowStart a rule ≤ getWindowStart b rule :=
  (getWindowStart_floor lasts).monotoneOn (Set.mem_univ a) (Set.mem_univ b) le

/-- The window that a moment lies in. -/
def windowOf (rule : LimitRuleConfig) (t : Int) : Int := getWindowStart (unix t) rule

theorem windowOf_mono (lasts : Lasts rule s) {a b : Int} (le : a ≤ b) :
    windowOf rule a ≤ windowOf rule b :=
  getWindowStart_mono lasts (Int.ediv_le_ediv (by decide) le)

theorem windowOf_le (lasts : Lasts rule s) (t : Int) : windowOf rule t * second ≤ t := by
  have low := getWindowStart_le lasts (unix t)
  unfold windowOf
  unfold unix second at *
  omega

theorem lt_windowOf_end (lasts : Lasts rule s) (t : Int) : t < (windowOf rule t + s) * second := by
  have high := lt_getWindowStart_add lasts (unix t)
  unfold windowOf
  unfold unix second at *
  omega

/-- Every rule of the limiter has one of the four names and lasts a minute or a day. -/
theorem newLimitConfig_cases {name : String} (known : newLimitConfig.getRule name = some rule) :
    rule.name = name ∧ (name = "rpm" ∨ name = "rpd" ∨ name = "tpm" ∨ name = "tpd") ∧
      (Lasts rule 60 ∨ Lasts rule 86400) := by
  have minute : windowSize ⟨"rpm",.request,1,.minute⟩ = 60 * second := by decide
  have minute' : windowSize ⟨"tpm",.token,1,.minute⟩ = 60 * second := by decide
  have day : windowSize ⟨"rpd",.request,1,.day⟩ = 86400 * second := by decide
  have day' : windowSize ⟨"tpd",.token,1,.day⟩ = 86400 * second := by decide
  simp only [newLimitConfig,LimitConfig.getRule,LimitConfig.addRule,LimitConfig.empty] at known
  split_ifs at known with isTpd isTpm isRpd isRpm
  · cases known; exact ⟨isTpd.symm,by simp [isTpd],.inr ⟨by decide,day'⟩⟩
  · cases known; exact ⟨isTpm.symm,by simp [isTpm],.inl ⟨by decide,minute'⟩⟩
  · cases known; exact ⟨isRpd.symm,by simp [isRpd],.inr ⟨by decide,day⟩⟩
  · cases known; exact ⟨isRpm.symm,by simp [isRpm],.inl ⟨by decide,minute⟩⟩

theorem newLimitConfig_lasts {name : String} (known : newLimitConfig.getRule name = some rule) : ∃ s, Lasts rule s := by
  obtain ⟨_,_,minute | day⟩ := newLimitConfig_cases known
  · exact ⟨_,minute⟩
  · exact ⟨_,day⟩

/-! ### Requests -/

@[ext]
structure Label where
  key : String
  value : String
deriving DecidableEq,Repr

structure RateLimitRequest where
  identifier : List Label
  ruleName : String
  limit : Int
  request : Int
deriving DecidableEq,Repr

structure RateLimitResponse where
  ruleName : String
  overLimit : Bool
  currentUsage : Int
  limitMax : Int
  expiresAt : Int
deriving DecidableEq,Repr

structure QuotaRequest where
  identifier : List Label
  limit : Int
  request : Int
deriving DecidableEq,Repr

structure QuotaResult where
  identifier : List Label
  overLimit : Bool
  currentUsage : Int
  limitMax : Int
deriving DecidableEq,Repr

structure RateLimit where
  type : String
  value : Int
deriving DecidableEq,Repr

/-- What a token is allowed on one model. -/
structure UserQos where
  user : String
  namespace_ : String
  model : String
  quotaName : String
  rateLimits : List RateLimit
deriving DecidableEq,Repr

structure QuotaConfig where
  name : String
  namespace_ : String
  limits : List Api.QuotaItem
deriving DecidableEq,Repr

def toRateLimitRequest (trl : UserQos) (ruleName : String) (limit request : Int) : RateLimitRequest where
  identifier := [⟨"namespace",trl.namespace_⟩,⟨"user",trl.user⟩,⟨"model",trl.model⟩]
  ruleName := ruleName
  limit := limit
  request := request

/-- One request per configured limit; `countMap` gives zero for a type it does not hold. -/
def qosToQuotaRequests (conf : QuotaConfig) (countMap : String → Int) : List QuotaRequest :=
  conf.limits.map (fun limit => {
    identifier := [⟨"namespace",conf.namespace_⟩,⟨"quotaname",conf.name⟩,⟨"type",limit.type⟩]
    limit := limit.value
    request := countMap limit.type })

/-! ### Keys -/

/-- The identifier part of a key. -/
def identifierText : List Label → String
  | [] => ""
  | kv :: rest => kv.key ++ "=" ++ kv.value ++ "." ++ identifierText rest

/-- `Generate` of the rate limiter's `CacheKeyGenerator`. -/
def generateRateKey (keyPrefix : String) (desc : RateLimitRequest) (rule : LimitRuleConfig) (now : Int) : String :=
  keyPrefix ++ ":" ++ identifierText desc.identifier ++ desc.ruleName ++ ":" ++ toString (getWindowStart now rule)

/-- `Generate` of the quota service's `CacheKeyGenerator`. -/
def generateQuotaKey (keyPrefix : String) (desc : QuotaRequest) : String :=
  keyPrefix ++ ":" ++ identifierText desc.identifier

/-- The key of a user's limit in the window that starts at `start`. -/
def rateKey (keyPrefix : String) (qos : UserQos) (ruleName : String) (start : Int) : String :=
  keyPrefix ++ ":" ++ identifierText [⟨"namespace",qos.namespace_⟩,⟨"user",qos.user⟩,⟨"model",qos.model⟩] ++
    ruleName ++ ":" ++ toString start

/-- The key of one type of a quota. -/
def quotaKey (keyPrefix namespace_ name type : String) : String :=
  keyPrefix ++ ":" ++ identifierText [⟨"namespace",namespace_⟩,⟨"quotaname",name⟩,⟨"type",type⟩]

theorem generateRateKey_eq (keyPrefix : String) (qos : UserQos) (ruleName : String) (limit request : Int)
    (rule : LimitRuleConfig) (t : Int) :
    generateRateKey keyPrefix (toRateLimitRequest qos ruleName limit request) rule (unix t) =
      rateKey keyPrefix qos ruleName (windowOf rule t) := rfl

/-- The names of a user's limits, as the API server lets them be. -/
structure PlainQos (qos : UserQos) : Prop where
  namespace_ : Lacks '=' qos.namespace_
  user : Lacks '=' qos.user
  model : Lacks ':' qos.model

private theorem rateKey_chars (keyPrefix : String) (qos : UserQos) (ruleName : String) (start : Int) :
    (rateKey keyPrefix qos ruleName start).toList = keyPrefix.toList ++ (":namespace=".toList ++
      (qos.namespace_.toList ++ (".user".toList ++ '=' :: (qos.user.toList ++ (".model".toList ++ '=' ::
        ((qos.model.toList ++ '.' :: ruleName.toList) ++ ':' :: (toString start).toList)))))) := by
  simp [rateKey,identifierText,String.toList_append]

private theorem quotaKey_chars (keyPrefix namespace_ name type : String) :
    (quotaKey keyPrefix namespace_ name type).toList = keyPrefix.toList ++ (":namespace=".toList ++
      (namespace_.toList ++ (".quotaname".toList ++ '=' :: (name.toList ++ (".type".toList ++ '=' ::
        (type.toList ++ ['.'])))))) := by
  simp [quotaKey,identifierText,String.toList_append]

variable {keyPrefix name' : String} {labels labels' : List Label}

/-- Rate limit keys tell apart users, models, rules and windows. -/
theorem rateKey_inj {qos qos' : UserQos} {ruleName ruleName' : String} {start start' : Int}
    (plain : PlainQos qos) (plain' : PlainQos qos')
    (dot : Lacks '.' ruleName) (dot' : Lacks '.' ruleName') (colon : Lacks ':' ruleName) (colon' : Lacks ':' ruleName')
    (same : rateKey keyPrefix qos ruleName start = rateKey keyPrefix qos' ruleName' start') :
    qos.namespace_ = qos'.namespace_ ∧ qos.user = qos'.user ∧ qos.model = qos'.model ∧
      ruleName = ruleName' ∧ start = start' := by
  have chars := congrArg String.toList same
  rw [rateKey_chars,rateKey_chars] at chars
  have afterPrefix := List.append_cancel_left (List.append_cancel_left chars)
  obtain ⟨namespaces,afterNamespace⟩ := field_inj (by decide) plain.namespace_ plain'.namespace_ afterPrefix
  obtain ⟨users,afterUser⟩ := field_inj (by decide) plain.user plain'.user afterNamespace
  have noColon : ':' ∉ qos.model.toList ++ '.' :: ruleName.toList := by
    simp only [List.mem_append,List.mem_cons,not_or]
    exact ⟨plain.model,by decide,colon⟩
  have noColon' : ':' ∉ qos'.model.toList ++ '.' :: ruleName'.toList := by
    simp only [List.mem_append,List.mem_cons,not_or]
    exact ⟨plain'.model,by decide,colon'⟩
  obtain ⟨names,starts⟩ := sep_inj noColon noColon' afterUser
  obtain ⟨models,rules⟩ := last_sep_inj dot dot' names
  exact ⟨String.toList_inj.mp namespaces,String.toList_inj.mp users,String.toList_inj.mp models,
    String.toList_inj.mp rules,toString_int_inj (String.toList_inj.mp starts)⟩

/-- Quota keys tell apart namespaces, quotas and types. -/
theorem quotaKey_inj {ns ns' name type type' : String} (plain : Lacks '=' ns) (plain' : Lacks '=' ns')
    (named : Lacks '=' name) (named' : Lacks '=' name')
    (same : quotaKey keyPrefix ns name type = quotaKey keyPrefix ns' name' type') :
    ns = ns' ∧ name = name' ∧ type = type' := by
  have chars := congrArg String.toList same
  rw [quotaKey_chars,quotaKey_chars] at chars
  have afterPrefix := List.append_cancel_left (List.append_cancel_left chars)
  obtain ⟨namespaces,afterNamespace⟩ := field_inj (by decide) plain plain' afterPrefix
  obtain ⟨names,afterName⟩ := field_inj (by decide) named named' afterNamespace
  exact ⟨String.toList_inj.mp namespaces,String.toList_inj.mp names,
    String.toList_inj.mp (List.append_cancel_right afterName)⟩

/-- The last character is a digit: that of a rate limit key, and never of a quota key. -/
def EndsInDigit (key : String) : Prop := ∃ front d, key.toList = front ++ [d] ∧ d.isDigit = true

theorem rateKey_digit (keyPrefix : String) (qos : UserQos) (ruleName : String) (start : Int) :
    EndsInDigit (rateKey keyPrefix qos ruleName start) := by
  obtain ⟨front,d,spelled,digit⟩ := last_digit start
  refine ⟨(keyPrefix ++ ":" ++ identifierText [⟨"namespace",qos.namespace_⟩,⟨"user",qos.user⟩,⟨"model",qos.model⟩] ++
    ruleName ++ ":").toList ++ front,d,?_,digit⟩
  rw [rateKey,String.toList_append,spelled,List.append_assoc]

theorem generateRateKey_digit (keyPrefix : String) (req : RateLimitRequest) (rule : LimitRuleConfig) (now : Int) :
    EndsInDigit (generateRateKey keyPrefix req rule now) := by
  obtain ⟨front,d,spelled,digit⟩ := last_digit (getWindowStart now rule)
  refine ⟨(keyPrefix ++ ":" ++ identifierText req.identifier ++ req.ruleName ++ ":").toList ++ front,d,?_,digit⟩
  rw [generateRateKey,String.toList_append,spelled,List.append_assoc]

theorem quotaKey_digit (keyPrefix ns name type : String) : ¬ EndsInDigit (quotaKey keyPrefix ns name type) := by
  rintro ⟨front,d,spelled,digit⟩
  have last := congrArg List.getLast? spelled
  rw [quotaKey_chars] at last
  simp only [List.getLast?_append,List.getLast?_cons,List.getLast?_nil] at last
  simp only [Option.getD_none,Option.some_or,Option.some.injEq] at last
  subst last
  exact absurd digit (by decide)

theorem known_rule_plain {name : String} (known : newLimitConfig.getRule name = some rule) :
    Lacks '.' name ∧ Lacks ':' name := by
  obtain ⟨_,rfl | rfl | rfl | rfl,_⟩ := newLimitConfig_cases known <;> decide

/-! ### Arbitrary identifiers -/

/-- The identifier part is empty or ends in a dot. -/
theorem identifierText_dot (labels : List Label) :
    (identifierText labels).toList = [] ∨ ∃ front, (identifierText labels).toList = front ++ ['.'] := by
  induction labels with
  | nil => exact .inl rfl
  | cons kv rest ih =>
    refine .inr ?_
    simp only [identifierText,String.toList_append]
    rcases ih with empty | ⟨front,spelled⟩
    · exact ⟨_,by rw [empty,List.append_nil]; rfl⟩
    · exact ⟨_,by rw [spelled,← List.append_assoc]⟩

private theorem identifier_name_inj {name : String} (dot : Lacks '.' name) (dot' : Lacks '.' name')
    (same : (identifierText labels).toList ++ name.toList = (identifierText labels').toList ++ name'.toList) :
    identifierText labels = identifierText labels' ∧ name = name' := by
  rcases identifierText_dot labels with empty | ⟨front,spelled⟩
  · rcases identifierText_dot labels' with empty' | ⟨front',spelled'⟩
    · rw [empty,empty'] at same
      exact ⟨String.toList_inj.mp (empty.trans empty'.symm),String.toList_inj.mp same⟩
    · rw [empty,spelled'] at same
      exact absurd (by simp only [List.nil_append] at same; rw [same]; simp) dot
  · rcases identifierText_dot labels' with empty' | ⟨front',spelled'⟩
    · rw [empty',spelled] at same
      exact absurd (by simp only [List.nil_append] at same; rw [← same]; simp) dot'
    · rw [spelled,spelled',List.append_assoc,List.append_assoc] at same
      obtain ⟨fronts,names⟩ := last_sep_inj dot dot' same
      exact ⟨String.toList_inj.mp (by rw [spelled,spelled',fronts]),String.toList_inj.mp names⟩

/-- Whatever the identifiers, two keys of limits are equal only for the same text of
    the identifier, the same rule and the same window. -/
theorem limitKey_inj {name : String} {start start' : Int} (dot : Lacks '.' name) (dot' : Lacks '.' name')
    (same : keyPrefix ++ ":" ++ identifierText labels ++ name ++ ":" ++ toString start =
      keyPrefix ++ ":" ++ identifierText labels' ++ name' ++ ":" ++ toString start') :
    identifierText labels = identifierText labels' ∧ name = name' ∧ start = start' := by
  have chars := congrArg String.toList same
  simp only [String.toList_append,List.append_assoc] at chars
  have afterPrefix := List.append_cancel_left (List.append_cancel_left chars)
  rw [← List.append_assoc,← List.append_assoc _ name'.toList] at afterPrefix
  obtain ⟨names,starts⟩ :=
    last_sep_inj (digits_lack _ (by decide) (by decide)) (digits_lack _ (by decide) (by decide)) afterPrefix
  obtain ⟨identifiers,rules⟩ := identifier_name_inj dot dot' names
  exact ⟨identifiers,rules,toString_int_inj (String.toList_inj.mp starts)⟩

/-- Labels whose keys hold neither an equals sign nor a dot, and whose values hold no equals sign. -/
def PlainLabels (labels : List Label) : Prop := ∀ kv ∈ labels, Lacks '=' kv.key ∧ Lacks '.' kv.key ∧ Lacks '=' kv.value

private theorem identifierText_cons (kv : Label) (rest : List Label) :
    (identifierText (kv :: rest)).toList = kv.key.toList ++ '=' :: (kv.value.toList ++ '.' :: (identifierText rest).toList) := by
  simp [identifierText,String.toList_append]

private theorem equals_of_value {kv next : Label} {value : String} {rest : List Label} (plain : Lacks '=' value) :
    value.toList ++ ['.'] ≠ kv.value.toList ++ '.' :: (identifierText (next :: rest)).toList := by
  intro same
  have inside : '=' ∈ value.toList ++ ['.'] := by
    rw [same,identifierText_cons]
    simp
  simp only [List.mem_append,List.mem_singleton] at inside
  rcases inside with member | dot
  · exact plain member
  · exact absurd dot (by decide)

/-- Such labels can be read back from their text. -/
theorem identifierText_inj (plain : PlainLabels labels) (plain' : PlainLabels labels')
    (same : identifierText labels = identifierText labels') : labels = labels' := by
  induction labels generalizing labels' with
  | nil =>
    cases labels' with
    | nil => rfl
    | cons kv' rest' =>
      have chars := congrArg String.toList same
      rw [identifierText_cons] at chars
      simp [identifierText] at chars
  | cons kv rest ih =>
    cases labels' with
    | nil =>
      have chars := congrArg String.toList same
      rw [identifierText_cons] at chars
      simp [identifierText] at chars
    | cons kv' rest' =>
      obtain ⟨key,_,value⟩ := plain kv List.mem_cons_self
      obtain ⟨key',_,value'⟩ := plain' kv' List.mem_cons_self
      have chars := congrArg String.toList same
      rw [identifierText_cons,identifierText_cons] at chars
      obtain ⟨keys,values⟩ := sep_inj key key' chars
      have others : PlainLabels rest := fun x member => plain x (.tail _ member)
      have others' : PlainLabels rest' := fun x member => plain' x (.tail _ member)
      -- what follows the value is empty or begins with the next key, which ends in an equals sign
      have tails : kv.value = kv'.value ∧ identifierText rest = identifierText rest' := by
        cases rest with
        | nil =>
          cases rest' with
          | nil => exact ⟨String.toList_inj.mp (List.append_cancel_right values),rfl⟩
          | cons next' rest' => exact absurd values (equals_of_value value)
        | cons next rest =>
          cases rest' with
          | nil => exact absurd values.symm (equals_of_value value')
          | cons next' rest' =>
            obtain ⟨nextKey,nextDot,_⟩ := others next List.mem_cons_self
            obtain ⟨nextKey',nextDot',_⟩ := others' next' List.mem_cons_self
            rw [identifierText_cons,identifierText_cons] at values
            have free : '=' ∉ kv.value.toList ++ '.' :: next.key.toList := by
              simp only [List.mem_append,List.mem_cons,not_or]
              exact ⟨value,by decide,nextKey⟩
            have free' : '=' ∉ kv'.value.toList ++ '.' :: next'.key.toList := by
              simp only [List.mem_append,List.mem_cons,not_or]
              exact ⟨value',by decide,nextKey'⟩
            obtain ⟨fields,later⟩ := sep_inj free free' (by simpa using values)
            obtain ⟨vals,nextKeys⟩ := last_sep_inj nextDot nextDot' fields
            refine ⟨String.toList_inj.mp vals,String.toList_inj.mp ?_⟩
            rw [identifierText_cons,identifierText_cons,nextKeys,later]
      obtain ⟨sameValue,rests⟩ := tails
      have labels : kv = kv' := Label.ext (String.toList_inj.mp keys) sameValue
      rw [ih others others' rests,labels]

/-! ### The keys that are generated -/

/-- A name that holds neither an equals sign nor a colon. -/
def Plain (name : String) : Prop := Lacks '=' name ∧ Lacks ':' name

instance (name : String) : Decidable (Plain name) := inferInstanceAs (Decidable (_ ∧ _))

/-- The request for the `i`-th limit of a quota has the key of that limit's type. -/
theorem generateQuotaKey_eq {conf : QuotaConfig} {countMap : String → Int} {i : Nat} {item : Api.QuotaItem}
    {req : QuotaRequest} (limit : conf.limits[i]? = some item) (made : (qosToQuotaRequests conf countMap)[i]? = some req) :
    generateQuotaKey keyPrefix req = quotaKey keyPrefix conf.namespace_ conf.name item.type := by
  rw [qosToQuotaRequests,List.getElem?_map,limit] at made
  cases made
  rfl

private theorem rate_keys_iff {qos qos' : UserQos} {ruleName ruleName' : String} {rule' : LimitRuleConfig}
    {limit limit' request request' now now' : Int} (plain : PlainQos qos) (plain' : PlainQos qos')
    (known : newLimitConfig.getRule ruleName = some rule) (known' : newLimitConfig.getRule ruleName' = some rule') :
    generateRateKey keyPrefix (toRateLimitRequest qos ruleName limit request) rule now =
        generateRateKey keyPrefix (toRateLimitRequest qos' ruleName' limit' request') rule' now' ↔
      qos.namespace_ = qos'.namespace_ ∧ qos.user = qos'.user ∧ qos.model = qos'.model ∧ ruleName = ruleName' ∧
        getWindowStart now rule = getWindowStart now' rule' := by
  constructor
  · intro same
    exact rateKey_inj plain plain' (known_rule_plain known).1 (known_rule_plain known').1 (known_rule_plain known).2
      (known_rule_plain known').2 same
  · rintro ⟨namespaces,users,models,rules,starts⟩
    simp only [generateRateKey,toRateLimitRequest,namespaces,users,models,rules,starts]

private theorem quota_keys_iff {ns ns' name type type' : String} (plain : Plain ns) (plain' : Plain ns')
    (named : Plain name) (named' : Plain name') :
    quotaKey keyPrefix ns name type = quotaKey keyPrefix ns' name' type' ↔ ns = ns' ∧ name = name' ∧ type = type' := by
  constructor
  · exact quotaKey_inj plain.1 plain'.1 named.1 named'.1
  · rintro ⟨rfl,rfl,rfl⟩
    rfl

private theorem rateKey_ne_quotaKey (keyPrefix : String) (qos : UserQos) (ruleName : String) (start : Int)
    (ns name type : String) :
    rateKey keyPrefix qos ruleName start ≠ quotaKey keyPrefix ns name type :=
  fun same => quotaKey_digit keyPrefix ns name type (same ▸ rateKey_digit keyPrefix qos ruleName start)

/-- The names of a user's limits and of a configured quota. -/
structure PlainNames (qos : UserQos) : Prop where
  namespace_ : Plain qos.namespace_
  user : Plain qos.user
  model : Plain qos.model

theorem PlainNames.qos {qos : UserQos} (plain : PlainNames qos) : PlainQos qos :=
  ⟨plain.namespace_.1,plain.user.1,plain.model.2⟩

/-- Under one prefix, the generated keys of limits are equal only for the same user,
    model, rule and window, those of quotas only for the same quota and type, and no
    key of a limit is one of a quota. -/
theorem generated_keys_injective (keyPrefix : String) :
    (∀ (qos qos' : UserQos) (ruleName ruleName' : String) (rule rule' : LimitRuleConfig)
        (limit limit' request request' now now' : Int), PlainNames qos → PlainNames qos' →
      newLimitConfig.getRule ruleName = some rule → newLimitConfig.getRule ruleName' = some rule' →
      (generateRateKey keyPrefix (toRateLimitRequest qos ruleName limit request) rule now =
          generateRateKey keyPrefix (toRateLimitRequest qos' ruleName' limit' request') rule' now' ↔
        qos.namespace_ = qos'.namespace_ ∧ qos.user = qos'.user ∧ qos.model = qos'.model ∧ ruleName = ruleName' ∧
          getWindowStart now rule = getWindowStart now' rule')) ∧
    (∀ (conf conf' : QuotaConfig) (countMap countMap' : String → Int) (i j : Nat) (item item' : Api.QuotaItem)
        (req req' : QuotaRequest), Plain conf.namespace_ → Plain conf'.namespace_ → Plain conf.name → Plain conf'.name →
      conf.limits[i]? = some item → (qosToQuotaRequests conf countMap)[i]? = some req →
      conf'.limits[j]? = some item' → (qosToQuotaRequests conf' countMap')[j]? = some req' →
      (generateQuotaKey keyPrefix req = generateQuotaKey keyPrefix req' ↔
        conf.namespace_ = conf'.namespace_ ∧ conf.name = conf'.name ∧ item.type = item'.type)) ∧
    (∀ (qos : UserQos) (ruleName : String) (rule : LimitRuleConfig) (limit request now : Int) (conf : QuotaConfig)
        (countMap : String → Int) (req : QuotaRequest), req ∈ qosToQuotaRequests conf countMap →
      generateRateKey keyPrefix (toRateLimitRequest qos ruleName limit request) rule now ≠ generateQuotaKey keyPrefix req) := by
  refine ⟨?_,?_,?_⟩
  · intro qos qos' ruleName ruleName' rule rule' limit limit' request request' now now' plain plain' known known'
    exact rate_keys_iff plain.qos plain'.qos known known'
  · intro conf conf' countMap countMap' i j item item' req req' ns ns' name name' isItem isReq isItem' isReq'
    rw [generateQuotaKey_eq isItem isReq,generateQuotaKey_eq isItem' isReq']
    exact quota_keys_iff ns ns' name name'
  · intro qos ruleName rule limit request now conf countMap req made
    obtain ⟨item,_,rfl⟩ := List.mem_map.mp made
    exact rateKey_ne_quotaKey keyPrefix qos ruleName (getWindowStart now rule) conf.namespace_ conf.name item.type

/-- Two users of one namespace, two types of one quota, and a limit beside a quota. -/
theorem generated_keys_apart :
    generateRateKey "p" (toRateLimitRequest ⟨"u.v","ns","m","q",[]⟩ "rpm" 1 1) ⟨"rpm",.request,1,.minute⟩ 0 ≠
        generateRateKey "p" (toRateLimitRequest ⟨"u","ns","v.m","q",[]⟩ "rpm" 1 1) ⟨"rpm",.request,1,.minute⟩ 0 ∧
      generateQuotaKey "p" ⟨[⟨"namespace","ns"⟩,⟨"quotaname","q"⟩,⟨"type","prompt"⟩],1,0⟩ ≠
        generateQuotaKey "p" ⟨[⟨"namespace","ns"⟩,⟨"quotaname","q"⟩,⟨"type","total"⟩],1,0⟩ ∧
      generateRateKey "p" (toRateLimitRequest ⟨"u","ns","m","q",[]⟩ "rpm" 1 1) ⟨"rpm",.request,1,.minute⟩ 0 ≠
        generateQuotaKey "p" ⟨[⟨"namespace","ns"⟩,⟨"quotaname","q"⟩,⟨"type","prompt"⟩],1,0⟩ := by
  obtain ⟨rates,quotas,apart⟩ := generated_keys_injective "p"
  refine ⟨fun same => ?_,fun same => ?_,?_⟩
  · have users := ((rates _ _ _ _ _ _ _ _ _ _ _ _ ⟨by decide,by decide,by decide⟩ ⟨by decide,by decide,by decide⟩
      (by decide) (by decide)).mp same).2.1
    exact absurd users (by decide)
  · have types :=
      ((quotas ⟨"q","ns",[⟨"prompt",1⟩]⟩ ⟨"q","ns",[⟨"total",1⟩]⟩ (fun _ => 0) (fun _ => 0) 0 0 ⟨"prompt",1⟩ ⟨"total",1⟩
      _ _ (by decide) (by decide) (by decide) (by decide) rfl rfl rfl rfl).mp same).2.2
    exact absurd types (by decide)
  · exact apart _ _ _ _ _ _ ⟨"q","ns",[⟨"prompt",1⟩]⟩ (fun _ => 0) _ List.mem_cons_self

end Arks.Counters
