import Arks.Effects

/-!
The three services behind the gateway: the rate limiter and the quota service on
Redis, and the provider that reads tokens, quotas and endpoints from the API
server and writes the quota usage back to them.
-/
namespace Arks.Services
open Programs Api Counters Effects

/-! ### Interfaces -/

/-- `RateLimterInterface`; a rule that is not configured has no response. -/
structure RateLimterInterface (m : Type → Type) where
  checkLimit : List RateLimitRequest → m (Except String (List (Option RateLimitResponse)))
  doLimit : List RateLimitRequest → m (Except String Unit)
  getRuleByName : String → Option LimitRuleConfig

structure QuotaService (m : Type → Type) where
  incrUsage : List QuotaRequest → m (Except String Unit)
  setUsage : List QuotaRequest → m (Except String Unit)
  getUsage : List QuotaRequest → m (Except String (List QuotaResult))

/-- `ConfigProvider`; the qos is a pointer that may be nil. -/
structure ConfigProvider (m : Type → Type) where
  getQosByToken : String → String → m (Except String (Option UserQos))
  getQuotaConfig : String → String → m (Except String QuotaConfig)
  getModelList : String → m (Except String (List String))
  getModelsByToken : String → m (Except String (List String))

/-! ### The rate limiter -/

structure RedisRateLimter where
  keyPrefix : String
  config : LimitConfig
  jitter : Int

/-- `NewRedisRateLimter`; `draw` is its random number below 1000, the jitter in milliseconds. -/
def newRedisRateLimter (keyPrefix : String) (draw : Int) : RedisRateLimter := ⟨keyPrefix,newLimitConfig,draw * 1000000⟩

/-- `checkItem` before the pipeline ran. -/
structure CheckItem where
  req : RateLimitRequest
  key : String

/-- A command that the pipeline ran, with its result. -/
structure CheckedItem extends CheckItem where
  getCmd : Except RedisErr Int
  ttlCmd : Except RedisErr Int

def RedisRateLimter.checkItem (c : RedisRateLimter) (now : Int) (req : RateLimitRequest) : Option CheckItem :=
  (c.config.getRule req.ruleName).map (fun rule => ⟨req,generateRateKey c.keyPrefix req rule (unix now)⟩)

/-- Run the pipeline of `CheckLimit`. -/
def readItems : List (Option CheckItem) → Action (List (Option CheckedItem))
  | [] => pure []
  | none :: items => do
    let results ← readItems items
    pure (none :: results)
  | some item :: items => do
    let getCmd ← ask (.get item.key)
    let ttlCmd ← ask (.ttl item.key)
    let results ← readItems items
    pure (some ⟨item,getCmd,ttlCmd⟩ :: results)

def errOf {α : Type} : Except RedisErr α → Option RedisErr
  | .error e => some e
  | .ok _ => none

/-- What `Exec` returns: the error of the first command that has one. -/
def checkErr : List (Option CheckedItem) → Option RedisErr
  | [] => none
  | none :: items => checkErr items
  | some item :: items => (errOf item.getCmd).or ((errOf item.ttlCmd).or (checkErr items))

def currentValue : Except RedisErr Int → Int
  | .ok value => value
  | .error _ => 0

def CheckedItem.response (now : Int) (item : CheckedItem) : RateLimitResponse where
  ruleName := item.req.ruleName
  overLimit := decide (item.req.limit < int64 (currentValue item.getCmd + item.req.request))
  currentUsage := currentValue item.getCmd
  limitMax := item.req.limit
  expiresAt := now + max 0 (currentValue item.ttlCmd)

def RedisRateLimter.checkLimit (c : RedisRateLimter) (requests : List RateLimitRequest) :
    Action (Except String (List (Option RateLimitResponse))) := do
  let now ← ask (.now (.checkLimit requests))
  let results ← readItems (requests.map (c.checkItem now))
  match checkErr results with
  | some (.failed message) => pure (.error message)
  | _ => pure (.ok (results.map (Option.map (CheckedItem.response now))))

/-- The commands that `DoLimit` queues. -/
inductive LimitCmd
  | incrBy (key : String) (amount : Int)
  | expire (key : String) (seconds : Int)

/-- The whole seconds that the client sends for a duration, at least one for a
    positive duration. -/
def formatSec (d : Int) : Int := if 0 < d ∧ d < second then 1 else d.tdiv second

def RedisRateLimter.expiration (c : RedisRateLimter) (rule : LimitRuleConfig) : Action Int :=
  if 0 < c.jitter then do
    let extra ← ask (.random c.jitter)
    pure (int64 (windowSize rule + extra))
  else pure (windowSize rule)

/-- A key without an expiry gets one. -/
def RedisRateLimter.expireCmds (c : RedisRateLimter) (rule : LimitRuleConfig) (key : String) (ttl : Int) :
    Action (List LimitCmd) :=
  if ttl < 0 then do
    let expiration ← c.expiration rule
    pure [.expire key (formatSec expiration)]
  else pure []

def RedisRateLimter.queueLimits (c : RedisRateLimter) (now : Int) :
    List RateLimitRequest → Action (Except String (List LimitCmd))
  | [] => pure (.ok [])
  | req :: requests =>
    match c.config.getRule req.ruleName with
    | none => c.queueLimits now requests
    | some rule => do
      let key := generateRateKey c.keyPrefix req rule (unix now)
      -- the time to live is read at once, ahead of the queued commands
      match ← ask (.ttl key) with
      | .error e => pure (.error ("redis get ttl failed, err: " ++ e.text))
      | .ok ttl =>
        let expires ← c.expireCmds rule key ttl
        match ← c.queueLimits now requests with
        | .error e => pure (.error e)
        | .ok cmds => pure (.ok (.incrBy key req.request :: expires ++ cmds))

/-- Run the pipeline of `DoLimit` and return its first error. -/
def runLimits : List LimitCmd → Action (Option RedisErr)
  | [] => pure none
  | .incrBy key amount :: cmds => do
    let result ← ask (.incrBy key amount)
    let later ← runLimits cmds
    pure ((errOf result).or later)
  | .expire key seconds :: cmds => do
    let result ← ask (.expire key seconds)
    let later ← runLimits cmds
    pure ((errOf result).or later)

def errorOr (e : Option RedisErr) : Except String Unit :=
  match e with
  | some e => .error e.text
  | none => .ok ()

def RedisRateLimter.doLimit (c : RedisRateLimter) (requests : List RateLimitRequest) : Action (Except String Unit) := do
  let now ← ask (.now (.doLimit requests))
  match ← c.queueLimits now requests with
  | .error e => pure (.error e)
  | .ok cmds => do
    let err ← runLimits cmds
    pure (errorOr err)

def RedisRateLimter.interface (c : RedisRateLimter) : RateLimterInterface Action where
  checkLimit := c.checkLimit
  doLimit := c.doLimit
  getRuleByName := c.config.getRule

/-! ### The quota service -/

structure RedisQuotaService where
  keyPrefix : String

def RedisQuotaService.incrAll (s : RedisQuotaService) : List QuotaRequest → Action (Option RedisErr)
  | [] => pure none
  | req :: requests => do
    let result ← ask (.incrBy (generateQuotaKey s.keyPrefix req) req.request)
    let later ← s.incrAll requests
    pure ((errOf result).or later)

def RedisQuotaService.setAll (s : RedisQuotaService) : List QuotaRequest → Action (Option RedisErr)
  | [] => pure none
  | req :: requests => do
    let result ← ask (.set (generateQuotaKey s.keyPrefix req) req.request)
    let later ← s.setAll requests
    pure ((errOf result).or later)

def RedisQuotaService.getAll (s : RedisQuotaService) : List QuotaRequest → Action (List (QuotaRequest × Except RedisErr Int))
  | [] => pure []
  | req :: requests => do
    let getCmd ← ask (.get (generateQuotaKey s.keyPrefix req))
    let results ← s.getAll requests
    pure ((req,getCmd) :: results)

def usageErr : List (QuotaRequest × Except RedisErr Int) → Option RedisErr
  | [] => none
  | (_,getCmd) :: items => (errOf getCmd).or (usageErr items)

def quotaResult (req : QuotaRequest) (value : Int) : QuotaResult where
  identifier := req.identifier
  overLimit := decide (req.limit < value)
  currentUsage := value
  limitMax := req.limit

/-- A missing key counts as zero, any other error ends the loop. -/
def usageResults : List (QuotaRequest × Except RedisErr Int) → Except String (List QuotaResult)
  | [] => .ok []
  | (req,getCmd) :: items =>
    match getCmd with
    | .error (.failed message) => .error message
    | getCmd =>
      match usageResults items with
      | .error e => .error e
      | .ok results => .ok (quotaResult req (currentValue getCmd) :: results)

def RedisQuotaService.getUsage (s : RedisQuotaService) (requests : List QuotaRequest) :
    Action (Except String (List QuotaResult)) := do
  let items ← s.getAll requests
  match usageErr items with
  | some (.failed message) => pure (.error message)
  | _ => pure (usageResults items)

def RedisQuotaService.incrUsage (s : RedisQuotaService) (requests : List QuotaRequest) : Action (Except String Unit) := do
  let err ← s.incrAll requests
  pure (errorOr err)

def RedisQuotaService.setUsage (s : RedisQuotaService) (requests : List QuotaRequest) : Action (Except String Unit) := do
  let err ← s.setAll requests
  pure (errorOr err)

def RedisQuotaService.interface (s : RedisQuotaService) : QuotaService Action where
  incrUsage := s.incrUsage
  setUsage := s.setUsage
  getUsage := s.getUsage

/-! ### The provider -/

structure ArksProvider where
  quotaService : QuotaService Action

def quotaConfigOf (quota : ArksQuota) : QuotaConfig := ⟨quota.name,quota.namespace_,quota.quotas⟩

def toRateLimit (rl : TokenRateLimit) : RateLimit := ⟨rl.type.text,rl.value⟩

/-- The qos that a token gives on a model: its first entry for the model. -/
def qosOf (obj : ArksToken) (model : String) : Option UserQos :=
  (obj.qos.find? (fun qos => qos.arksEndpoint = model)).map (fun qos => {
    user := obj.name
    namespace_ := obj.namespace_
    model := qos.arksEndpoint
    quotaName := qos.quota
    rateLimits := qos.rateLimits.map toRateLimit })

def getQosByToken (token model : String) : Action (Except String (Option UserQos)) := do
  match ← ask (.listTokens token) with
  | .error e => pure (.error e)
  | .ok [] => pure (.error ("token not found: " ++ token))
  | .ok (obj :: _) =>
    match qosOf obj model with
    | none => pure (.error ("model not found: " ++ model))
    | some qos => pure (.ok (some qos))

def getQuotaConfig (namespace_ quotaName : String) : Action (Except String QuotaConfig) := do
  match ← ask (.getQuota namespace_ quotaName) with
  | .error e => pure (.error e)
  | .ok obj => pure (.ok (quotaConfigOf obj))

def getModelList (namespace_ : String) : Action (Except String (List String)) := do
  match ← ask (.listEndpoints namespace_) with
  | .error e => pure (.error e)
  | .ok endpoints => pure (.ok (endpoints.map (fun endpoint => endpoint.name.val)))

def getModelsByToken (token : String) : Action (Except String (List String)) := do
  match ← ask (.listTokens token) with
  | .error e => pure (.error e)
  | .ok [] => pure (.error ("token not found: " ++ token))
  | .ok (obj :: _) => pure (.ok (obj.qos.map ArksQos.arksEndpoint))

def arksConfigProvider : ConfigProvider Action where
  getQosByToken := getQosByToken
  getQuotaConfig := getQuotaConfig
  getModelList := getModelList
  getModelsByToken := getModelsByToken

/-- The value of the first label with key `type`, empty when there is none. -/
def quotaTypeOf (identifier : List Label) : String :=
  ((identifier.find? (fun label => label.key = "type")).map Label.value).getD ""

/-- What one pass over a quota has decided so far. -/
structure SyncState where
  quotaStatus : List QuotaStatus
  shouldUpdateCR : Bool
  shouldUpdateQuota : Bool

/-- Write the usage into the first entry of the type. -/
def setUsed (type : String) (used now : Int) : List QuotaStatus → List QuotaStatus
  | [] => []
  | status :: rest =>
    if status.type = type then { status with used := used,lastUpdateTime := some now } :: rest
    else status :: setUsed type used now rest

/-- The body of the loop over the usages. -/
def syncType (st : SyncState) (u : QuotaResult) : Action SyncState :=
  let quotaType := quotaTypeOf u.identifier
  match st.quotaStatus.find? (fun status => status.type = quotaType) with
  | some status =>
    if status.used < u.currentUsage then do
      let now ← ask (.now .elsewhere)
      pure { st with shouldUpdateCR := true,quotaStatus := setUsed quotaType u.currentUsage now st.quotaStatus }
    else if u.currentUsage < status.used then pure { st with shouldUpdateQuota := true }
    else pure st
  | none => do
    let now ← ask (.now .elsewhere)
    pure { st with
      shouldUpdateCR := true
      quotaStatus := st.quotaStatus ++ [⟨quotaType,u.currentUsage,some now⟩] }

def syncTypes (st : SyncState) : List QuotaResult → Action SyncState
  | [] => pure st
  | u :: usage => do
    let st ← syncType st u
    syncTypes st usage

/-- Write back what a pass decided; the error of either write is dropped. -/
def ArksProvider.updateQuota (p : ArksProvider) (req : List QuotaRequest) (st : SyncState) : Action Unit :=
  if st.shouldUpdateQuota then do
    let _ ← p.quotaService.setUsage req
    pure ()
  else pure ()

def updateCR (quota : ArksQuota) (st : SyncState) : Action Unit :=
  if st.shouldUpdateCR then do
    let _ ← ask (.updateQuotaStatus { quota with quotaStatus := st.quotaStatus })
    pure ()
  else pure ()

/-- The body of the loop over the quotas. -/
def ArksProvider.syncQuota (p : ArksProvider) (quota : ArksQuota) : Action Unit := do
  -- without counts, every request of the list is for zero
  let req := qosToQuotaRequests (quotaConfigOf quota) (fun _ => 0)
  match ← p.quotaService.getUsage req with
  | .error _ => pure ()
  | .ok usage =>
    let st ← syncTypes ⟨quota.quotaStatus,false,false⟩ usage
    p.updateQuota req st
    updateCR quota st

def ArksProvider.syncQuotas (p : ArksProvider) : List ArksQuota → Action Unit
  | [] => pure ()
  | quota :: rest => do
    p.syncQuota quota
    p.syncQuotas rest

def ArksProvider.syncQuotaUsage (p : ArksProvider) : Action (Except String Unit) := do
  match ← ask .listQuotas with
  | .error e => pure (.error e)
  | .ok quotas => do
    p.syncQuotas quotas
    pure (.ok ())

/-! ### What the services read and issue -/

/-- Without a failed read, every request has its result. -/
theorem usageResults_ok {items : List (QuotaRequest × Except RedisErr Int)}
    (heard : ∀ item ∈ items, ∀ message, item.2 ≠ .error (.failed message)) :
    usageResults items = .ok (items.map (fun item => quotaResult item.1 (currentValue item.2))) := by
  induction items with
  | nil => rfl
  | cons item items ih =>
    obtain ⟨req,getCmd⟩ := item
    have rest := ih (fun x member => heard x (.tail _ member))
    have mine := heard _ List.mem_cons_self
    rcases getCmd with (_ | message) | v
    · simp [usageResults,rest]
    · exact absurd rfl (mine message)
    · simp [usageResults,rest]

theorem usageErr_ok {items : List (QuotaRequest × Except RedisErr Int)}
    (heard : ∀ item ∈ items, ∀ message, item.2 ≠ .error (.failed message)) (message : String) :
    usageErr items ≠ some (.failed message) := by
  induction items with
  | nil => simp [usageErr]
  | cons item items ih =>
    obtain ⟨req,getCmd⟩ := item
    have rest := ih (fun x member => heard x (.tail _ member))
    have mine := heard _ List.mem_cons_self
    rcases getCmd with (_ | failed) | v
    · simp [usageErr,errOf]
    · exact absurd rfl (mine failed)
    · simpa [usageErr,errOf] using rest

theorem acts_get {fails : Op → Prop} {w : World} {key : String} {r : Reply (.get key)} {w' : World}
    (act : Acts fails w (.get key) r w') :
    w' = w ∧ ((∃ message, r = .error (.failed message)) ∨ currentValue r = w.value key) := by
  cases act with
  | done =>
    refine ⟨by simp only [perform]; split <;> rfl,.inr ?_⟩
    rcases perform_get w key with ⟨_,missing,zero⟩ | found
    · rw [missing,zero]
      rfl
    · rw [found]
      rfl
  | refused _ failed =>
    cases failed
    exact ⟨rfl,.inl ⟨_,rfl⟩⟩
  | unheard _ failed =>
    cases failed
    exact ⟨by simp only [perform]; split <;> rfl,.inl ⟨_,rfl⟩⟩

section Footprints
open Prog
variable {answers : (op : Op) → Reply op → Prop} {P : Op → Prop} (c : RedisRateLimter) (s : RedisQuotaService)

/-- The keys that a request list leads to, whatever the time. -/
def RedisRateLimter.Keys (c : RedisRateLimter) (requests : List RateLimitRequest) (req : RateLimitRequest)
    (key : String) : Prop :=
  req ∈ requests ∧ ∃ rule now, c.config.getRule req.ruleName = some rule ∧
    key = generateRateKey c.keyPrefix req rule (unix now)

theorem readItems_within {items : List (Option CheckItem)}
    (reads : ∀ item, some item ∈ items → P (.get item.key) ∧ P (.ttl item.key)) :
    Within answers P (fun _ => True) (readItems items) := by
  induction items with
  | nil => trivial
  | cons item items ih =>
    have rest := ih (fun x member => reads x (.tail _ member))
    cases item with
    | none => exact within_bind rest (fun _ _ => trivial)
    | some item =>
      obtain ⟨get,ttl⟩ := reads item List.mem_cons_self
      simp only [readItems,issue_bind,within_call]
      exact ⟨get,fun _ _ => ⟨ttl,fun _ _ => within_bind rest (fun _ _ => trivial)⟩⟩

variable {requests : List RateLimitRequest}

theorem checkLimit_within (clock : P (.now (.checkLimit requests)))
    (reads : ∀ req key, c.Keys requests req key → P (.get key) ∧ P (.ttl key)) :
    Within answers P (fun _ => True) (c.checkLimit requests) := by
  simp only [RedisRateLimter.checkLimit,issue_bind,within_call]
  refine ⟨clock,fun now _ => within_bind (readItems_within ?_) (fun results _ => ?_)⟩
  · intro item member
    obtain ⟨req,listed,found⟩ := List.mem_map.mp member
    obtain ⟨rule,known,rfl⟩ := Option.map_eq_some_iff.mp found
    exact reads req _ ⟨listed,rule,now,known,rfl⟩
  · split <;> trivial

/-- What a queued command issues. -/
def LimitCmd.op : LimitCmd → Op
  | .incrBy key amount => .incrBy key amount
  | .expire key seconds => .expire key seconds

private theorem expireCmds_within (rule : LimitRuleConfig) {key : String} (random : ∀ bound, P (.random bound))
    (expires : ∀ seconds, P (.expire key seconds)) (ttl : Int) :
    Within answers P (fun cmds => ∀ cmd ∈ cmds, P cmd.op) (c.expireCmds rule key ttl) := by
  unfold RedisRateLimter.expireCmds RedisRateLimter.expiration
  split
  · split
    · simp only [issue_bind,call_bind,within_call]
      refine ⟨random _,fun extra _ => ?_⟩
      simpa [LimitCmd.op] using expires _
    · simpa [LimitCmd.op] using expires _
  · simp

private theorem queueLimits_within (random : ∀ bound, P (.random bound)) (limits : ∀ req key, c.Keys requests req key →
      P (.ttl key) ∧ P (.incrBy key req.request) ∧ ∀ seconds, P (.expire key seconds)) (now : Int) :
    Within answers P (fun r => ∀ cmds, r = .ok cmds → ∀ cmd ∈ cmds, P cmd.op) (c.queueLimits now requests) := by
  induction requests with
  | nil => simp [RedisRateLimter.queueLimits]
  | cons req requests ih =>
    have rest := ih (fun x key ⟨member,found⟩ => limits x key ⟨List.mem_cons_of_mem _ member,found⟩)
    rw [RedisRateLimter.queueLimits]
    cases known : c.config.getRule req.ruleName with
    | none => exact rest
    | some rule =>
      obtain ⟨ttl,incr,expires⟩ := limits req _ ⟨.head _,rule,now,known,rfl⟩
      simp only [issue_bind,within_call]
      refine ⟨ttl,fun read _ => ?_⟩
      rcases read with e | left
      · simp
      refine within_bind (expireCmds_within c rule random expires left) (fun expiry ok => ?_)
      refine within_bind rest (fun queued later => ?_)
      rcases queued with e | cmds
      · simp
      simp only [pure_eq,within_ret,Except.ok.injEq]
      rintro _ rfl cmd member
      rcases List.mem_cons.mp member with rfl | member
      · exact incr
      rcases List.mem_append.mp member with member | member
      · exact ok cmd member
      · exact later cmds rfl cmd member

theorem runLimits_within {cmds : List LimitCmd} (issued : ∀ cmd ∈ cmds, P cmd.op) :
    Within answers P (fun _ => True) (runLimits cmds) := by
  induction cmds with
  | nil => trivial
  | cons cmd cmds ih =>
    have rest := ih (fun x member => issued x (.tail _ member))
    have first := issued cmd List.mem_cons_self
    cases cmd with
    | incrBy | expire =>
      simp only [runLimits,issue_bind,within_call]
      exact ⟨first,fun _ _ => within_bind rest (fun _ _ => trivial)⟩

theorem doLimit_within (clock : P (.now (.doLimit requests))) (random : ∀ bound, P (.random bound))
    (limits : ∀ req key, c.Keys requests req key →
      P (.ttl key) ∧ P (.incrBy key req.request) ∧ ∀ seconds, P (.expire key seconds)) :
    Within answers P (fun _ => True) (c.doLimit requests) := by
  simp only [RedisRateLimter.doLimit,issue_bind,within_call]
  refine ⟨clock,fun now _ => within_bind (queueLimits_within c random limits now) (fun queued issued => ?_)⟩
  rcases queued with e | cmds
  · trivial
  · exact within_bind (runLimits_within (issued cmds rfl)) (fun _ _ => trivial)

theorem getUsage_within {requests : List QuotaRequest}
    (reads : ∀ req ∈ requests, P (.get (generateQuotaKey s.keyPrefix req))) :
    Within answers P (fun _ => True) (s.getUsage requests) := by
  have all : Within answers P (fun _ => True) (s.getAll requests) := by
    induction requests with
    | nil => trivial
    | cons req requests ih =>
      simp only [RedisQuotaService.getAll,issue_bind,within_call]
      refine ⟨reads req (.head _),fun _ _ => within_bind (ih ?_) (fun _ _ => trivial)⟩
      exact fun x member => reads x (.tail _ member)
  refine within_bind all (fun items _ => ?_)
  split <;> trivial

theorem incrUsage_within {requests : List QuotaRequest}
    (incrs : ∀ req ∈ requests, P (.incrBy (generateQuotaKey s.keyPrefix req) req.request)) :
    Within answers P (fun _ => True) (s.incrUsage requests) := by
  have all : Within answers P (fun _ => True) (s.incrAll requests) := by
    induction requests with
    | nil => trivial
    | cons req requests ih =>
      simp only [RedisQuotaService.incrAll,issue_bind,within_call]
      refine ⟨incrs req (.head _),fun _ _ => within_bind (ih ?_) (fun _ _ => trivial)⟩
      exact fun x member => incrs x (.tail _ member)
  exact within_bind all (fun _ _ => trivial)

theorem getQuotaConfig_within {ns name : String} (read : P (.getQuota ns name)) :
    Within answers P (fun r => ∀ conf, r = .ok conf → ∃ obj, answers (.getQuota ns name) (.ok obj) ∧ conf = quotaConfigOf obj)
      (getQuotaConfig ns name) := by
  simp only [getQuotaConfig,issue_bind,within_call]
  refine ⟨read,fun found possible => ?_⟩
  cases found with
  | error e => simp
  | ok obj =>
    intro conf same
    cases same
    exact ⟨obj,possible,rfl⟩

private theorem syncTypes_within (clock : P (.now .elsewhere)) (st : SyncState) (usage : List QuotaResult) :
    Within answers P (fun _ => True) (syncTypes st usage) := by
  induction usage generalizing st with
  | nil => trivial
  | cons u usage ih =>
    have first : Within answers P (fun _ => True) (syncType st u) := by
      unfold syncType
      dsimp only
      split
      · split
        · exact ⟨clock,fun _ _ => trivial⟩
        · split <;> trivial
      · exact ⟨clock,fun _ _ => trivial⟩
    exact within_bind first (fun st' _ => ih st')

theorem setUsage_within {requests : List QuotaRequest}
    (sets : ∀ req ∈ requests, P (.set (generateQuotaKey s.keyPrefix req) req.request)) :
    Within answers P (fun _ => True) (s.setUsage requests) := by
  have all : Within answers P (fun _ => True) (s.setAll requests) := by
    induction requests with
    | nil => trivial
    | cons req requests ih =>
      simp only [RedisQuotaService.setAll,issue_bind,within_call]
      refine ⟨sets req (.head _),fun _ _ => within_bind (ih ?_) (fun _ _ => trivial)⟩
      exact fun x member => sets x (.tail _ member)
  exact within_bind all (fun _ _ => trivial)

/-- A pass over one quota reads and writes its keys and its status. -/
theorem syncQuota_within {q : ArksQuota} (clock : P (.now .elsewhere))
    (keys : ∀ type, P (.get (quotaKey s.keyPrefix q.namespace_ q.name type)) ∧
      ∀ n, P (.set (quotaKey s.keyPrefix q.namespace_ q.name type) n))
    (status : ∀ st, P (.updateQuotaStatus { q with quotaStatus := st })) :
    Within answers P (fun _ => True) (ArksProvider.syncQuota ⟨s.interface⟩ q) := by
  have of_key : ∀ req ∈ qosToQuotaRequests (quotaConfigOf q) (fun _ => 0),
      P (.get (generateQuotaKey s.keyPrefix req)) ∧ ∀ n, P (.set (generateQuotaKey s.keyPrefix req) n) := by
    intro req member
    obtain ⟨item,_,rfl⟩ := List.mem_map.mp member
    exact keys _
  refine within_bind (getUsage_within s (fun req member => (of_key req member).1)) (fun read _ => ?_)
  rcases read with e | usage
  · trivial
  refine within_bind (syncTypes_within clock _ usage) (fun st _ => ?_)
  have redis : Within answers P (fun _ => True)
      (ArksProvider.updateQuota ⟨s.interface⟩ (qosToQuotaRequests (quotaConfigOf q) (fun _ => 0)) st) := by
    unfold ArksProvider.updateQuota
    split
    · exact within_bind (setUsage_within s (fun req member => (of_key req member).2 _)) (fun _ _ => trivial)
    · trivial
  refine within_bind redis (fun _ _ => ?_)
  unfold updateCR
  split
  · exact ⟨status _,fun _ _ => trivial⟩
  · trivial

/-- A pass reads and writes quota keys and the status of the quotas. -/
theorem syncQuotaUsage_within (list : P .listQuotas) (clock : P (.now .elsewhere))
    (keys : ∀ ns name type, P (.get (quotaKey s.keyPrefix ns name type)) ∧ ∀ n, P (.set (quotaKey s.keyPrefix ns name type) n))
    (status : ∀ q, P (.updateQuotaStatus q)) :
    Within answers P (fun _ => True) (ArksProvider.syncQuotaUsage ⟨s.interface⟩) := by
  have all : ∀ qs, Within answers P (fun _ => True) (ArksProvider.syncQuotas ⟨s.interface⟩ qs) := by
    intro qs
    induction qs with
    | nil => trivial
    | cons q qs ih => exact within_bind (syncQuota_within s clock (keys _ _) (fun _ => status _)) (fun _ _ => ih)
  simp only [ArksProvider.syncQuotaUsage,issue_bind,within_call]
  refine ⟨list,fun read _ => ?_⟩
  rcases read with e | qs
  · trivial
  · exact within_bind (all qs) (fun _ _ => trivial)

end Footprints
end Arks.Services
