import Arks.Interfaces

/-!
The sessions of a gateway process. The process keeps two maps for all of them, the
pieces of the responses so far and the times that they took. Each session takes one
message after the other and handles it with calls to the services and to the maps. A
session works on its own entries only, so what it does can be read off its own turns,
whatever the others do in between.
-/
namespace Arks.Exchanges
open Programs Programs.Prog Counters Services Gateway Interfaces
open Effects (Metric ProcessingTime Bytes)

/-! ### The process -/

/-- The entries of a request in `processingTimes` and `requestBuffers`. -/
structure Entry where
  timing : Option ProcessingTime
  buffer : Option Bytes

/-- The request whose entry a call is about. -/
def requestOf : Op → Option String
  | .loadTiming id | .storeTiming id _ | .deleteTiming id | .writeBuffer id _ | .deleteBuffer id => some id
  | _ => none

/-- What a call finds in an entry and makes of it. The first call for a request stores it. -/
def Serves : (op : Op) → Entry → Reply op → Entry → Prop
  | .loadTiming _,e,r,e' => r = e.timing.getD ⟨none,0⟩ ∧ e' = { e with timing := some r }
  | .storeTiming _ timing,e,_,e' => e' = { e with timing := some timing }
  | .deleteTiming _,e,_,e' => e' = { e with timing := none }
  | .writeBuffer _ data,e,r,e' => r = e.buffer.getD [] ++ data ∧ e' = { e with buffer := some r }
  | .deleteBuffer _,e,_,e' => e' = { e with buffer := none }
  | _,e,_,e' => e' = e

/-- A message, the variables of the session when it came, and the calls it led to. -/
structure Turn where
  vars : Session
  msg : ProcessingRequest
  calls : List Call

/-- The pieces of a response that `HandleResponseBody` gets to see, with whether they end it. -/
def pieceOf (vars : Session) : ProcessingRequest → Option (Bytes × Bool)
  | .responseBody body endOfStream => if vars.statusCode = 200 then some (body,endOfStream) else none
  | _ => none

def Turn.piece (turn : Turn) : Option (Bytes × Bool) := pieceOf turn.vars turn.msg

/-- The turns of a session, the newest first. -/
def noted (turns : List Turn) : (op : Op) → Reply op → List Turn
  | .recv vars,some msg => ⟨vars,msg,[]⟩ :: turns
  | .recv _,none => turns
  | op,r =>
    match turns with
    | [] => []
    | turn :: older => { turn with calls := turn.calls ++ [⟨op,r⟩] } :: older

/-- The maps, and for reasoning only what each session has done. -/
structure Shared (ι : Type) where
  entries : String → Entry
  turns : ι → List Turn

/-- Where `Process` stands between two messages. -/
inductive Local
  | waiting (vars : Session)
  | returned (vars : Session)
  | crashed

/-- A gateway process with its sessions, each of which draws an id of its own. -/
structure Host (ι : Type) where
  rules : LimitConfig
  codec : Codec
  requestID : ι → String
  distinct : Function.Injective requestID

namespace Host
variable {ι : Type} (h : Host ι)

abbrev server : Server Action := Interfaces.server h.rules h.codec

/-- The loop of `Process`, once around. -/
def serve (i : ι) (vars : Session) : Action Local := do
  match ← ask (.recv vars) with
  | none => pure (.returned vars)
  | some msg =>
    match ← processRequest h.server (h.requestID i) vars msg with
    | none => pure .crashed
    | some (resp,vars) => do
      ask (.send resp)
      pure (.waiting vars)

variable [DecidableEq ι]

/-- All sessions of the process, in any order of their calls. -/
def system : System Op Reply ι (Shared ι) Local where
  act i op s r s' := (∀ id, requestOf op = some id → Serves op (s.entries id) r (s'.entries id)) ∧
    (∀ id, requestOf op ≠ some id → s'.entries id = s.entries id) ∧
    s'.turns = Function.update s.turns i (noted (s.turns i) op r)
  env _ _ := False
  start i l p := ∃ vars, l = .waiting vars ∧ p = h.serve i vars

/-- No session has begun. -/
structure Opening (c : Config Op Reply ι (Shared ι) Local) : Prop where
  waiting : ∀ i, c.prog i = .ret (.waiting .initial)
  turns : ∀ i, c.shared.turns i = []
  entries : ∀ i, c.shared.entries (h.requestID i) = ⟨none,none⟩

end Host

/-! ### A session by itself -/

/-- What a session sees of the process. -/
structure View where
  entry : Entry
  turns : List Turn

def View.act (op : Op) (t : View) (r : Reply op) (t' : View) : Prop :=
  Serves op t.entry r t'.entry ∧ t'.turns = noted t.turns op r

section Alone
variable {ι : Type} (h : Host ι)

/-- From here a session gets there, turn by turn. -/
inductive Goes (i : ι) (t : View) (vars : Session) : View → Session → Prop
  | here : Goes i t vars t vars
  | turn {t' : View} {vars' vars'' : Session} {msg : ProcessingRequest} {resp : ProcessingResponse} {calls : List Call}
      {entry : Entry} : Goes i t vars t' vars' →
      Runs (processRequest h.server (h.requestID i) vars' msg) calls (some (resp,vars'')) → Plays Serves calls t'.entry entry →
      Goes i t vars ⟨entry,⟨vars',msg,calls ++ [⟨.send resp,()⟩]⟩ :: t'.turns⟩ vars''

variable {h}

/-- Calls that do not take the next message. -/
def Inner (op : Op) : Prop := ∀ vars, op ≠ .recv vars

theorem noted_inner {turn : Turn} {older : List Turn} {op : Op} {r : Reply op} (inner : Inner op) :
    noted (turn :: older) op r = { turn with calls := turn.calls ++ [⟨op,r⟩] } :: older := by
  cases op with
  | recv vars => exact absurd rfl (inner vars)
  | _ => rfl

/-- What a handler does alone: its calls go to the newest turn. -/
theorem alone_inner {α : Type} {p : Action α} {t t' : View} {v : α} {turn : Turn} {older : List Turn}
    (within : Issues Inner (fun _ => True) p) (run : Alone View.act p t v t') (newest : t.turns = turn :: older) :
    ∃ calls, Runs p calls v ∧ Plays Serves calls t.entry t'.entry ∧
      t'.turns = { turn with calls := turn.calls ++ calls } :: older := by
  induction run generalizing turn with
  | ret value t => exact ⟨[],.ret,.nil,by simp [newest]⟩
  | @call op next t u t' r value acted _ ih =>
    obtain ⟨served,turns⟩ := acted
    rw [newest,noted_inner within.1] at turns
    obtain ⟨calls,run,played,later⟩ := ih (within.2 r trivial) turns
    exact ⟨⟨op,r⟩ :: calls,.call run,.cons served played,by simpa using later⟩

end Alone

/-! ### What the handlers call -/

/-- The calls that charge the usage of a response. -/
def isCharge : Op → Bool
  | .doLimit _ | .getQuotaConfig _ _ | .incrUsage _ => true
  | _ => false

def charging (calls : List Call) : List Call := calls.filter (fun call => isCharge call.1)

/-- The counts that a call of the collector records. -/
def tokenCounts : Op → Option (Int × Int)
  | .record (.tokenUsage _ _ _ input output) => some (input,output)
  | _ => none

def recorded (calls : List Call) : List (Int × Int) := calls.filterMap (fun call => tokenCounts call.1)

/-- Calls that touch no entry and record no tokens. -/
structure Plain (op : Op) : Prop where
  aside : requestOf op = none
  silent : tokenCounts op = none
  inner : Inner op

/-- Calls that do not charge tokens either. -/
def Quiet (op : Op) : Prop := Plain op ∧ isCharge op = false

section Handlers
variable {rules : LimitConfig} {codec : Codec} {calls more : List Call} {e e' : Entry}

@[simp] theorem charging_append : charging (calls ++ more) = charging calls ++ charging more := List.filter_append ..

@[simp] theorem recorded_append : recorded (calls ++ more) = recorded calls ++ recorded more := List.filterMap_append ..

theorem quiet_calls (quiet : ∀ call ∈ calls, Quiet call.1) : charging calls = [] ∧ recorded calls = [] := by
  constructor
  · exact List.filter_eq_nil_iff.mpr (fun call is => by simp [(quiet call is).2])
  · exact List.filterMap_eq_nil_iff.mpr (fun call is => (quiet call is).1.silent)

/-- Calls to the services leave the entries alone. -/
theorem serves_aside {op : Op} {r : Reply op} (aside : requestOf op = none) (served : Serves op e r e') : e' = e := by
  cases op <;> first | exact served | cases aside

theorem plays_aside (aside : ∀ call ∈ calls, requestOf call.1 = none) (played : Plays Serves calls e e') : e' = e :=
  plays_keep (f := id) (fun call is _ _ => serves_aside (aside call is)) played

/-- `doTokenRateLimit`, and then `doTokenQuotaLimit` if there was no error. -/
def charge (rules : LimitConfig) (codec : Codec) (qos : UserQos) (usage : CompletionUsage) : Action (Except String Unit) := do
  match ← doTokenRateLimit (server rules codec) qos usage.totalTokens with
  | .error e => pure (.error e)
  | .ok _ => doTokenQuotaLimit (server rules codec) qos (tokenCountMap usage)

theorem doLimits_charges (qos : UserQos) (amount : LimitType → Option Int) :
    Issues (fun op => isCharge op = true) (fun _ => True) (doLimits (server rules codec) qos amount) := by
  unfold doLimits
  split
  · trivial
  · exact ⟨rfl,fun _ _ => trivial⟩

theorem doTokenQuotaLimit_charges (qos : UserQos) (countMap : String → Int) :
    Issues (fun op => isCharge op = true) (fun _ => True)
      (doTokenQuotaLimit (server rules codec) qos countMap) := by
  unfold doTokenQuotaLimit
  split
  · trivial
  · refine ⟨rfl,fun read _ => ?_⟩
    cases read with
    | error => trivial
    | ok => exact ⟨rfl,fun _ _ => trivial⟩

theorem charge_charges (qos : UserQos) (usage : CompletionUsage) :
    Issues (fun op => isCharge op = true) (fun _ => True) (charge rules codec qos usage) := by
  refine within_bind (doLimits_charges qos _) (fun limited _ => ?_)
  cases limited with
  | error => trivial
  | ok => exact doTokenQuotaLimit_charges qos _

theorem plain_of_charge : ∀ {op : Op}, isCharge op = true → Plain op
  | .doLimit _,_ | .getQuotaConfig _ _,_ | .incrUsage _,_ => ⟨rfl,rfl,nofun⟩

/-- What charges does nothing else. -/
theorem charge_calls (all : ∀ call ∈ calls, isCharge call.1 = true) :
    charging calls = calls ∧ recorded calls = [] ∧ (Plays Serves calls e e' → e' = e) := by
  refine ⟨List.filter_eq_self.mpr all,List.filterMap_eq_nil_iff.mpr (fun call is => ?_),plays_aside (fun call is => ?_)⟩
  · exact (plain_of_charge (all call is)).silent
  · exact (plain_of_charge (all call is)).aside

theorem within_ask {α : Type} {P : Op → Prop} {Q : α → Prop} {op : Op} {f : Reply op → Action α} (allowed : P op)
    (rest : ∀ r, Issues P Q (f r)) : Issues P Q (ask op >>= f) :=
  ⟨allowed,fun r _ => rest r⟩

/-- The calls of `HandleRequestBody`. -/
def RequestCall : Op → Prop
  | .checkLimit _ | .doLimit _ | .getUsage _ | .getQosByToken _ _ | .getQuotaConfig _ _ | .getModelList _ => True
  | .record (.rateLimitHit _ _ _ _) => True
  | _ => False

private theorem plain_of_request : ∀ {op : Op}, RequestCall op → Plain op
  | .checkLimit _,_ | .doLimit _,_ | .getUsage _,_ | .getQosByToken _ _,_ | .getQuotaConfig _ _,_ | .getModelList _,_ =>
    ⟨rfl,rfl,nofun⟩
  | .record (.rateLimitHit _ _ _ _),_ => ⟨rfl,rfl,nofun⟩

private theorem checkRateLimit_calls (qos : UserQos) :
    Issues RequestCall (fun _ => True) (checkRateLimit (server rules codec) qos) := by
  unfold checkRateLimit
  split
  · trivial
  · refine within_ask trivial (fun checked => ?_)
    cases checked with
    | error => trivial
    | ok resp =>
      dsimp only
      split
      · trivial
      · exact within_ask trivial (fun _ => trivial)

private theorem checkQuota_calls (qos : UserQos) :
    Issues RequestCall (fun _ => True) (checkQuota (server rules codec) qos) := by
  unfold checkQuota
  split
  · trivial
  · refine within_ask trivial (fun read => ?_)
    cases read with
    | error => trivial
    | ok =>
      refine within_ask trivial (fun used => ?_)
      cases used with
      | error => trivial
      | ok usage =>
        dsimp only
        split <;> trivial

private theorem doRequestRateLimit_calls (qos : UserQos) :
    Issues RequestCall (fun _ => True) (doRequestRateLimit (server rules codec) qos) := by
  unfold doRequestRateLimit doLimits
  split
  · trivial
  · exact ⟨trivial,fun _ _ => trivial⟩

private theorem admitRequest_calls (qos : UserQos) (model : String) (stream : Bool) :
    Issues RequestCall (fun _ => True) (admitRequest (server rules codec) qos model stream) := by
  refine within_bind (checkRateLimit_calls qos) (fun rate _ => ?_)
  cases rate with
  | some => trivial
  | none =>
    refine within_bind (checkQuota_calls qos) (fun quota _ => ?_)
    cases quota with
    | some => trivial
    | none =>
      refine within_bind (doRequestRateLimit_calls qos) (fun limited _ => ?_)
      cases limited <;> trivial

theorem handleRequestBody_calls (body : Bytes) (token : String) :
    Issues RequestCall (fun _ => True) (handleRequestBody (server rules codec) body token) := by
  unfold handleRequestBody
  split
  · trivial
  dsimp only
  split
  · trivial
  refine within_ask trivial (fun found => ?_)
  rcases found with _ | _ | qos
  · trivial
  · trivial
  refine within_ask trivial (fun models => ?_)
  cases models with
  | error => trivial
  | ok models =>
    dsimp only
    split
    · trivial
    split
    · trivial
    · exact admitRequest_calls qos _ _

theorem handleRequestBody_plain (body : Bytes) (token : String) :
    Issues Plain (fun _ => True) (handleRequestBody (server rules codec) body token) :=
  within_mono (handleRequestBody_calls body token) (fun _ => plain_of_request) (fun _ is => is)

theorem recordRequest_quiet (session : Session) (statusCode : Int) :
    Issues Quiet (fun _ => True) (recordRequest (server rules codec) session statusCode) := by
  unfold recordRequest
  split
  · trivial
  · exact ⟨⟨⟨rfl,rfl,nofun⟩,rfl⟩,fun _ _ => ⟨⟨⟨rfl,rfl,nofun⟩,rfl⟩,fun _ _ => trivial⟩⟩

theorem startTiming_quiet (pt : ProcessingTime) :
    Issues Quiet (fun _ => True) (startTiming (server rules codec) pt) := by
  unfold startTiming
  split
  · trivial
  · exact ⟨⟨⟨rfl,rfl,nofun⟩,rfl⟩,fun _ _ => trivial⟩

end Handlers

/-! ### All sessions -/

/-- A call of the session with this id: it does not take the next message, and touches no entry but its own. -/
structure Mine (requestID : String) (op : Op) : Prop where
  own : ∀ id, requestOf op = some id → id = requestID
  inner : Inner op

section Mine
variable {rules : LimitConfig} {codec : Codec} {requestID : String}

theorem mine_of_plain {op : Op} (plain : Plain op) : Mine requestID op where
  own id is := by rw [plain.aside] at is; cases is
  inner := plain.inner

theorem mine_of_quiet {α : Type} {p : Action α} (quiet : Issues Quiet (fun _ => True) p) :
    Issues (Mine requestID) (fun _ => True) p :=
  within_mono quiet (fun _ is => mine_of_plain is.1) (fun _ is => is)

/-- The calls of `HandleResponseBody` for a request. -/
def ResponseCall (requestID : String) : Op → Prop
  | .doLimit _ | .getQuotaConfig _ _ | .incrUsage _ | .now => True
  | .record (.tokenUsage _ _ _ _ _) | .record (.respProcessingTime _ _ _ _) => True
  | .loadTiming id | .storeTiming id _ | .deleteTiming id | .writeBuffer id _ | .deleteBuffer id => id = requestID
  | _ => False

private theorem mine_of_response {op : Op} (calls : ResponseCall requestID op) : Mine requestID op where
  own id is := by cases op <;> first | exact (Option.some.inj is).symm.trans calls | cases is
  inner := by
    rintro vars rfl
    exact calls

theorem response_of_charge {α : Type} {p : Action α} (charges : Issues (fun op => isCharge op = true) (fun _ => True) p) :
    Issues (ResponseCall requestID) (fun _ => True) p := by
  refine within_mono charges (fun op is => ?_) (fun _ is => is)
  cases op <;> trivial

theorem chargeUsage_calls (qos : Option UserQos) (usage : CompletionUsage) (complete : Bool) :
    Issues (ResponseCall requestID) (fun _ => True) (chargeUsage (server rules codec) qos usage complete) := by
  unfold chargeUsage
  split
  · trivial
  cases qos with
  | none => trivial
  | some qos =>
    refine within_bind (response_of_charge (doLimits_charges qos _)) (fun limited _ => ?_)
    cases limited with
    | error => trivial
    | ok =>
      refine within_bind (response_of_charge (doTokenQuotaLimit_charges qos _)) (fun counted _ => ?_)
      cases counted <;> trivial

private theorem handleBody_calls (body : Bytes) (endOfStream : Bool) (qos : Option UserQos) (stream complete : Bool) :
    Issues (ResponseCall requestID) (fun _ => True)
      (handleBody (server rules codec) requestID body endOfStream qos stream complete) := by
  unfold handleBody
  split
  · simp only [handleStreamBody]
    split
    · trivial
    · exact chargeUsage_calls qos _ _
  · refine within_ask rfl (fun whole => ?_)
    dsimp only
    split
    · trivial
    refine within_ask rfl (fun _ => ?_)
    split
    · trivial
    split
    · trivial
    · exact chargeUsage_calls qos _ _

private theorem finishResponse_calls (timing : ProcessingTime) (qos : Option UserQos) (model : String)
    (hasCompleted endOfStream : Bool)
    (result : BodyResult) : Issues (ResponseCall requestID) (fun _ => True)
      (finishResponse (server rules codec) requestID timing qos model hasCompleted endOfStream result) := by
  refine within_ask trivial (fun now => ?_)
  dsimp only
  split
  · cases qos with
    | none => trivial
    | some qos =>
      refine within_ask trivial (fun _ => within_ask trivial (fun _ => ?_))
      exact within_ask rfl (fun _ => trivial)
  · refine within_ask trivial (fun later => ?_)
    exact within_ask rfl (fun _ => trivial)

theorem answerBody_calls (vars : Session) (body : Bytes) (endOfStream : Bool) :
    Issues (ResponseCall requestID) (fun _ => True)
      (answerBody (server rules codec) requestID vars body endOfStream) := by
  unfold answerBody
  split
  · trivial
  refine within_ask rfl (fun pt => ?_)
  refine within_bind (Q := fun _ => True) ?_ (fun start _ => ?_)
  · unfold startTiming
    split
    · trivial
    · exact ⟨trivial,fun _ _ => trivial⟩
  refine within_bind (handleBody_calls ..) (fun result _ => ?_)
  cases result with
  | none => trivial
  | some result => exact finishResponse_calls ..

theorem processRequest_mine (vars : Session) (msg : ProcessingRequest) :
    Issues (Mine requestID) (fun _ => True) (processRequest (server rules codec) requestID vars msg) := by
  cases msg with
  | requestHeaders headers => exact within_ask ⟨nofun,nofun⟩ (fun _ => trivial)
  | requestBody body =>
    refine within_bind (within_mono (handleRequestBody_plain body vars.token) (fun _ => mine_of_plain) (fun _ is => is)) ?_
    exact fun _ _ => trivial
  | responseHeaders headers =>
    simp only [processRequest]
    split
    · refine within_bind (mine_of_quiet (recordRequest_quiet _ _)) (fun recorded_ _ => ?_)
      cases recorded_ <;> trivial
    · trivial
  | responseBody body endOfStream =>
    refine within_bind (within_mono (answerBody_calls vars body endOfStream) (fun _ => mine_of_response) (fun _ is => is)) ?_
    intro answer _
    cases answer with
    | none => trivial
    | some answer =>
      refine within_bind (mine_of_quiet (recordRequest_quiet _ _)) (fun recorded_ _ => ?_)
      cases recorded_ <;> trivial
  | unknown => trivial

end Mine

section Sessions
variable {ι : Type} {h : Host ι} {i : ι} {vars : Session}

private theorem serve_own : Issues (fun op => ∀ id, requestOf op = some id → id = h.requestID i) (fun _ => True)
    (h.serve i vars) := by
  refine within_ask nofun (fun msg => ?_)
  cases msg with
  | none => trivial
  | some msg =>
    refine within_bind (within_mono (processRequest_mine vars msg) (fun _ is => is.own) (fun _ is => is)) (fun result _ => ?_)
    cases result with
    | none => trivial
    | some result => exact within_ask nofun (fun _ => trivial)

/-- What holds of a session between two messages: it has come there turn by turn, and crashed in the last of
    them if at all. -/
def Rests (h : Host ι) (i : ι) : Local → View → Prop
  | .waiting vars,t | .returned vars,t => Goes h i ⟨⟨none,none⟩,[]⟩ .initial t vars
  | .crashed,t => ∃ t' vars msg calls, Goes h i ⟨⟨none,none⟩,[]⟩ .initial t' vars ∧
      Runs (processRequest h.server (h.requestID i) vars msg) calls none ∧ Plays Serves calls t'.entry t.entry ∧
      t.turns = ⟨vars,msg,calls⟩ :: t'.turns

private theorem serve_rests {t t' : View} {l : Local} (rests : Rests h i (.waiting vars) t)
    (run : Alone View.act (h.serve i vars) t l t') :
    Rests h i l t' := by
  obtain ⟨received,t₁,⟨same,turns⟩,later⟩ := alone_call.mp run
  have entry : t₁.entry = t.entry := same
  cases received with
  | none =>
    obtain ⟨rfl,rfl⟩ := alone_ret.mp later
    have unmoved : t' = t := by
      cases t; cases t'
      cases entry; cases turns
      rfl
    rw [unmoved]
    exact rests
  | some msg =>
    have handling : Alone View.act (processRequest h.server (h.requestID i) vars msg >>= _) t₁ l t' := later
    obtain ⟨answer,t₂,handles,sends⟩ := alone_bind.mp handling
    have inner : Issues Inner (fun _ => True) (processRequest h.server (h.requestID i) vars msg) :=
      within_mono (processRequest_mine vars msg) (fun _ is => is.inner) (fun _ is => is)
    obtain ⟨calls,runs,played,newest⟩ := alone_inner inner handles turns
    rw [entry] at played
    cases answer with
    | none =>
      obtain ⟨rfl,rfl⟩ := alone_ret.mp sends
      exact ⟨t,vars,msg,calls,rests,runs,played,newest⟩
    | some answer =>
      obtain ⟨resp,vars'⟩ := answer
      obtain ⟨_,t₃,⟨same',turns'⟩,ends⟩ := alone_call.mp sends
      obtain ⟨rfl,rfl⟩ := alone_ret.mp ends
      have entry' : t'.entry = t₂.entry := same'
      have inner : Inner (.send resp) := nofun
      rw [newest,noted_inner inner] at turns'
      have there : t' = ⟨t₂.entry,⟨vars,msg,calls ++ [⟨.send resp,()⟩]⟩ :: t.turns⟩ := by
        cases t'
        cases entry'
        exact congrArg (View.mk _) turns'
      rw [there]
      exact .turn rests runs played

variable [DecidableEq ι]

/-- What the session sees. -/
def viewOf (h : Host ι) (i : ι) (s : Shared ι) : View := ⟨s.entries (h.requestID i),s.turns i⟩

/-- Every session works on its own entries, and has come where it rests turn by turn. -/
theorem sessions_alone {c d : Config Op Reply ι (Shared ι) Local} {legal : Config Op Reply ι (Shared ι) Local → Prop}
    (opening : h.Opening c) (run : Reach h.system legal c d) (i : ι) :
    (∀ op next, d.prog i = .call op next → ∀ id, requestOf op = some id → id = h.requestID i) ∧
      ∀ l, d.prog i = .ret l → Rests h i l (viewOf h i d.shared) := by
  have views : Issues (fun op => ∀ id, requestOf op = some id → id = h.requestID i) (fun _ => True) (d.prog i) ∧
      ∀ l t', Alone View.act (d.prog i) (viewOf h i d.shared) l t' → Rests h i l t' := by
    refine reach_views (viewOf h) (fun _ => View.act) (fun i op => ∀ id, requestOf op = some id → id = h.requestID i) (Rests h)
      (fun _ _ never => False.elim never) ?_ ?_ ?_ run i
    · rintro i op s r s' own ⟨served,others,turns⟩
      refine ⟨⟨?_,?_⟩,fun j apart => ?_⟩
      · show Serves op (s.entries (h.requestID i)) r (s'.entries (h.requestID i))
        cases touched : requestOf op with
        | some id =>
          obtain rfl := own id touched
          exact served _ touched
        | none =>
          rw [others _ (by rw [touched]; nofun)]
          cases op <;> first | rfl | cases touched
      · show s'.turns i = noted (s.turns i) op r
        rw [turns,Function.update_self]
      · have away : requestOf op ≠ some (h.requestID j) := fun touched => apart (h.distinct (own _ touched))
        simp only [viewOf,others _ away,turns,Function.update_of_ne apart]
    · rintro i _ _ t rests ⟨vars,rfl,rfl⟩
      exact ⟨serve_own,fun l t' run => serve_rests rests run⟩
    · intro i
      refine ⟨_,opening.waiting i,?_⟩
      have start : viewOf h i c.shared = ⟨⟨none,none⟩,[]⟩ := by rw [viewOf,opening.entries,opening.turns]
      rw [start]
      exact .here
  refine ⟨fun op next at_i => ?_,fun l at_rest => ?_⟩
  · rw [at_i] at views
    exact views.1.1
  · rw [at_rest] at views
    exact views.2 l _ (.ret ..)

end Sessions

/-! ### A session with a script -/

section Scripts
variable {ι : Type} [DecidableEq ι] (h : Host ι) (script : List ProcessingRequest) (answers : (op : Op) → Reply op) (i : ι)

/-- The reply of a call, and the entry behind it. -/
def served : (op : Op) → Entry → Reply op × Entry
  | .loadTiming _,e => (e.timing.getD ⟨none,0⟩,{ e with timing := some (e.timing.getD ⟨none,0⟩) })
  | .storeTiming _ timing,e => ((),{ e with timing := some timing })
  | .deleteTiming _,e => ((),{ e with timing := none })
  | .writeBuffer _ data,e => (e.buffer.getD [] ++ data,{ e with buffer := some (e.buffer.getD [] ++ data) })
  | .deleteBuffer _,e => ((),{ e with buffer := none })
  | op,e => (answers op,e)

/-- The messages come as in the script, and the services answer as told. -/
def perform (op : Op) (s : Shared ι) : Reply op × Shared ι :=
  match op with
  | .recv vars => (script[(s.turns i).length]?,⟨s.entries,Function.update s.turns i
    (noted (s.turns i) (.recv vars) script[(s.turns i).length]?)⟩)
  | op =>
    let id := (requestOf op).getD ""
    let r := (served answers op (s.entries id)).1
    (r,⟨Function.update s.entries id (served answers op (s.entries id)).2,Function.update s.turns i (noted (s.turns i) op r)⟩)

private theorem served_serves {op : Op} (inner : Inner op) (e : Entry) :
    Serves op e (served answers op e).1 (served answers op e).2 := by
  cases op with
  | recv vars => exact absurd rfl (inner vars)
  | loadTiming | writeBuffer => exact ⟨rfl,rfl⟩
  | _ => rfl

private theorem served_aside {op : Op} (aside : requestOf op = none) (e : Entry) : (served answers op e).2 = e := by
  cases op <;> first | rfl | cases aside

private theorem perform_inner {op : Op} (inner : Inner op) (s : Shared ι) : perform script answers i op s =
    ((served answers op (s.entries ((requestOf op).getD ""))).1,
      ⟨Function.update s.entries ((requestOf op).getD "") (served answers op (s.entries ((requestOf op).getD ""))).2,
        Function.update s.turns i (noted (s.turns i) op (served answers op (s.entries ((requestOf op).getD ""))).1)⟩) := by
  cases op with
  | recv vars => exact absurd rfl (inner vars)
  | _ => rfl

theorem perform_acts (op : Op) (s : Shared ι) :
    h.system.act i op s (perform script answers i op s).1 (perform script answers i op s).2 := by
  by_cases takes : ∃ vars, op = .recv vars
  · obtain ⟨vars,rfl⟩ := takes
    exact ⟨nofun,fun _ _ => rfl,rfl⟩
  · have inner : Inner op := fun vars same => takes ⟨vars,same⟩
    rw [perform_inner script answers i inner]
    refine ⟨fun id same => ?_,fun id other => ?_,rfl⟩
    · simp only [same,Option.getD_some,Function.update_self]
      exact served_serves answers inner _
    · cases touched : requestOf op with
      | some id' =>
        have apart : id ≠ id' := fun same => other (touched.trans (congrArg some same.symm))
        simp only [Option.getD_some,Function.update_of_ne apart]
      | none => simp only [Option.getD_none,served_aside answers touched,Function.update_eq_self]

/-- The session takes up to `n` messages. -/
def play : Nat → Local × Shared ι → Local × Shared ι
  | n + 1,(.waiting vars,s) => play n (exec (perform script answers i) (h.serve i vars) s)
  | _,x => x

theorem play_reach {c : Config Op Reply ι (Shared ι) Local} (n : Nat) {l : Local} {s : Shared ι} {prog : ι → Action Local}
    (run : Reach h.system (fun _ => True) c ⟨s,prog⟩) (rests : prog i = .ret l) :
    ∃ prog', Reach h.system (fun _ => True) c ⟨(play h script answers i n (l,s)).2,prog'⟩ ∧
      prog' i = .ret (play h script answers i n (l,s)).1 := by
  induction n generalizing l s prog with
  | zero => exact ⟨prog,by cases l <;> exact run,by cases l <;> exact rests⟩
  | succ n ih =>
    cases l with
    | waiting vars =>
      have begun : Reach h.system (fun _ => True) c ⟨s,Function.update prog i (h.serve i vars)⟩ :=
        .step run (.start rests ⟨vars,rfl,rfl⟩) trivial
      have served := reach_exec (fun op _ s _ => perform_acts h script answers i op s) (fun _ _ _ => trivial) begun (always_true _ _)
      rw [Function.update_self,Function.update_idem] at served
      exact ih served (Function.update_self ..)
    | returned | crashed => exact ⟨prog,run,rests⟩

end Scripts

/-- A process with a single session. The byte 7 is a response that used three tokens, in a stream or as a whole. -/
def solo : Host Unit where
  rules := newLimitConfig
  codec := {
    unmarshalRequest := fun body => .ok ⟨"chat",some (body = [1]),some (some true)⟩
    unmarshalResponse := fun body => if body = [7] then .ok ⟨"chat",⟨1,2,3⟩⟩ else .error "unexpected end of JSON input"
    decodeStream := fun body => (if body = [7] then [⟨0,⟨1,2,3⟩⟩] else [],none)
    rateLimitJSON := fun _ => ""
    quotaJSON := fun _ => ""
    text := fun _ => "" }
  requestID _ := "request"
  distinct _ _ _ := rfl

/-- Services that admit every request of the user `alice`. -/
def admitting : (op : Op) → Reply op
  | .recv _ => none
  | .send _ => ()
  | .checkLimit _ => .ok []
  | .doLimit _ => .ok ()
  | .incrUsage _ => .ok ()
  | .setUsage _ => .ok ()
  | .getUsage _ => .ok []
  | .getQosByToken _ _ => .ok (some ⟨"alice","team-a","chat","",[]⟩)
  | .getQuotaConfig _ _ => .error ""
  | .getModelList _ => .ok ["chat"]
  | .getModelsByToken _ => .ok []
  | .record _ => ()
  | .now => 0
  | .loadTiming _ => ⟨none,0⟩
  | .storeTiming _ _ => ()
  | .deleteTiming _ => ()
  | .writeBuffer _ _ => []
  | .deleteBuffer _ => ()

def soloOpening : Config Op Reply Unit (Shared Unit) Local :=
  ⟨⟨fun _ => ⟨none,none⟩,fun _ => []⟩,fun _ => .ret (.waiting .initial)⟩

theorem soloOpening_opening : solo.Opening soloOpening := ⟨fun _ => rfl,fun _ => rfl,fun _ => rfl⟩

/-- A request, streamed or not, whose response comes in these pieces. -/
def chat (stream : Bool) (pieces : List (Bytes × Bool)) : List ProcessingRequest :=
  [.requestHeaders [rawHeader "authorization" "Bearer alice"],.requestBody (if stream then [1] else []),
    .responseHeaders [rawHeader ":status" "200"]] ++ pieces.map (fun piece => .responseBody piece.1 piece.2)

/-- The session after all its messages. -/
def chatted (stream : Bool) (pieces : List (Bytes × Bool)) : Local × Shared Unit :=
  play solo (chat stream pieces) admitting () ((chat stream pieces).length + 1) (.waiting .initial,soloOpening.shared)

theorem chatted_reach (stream : Bool) (pieces : List (Bytes × Bool)) :
    ∃ prog, Reach solo.system (fun _ => True) soloOpening ⟨(chatted stream pieces).2,prog⟩ ∧
      prog () = .ret (chatted stream pieces).1 :=
  play_reach solo _ admitting () _ (.refl trivial) rfl

end Arks.Exchanges
