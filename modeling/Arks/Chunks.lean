import Arks.Responses

/-!
The charge of a response that is not streamed. Envoy cuts the response into pieces as it
likes, and the pieces of other responses come in between. Nothing is charged before the
last piece, and the charge is then that of the whole response, as if it had come in a
single message.
-/
namespace Arks.Chunks
open Programs Programs.Prog Gateway Interfaces Exchanges Responses
open Counters (LimitConfig LimitType UserQos)
open Effects (Bytes ProcessingTime)

/-! ### A single message -/

/-- The charges that a session can make for a response that comes in a single message. -/
def SingleCharges {ι : Type} (h : Host ι) (i : ι) (vars : Session) (body : Bytes) (charges : List Call) : Prop :=
  ∃ calls answer e, Runs (processRequest h.server (h.requestID i) vars (.responseBody body true)) calls answer ∧
    Plays Serves calls ⟨none,none⟩ e ∧ charging calls = charges

variable {reading : Reading} {usage : CompletionUsage} {α : Type} {endOfStream : Bool}

section Single
variable {rules : LimitConfig} {codec : Codec} {qos : UserQos} {charges : List Call} {outcome : Except String Unit}
  {requestID : String} {e : Entry}

private theorem serves_self {op : Op} (aside : requestOf op = none) (r : Reply op) : Serves op e r e := by
  cases op <;> first | rfl | cases aside

private theorem plays_self {calls : List Call} (aside : ∀ call ∈ calls, requestOf call.1 = none) : Plays Serves calls e e := by
  induction calls with
  | nil => exact .nil
  | cons call calls ih => exact .cons (serves_self (aside call (by simp)) call.2) (ih (fun c is => aside c (by simp [is])))

theorem readBody_whole (body whole : Bytes) : readBody codec false true body whole =
    match codec.unmarshalResponse whole with
    | .error _ => .broken
    | .ok res => if res.model = "" then .broken else .usage res.usage := rfl

theorem chargeReading_unused (unused : reading.used = none) :
    chargeReading rules codec (some qos) reading = .ret (.ok ()) := by
  simp only [chargeReading,unused]
  rfl

theorem chargeReading_used (used : reading.used = some usage) :
    chargeReading rules codec (some qos) reading = charge rules codec qos usage := by
  simp only [chargeReading,used]

private theorem chargeReading_charges (reading : Reading) :
    Issues (fun op => isCharge op = true) (fun _ => True) (chargeReading rules codec (some qos) reading) := by
  cases used : reading.used with
  | none =>
    rw [chargeReading_unused used]
    trivial
  | some usage =>
    rw [chargeReading_used used]
    exact charge_charges qos usage

private theorem chargeUsage_runs (tokens : usage.totalTokens ≠ 0) (complete : Bool)
    (run : Runs (charge rules codec qos usage) charges outcome) :
    ∃ result, Runs (chargeUsage (server rules codec) (some qos) usage complete) charges (some result) := by
  rw [chargeUsage,if_neg tokens]
  obtain ⟨limited,first,rest,rfl,limits,later⟩ := runs_bind.mp run
  cases limited with
  | error text =>
    obtain ⟨rfl,_⟩ := runs_ret.mp later
    exact ⟨_,runs_bind.mpr ⟨_,first,[],rfl,limits,.ret⟩⟩
  | ok =>
    cases outcome with
    | error text =>
      exact ⟨_,runs_bind.mpr ⟨_,first,rest,rfl,limits,runs_bind.mpr ⟨_,rest,[],(List.append_nil _).symm,later,.ret⟩⟩⟩
    | ok => exact ⟨_,runs_bind.mpr ⟨_,first,rest,rfl,limits,runs_bind.mpr ⟨_,rest,[],(List.append_nil _).symm,later,.ret⟩⟩⟩

private theorem chargeUsage_zero (zero : usage.totalTokens = 0) (complete : Bool) :
    Runs (chargeUsage (server rules codec) (some qos) usage complete) [] (some ⟨.responseBody [],complete,.zero⟩) := by
  rw [chargeUsage,if_pos zero]
  exact .ret

/-- Every way to charge the response as a whole is one of handling it in a single message. -/
theorem handleWholeBody_runs (body : Bytes) (complete : Bool)
    (run : Runs (chargeReading rules codec (some qos) (readBody codec false true body body)) charges outcome) :
    ∃ result, Runs (handleWholeBody (server rules codec) requestID body true (some qos) complete)
      (⟨.writeBuffer requestID body,body⟩ :: ⟨.deleteBuffer requestID,()⟩ :: charges) (some result) := by
  have reads : ∃ result, Runs (match codec.unmarshalResponse body with
      | .error e => pure (some ⟨headerError "x-error-response-unmarshal" "true" 500 e,true,.zero⟩)
      | .ok res =>
        if res.model = "" then
          let content := codec.text body
          pure (some ⟨headerError "x-error-response-unknown" "true" 500 (if content ≠ "" then content else "unknown response"),
            true,.zero⟩)
        else chargeUsage (server rules codec) (some qos) res.usage complete) charges (some result) := by
    rw [readBody_whole] at run
    cases read : codec.unmarshalResponse body with
    | error text =>
      rw [read] at run
      obtain ⟨rfl,_⟩ := runs_ret.mp run
      exact ⟨_,.ret⟩
    | ok res =>
      rw [read] at run
      dsimp only at run ⊢
      by_cases unnamed : res.model = ""
      · rw [if_pos unnamed] at run ⊢
        obtain ⟨rfl,_⟩ := runs_ret.mp run
        exact ⟨_,.ret⟩
      · rw [if_neg unnamed] at run ⊢
        by_cases zero : res.usage.totalTokens = 0
        · have unused : (Reading.usage res.usage).used = none := if_pos zero
          rw [chargeReading_unused unused] at run
          obtain ⟨rfl,_⟩ := runs_ret.mp run
          exact ⟨_,chargeUsage_zero zero complete⟩
        · have used : (Reading.usage res.usage).used = some res.usage := if_neg zero
          rw [chargeReading_used used] at run
          exact chargeUsage_runs zero complete run
  obtain ⟨result,reads⟩ := reads
  exact ⟨result,.call (.call reads)⟩

private theorem serves_served (op : Op) (e : Entry) : Serves op e (served admitting op e).1 (served admitting op e).2 := by
  cases op with
  | loadTiming | writeBuffer => exact ⟨rfl,rfl⟩
  | _ => rfl

/-- The services may answer in some way. -/
theorem exists_run (p : Action α) (e : Entry) : ∃ calls v e', Runs p calls v ∧ Plays Serves calls e e' :=
  ⟨_,_,_,exec_runs (served admitting) p e,exec_plays serves_served p e⟩

end Single

section Whole
variable {ι : Type} {h : Host ι} {i : ι} {vars : Session} {qos : UserQos} {charges : List Call} {outcome : Except String Unit}

/-- Every way to charge the response is one of a session that gets it in a single message. -/
theorem single_of_reading {body : Bytes} (known : vars.qos = some qos) (streams : vars.stream = false)
    (status : vars.statusCode = 200)
    (run : Runs (chargeReading h.rules h.codec (some qos) (readBody h.codec false true body body)) charges outcome) :
    SingleCharges h i vars body charges := by
  have all : ∀ call ∈ charges, isCharge call.1 = true := (runs_within (chargeReading_charges _) run).1
  obtain ⟨first,start,e₁,starts,played₁⟩ := exists_run (startTiming h.server ⟨none,0⟩) ⟨some ⟨none,0⟩,none⟩
  have quiet := (runs_within (startTiming_quiet _) starts).1
  cases plays_aside (fun call is => (quiet call is).1.aside) played₁
  obtain ⟨result,handles⟩ : ∃ result, Runs (handleWholeBody h.server (h.requestID i) body true (some qos) vars.completed)
      (⟨.writeBuffer (h.requestID i) body,body⟩ :: ⟨.deleteBuffer (h.requestID i),()⟩ :: charges) (some result) :=
    handleWholeBody_runs body vars.completed run
  obtain ⟨third,finished,e₂,finishes,played₂⟩ :=
    exists_run (finishResponse h.server (h.requestID i) ⟨some start,0⟩ (some qos) vars.model
    vars.completed true result) ⟨some ⟨none,0⟩,none⟩
  obtain ⟨⟨resp,done⟩,rfl⟩ := Option.isSome_iff_exists.mp (runs_within (finishResponse_present ..) finishes).2
  obtain ⟨fourth,recorded_,e₃,records,played₃⟩ := exists_run
    (recordRequest h.server { vars with completed := done } vars.statusCode) e₂
  obtain rfl := (runs_within (recordRequest_present (by exact known) _) records).2
  have quiet' := (runs_within (recordRequest_quiet _ _) records).1
  have answers : Runs (answerBody h.server (h.requestID i) vars body true)
      (⟨.loadTiming (h.requestID i),⟨none,0⟩⟩ :: (first ++ ((⟨.writeBuffer (h.requestID i) body,body⟩ ::
        ⟨.deleteBuffer (h.requestID i),()⟩ :: charges) ++ third))) (some (resp,done)) := by
    rw [answerBody,if_neg (by simp [status]),known,streams]
    refine runs_call.mpr ⟨⟨none,0⟩,_,rfl,?_⟩
    show Runs (startTiming h.server ⟨none,0⟩ >>= _) _ _
    exact runs_bind.mpr ⟨_,_,_,rfl,starts,runs_bind.mpr ⟨_,_,_,rfl,handles,finishes⟩⟩
  refine ⟨_,some (resp,{ vars with completed := done }),e₃,runs_bind.mpr ⟨_,_,fourth,rfl,answers,?_⟩,?_,?_⟩
  · exact runs_bind.mpr ⟨_,fourth,[],(List.append_nil _).symm,records,.ret⟩
  · have played : Plays Serves (charges ++ third) ⟨some ⟨none,0⟩,none⟩ e₂ :=
      plays_append.mpr ⟨_,plays_self (fun call is => (plain_of_charge (all call is)).aside),played₂⟩
    refine plays_append.mpr ⟨e₂,.cons ⟨rfl,rfl⟩ (plays_append.mpr ⟨_,played₁,.cons ⟨rfl,rfl⟩ (.cons rfl ?_)⟩),played₃⟩
    exact played
  · obtain ⟨_,_,unfinished,_⟩ := finishResponse_spec finishes played₂
    have same : charging charges = charges := List.filter_eq_self.mpr all
    rw [charging_append,(quiet_calls quiet').1,List.append_nil,charging,List.filter_cons_of_neg (by simp [isCharge]),← charging,
      charging_append,(quiet_calls quiet).1,List.nil_append,charging_append,unfinished,List.append_nil,charging,
      List.filter_cons_of_neg (by simp [isCharge]),List.filter_cons_of_neg (by simp [isCharge]),← charging,same]

end Whole

/-! ### A message that is not streamed -/

section Messages
variable {rules : LimitConfig} {codec : Codec} {requestID : String} {vars : Session} {calls : List Call} {e e' : Entry}

/-- Calls that leave the pieces of the response alone. -/
def KeepsBuffer (op : Op) : Prop := ∀ e r e', Serves op e r e' → e'.buffer = e.buffer

theorem keepsBuffer_aside {op : Op} (aside : requestOf op = none) : KeepsBuffer op :=
  fun _ _ _ acted => congrArg Entry.buffer (serves_aside aside acted)

theorem plays_buffer {p : Action α} {v : α} (keeps : Issues KeepsBuffer (fun _ => True) p)
    (run : Runs p calls v) (played : Plays Serves calls e e') : e'.buffer = e.buffer :=
  plays_keep (fun call is s t acted => (runs_within keeps run).1 call is s call.2 t acted) played

theorem quiet_keeps {p : Action α} (quiet : Issues Quiet (fun _ => True) p) :
    Issues KeepsBuffer (fun _ => True) p :=
  within_mono quiet (fun _ is => keepsBuffer_aside is.1.aside) (fun _ is => is)

private theorem finishResponse_keeps (timing : ProcessingTime) (qos : Option UserQos) (model : String)
    (hasCompleted endOfStream : Bool)
    (result : BodyResult) : Issues KeepsBuffer (fun _ => True)
      (finishResponse (server rules codec) requestID timing qos model hasCompleted endOfStream result) := by
  refine within_ask (keepsBuffer_aside rfl) (fun now => ?_)
  dsimp only
  split
  · cases qos with
    | none => trivial
    | some qos =>
      refine within_ask (keepsBuffer_aside rfl) (fun _ => within_ask (keepsBuffer_aside rfl) (fun _ => ?_))
      exact within_ask (by rintro _ _ _ rfl; rfl) (fun _ => trivial)
  · refine within_ask (keepsBuffer_aside rfl) (fun _ => ?_)
    exact within_ask (by rintro _ _ _ rfl; rfl) (fun _ => trivial)

private theorem chargeUsage_keeps (qos : Option UserQos) (usage : CompletionUsage) (complete : Bool) :
    Issues KeepsBuffer (fun _ => True) (chargeUsage (server rules codec) qos usage complete) := by
  have keeps : ∀ op, isCharge op = true → KeepsBuffer op := fun op is => keepsBuffer_aside (plain_of_charge is).aside
  unfold chargeUsage
  split
  · trivial
  cases qos with
  | none => trivial
  | some qos =>
    refine within_bind (within_mono (doLimits_charges qos _) keeps (fun _ is => is)) (fun limited _ => ?_)
    cases limited with
    | error => trivial
    | ok =>
      refine within_bind (within_mono (doTokenQuotaLimit_charges qos _) keeps (fun _ is => is)) (fun counted _ => ?_)
      cases counted <;> trivial

private theorem handleWholeBody_buffer {body : Bytes} {complete : Bool} {qos : Option UserQos} {result : Option BodyResult}
    (run : Runs (handleWholeBody (server rules codec) requestID body endOfStream qos complete) calls result)
    (played : Plays Serves calls e e') : e'.buffer = bufferAfter false endOfStream body e.buffer := by
  obtain ⟨whole,rest,rfl,later⟩ := runs_call.mp run
  obtain ⟨e₁,⟨rfl,rfl⟩,played₁⟩ := plays_cons.mp played
  cases endOfStream with
  | false =>
    obtain ⟨rfl,_⟩ := runs_ret.mp later
    rw [plays_nil.mp played₁]
    rfl
  | true =>
    obtain ⟨_,rest,rfl,last⟩ := runs_call.mp later
    obtain ⟨e₂,rfl,played₂⟩ := plays_cons.mp played₁
    refine plays_buffer (p := _) ?_ last played₂
    show Within _ _ _ (match codec.unmarshalResponse (e.buffer.getD [] ++ body) with | .error _ => _ | .ok res => _ :
      Action (Option BodyResult))
    split
    · trivial
    · split
      · trivial
      · exact chargeUsage_keeps qos _ _

/-- What a message with a piece of the response leaves in the buffer, even if the session crashes. -/
theorem message_buffer {body : Bytes} {answer : Option (ProcessingResponse × Session)}
    (status : vars.statusCode = 200) (streams : vars.stream = false)
    (run : Runs (processRequest (server rules codec) requestID vars (.responseBody body endOfStream)) calls answer)
    (played : Plays Serves calls e e') : e'.buffer = bufferAfter false endOfStream body e.buffer := by
  obtain ⟨answered,first,rest,rfl,answers,later⟩ := runs_bind.mp run
  obtain ⟨e₁,played₁,played₂⟩ := plays_append.mp played
  rw [answerBody,if_neg (by simp [status]),streams] at answers
  have last : e'.buffer = e₁.buffer := by
    cases answered with
    | none =>
      obtain ⟨rfl,_⟩ := runs_ret.mp later
      rw [plays_nil.mp played₂]
    | some answered =>
      refine plays_buffer (within_bind (quiet_keeps (recordRequest_quiet _ _)) (fun recorded_ _ => ?_)) later played₂
      cases recorded_ <;> trivial
  rw [last]
  obtain ⟨pt,loads,rfl,loaded⟩ := runs_call.mp answers
  obtain ⟨e₂,⟨rfl,rfl⟩,played₃⟩ := plays_cons.mp played₁
  have loaded : Runs (startTiming (server rules codec) _ >>= _) loads answered := loaded
  obtain ⟨start,second,third,rfl,starts,handles⟩ := runs_bind.mp loaded
  obtain ⟨e₃,played₄,played₅⟩ := plays_append.mp played₃
  obtain ⟨result,fourth,fifth,rfl,handled,finishes⟩ := runs_bind.mp handles
  obtain ⟨e₄,played₆,played₇⟩ := plays_append.mp played₅
  have before : e₃.buffer = e.buffer := by rw [plays_buffer (quiet_keeps (startTiming_quiet _)) starts played₄]
  have whole : e₄.buffer = bufferAfter false endOfStream body e₃.buffer := handleWholeBody_buffer handled played₆
  rw [← before,← whole]
  cases result with
  | none =>
    obtain ⟨rfl,_⟩ := runs_ret.mp finishes
    rw [plays_nil.mp played₇]
  | some result => exact plays_buffer (finishResponse_keeps ..) finishes played₇

/-- Calls that neither charge nor record tokens. -/
def Idle (op : Op) : Prop := isCharge op = false ∧ tokenCounts op = none

theorem quiet_idle {p : Action α} (quiet : Issues Quiet (fun _ => True) p) :
    Issues Idle (fun _ => True) p :=
  within_mono quiet (fun _ is => ⟨is.2,is.1.silent⟩) (fun _ is => is)

theorem chargeUsage_unknown (usage : CompletionUsage) (complete : Bool) :
    Issues Idle (fun _ => True) (chargeUsage (server rules codec) none usage complete) := by
  unfold chargeUsage
  split <;> trivial

private theorem handleBody_unknown (body : Bytes) (endOfStream stream complete : Bool) :
    Issues Idle (fun _ => True)
      (handleBody (server rules codec) requestID body endOfStream none stream complete) := by
  unfold handleBody
  split
  · simp only [handleStreamBody]
    split
    · trivial
    · exact chargeUsage_unknown _ _
  · refine within_ask ⟨rfl,rfl⟩ (fun whole => ?_)
    dsimp only
    split
    · trivial
    refine within_ask ⟨rfl,rfl⟩ (fun _ => ?_)
    split
    · trivial
    split
    · trivial
    · exact chargeUsage_unknown _ _

/-- A session whose user is not known charges nobody and records nothing. -/
theorem message_unknown (unknown : vars.qos = none) (status : vars.statusCode = 200) (body : Bytes) (endOfStream : Bool) :
    Issues Idle (fun _ => True)
      (processRequest (server rules codec) requestID vars (.responseBody body endOfStream)) := by
  refine within_bind (Q := fun _ => True) ?_ (fun answer _ => ?_)
  · rw [answerBody,if_neg (by simp [status]),unknown]
    refine within_ask ⟨rfl,rfl⟩ (fun pt => within_bind (quiet_idle (startTiming_quiet pt)) (fun start _ => ?_))
    refine within_bind (handleBody_unknown ..) (fun result _ => ?_)
    cases result with
    | none => trivial
    | some result =>
      refine within_ask ⟨rfl,rfl⟩ (fun now => ?_)
      dsimp only
      split
      · trivial
      · exact within_ask ⟨rfl,rfl⟩ (fun _ => within_ask ⟨rfl,rfl⟩ (fun _ => trivial))
  · cases answer with
    | none => trivial
    | some answer =>
      refine within_bind (quiet_idle (recordRequest_quiet _ _)) (fun recorded_ _ => ?_)
      cases recorded_ <;> trivial

theorem idle_calls (idle : ∀ call ∈ calls, Idle call.1) : charging calls = [] ∧ recorded calls = [] := by
  constructor
  · exact List.filter_eq_nil_iff.mpr (fun call is => by simp [(idle call is).1])
  · exact List.filterMap_eq_nil_iff.mpr (fun call is => (idle call is).2)

/-- What a message with a piece of the response charges, even if the session crashes. -/
theorem message_charges {body : Bytes} {answer : Option (ProcessingResponse × Session)}
    (status : vars.statusCode = 200) (streams : vars.stream = false)
    (run : Runs (processRequest (server rules codec) requestID vars (.responseBody body endOfStream)) calls answer)
    (played : Plays Serves calls e e') :
    ∃ outcome, Runs (chargeReading rules codec vars.qos (readBody codec false endOfStream body (e.buffer.getD [] ++ body)))
      (charging calls) outcome := by
  cases known : vars.qos with
  | none =>
    rw [(idle_calls (runs_within (message_unknown known status body endOfStream) run).1).1]
    exact ⟨.ok (),.ret⟩
  | some qos =>
    obtain ⟨resp,vars',rfl,_⟩ := (runs_within (responseBody_present known body endOfStream) run).2
    have piece : pieceOf vars (.responseBody body endOfStream) = some (body,endOfStream) := if_pos status
    have answered := (turn_answered piece run played).1.charges
    rw [streams,known] at answered
    exact answered

end Messages

/-! ### Counting the charges -/

def isDoLimit : Op → Bool
  | .doLimit _ => true
  | _ => false

def isIncrUsage : Op → Bool
  | .incrUsage _ => true
  | _ => false

/-- The limiter and the quota are charged at most once. -/
def Once (charges : List Call) : Prop :=
  charges.countP (fun call => isDoLimit call.1) ≤ 1 ∧ charges.countP (fun call => isIncrUsage call.1) ≤ 1

section Once
variable {rules : LimitConfig} {codec : Codec} {qos : UserQos} {charges : List Call} {outcome : Except String Unit}

private theorem doLimits_once {amount : LimitType → Option Int}
    (run : Runs (doLimits (server rules codec) qos amount) charges outcome) :
    charges.countP (fun call => isDoLimit call.1) ≤ 1 ∧ charges.countP (fun call => isIncrUsage call.1) = 0 := by
  unfold doLimits at run
  split at run
  · obtain ⟨rfl,_⟩ := runs_ret.mp run
    exact ⟨Nat.zero_le _,rfl⟩
  · obtain ⟨r,rest,rfl,later⟩ := runs_call.mp run
    obtain ⟨rfl,_⟩ := runs_ret.mp later
    exact ⟨Nat.le_refl _,rfl⟩

private theorem doTokenQuotaLimit_once {countMap : String → Int}
    (run : Runs (doTokenQuotaLimit (server rules codec) qos countMap) charges outcome) :
    charges.countP (fun call => isDoLimit call.1) = 0 ∧ charges.countP (fun call => isIncrUsage call.1) ≤ 1 := by
  unfold doTokenQuotaLimit at run
  split at run
  · obtain ⟨rfl,_⟩ := runs_ret.mp run
    exact ⟨rfl,Nat.zero_le _⟩
  · obtain ⟨read,rest,rfl,later⟩ := runs_call.mp run
    cases read with
    | error text =>
      obtain ⟨rfl,_⟩ := runs_ret.mp later
      exact ⟨rfl,Nat.zero_le _⟩
    | ok config =>
      obtain ⟨r,rest,rfl,last⟩ := runs_call.mp later
      obtain ⟨rfl,_⟩ := runs_ret.mp last
      exact ⟨rfl,Nat.le_refl _⟩

private theorem charge_once (run : Runs (charge rules codec qos usage) charges outcome) : Once charges := by
  obtain ⟨limited,first,rest,rfl,limits,later⟩ := runs_bind.mp run
  have limiter := doLimits_once limits
  unfold Once
  rw [List.countP_append,List.countP_append]
  cases limited with
  | error text =>
    obtain ⟨rfl,_⟩ := runs_ret.mp later
    simp only [List.countP_nil]
    omega
  | ok =>
    have quota := doTokenQuotaLimit_once later
    omega

private theorem chargeReading_once {qos : Option UserQos}
    (run : Runs (chargeReading rules codec qos reading) charges outcome) : Once charges := by
  have nothing : Once ([] : List Call) := ⟨Nat.zero_le _,Nat.zero_le _⟩
  cases qos with
  | none =>
    obtain ⟨rfl,_⟩ := runs_ret.mp run
    exact nothing
  | some qos =>
    cases used : reading.used with
    | none =>
      rw [chargeReading_unused used] at run
      obtain ⟨rfl,_⟩ := runs_ret.mp run
      exact nothing
    | some usage =>
      rw [chargeReading_used used] at run
      exact charge_once run

end Once

/-! ### A response in pieces -/

/-- Pieces of a response none of which ends it, the newest first. -/
def unended (chunks : List Bytes) : List ProcessingRequest := (chunks.map (fun chunk => .responseBody chunk false)).reverse

@[simp] theorem unended_nil : unended [] = [] := rfl

@[simp] theorem unended_append (chunks : List Bytes) (chunk : Bytes) :
    unended (chunks ++ [chunk]) = .responseBody chunk false :: unended chunks := by
  simp [unended]

/-- These are the turns with the response, which is not streamed. -/
structure Response (turns response : List Turn) : Prop where
  first : ∃ earlier, turns = response ++ earlier ∧ ∀ turn ∈ earlier, turn.piece = none
  whole : ∀ turn ∈ response, turn.vars.stream = false ∧ turn.vars.statusCode = 200

/-- The buffer of a response that has come this far. -/
def gathered (chunks : List Bytes) : Option Bytes := if chunks = [] then none else some chunks.flatten

private theorem gathered_append (chunks : List Bytes) (chunk : Bytes) :
    gathered (chunks ++ [chunk]) = some ((gathered chunks).getD [] ++ chunk) := by
  unfold gathered
  rw [if_neg (by simp)]
  split
  · rename_i empty
    simp [empty]
  · simp

/-- The response says what it used. -/
def Uses (codec : Codec) (body : Bytes) : Prop :=
  ∃ res, codec.unmarshalResponse body = .ok res ∧ res.model ≠ "" ∧ res.usage.totalTokens ≠ 0

/-- The same call got the same reply. -/
def Agree (charges others : List Call) : Prop := ∃ answers : (op : Op) → Reply op,
  (∀ call ∈ charges, call.2 = answers call.1) ∧ ∀ call ∈ others, call.2 = answers call.1

section Pieces
variable {ι : Type} {h : Host ι} {i : ι} {l : Local} {t : View} {response earlier : List Turn} {chunks : List Bytes}

private theorem goes_start {vars : Session} (goes : Goes h i ⟨⟨none,none⟩,[]⟩ .initial t vars) (none : t.turns = []) :
    t.entry = ⟨.none,.none⟩ := by
  cases goes with
  | here => rfl
  | turn => cases none

/-- The newest turn, and where the session was before. -/
theorem rests_newest {turn : Turn} {older : List Turn} (rests : Rests h i l t) (newest : t.turns = turn :: older) :
    ∃ t' calls answer, Rests h i (.waiting turn.vars) t' ∧ t'.turns = older ∧
      Runs (processRequest h.server (h.requestID i) turn.vars turn.msg) calls answer ∧ Plays Serves calls t'.entry t.entry ∧
      charging turn.calls = charging calls := by
  have went : ∀ vars, Goes h i ⟨⟨none,none⟩,[]⟩ .initial t vars → ∃ t' calls answer, Rests h i (.waiting turn.vars) t' ∧
      t'.turns = older ∧ Runs (processRequest h.server (h.requestID i) turn.vars turn.msg) calls answer ∧
      Plays Serves calls t'.entry t.entry ∧ charging turn.calls = charging calls := by
    intro vars goes
    cases goes with
    | here => cases newest
    | turn before run played =>
      cases newest
      refine ⟨_,_,_,before,rfl,run,played,?_⟩
      rw [charging_append]
      exact List.append_nil _
  cases l with
  | waiting vars => exact went vars rests
  | returned vars => exact went vars rests
  | crashed =>
    obtain ⟨t',vars,msg,calls,before,run,played,turns⟩ := rests
    rw [turns] at newest
    cases newest
    exact ⟨t',calls,none,before,rfl,run,played,rfl⟩

/-- Before the response nothing is kept. -/
theorem rests_aside (rests : Rests h i l t) (aside : ∀ turn ∈ t.turns, turn.piece = none) : t.entry.buffer = none := by
  generalize turns : t.turns = older at aside
  induction older generalizing t l with
  | nil =>
    cases l with
    | waiting vars | returned vars => rw [goes_start rests turns]
    | crashed =>
      obtain ⟨_,_,_,_,_,_,_,newest⟩ := rests
      rw [newest] at turns
      cases turns
  | cons turn older ih =>
    obtain ⟨t',calls,answer,before,turns',run,played,_⟩ := rests_newest rests turns
    rw [(turn_aside (aside turn (by simp)) run played).1]
    exact ih before turns' (fun turn is => aside turn (by simp [is]))

/-- Until its end a response is kept, and nothing is charged. By induction on the turns: each of them
    is the newest of some stretch of the session. -/
theorem rests_unended (rests : Rests h i l t) (turns : t.turns = response ++ earlier)
    (aside : ∀ turn ∈ earlier, turn.piece = none)
    (whole : ∀ turn ∈ response, turn.vars.stream = false ∧ turn.vars.statusCode = 200)
    (msgs : response.map Turn.msg = unended chunks) :
    t.entry.buffer = gathered chunks ∧ ∀ turn ∈ response, charging turn.calls = [] := by
  induction response generalizing t l chunks with
  | nil =>
    have empty : chunks = [] := by simpa [unended] using msgs.symm
    rw [empty]
    refine ⟨rests_aside rests ?_,by simp⟩
    rw [turns]
    exact aside
  | cons turn response ih =>
    rcases List.eq_nil_or_concat chunks with rfl | ⟨chunks,chunk,rfl⟩
    · cases msgs
    · rw [List.concat_eq_append] at msgs ⊢
      rw [unended_append,List.map_cons,List.cons.injEq] at msgs
      obtain ⟨msg,msgs⟩ := msgs
      obtain ⟨t',calls,answer,before,turns',run,played,charged⟩ := rests_newest rests turns
      obtain ⟨kept,free⟩ := ih before turns' (fun turn is => whole turn (by simp [is])) msgs
      obtain ⟨streams,status⟩ := whole turn (by simp)
      rw [msg] at run
      constructor
      · rw [message_buffer status streams run played,kept,gathered_append]
        rfl
      · intro other is
        rcases List.mem_cons.mp is with rfl | is
        · obtain ⟨outcome,charges⟩ := message_charges status streams run played
          have pending : readBody h.codec false false chunk (t'.entry.buffer.getD [] ++ chunk) = .pending := rfl
          rw [pending] at charges
          have idle : chargeReading h.rules h.codec other.vars.qos .pending = .ret (.ok ()) := by
            cases other.vars.qos <;> rfl
          rw [idle] at charges
          rw [charged]
          exact (runs_ret.mp charges).1
        · exact free other is

private theorem gathered_whole (chunks : List Bytes) (chunk : Bytes) : (gathered chunks).getD [] ++ chunk =
    (chunks ++ [chunk]).flatten := by
  unfold gathered
  split
  · rename_i empty
    simp [empty]
  · simp

/-- The whole response is charged with its last piece. -/
theorem rests_ended {turn : Turn} {last : Bytes} (rests : Rests h i l t) (turns : t.turns = turn :: response ++ earlier)
    (aside : ∀ turn ∈ earlier, turn.piece = none)
    (whole : ∀ other ∈ turn :: response, other.vars.stream = false ∧ other.vars.statusCode = 200)
    (msg : turn.msg = .responseBody last true) (msgs : response.map Turn.msg = unended chunks) :
    t.entry.buffer = none ∧ (∀ other ∈ response, charging other.calls = []) ∧
      ∃ outcome, Runs (chargeReading h.rules h.codec turn.vars.qos
        (readBody h.codec false true (chunks ++ [last]).flatten (chunks ++ [last]).flatten)) (charging turn.calls) outcome := by
  obtain ⟨t',calls,answer,before,turns',run,played,charged⟩ := rests_newest rests turns
  obtain ⟨kept,free⟩ := rests_unended before turns' aside (fun turn is => whole turn (by simp [is])) msgs
  obtain ⟨streams,status⟩ := whole turn (by simp)
  rw [msg] at run
  refine ⟨message_buffer status streams run played,free,?_⟩
  have charges := message_charges status streams run played
  rw [kept,gathered_whole,← charged] at charges
  exact charges

variable {vars : Session} {body : Bytes} {charges others : List Call}

theorem single_iff (status : vars.statusCode = 200) (streams : vars.stream = false) : SingleCharges h i vars body charges ↔
    ∃ outcome, Runs (chargeReading h.rules h.codec vars.qos (readBody h.codec false true body body)) charges outcome := by
  constructor
  · rintro ⟨calls,answer,e,run,played,rfl⟩
    exact message_charges status streams run played
  · rintro ⟨outcome,run⟩
    cases known : vars.qos with
    | some qos =>
      rw [known] at run
      exact single_of_reading known streams status run
    | none =>
      rw [known] at run
      obtain ⟨rfl,_⟩ := runs_ret.mp run
      obtain ⟨calls,answer,e,runs,played⟩ :=
        exists_run (processRequest h.server (h.requestID i) vars (.responseBody body true)) ⟨none,none⟩
      exact ⟨calls,answer,e,runs,played,(idle_calls (runs_within (message_unknown known status body true) runs).1).1⟩

private theorem reading_unique {qos : Option UserQos}
    (first : ∃ outcome, Runs (chargeReading h.rules h.codec qos reading) charges outcome)
    (second : ∃ outcome, Runs (chargeReading h.rules h.codec qos reading) others outcome) (agree : Agree charges others) :
    charges = others := by
  obtain ⟨_,first⟩ := first
  obtain ⟨_,second⟩ := second
  obtain ⟨answers,here,there⟩ := agree
  rw [runs_answered first here,runs_answered second there]

private theorem unused_free {qos : Option UserQos} (unused : ¬ Uses h.codec body)
    (run : ∃ outcome, Runs (chargeReading h.rules h.codec qos (readBody h.codec false true body body)) charges outcome) :
    charges = [] := by
  obtain ⟨outcome,run⟩ := run
  have nothing : (readBody h.codec false true body body).used = none := by
    rw [readBody_whole]
    cases read : h.codec.unmarshalResponse body with
    | error => rfl
    | ok res =>
      by_cases unnamed : res.model = ""
      · simp [unnamed,Reading.used]
      · have zero : res.usage.totalTokens = 0 := by
          by_contra tokens
          exact unused ⟨res,read,unnamed,tokens⟩
        simp [unnamed,Reading.used,zero]
  cases qos with
  | none => exact (runs_ret.mp run).1
  | some qos =>
    rw [chargeReading_unused nothing] at run
    exact (runs_ret.mp run).1

end Pieces

/-- Until its last piece, a response that is not streamed is kept as it came and charges nothing. Then it
    is charged as if it had come in a single message, at most once, and is kept no longer. -/
theorem whole_charged {ι : Type} [DecidableEq ι] (h : Host ι) (c d : Config Op Reply ι (Shared ι) Local) (opening : h.Opening c)
    (run : Reach h.system (fun _ => True) c d) (i : ι) (l : Local) (rests : d.prog i = .ret l) (response : List Turn)
    (responds : Response (d.shared.turns i) response) :
    (∀ chunks, response.map Turn.msg = unended chunks →
      (d.shared.entries (h.requestID i)).buffer = gathered chunks ∧ ∀ turn ∈ response, charging turn.calls = []) ∧
    ∀ chunks last turn older, response = turn :: older → turn.msg = .responseBody last true →
      older.map Turn.msg = unended chunks →
      (d.shared.entries (h.requestID i)).buffer = none ∧ (∀ other ∈ older, charging other.calls = []) ∧
      SingleCharges h i turn.vars (chunks ++ [last]).flatten (charging turn.calls) ∧
      (∀ charges, SingleCharges h i turn.vars (chunks ++ [last]).flatten charges → Agree charges (charging turn.calls) →
        charges = charging turn.calls) ∧
      (¬ Uses h.codec (chunks ++ [last]).flatten → charging turn.calls = []) ∧ Once (charging turn.calls) := by
  have here : Rests h i l (viewOf h i d.shared) := (sessions_alone opening run i).2 l rests
  obtain ⟨⟨earlier,turns,aside⟩,whole⟩ := responds
  constructor
  · intro chunks msgs
    exact rests_unended here turns aside whole msgs
  · rintro chunks last turn older rfl msg msgs
    obtain ⟨gone,free,charges⟩ := rests_ended here turns aside whole msg msgs
    obtain ⟨streams,status⟩ := whole turn (by simp)
    refine ⟨gone,free,(single_iff status streams).mpr charges,?_,fun unused => unused_free unused charges,?_⟩
    · intro others single agree
      exact reading_unique ((single_iff status streams).mp single) charges agree
    · obtain ⟨outcome,charges⟩ := charges
      exact chargeReading_once charges

/-- The turns of a response in three pieces, two of which are empty. -/
def threePieces : List Turn := ((chatted false [([],false),([7],false),([],true)]).2.turns ()).take 3

private theorem threePieces_response : Response ((chatted false [([],false),([7],false),([],true)]).2.turns ()) threePieces where
  first := ⟨_,(List.take_append_drop 3 _).symm,by decide +kernel⟩
  whole := by decide +kernel

/-- The response of three pieces is charged with the last of them. -/
theorem whole_charged_three : threePieces.length = 3 ∧
    ((chatted false [([],false),([7],false),([],true)]).2.entries "request").buffer = none ∧
    ∀ turn older, threePieces = turn :: older → SingleCharges solo () turn.vars [7] (charging turn.calls) := by
  obtain ⟨prog,run,rests⟩ := chatted_reach false [([],false),([7],false),([],true)]
  have charged := (whole_charged solo soloOpening _ soloOpening_opening run () _ rests threePieces threePieces_response).2
    [[],[7]] []
  refine ⟨rfl,(charged _ _ rfl rfl rfl).1,?_⟩
  rintro turn older pieces
  cases pieces
  exact (charged _ _ rfl rfl rfl).2.2.1

end Arks.Chunks
