import Arks.TokenMetrics

/-!
How often a session counts its request. `Process` calls `RecordRequest` for every piece
of the response body that it gets, and once more for response headers with status 500.
A response that comes in several pieces is counted for each of them, and one without a
body is not counted at all.
-/
namespace Arks.RequestCounts
open Programs Programs.Prog Gateway Interfaces Exchanges

/-! ### Records -/

/-- The status that `RecordRequest` was called with. -/
def statusOf : Op → Option String
  | .record (.request _ _ _ _ status) => some status
  | _ => none

def recordedStatuses (calls : List Call) : List String := calls.filterMap (fun call => statusOf call.1)

/-- The statuses of all calls of `RecordRequest` in a session. -/
def requestRecords (turns : List Turn) : List String := turns.flatMap (fun turn => recordedStatuses turn.calls)

def isBody : ProcessingRequest → Bool
  | .responseBody _ _ => true
  | _ => false

/-- Response headers with status 500. -/
def isFailure : ProcessingRequest → Bool
  | .responseHeaders headers => decide ((handleResponseHeaders headers).2 = 500)
  | _ => false

/-- The status that the session has when it has handled the message. -/
def statusAfter (vars : Session) : ProcessingRequest → Int
  | .responseHeaders headers => (handleResponseHeaders headers).2
  | _ => vars.statusCode

/-- The status that a message is counted with. -/
def countedAs (turn : Turn) : Option Int :=
  if isBody turn.msg || isFailure turn.msg then some (statusAfter turn.vars turn.msg) else none

section Turns
variable {rules : Counters.LimitConfig} {codec : Codec} {requestID : String} {vars vars' : Session} {calls more : List Call}

theorem recordedStatuses_append : recordedStatuses (calls ++ more) = recordedStatuses calls ++ recordedStatuses more :=
  List.filterMap_append ..

private theorem statusOf_request : ∀ {op : Op}, RequestCall op → statusOf op = none
  | .checkLimit _,_ | .doLimit _,_ | .getUsage _,_ | .getQosByToken _ _,_ | .getQuotaConfig _ _,_ | .getModelList _,_ => rfl
  | .record (.rateLimitHit _ _ _ _),_ => rfl

private theorem statusOf_response {op : Op} (calls : ResponseCall requestID op) : statusOf op = none := by
  cases op with
  | record metric => cases metric <;> first | rfl | cases calls
  | _ => rfl

theorem recordRequest_statuses {statusCode : Int}
    (run : Runs (recordRequest (server rules codec) vars statusCode) calls (some ())) :
    recordedStatuses calls = [toString statusCode] := by
  unfold recordRequest at run
  split at run
  · cases (runs_ret.mp run).2
  · obtain ⟨now,rest,rfl,later⟩ := runs_call.mp run
    obtain ⟨_,last,rfl,ends⟩ := runs_call.mp later
    obtain ⟨rfl,_⟩ := runs_ret.mp ends
    rfl

/-- A turn counts the request once or not at all. -/
theorem turn_statuses {msg : ProcessingRequest} {resp : ProcessingResponse} {noted_ : List Call}
    (run : Runs (processRequest (server rules codec) requestID vars msg) calls (some (resp,vars'))) :
    recordedStatuses calls = (countedAs ⟨vars,msg,noted_⟩).toList.map toString ∧ vars'.statusCode = statusAfter vars msg := by
  cases msg with
  | requestHeaders headers =>
    obtain ⟨_,rest,rfl,later⟩ := runs_call.mp run
    obtain ⟨rfl,same⟩ := runs_ret.mp later
    cases same
    exact ⟨rfl,rfl⟩
  | requestBody body =>
    obtain ⟨result,first,rest,rfl,handles,later⟩ := runs_bind.mp run
    obtain ⟨rfl,same⟩ := runs_ret.mp later
    cases same
    have silent := (runs_within (handleRequestBody_calls body vars.token) handles).1
    rw [List.append_nil]
    exact ⟨List.filterMap_eq_nil_iff.mpr (fun call is => statusOf_request (silent call is)),rfl⟩
  | responseHeaders headers =>
    simp only [processRequest] at run
    split at run
    · rename_i failed
      obtain ⟨recorded_,first,rest,rfl,records,later⟩ := runs_bind.mp run
      cases recorded_ with
      | none => cases (runs_ret.mp later).2
      | some =>
        obtain ⟨rfl,same⟩ := runs_ret.mp later
        cases same
        rw [List.append_nil,recordRequest_statuses records]
        exact ⟨by simp [countedAs,isBody,isFailure,statusAfter,failed],rfl⟩
    · rename_i other
      obtain ⟨rfl,same⟩ := runs_ret.mp run
      cases same
      exact ⟨by simp [recordedStatuses,countedAs,isBody,isFailure,other],rfl⟩
  | responseBody body endOfStream =>
    obtain ⟨answer,first,rest,rfl,answers,later⟩ := runs_bind.mp run
    have silent := (runs_within (answerBody_calls vars body endOfStream) answers).1
    have none_ : recordedStatuses first = [] := List.filterMap_eq_nil_iff.mpr (fun call is => statusOf_response (silent call is))
    cases answer with
    | none => cases (runs_ret.mp later).2
    | some answer =>
      obtain ⟨recorded_,second,last,rfl,records,ends⟩ := runs_bind.mp later
      cases recorded_ with
      | none => cases (runs_ret.mp ends).2
      | some =>
        obtain ⟨rfl,same⟩ := runs_ret.mp ends
        cases same
        rw [List.append_nil,recordedStatuses_append,none_,recordRequest_statuses records]
        exact ⟨rfl,rfl⟩
  | unknown =>
    obtain ⟨rfl,same⟩ := runs_ret.mp run
    cases same
    exact ⟨rfl,rfl⟩

end Turns

/-! ### Sessions -/

/-- The messages of a session that are counted. -/
def counted (turns : List Turn) : Nat :=
  turns.countP (fun turn => isBody turn.msg) + turns.countP (fun turn => isFailure turn.msg)

section Sessions
variable {ι : Type} {h : Host ι} {i : ι} {t : View} {vars : Session} {turns : List Turn}

/-- A session calls `RecordRequest` for the messages that are counted, and for nothing else. -/
theorem goes_records (goes : Goes h i ⟨⟨none,none⟩,[]⟩ .initial t vars) :
    requestRecords t.turns = (t.turns.filterMap countedAs).map toString := by
  induction goes with
  | here => rfl
  | @turn t' vars' vars'' msg resp calls entry _ run _ ih =>
    have here : recordedStatuses (calls ++ [⟨.send resp,()⟩]) =
        (countedAs ⟨vars',msg,calls ++ [⟨.send resp,()⟩]⟩).toList.map toString := by
      rw [recordedStatuses_append,(turn_statuses run).1]
      exact List.append_nil _
    rw [requestRecords,List.flatMap_cons,← requestRecords,ih,here,List.filterMap_cons]
    cases countedAs ⟨vars',msg,calls ++ [⟨.send resp,()⟩]⟩ <;> rfl

private theorem counted_length (turns : List Turn) : (turns.filterMap countedAs).length = counted turns := by
  induction turns with
  | nil => rfl
  | cons turn turns ih =>
    -- no message is both a piece of the body and response headers
    have apart : (isBody turn.msg && isFailure turn.msg) = false := by cases turn.msg <;> rfl
    rw [counted] at ih ⊢
    rw [List.filterMap_cons,List.countP_cons,List.countP_cons]
    cases body : isBody turn.msg <;> cases failed : isFailure turn.msg
    · simpa [countedAs,body,failed] using ih
    · simp only [countedAs,body,failed,Bool.false_or,if_true,List.length_cons,ih]
      simp
      omega
    · simp only [countedAs,body,failed,Bool.or_false,if_true,List.length_cons,ih]
      simp
      omega
    · simp [body,failed] at apart

private theorem singleton_iff {statuses : List Int} {status : Int} :
    statuses.map toString = [toString status] ↔ statuses.length = 1 ∧ ∀ other ∈ statuses, other = status := by
  constructor
  · intro same
    obtain ⟨other,rfl⟩ := List.length_eq_one_iff.mp (by simpa using congrArg List.length same)
    have text : toString other = toString status := (List.cons.inj same).1
    exact ⟨rfl,fun _ is => (List.mem_singleton.mp is).trans (Texts.toString_int_inj text)⟩
  · rintro ⟨one,all⟩
    obtain ⟨other,rfl⟩ := List.length_eq_one_iff.mp one
    rw [all other (List.mem_singleton_self _)]
    rfl

end Sessions

/-- A session counts its request once and with its status exactly when it got one piece of the body or one failure
    in all, and its status was not changed behind that message. -/
theorem request_counted_iff {ι : Type} [DecidableEq ι] (h : Host ι) (c d : Config Op Reply ι (Shared ι) Local)
    (opening : h.Opening c)
    (run : Reach h.system (fun _ => True) c d) (i : ι) (vars : Session)
    (rests : d.prog i = .ret (.waiting vars) ∨ d.prog i = .ret (.returned vars)) :
    requestRecords (d.shared.turns i) = [toString vars.statusCode] ↔
      counted (d.shared.turns i) = 1 ∧ ∀ turn ∈ d.shared.turns i, ∀ status ∈ countedAs turn, status = vars.statusCode := by
  have goes : Goes h i ⟨⟨none,none⟩,[]⟩ .initial (viewOf h i d.shared) vars := by
    rcases rests with rests | rests
    · exact (sessions_alone opening run i).2 _ rests
    · exact (sessions_alone opening run i).2 _ rests
  have records : requestRecords (d.shared.turns i) = ((d.shared.turns i).filterMap countedAs).map toString := goes_records goes
  rw [records,singleton_iff,counted_length]
  refine and_congr_right (fun _ => ⟨fun all turn is status counts => ?_,fun all status is => ?_⟩)
  · exact all status (List.mem_filterMap.mpr ⟨turn,is,counts⟩)
  · obtain ⟨turn,member,counts⟩ := List.mem_filterMap.mp is
    exact all turn member status counts

/-- A response in one piece is counted once. -/
theorem request_counted_whole : ∃ vars, (chatted false [([7],true)]).1 = .returned vars ∧
    requestRecords ((chatted false [([7],true)]).2.turns ()) = [toString vars.statusCode] := by
  obtain ⟨prog,run,over_⟩ := chatted_reach false [([7],true)]
  obtain ⟨vars,ended,status⟩ : ∃ vars, (chatted false [([7],true)]).1 = .returned vars ∧ vars.statusCode = 200 :=
    ⟨_,rfl,by decide +kernel⟩
  have one : counted ((chatted false [([7],true)]).2.turns ()) = 1 := by decide +kernel
  have same : ∀ turn ∈ (chatted false [([7],true)]).2.turns (), ∀ status ∈ countedAs turn, status = 200 := by decide +kernel
  refine ⟨vars,ended,(request_counted_iff solo soloOpening _ soloOpening_opening run () vars (.inr ?_)).mpr ⟨one,?_⟩⟩
  · rw [← ended]
    exact over_
  · rw [status]
    exact same

/-- A response in two pieces is counted twice. -/
theorem pieces_counted : ∃ prog vars, Reach solo.system
    (fun _ => True) soloOpening ⟨(chatted false [([],false),([7],true)]).2,prog⟩ ∧
    prog () = .ret (.returned vars) ∧ requestRecords ((chatted false [([],false),([7],true)]).2.turns ()) = ["200","200"] := by
  obtain ⟨prog,run,over_⟩ := chatted_reach false [([],false),([7],true)]
  exact ⟨prog,_,run,over_,by decide +kernel⟩

end Arks.RequestCounts
