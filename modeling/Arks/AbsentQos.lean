import Arks.Sessions

/-!
When `Process` dereferences a qos that is not there. Only the body of a request
sets the qos. A request without a body is forwarded all the same, and the first
message of its response that is recorded ends the process.
-/
namespace Arks.AbsentQos
open Programs Programs.Prog Api Counters Effects Services Gateway Sessions

/-- What Envoy sends for one request: its headers, its body if it has one, and of the
    response its headers and any number of pieces of its body. -/
structure Delivery where
  headers : List HeaderValue
  body : Option Bytes
  response : Option (List HeaderValue × List (Bytes × Bool))

def Delivery.messages (x : Delivery) : List ProcessingRequest :=
  .requestHeaders x.headers :: (x.body.toList.map .requestBody ++
    x.response.toList.flatMap (fun response => .responseHeaders response.1 ::
      response.2.map (fun piece => .responseBody piece.1 piece.2)))

variable (s : Server Action) (requestID : String)

/-- `Process` on the messages as Envoy delivers them: an immediate response to a message
    of the request is the end. The value says that no nil qos was dereferenced. -/
def deliver (session : Session) : List ProcessingRequest → Action Bool
  | [] => pure true
  | msg :: msgs => do
    match ← processRequest s requestID session msg with
    | none => pure false
    | some (resp,session) => if isImmediate resp ∧ !isResponse msg then pure true else deliver session msgs

/-- Whatever the stores answer, no nil qos is dereferenced. -/
def Sound (x : Delivery) : Prop :=
  ∀ requestID, Issues (fun _ => True) (fun sound => sound = true) (deliver s requestID .initial x.messages)

variable {s requestID} {answers : (op : Op) → Reply op → Prop}

/-! ### With a qos -/

section Present
variable {session : Session} {qos : UserQos}

/-- A message of the response is handled, and the qos stays. -/
theorem response_present (present : session.qos = some qos) {msg : ProcessingRequest} (response : isResponse msg = true) :
    Within answers (fun _ => True) (fun r => ∃ resp next, r = some (resp,next) ∧ next.qos = some qos)
      (processRequest s requestID session msg) := by
  cases msg with
  | responseHeaders headers =>
    simp only [processRequest]
    split
    · refine within_bind (recordRequest_present (by exact present) _) (fun recorded is => ?_)
      subst is
      exact ⟨_,_,rfl,present⟩
    · exact ⟨_,_,rfl,present⟩
  | responseBody body endOfStream => exact responseBody_present present body endOfStream
  | requestHeaders | requestBody | unknown => cases response

/-- Once the qos is there, the whole response is handled. -/
theorem deliver_response {msgs : List ProcessingRequest} (responses : ∀ msg ∈ msgs, isResponse msg = true)
    (present : session.qos = some qos) :
    Within answers (fun _ => True) (fun sound => sound = true) (deliver s requestID session msgs) := by
  induction msgs generalizing session with
  | nil => rfl
  | cons msg msgs ih =>
    have response := responses msg List.mem_cons_self
    refine within_bind (response_present present response) ?_
    rintro _ ⟨resp,next,rfl,kept⟩
    simp only [response,Bool.not_true,Bool.false_eq_true,and_false,if_false]
    exact ih (fun msg member => responses msg (.tail _ member)) kept

/-- A request body that is not refused leaves a qos. -/
theorem handleRequestBody_present (body : Bytes) (token : String) :
    Within answers (fun _ => True) (fun result => isImmediate result.resp = false → result.qos.isSome = true)
      (handleRequestBody s body token) := by
  have refused : ∀ key value code message (qos : Option UserQos) model stream,
      isImmediate (⟨headerError key value code message,qos,model,stream⟩ : RequestResult).resp = false →
      (⟨headerError key value code message,qos,model,stream⟩ : RequestResult).qos.isSome = true := by
    intro _ _ _ _ _ _ _ passed
    cases passed
  unfold handleRequestBody
  split
  · exact refused _ _ _ _ _ _ _
  · dsimp only
    split
    · exact refused _ _ _ _ _ _ _
    · refine within_bind within_trivial (fun found _ => ?_)
      rcases found with e | _ | qos
      · exact refused _ _ _ _ _ _ _
      · exact refused _ _ _ _ _ _ _
      · refine within_bind within_trivial (fun listed _ => ?_)
        rcases listed with e | modelList
        · exact refused _ _ _ _ _ _ _
        · dsimp only
          split
          · exact refused _ _ _ _ _ _ _
          · split
            · exact refused _ _ _ _ _ _ _
            · refine within_bind within_trivial (fun limited _ => ?_)
              cases limited with
              | some errRes => exact fun _ => rfl
              | none =>
                refine within_bind within_trivial (fun quota _ => ?_)
                cases quota with
                | some errRes => exact fun _ => rfl
                | none =>
                  refine within_bind within_trivial (fun counted _ => ?_)
                  rcases counted with e | _ <;> exact fun _ => rfl

end Present

/-! ### Without a qos -/

variable {session : Session}

theorem recordRequest_absent (s : Server Action) (absent : session.qos = none) (statusCode : Int) :
    recordRequest s session statusCode = pure none := by
  unfold recordRequest
  rw [absent]

/-- A piece of the response's body ends the process. -/
theorem responseBody_absent (absent : session.qos = none) (body : Bytes) (endOfStream : Bool) :
    Within answers (fun _ => True) (fun r => r = none) (processRequest s requestID session (.responseBody body endOfStream)) := by
  refine within_bind within_trivial (fun answered _ => ?_)
  rcases answered with _ | ⟨resp,completed⟩
  · rfl
  · have missing : ({ session with completed := completed } : Session).qos = none := absent
    simp only [recordRequest_absent s missing]
    rfl

/-- The headers of a response with status 500 do so, too; others are handled. -/
theorem responseHeaders_absent (absent : session.qos = none) (headers : List HeaderValue) :
    processRequest s requestID session (.responseHeaders headers) =
      if statusOf headers = 500 then pure none
      else pure (some ((handleResponseHeaders headers).1,{ session with statusCode := statusOf headers })) := by
  have missing : ({ session with statusCode := statusOf headers } : Session).qos = none := absent
  have status : (handleResponseHeaders headers).2 = statusOf headers := rfl
  simp only [processRequest]
  by_cases failed : statusOf headers = 500
  · rw [if_pos failed,if_pos (status.trans failed),status,recordRequest_absent s missing]
    rfl
  · rw [if_neg failed,if_neg (fun is => failed (status.symm.trans is))]
    rfl

/-- A response without a qos is handled only when nothing of it is recorded. -/
theorem deliver_absent (absent : session.qos = none) (headers : List HeaderValue) (pieces : List (Bytes × Bool)) :
    Within answers (fun _ => True) (fun sound => sound = decide (statusOf headers ≠ 500 ∧ pieces = []))
      (deliver s requestID session (.responseHeaders headers :: pieces.map (fun piece => .responseBody piece.1 piece.2))) := by
  unfold deliver
  rw [responseHeaders_absent absent]
  split
  · rename_i failed
    simp [failed]
  · rename_i failed
    cases pieces with
    | nil => simp [failed,isResponse,deliver]
    | cons piece pieces =>
      have missing : ({ session with statusCode := statusOf headers } : Session).qos = none := absent
      simp only [pure_eq,ret_bind,isResponse,Bool.not_true,Bool.false_eq_true,and_false,if_false,List.map_cons]
      refine within_bind (responseBody_absent missing piece.1 piece.2) ?_
      rintro _ rfl
      simp

/-! ### Whole requests -/

/-- Nothing of the response is recorded: there is none, or only headers of another status than 500. -/
def Unrecorded (x : Delivery) : Prop := ∀ response ∈ x.response, statusOf response.1 ≠ 500 ∧ response.2 = []

/-- The session once the headers of the request are read. -/
def opened (x : Delivery) (now : Int) : Session := { Session.initial with requestStart := some now,token := tokenOf x.headers }

private theorem handleRequestHeaders_token (headers : List HeaderValue) : (handleRequestHeaders headers).2 = tokenOf headers := by
  simp only [handleRequestHeaders]
  split <;> rfl

/-- The messages after the headers, when these were not refused. -/
theorem deliver_opened (x : Delivery) {Q : Bool → Prop} (refused : tokenOf x.headers = "" → Q true)
    (rest : tokenOf x.headers ≠ "" → ∀ now, Within answers (fun _ => True) Q
      (deliver s requestID (opened x now) x.messages.tail)) :
    Within answers (fun _ => True) Q (deliver s requestID .initial x.messages) := by
  have first : x.messages = .requestHeaders x.headers :: x.messages.tail := rfl
  rw [first]
  simp only [deliver,processRequest,bind_assoc]
  refine within_bind within_trivial (fun now _ => ?_)
  simp only [pure_eq,ret_bind,isResponse,Bool.not_false,and_true,handleRequestHeaders_immediate,handleRequestHeaders_token]
  split
  · rename_i missing
    exact refused missing
  · rename_i token
    exact rest token now

/-- Everything after the headers of a request that has a body. -/
theorem body_sound {x : Delivery} {body : Bytes} (sent : x.body = some body) (session : Session) :
    Within answers (fun _ => True) (fun sound => sound = true) (deliver s requestID session x.messages.tail) := by
  have messages : x.messages.tail = .requestBody body :: x.response.toList.flatMap (fun response =>
      .responseHeaders response.1 :: response.2.map (fun piece => .responseBody piece.1 piece.2)) := by
    simp [Delivery.messages,sent]
  have responses : ∀ msg ∈ x.response.toList.flatMap (fun response =>
      ProcessingRequest.responseHeaders response.1 :: response.2.map (fun piece => .responseBody piece.1 piece.2)),
      isResponse msg = true := by
    intro msg member
    obtain ⟨response,_,member⟩ := List.mem_flatMap.mp member
    rcases List.mem_cons.mp member with rfl | member
    · rfl
    · obtain ⟨piece,_,rfl⟩ := List.mem_map.mp member
      rfl
  rw [messages]
  simp only [deliver,processRequest,bind_assoc]
  refine within_bind (handleRequestBody_present body session.token) (fun result present => ?_)
  simp only [pure_eq,ret_bind,isResponse,Bool.not_false,and_true]
  split
  · rfl
  · rename_i passed
    obtain ⟨qos,is⟩ := Option.isSome_iff_exists.mp (present (by simpa using passed))
    exact deliver_response responses (by exact is)

/-- Everything after the headers of a request without a body. -/
theorem bodyless_sound {x : Delivery} (bodyless : x.body = none) (absent : session.qos = none) :
    Within answers (fun _ => True) (fun sound => sound = true ↔ Unrecorded x) (deliver s requestID session x.messages.tail) := by
  have messages : x.messages.tail = x.response.toList.flatMap (fun response =>
      .responseHeaders response.1 :: response.2.map (fun piece => .responseBody piece.1 piece.2)) := by
    simp [Delivery.messages,bodyless]
  rw [messages]
  cases answered : x.response with
  | none => simp [deliver,Unrecorded,answered]
  | some response =>
    simp only [Option.toList_some,List.flatMap_cons,List.flatMap_nil,List.append_nil]
    refine within_mono (deliver_absent absent response.1 response.2) (fun _ ok => ok) ?_
    rintro _ rfl
    simp [Unrecorded,answered]

/-- A request without a body but with a token makes every run crash once something of its response is recorded. -/
theorem not_sound (s : Server Action) {x : Delivery} (bodyless : x.body = none) (token : tokenOf x.headers ≠ "")
    (recorded : ¬ Unrecorded x) : ¬ Sound s x := by
  intro sound
  have fails : Issues (fun _ => True) (fun sound => sound = false) (deliver s "" .initial x.messages) := by
    refine deliver_opened x (fun missing => absurd missing token) (fun _ now => ?_)
    refine within_mono (bodyless_sound bodyless rfl) (fun _ ok => ok) (fun sound is => ?_)
    simpa [recorded] using is
  have answered : ∀ op, ∃ r : Reply op, True := fun op => ⟨(perform op (.fresh [] [] [])).1,trivial⟩
  obtain ⟨value,run⟩ := returns_exists answered (deliver s "" .initial x.messages)
  have crashed := returns_within fails run
  rw [returns_within (sound "") run] at crashed
  cases crashed

/-- No nil qos is dereferenced over a request, whatever the stores answer, if and only
    if the request has a body or no token, or nothing of its response is recorded. -/
theorem sound_iff (s : Server Action) (x : Delivery) :
    Sound s x ↔ x.body.isSome = true ∨ tokenOf x.headers = "" ∨ Unrecorded x := by
  constructor
  · intro sound
    by_contra neither
    simp only [not_or,Bool.not_eq_true,Option.isSome_eq_false_iff,Option.isNone_iff_eq_none] at neither
    obtain ⟨bodyless,token,recorded⟩ := neither
    exact not_sound s bodyless token recorded sound
  · intro condition requestID
    refine deliver_opened x (fun _ => rfl) (fun token now => ?_)
    cases body : x.body with
    | some body => exact body_sound body _
    | none =>
      have unrecorded : Unrecorded x := by simpa [body,token] using condition
      exact within_mono (bodyless_sound body rfl) (fun _ ok => ok) (fun _ is => is.mpr unrecorded)

/-- A request without a body whose response has one piece of a body. -/
def bodylessRequest : Delivery where
  headers := [⟨"authorization","","Bearer t"⟩]
  body := none
  response := some ([⟨":status","","200"⟩],[([],true)])

/-- It makes `Process` dereference a nil qos, whatever the server is built from. -/
theorem bodylessRequest_unsound (limiter : RedisRateLimter) (quotas : RedisQuotaService) (codec : Codec) :
    ¬ Sound (newServer limiter quotas codec) bodylessRequest := by
  refine not_sound _ rfl (by decide) ?_
  simp [Unrecorded,bodylessRequest]

/-- A codec that decodes nothing. -/
def mute : Codec := ⟨fun _ => .error "",fun _ => .error "",fun _ => ([],none),fun _ => "",fun _ => "",fun _ => ""⟩

theorem bodylessRequest_crashes :
    ¬ Sound (newServer (newRedisRateLimter "arks-ratelimiter" 0) ⟨"arks-quota"⟩ mute) bodylessRequest :=
  bodylessRequest_unsound _ _ _

end Arks.AbsentQos
