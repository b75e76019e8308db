import Arks.Gateway
import Arks.Frames

/-!
What a streamed response is charged. The gateway gets the event stream in
messages that Envoy cuts as it likes, and reads every message by itself. The
services behind the server succeed here, and the server only records what it
asks of the rate limiter and the quota service. Every message of the cut is taken
to arrive, whatever the answer to an earlier one.
-/
namespace Arks.Streaming
open Counters Effects Services Gateway Frames

/-- A call that adds to the usage of a user. -/
inductive Charge
  | limiter (requests : List RateLimitRequest)
  | quota (requests : List QuotaRequest)
deriving DecidableEq,Repr

/-- A value, with the charges made on the way to it. -/
structure Recorded (α : Type) where
  charges : List Charge
  value : α

instance : Monad Recorded where
  pure a := ⟨[],a⟩
  bind x f := ⟨x.charges ++ (f x.value).charges,(f x.value).value⟩

@[simp] theorem pure_charges {α : Type} (a : α) : (pure a : Recorded α).charges = [] := rfl
@[simp] theorem pure_value {α : Type} (a : α) : (pure a : Recorded α).value = a := rfl
@[simp] theorem bind_charges {α β : Type} (x : Recorded α) (f : α → Recorded β) :
    (x >>= f).charges = x.charges ++ (f x.value).charges := rfl
@[simp] theorem bind_value {α β : Type} (x : Recorded α) (f : α → Recorded β) :
    (x >>= f).value = (f x.value).value := rfl

/-- What the recording server gets to see of the world. -/
structure Surroundings where
  rules : LimitConfig
  quotaConfig : String → String → QuotaConfig
  timings : String → ProcessingTime
  clock : Int

def recorder (codec : Codec) (around : Surroundings) : Server Recorded where
  ratelimiter := {
    checkLimit := fun _ => pure (.ok [])
    doLimit := fun requests => ⟨[.limiter requests],.ok ()⟩
    getRuleByName := around.rules.getRule }
  quotaService := {
    incrUsage := fun requests => ⟨[.quota requests],.ok ()⟩
    setUsage := fun _ => pure (.ok ())
    getUsage := fun _ => pure (.ok []) }
  configProvider := {
    getQosByToken := fun _ _ => pure (.ok none)
    getQuotaConfig := fun ns name => pure (.ok (around.quotaConfig ns name))
    getModelList := fun _ => pure (.ok [])
    getModelsByToken := fun _ => pure (.ok []) }
  collector _ := pure ()
  now := pure around.clock
  loadTiming requestID := pure (around.timings requestID)
  storeTiming _ _ := pure ()
  deleteTiming _ := pure ()
  writeBuffer _ data := pure data
  deleteBuffer _ := pure ()
  codec := codec

section Fields
variable (codec : Codec) (around : Surroundings)
@[simp] theorem recorder_now : (recorder codec around).now = pure around.clock := rfl
@[simp] theorem recorder_collector (metric : Metric) : (recorder codec around).collector metric = pure () := rfl
@[simp] theorem recorder_loadTiming (requestID : String) :
    (recorder codec around).loadTiming requestID = pure (around.timings requestID) := rfl
end Fields

/-- What a usage is to be charged: the total to the token limits, and each count
    to its type of the quota, when there is one. -/
def chargesFor (around : Surroundings) (qos : UserQos) (usage : CompletionUsage) : List Charge :=
  .limiter (qos.rateLimits.filterMap (limitRequest around.rules.getRule qos (tokenAmount usage.totalTokens))) ::
    if qos.quotaName = "" then []
    else [.quota (qosToQuotaRequests (around.quotaConfig qos.namespace_ qos.quotaName) (tokenCountMap usage))]

/-- The messages of a response body that comes in pieces. -/
def bodies : List Bytes → List ProcessingRequest
  | [] => []
  | [piece] => [.responseBody piece true]
  | piece :: next :: pieces => .responseBody piece false :: bodies (next :: pieces)

theorem bodies_cons (piece : Bytes) (pieces : List Bytes) :
    ∃ endOfStream, bodies (piece :: pieces) = .responseBody piece endOfStream :: bodies pieces := by
  cases pieces with
  | nil => exact ⟨true,rfl⟩
  | cons next pieces => exact ⟨false,rfl⟩

private theorem chargesFor_length (around : Surroundings) (qos : UserQos) (a b : CompletionUsage) :
    (chargesFor around qos a).length = (chargesFor around qos b).length := by
  unfold chargesFor
  split <;> rfl

/-- The assumption on the third-party decoder: it reads the events of this buffer
    in order and stops at the first that fails. It is asked of the buffers at hand
    only, since the decoder skips what comes after the event `[DONE]`. -/
def Decodes (codec : Codec) (read : List Line → Reading ChatCompletionChunk) (buffer : Bytes) : Prop :=
  codec.decodeStream buffer = readAll read (events buffer)

/-- An event without choices that tells of tokens used. -/
def tokensUsed (c : ChatCompletionChunk) : Bool := decide (c.choices = 0 ∧ c.usage.totalTokens ≠ 0)

/-- The stream has exactly one such event, and this is its usage. -/
def OneUsage (read : List Line → Reading ChatCompletionChunk) (stream : Bytes) (usage : CompletionUsage) : Prop :=
  (valuesOf read (events stream)).filter tokensUsed = [⟨0,usage⟩]

/-- In every streaming session with status 200, the pieces are charged as this usage, once. -/
def ChargesOnce (codec : Codec) (pieces : List Bytes) (usage : CompletionUsage) : Prop :=
  ∀ around requestID session qos, session.stream = true → session.statusCode = 200 → session.qos = some qos →
    KnownRules around.rules.getRule qos.rateLimits →
    (process (recorder codec around) requestID session (bodies pieces)).charges = chargesFor around qos usage

/-- The last event without choices. -/
def lastReport (chunks : List ChatCompletionChunk) : Option ChatCompletionChunk :=
  (chunks.filter (fun c => c.choices = 0)).getLast?

/-- A piece that is made of valid events on its own, the last of which without
    choices has this usage. -/
def Reports (read : List Line → Reading ChatCompletionChunk) (piece : Bytes) (usage : CompletionUsage) : Prop :=
  (∀ e ∈ events piece, Valid read e) ∧ usage.totalTokens ≠ 0 ∧
    ∃ chunk, lastReport (valuesOf read (events piece)) = some chunk ∧ chunk.usage = usage

/-- A piece from which no usage can be told. -/
def Silent (read : List Line → Reading ChatCompletionChunk) (piece : Bytes) : Prop := ∀ usage, ¬ Reports read piece usage

/-- Exactly one of the pieces reports a usage, and it is this one. -/
def ReportedOnce (read : List Line → Reading ChatCompletionChunk) (pieces : List Bytes) (usage : CompletionUsage) : Prop :=
  ∃ before piece after, pieces = before ++ piece :: after ∧ Reports read piece usage ∧
    ∀ other ∈ before ++ after, Silent read other

theorem streamUsage_eq (usage : CompletionUsage) (chunks : List ChatCompletionChunk) :
    streamUsage usage chunks = ((lastReport chunks).map ChatCompletionChunk.usage).getD usage := by
  induction chunks generalizing usage with
  | nil => rfl
  | cons c chunks ih =>
    rw [streamUsage,ih]
    by_cases none : c.choices = 0
    · cases rest : chunks.filter (fun c => c.choices = 0) with
      | nil => simp [lastReport,none,rest]
      | cons d ds => simp [lastReport,none,rest,List.getLast?_cons]
    · simp [lastReport,none]

section Session
variable (codec : Codec) (around : Surroundings) (qos : UserQos)

theorem chargeUsage_charges (known : KnownRules around.rules.getRule qos.rateLimits) (usage : CompletionUsage)
    (complete : Bool) :
    (chargeUsage (recorder codec around) (some qos) usage complete).charges =
      if usage.totalTokens = 0 then [] else chargesFor around qos usage := by
  unfold chargeUsage
  by_cases zero : usage.totalTokens = 0
  · simp [zero]
  · have requests : limitRequests around.rules.getRule qos (tokenAmount usage.totalTokens) qos.rateLimits = .ok _ :=
      limitRequests_known known
    by_cases unnamed : qos.quotaName = ""
    · simp [zero,doTokenRateLimit,doLimits,recorder,requests,doTokenQuotaLimit,unnamed,chargesFor]
    · simp [zero,doTokenRateLimit,doLimits,recorder,requests,doTokenQuotaLimit,unnamed,chargesFor]

private theorem chargeUsage_value (usage : CompletionUsage) (complete : Bool) :
    ∃ result, (chargeUsage (recorder codec around) (some qos) usage complete).value = some result := by
  unfold chargeUsage
  split
  · exact ⟨_,rfl⟩
  · simp only [bind_value]
    split
    · exact ⟨_,rfl⟩
    · simp only [bind_value]
      split <;> exact ⟨_,rfl⟩

private theorem handleStreamBody_value (piece : Bytes) (complete : Bool) :
    ∃ result, (handleStreamBody (recorder codec around) piece (some qos) complete).value = some result := by
  unfold handleStreamBody
  dsimp only
  split
  · exact ⟨_,rfl⟩
  · exact chargeUsage_value codec around qos _ _

variable {codec around qos} {read : List Line → Reading ChatCompletionChunk}

variable {usage : CompletionUsage} {session : Session} {pieces : List Bytes}

private theorem handleStreamBody_reports (known : KnownRules around.rules.getRule qos.rateLimits) {piece : Bytes}
    (decodes : Decodes codec read piece) (reports : Reports read piece usage) (complete : Bool) :
    (handleStreamBody (recorder codec around) piece (some qos) complete).charges = chargesFor around qos usage := by
  obtain ⟨valid,used,chunk,last,rfl⟩ := reports
  have decoded : (recorder codec around).codec.decodeStream piece = (valuesOf read (events piece),none) :=
    decodes.trans (readAll_valid valid)
  unfold handleStreamBody
  simp only [decoded,chargeUsage_charges codec around qos known,streamUsage_eq,last,Option.map_some,Option.getD_some,used,
    if_false]

private theorem handleStreamBody_silent (known : KnownRules around.rules.getRule qos.rateLimits) {piece : Bytes}
    (decodes : Decodes codec read piece) (silent : Silent read piece) (complete : Bool) :
    (handleStreamBody (recorder codec around) piece (some qos) complete).charges = [] := by
  have decoded : (recorder codec around).codec.decodeStream piece = readAll read (events piece) := decodes
  unfold handleStreamBody
  simp only [decoded]
  cases failed : (readAll read (events piece)).2 with
  | some message => simp
  | none =>
    have valid := readAll_ok failed
    simp only [readAll_valid valid,chargeUsage_charges codec around qos known,streamUsage_eq,ite_eq_left_iff]
    intro used
    exfalso
    cases last : lastReport (valuesOf read (events piece)) with
    | none => simp [last,CompletionUsage.zero] at used
    | some chunk => exact silent chunk.usage ⟨valid,by simpa [last] using used,chunk,last,rfl⟩

theorem finishResponse_recorded (requestID : String) (timing : ProcessingTime) (model : String)
    (hasCompleted endOfStream : Bool) (result : BodyResult) :
    finishResponse (recorder codec around) requestID timing (some qos) model hasCompleted endOfStream result =
      ⟨[],some (result.resp,result.complete)⟩ := by
  unfold finishResponse
  dsimp only [recorder_now]
  simp only [bind,pure]
  split <;> rfl

private theorem startTiming_charges (pt : ProcessingTime) : (startTiming (recorder codec around) pt).charges = [] := by
  unfold startTiming
  split <;> rfl

variable (codec around) in
/-- A piece of a streamed response: what it charges, and what the session keeps. -/
theorem processRequest_stream (stream : session.stream = true) (status : session.statusCode = 200)
    (owner : session.qos = some qos) (requestID : String) (piece : Bytes) (endOfStream : Bool) :
    ∃ resp completed, (processRequest (recorder codec around) requestID session (.responseBody piece endOfStream)).value =
        some (resp,{ session with completed := completed }) ∧
      (processRequest (recorder codec around) requestID session (.responseBody piece endOfStream)).charges =
        (handleStreamBody (recorder codec around) piece (some qos) session.completed).charges := by
  obtain ⟨result,handled⟩ := handleStreamBody_value codec around qos piece session.completed
  have answer : ∃ resp completed, (answerBody (recorder codec around) requestID session piece endOfStream).value =
        some (resp,completed) ∧
      (answerBody (recorder codec around) requestID session piece endOfStream).charges =
        (handleStreamBody (recorder codec around) piece (some qos) session.completed).charges := by
    refine ⟨result.resp,result.complete,?_,?_⟩
    · simp [answerBody,status,handleResponseBody,handleBody,stream,owner,handled,finishResponse_recorded]
    · simp [answerBody,status,handleResponseBody,handleBody,stream,owner,handled,finishResponse_recorded,
        startTiming_charges]
  obtain ⟨resp,completed,value,charges⟩ := answer
  refine ⟨resp,completed,?_,?_⟩
  · simp [processRequest,value,recordRequest,owner]
  · simp [processRequest,value,charges,recordRequest,owner]

variable (known : KnownRules around.rules.getRule qos.rateLimits)
include known

/-- The charges of a session, piece by piece. -/
theorem process_silent (stream : session.stream = true) (status : session.statusCode = 200)
    (owner : session.qos = some qos) (requestID : String) {piece : Bytes} (decodes : Decodes codec read piece)
    (silent : Silent read piece) (endOfStream : Bool) (rest : List ProcessingRequest) :
    ∃ completed, (process (recorder codec around) requestID session (.responseBody piece endOfStream :: rest)).charges =
      (process (recorder codec around) requestID { session with completed := completed } rest).charges := by
  obtain ⟨resp,completed,value,charges⟩ := processRequest_stream codec around stream status owner requestID piece endOfStream
  refine ⟨completed,?_⟩
  simp [process,value,charges,handleStreamBody_silent known decodes silent]

theorem process_reports (stream : session.stream = true) (status : session.statusCode = 200)
    (owner : session.qos = some qos) (requestID : String) {piece : Bytes} (decodes : Decodes codec read piece)
    (reports : Reports read piece usage) (endOfStream : Bool) (rest : List ProcessingRequest) :
    ∃ completed, (process (recorder codec around) requestID session (.responseBody piece endOfStream :: rest)).charges =
      chargesFor around qos usage ++
        (process (recorder codec around) requestID { session with completed := completed } rest).charges := by
  obtain ⟨resp,completed,value,charges⟩ := processRequest_stream codec around stream status owner requestID piece endOfStream
  refine ⟨completed,?_⟩
  simp [process,value,charges,handleStreamBody_reports known decodes reports]

theorem process_nothing_iff (decodes : ∀ piece ∈ pieces, Decodes codec read piece)
    (stream : session.stream = true) (status : session.statusCode = 200) (owner : session.qos = some qos) (requestID : String) :
    (process (recorder codec around) requestID session (bodies pieces)).charges = [] ↔
      ∀ piece ∈ pieces, Silent read piece := by
  induction pieces generalizing session with
  | nil => simp [bodies,process]
  | cons piece pieces ih =>
    obtain ⟨endOfStream,cut⟩ := bodies_cons piece pieces
    obtain ⟨first,others⟩ := List.forall_mem_cons.mp decodes
    rw [cut]
    by_cases reported : ∃ usage, Reports read piece usage
    · obtain ⟨usage,reports⟩ := reported
      obtain ⟨completed,charges⟩ := process_reports known stream status owner requestID first reports endOfStream
        (bodies pieces)
      rw [charges]
      simp only [chargesFor,List.cons_append,reduceCtorEq,List.mem_cons,forall_eq_or_imp,false_iff,not_and]
      exact fun silent => absurd reports (silent usage)
    · have silent : Silent read piece := fun usage reports => reported ⟨usage,reports⟩
      obtain ⟨completed,charges⟩ := process_silent known stream status owner requestID first silent endOfStream
        (bodies pieces)
      rw [charges,ih others (by exact stream) (by exact status) (by exact owner)]
      simp [silent]

theorem process_reportedOnce (decodes : ∀ piece ∈ pieces, Decodes codec read piece) (once : ReportedOnce read pieces usage)
    (stream : session.stream = true) (status : session.statusCode = 200) (owner : session.qos = some qos)
    (requestID : String) :
    (process (recorder codec around) requestID session (bodies pieces)).charges = chargesFor around qos usage := by
  obtain ⟨before,piece,after,rfl,reports,silent⟩ := once
  induction before generalizing session with
  | nil =>
    obtain ⟨endOfStream,cut⟩ := bodies_cons piece after
    obtain ⟨first,others⟩ := List.forall_mem_cons.mp decodes
    rw [List.nil_append,cut]
    obtain ⟨completed,charges⟩ := process_reports known stream status owner requestID first reports endOfStream
      (bodies after)
    rw [charges,(process_nothing_iff known others (by exact stream) (by exact status) (by exact owner) requestID).mpr
      (fun p member => silent p (by simpa using member)),List.append_nil]
  | cons first before ih =>
    obtain ⟨endOfStream,cut⟩ := bodies_cons first (before ++ piece :: after)
    obtain ⟨head,others⟩ := List.forall_mem_cons.mp decodes
    rw [List.cons_append,cut]
    obtain ⟨completed,charges⟩ := process_silent known stream status owner requestID head
      (silent first (by simp)) endOfStream (bodies (before ++ piece :: after))
    rw [charges]
    exact ih (by exact stream) (by exact status) (by exact owner) others
      (fun p member => silent p (.tail _ member))

private theorem reportedOnce_of_process (decodes : ∀ piece ∈ pieces, Decodes codec read piece) (stream : session.stream = true)
    (status : session.statusCode = 200) (owner : session.qos = some qos) (requestID : String)
    (tells : ∀ other, chargesFor around qos other = chargesFor around qos usage → other = usage)
    (charged : (process (recorder codec around) requestID session (bodies pieces)).charges =
      chargesFor around qos usage) : ReportedOnce read pieces usage := by
  induction pieces generalizing session with
  | nil => simp [bodies,process,chargesFor] at charged
  | cons piece pieces ih =>
    obtain ⟨endOfStream,cut⟩ := bodies_cons piece pieces
    obtain ⟨first,later⟩ := List.forall_mem_cons.mp decodes
    rw [cut] at charged
    by_cases reported : ∃ other, Reports read piece other
    · obtain ⟨other,reports⟩ := reported
      obtain ⟨completed,charges⟩ := process_reports known stream status owner requestID first reports endOfStream
        (bodies pieces)
      rw [charges] at charged
      -- the first charge already has the length of the whole, so nothing follows it
      obtain ⟨same,nothing⟩ := List.append_inj (charged.trans (List.append_nil _).symm) (chargesFor_length around qos _ _)
      obtain rfl := tells other same
      refine ⟨[],piece,pieces,rfl,reports,?_⟩
      exact (process_nothing_iff known later (by exact stream) (by exact status) (by exact owner) requestID).mp nothing
    · have silent : Silent read piece := fun other reports => reported ⟨other,reports⟩
      obtain ⟨completed,charges⟩ := process_silent known stream status owner requestID first silent endOfStream
        (bodies pieces)
      rw [charges] at charged
      obtain ⟨before,found,after,rfl,reports,others⟩ := ih later (by exact stream) (by exact status) (by exact owner) charged
      refine ⟨piece :: before,found,after,rfl,reports,?_⟩
      intro p member
      rcases List.mem_cons.mp member with rfl | member
      · exact silent
      · exact others p member

end Session

/-- A session that shows every count it is charged: a quota of all three types. -/
private def telling : UserQos := ⟨"","","","quota",[]⟩

private def tellingQuota : Surroundings :=
  ⟨newLimitConfig,fun _ _ => ⟨"quota","",[⟨"prompt",0⟩,⟨"response",0⟩,⟨"total",0⟩]⟩,fun _ => ⟨none,0⟩,0⟩

private theorem telling_tells {usage other : CompletionUsage}
    (same : chargesFor tellingQuota telling other = chargesFor tellingQuota telling usage) : other = usage := by
  cases usage; cases other
  simpa [chargesFor,tellingQuota,telling,qosToQuotaRequests,tokenCountMap] using same

/-- Whatever the usage event of the stream, the pieces of the stream are charged
    as this event, once, exactly when one of them alone reports a usage when it is
    read by itself, and that is the usage of the event. -/
theorem charged_once_iff {codec : Codec} {read : List Line → Reading ChatCompletionChunk} (pieces : List Bytes)
    (decodes : ∀ buffer ∈ pieces.flatten :: pieces, Decodes codec read buffer) :
    (∀ usage, OneUsage read pieces.flatten usage → ChargesOnce codec pieces usage) ↔
      ∀ usage, OneUsage read pieces.flatten usage → ReportedOnce read pieces usage := by
  have each := (List.forall_mem_cons.mp decodes).2
  refine forall_congr' (fun usage => imp_congr_right (fun _ => ⟨?_,?_⟩))
  · intro charges
    have unlimited : KnownRules tellingQuota.rules.getRule telling.rateLimits := by
      intro limit member
      cases member
    exact reportedOnce_of_process unlimited each rfl rfl rfl "" (fun other => telling_tells)
      (charges tellingQuota "" ⟨some telling,200,"","",true,none,false⟩ telling rfl rfl rfl unlimited)
  · intro once around requestID session qos stream status owner known
    exact process_reportedOnce known each once stream status owner requestID

/-- The lines of a short answer: a piece of text, the usage, and the end. -/
def deltaLine : Line := "data: \x7b\"choices\":[\x7b\"index\":0,\"delta\":\x7b\"content\":\"Hi\"\x7d\x7d]\x7d".toUTF8.toList

def usageLine : Line :=
  "data: \x7b\"choices\":[],\"usage\":\x7b\"prompt_tokens\":1,\"completion_tokens\":2,\"total_tokens\":3\x7d\x7d".toUTF8.toList

def doneLine : Line := "data: [DONE]".toUTF8.toList

/-- What the decoder makes of these lines, and of an event without any. -/
def answerRead (e : List Line) : Reading ChatCompletionChunk :=
  if e = [deltaLine] then .value ⟨1,.zero⟩
  else if e = [usageLine] then .value ⟨0,⟨1,2,3⟩⟩
  else if e = [doneLine] then .nothing
  else .failed "unexpected end of JSON input"

def answerCodec : Codec where
  unmarshalRequest _ := .error ""
  unmarshalResponse _ := .error ""
  decodeStream buffer := readAll answerRead (events buffer)
  rateLimitJSON _ := ""
  quotaJSON _ := ""
  text _ := ""

/-- The answer in two messages, the second from the usage event on. -/
def answerPieces : List Bytes := [deltaLine ++ [10,10],usageLine ++ [10,10] ++ doneLine ++ [10,10]]

private theorem silent_of_unused {read : List Line → Reading ChatCompletionChunk} {piece : Bytes}
    (unused : (valuesOf read (events piece)).filter tokensUsed = []) : Silent read piece := by
  rintro usage ⟨_,used,chunk,last,rfl⟩
  have member := List.mem_of_getLast? last
  simp only [List.mem_filter,decide_eq_true_eq] at member
  have none := List.filter_eq_nil_iff.mp unused chunk member.1
  simp [tokensUsed,member.2,used] at none

private theorem answer_reported : ReportedOnce answerRead answerPieces ⟨1,2,3⟩ := by
  refine ⟨[deltaLine ++ [10,10]],_,[],rfl,⟨readAll_ok (by decide +kernel),by decide,⟨0,⟨1,2,3⟩⟩,by decide +kernel,rfl⟩,?_⟩
  intro other member
  rw [List.append_nil,List.mem_singleton] at member
  exact silent_of_unused (by rw [member]; decide +kernel)

theorem charged_once_iff_answer : ChargesOnce answerCodec answerPieces ⟨1,2,3⟩ := by
  have one : (valuesOf answerRead (events answerPieces.flatten)).filter tokensUsed = [⟨0,⟨1,2,3⟩⟩] := by decide +kernel
  have decodes : ∀ buffer ∈ answerPieces.flatten :: answerPieces, Decodes answerCodec answerRead buffer := fun _ _ => rfl
  refine (charged_once_iff answerPieces decodes).mpr ?_ ⟨1,2,3⟩ one
  intro usage same
  obtain ⟨rfl⟩ : ⟨1,2,3⟩ = usage := by simpa using one.symm.trans same
  exact answer_reported

/-- The usage event comes in two messages, cut before its blank line: neither is charged. -/
theorem split_usage_event_uncharged :
    OneUsage answerRead [usageLine ++ [10],[10]].flatten ⟨1,2,3⟩ ∧
      ¬ ChargesOnce answerCodec [usageLine ++ [10],[10]] ⟨1,2,3⟩ := by
  refine ⟨by unfold OneUsage; decide +kernel,?_⟩
  intro charges
  have charged := charges tellingQuota "" ⟨some telling,200,"","",true,none,false⟩ telling rfl rfl rfl
    (fun limit member => by cases member)
  exact absurd charged (by decide +kernel)

/-! ### Cuts between events -/

/-- A single element of a concatenation comes from one part, and the others are empty. -/
private theorem flatMap_single {α β : Type} {f : α → List β} {parts : List α} {b : β} (one : parts.flatMap f = [b]) :
    ∃ before part after, parts = before ++ part :: after ∧ f part = [b] ∧ ∀ other ∈ before ++ after, f other = [] := by
  induction parts with
  | nil => simp at one
  | cons part parts ih =>
    rw [List.flatMap_cons,List.append_eq_singleton_iff] at one
    rcases one with ⟨empty,one⟩ | ⟨one,empty⟩
    · obtain ⟨before,found,after,rfl,single,others⟩ := ih one
      refine ⟨part :: before,found,after,rfl,single,?_⟩
      intro other member
      rcases List.mem_cons.mp member with rfl | member
      · exact empty
      · exact others other member
    · exact ⟨[],part,parts,rfl,one,fun other member => List.flatMap_eq_nil_iff.mp empty other member⟩

/-- A stream of valid events that is cut between events only, so that no other
    event without choices follows the usage event in its piece, is charged once. -/
theorem whole_events_charged_once {codec : Codec} {read : List Line → Reading ChatCompletionChunk}
    {pieces : List Bytes} {last : Bytes} (decodes : ∀ buffer ∈ pieces ++ [last], Decodes codec read buffer)
    (whole : ∀ piece ∈ pieces, Whole piece) (valid : ∀ e ∈ events (pieces ++ [last]).flatten, Valid read e)
    {usage : CompletionUsage} (one : OneUsage read (pieces ++ [last]).flatten usage)
    (ends : ∀ piece ∈ pieces ++ [last], ∀ chunk ∈ valuesOf read (events piece), tokensUsed chunk →
      lastReport (valuesOf read (events piece)) = some chunk) :
    ChargesOnce codec (pieces ++ [last]) usage := by
  have split : events (pieces ++ [last]).flatten = (pieces ++ [last]).flatMap events := events_flatten whole
  have single : (pieces ++ [last]).flatMap (fun piece => (valuesOf read (events piece)).filter tokensUsed) =
      [⟨0,usage⟩] := by
    rw [OneUsage,split,valuesOf,List.filterMap_flatMap,List.filter_flatMap] at one
    exact one
  obtain ⟨before,piece,after,parts,found,others⟩ := flatMap_single single
  have used : (⟨0,usage⟩ : ChatCompletionChunk) ∈ (valuesOf read (events piece)).filter tokensUsed := by
    rw [found]
    exact .head _
  have member : piece ∈ pieces ++ [last] := by rw [parts]; simp
  have reports : Reports read piece usage := by
    refine ⟨?_,?_,_,ends piece member _ (List.mem_filter.mp used).1 (List.mem_filter.mp used).2,rfl⟩
    · intro e inside
      exact valid e (by rw [split]; exact List.mem_flatMap.mpr ⟨piece,member,inside⟩)
    · have tells := (List.mem_filter.mp used).2
      simpa [tokensUsed] using tells
  intro around requestID session qos stream status owner known
  exact process_reportedOnce known decodes ⟨before,piece,after,parts,reports,
    fun other elsewhere => silent_of_unused (others other elsewhere)⟩ stream status owner requestID

end Arks.Streaming
