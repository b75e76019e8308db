import Arks.Exchanges

/-!
The pieces of a response. `HandleResponseBody` reads each piece, keeps what is not
read yet, charges the usage that it finds and records the tokens, all of which a turn
of the session shows. The rest of a session leaves its entries alone.
-/
namespace Arks.Responses
open Programs Programs.Prog Services Gateway Interfaces Exchanges
open Counters (LimitConfig UserQos)
open Effects (Metric ProcessingTime Bytes)

/-! ### Response bodies -/

/-- What a piece of a response tells: nothing yet, nothing that can be read, or a usage. -/
inductive Reading
  | pending
  | broken
  | usage (usage : CompletionUsage)
deriving DecidableEq

/-- A streamed piece is read by itself, and any other response as a whole once it has ended. -/
def readBody (codec : Codec) (stream endOfStream : Bool) (body whole : Bytes) : Reading :=
  if stream then
    match codec.decodeStream body with
    | (_,some _) => .broken
    | (chunks,none) => .usage (streamUsage .zero chunks)
  else if !endOfStream then .pending
  else
    match codec.unmarshalResponse whole with
    | .error _ => .broken
    | .ok res => if res.model = "" then .broken else .usage res.usage

namespace Reading

/-- The usage that is to be charged. -/
def used : Reading → Option CompletionUsage
  | usage u => if u.totalTokens = 0 then none else some u
  | _ => none

/-- The response is over for the gateway. -/
def completes : Reading → Bool
  | broken => true
  | reading => reading.used.isSome

/-- The counts that are left for the metrics. -/
def counted (reading : Reading) : CompletionUsage := reading.used.getD .zero

end Reading

def chargeReading (rules : LimitConfig) (codec : Codec) (qos : Option UserQos) (reading : Reading) : Action
    (Except String Unit) :=
  match qos,reading.used with
  | some qos,some usage => charge rules codec qos usage
  | _,_ => pure (.ok ())

/-- What a piece of a response led to. -/
structure Handled (rules : LimitConfig) (codec : Codec) (qos : Option UserQos) (complete : Bool) (reading : Reading)
    (calls : List Call) (result : BodyResult) : Prop where
  complete : result.complete = (complete || reading.completes)
  counts : result.usage = reading.counted
  charges : ∃ outcome, Runs (chargeReading rules codec qos reading) (charging calls) outcome
  records : recorded calls = []

section Bodies
variable {rules : LimitConfig} {codec : Codec} {qos : Option UserQos} {complete : Bool} {calls : List Call} {e e' : Entry}
  {result : BodyResult}

theorem handled_unread {reading : Reading} (unused : reading.used = none)
    (completes : result.complete = (complete || reading.completes))
    (counts : result.usage = .zero) : Handled rules codec qos complete reading [] result where
  complete := completes
  counts := by rw [counts,Reading.counted,unused]; rfl
  charges := ⟨.ok (),by cases qos <;> simp [chargeReading,unused,charging]⟩
  records := rfl

/-- Calls that neither charge nor record tokens may come before. -/
theorem handled_cons {reading : Reading} {op : Op} {r : Reply op} (free : isCharge op = false) (silent : tokenCounts op = none)
    (handled : Handled rules codec qos complete reading calls result) :
    Handled rules codec qos complete reading (⟨op,r⟩ :: calls) result where
  complete := handled.complete
  counts := handled.counts
  charges := by
    rw [charging,List.filter_cons_of_neg (by simpa using free)]
    exact handled.charges
  records := by
    simpa [recorded,silent] using handled.records

theorem chargeUsage_handled {usage : CompletionUsage}
    (run : Runs (chargeUsage (server rules codec) qos usage complete) calls (some result)) :
    Handled rules codec qos complete (.usage usage) calls result ∧ (Plays Serves calls e e' → e' = e) := by
  unfold chargeUsage at run
  split at run
  · rename_i zero
    obtain ⟨rfl,same⟩ := runs_ret.mp run
    cases same
    exact ⟨handled_unread (by simp [Reading.used,zero]) (by simp [Reading.completes,Reading.used,zero]) rfl,
      fun played => plays_nil.mp played⟩
  · rename_i tokens
    cases qos with
    | none => cases run
    | some qos =>
      have used : (Reading.usage usage).used = some usage := if_neg tokens
      obtain ⟨limited,first,rest,rfl,limits,later⟩ := runs_bind.mp run
      have charged : ∃ outcome, Runs (charge rules codec qos usage) (first ++ rest) outcome ∧ result.complete = true ∧
          result.usage = usage := by
        cases limited with
        | error text =>
          obtain ⟨rfl,same⟩ := runs_ret.mp later
          cases same
          exact ⟨.error text,runs_bind.mpr ⟨_,first,[],rfl,limits,.ret⟩,rfl,rfl⟩
        | ok =>
          obtain ⟨counted,second,third,rfl,counts,last⟩ := runs_bind.mp later
          have goes : Runs (charge rules codec qos usage) (first ++ second) counted := runs_bind.mpr ⟨_,_,_,rfl,limits,counts⟩
          cases counted with
          | error | ok =>
            obtain ⟨rfl,same⟩ := runs_ret.mp last
            cases same
            exact ⟨_,by simpa using goes,rfl,rfl⟩
      obtain ⟨outcome,runs,completes,counts⟩ := charged
      obtain ⟨all,none,aside⟩ := charge_calls (runs_within (charge_charges qos usage) runs).1
      refine ⟨⟨?_,?_,⟨outcome,?_⟩,none⟩,aside⟩
      · simp [completes,Reading.completes,used]
      · simp [counts,Reading.counted,used]
      · simp only [chargeReading,used]
        rw [all]
        exact runs

variable {body : Bytes} {endOfStream : Bool} {requestID : String} {resp : ProcessingResponse} {vars : Session}

private theorem handleStreamBody_handled {whole : Bytes}
    (run : Runs (handleStreamBody (server rules codec) body qos complete) calls (some result)) :
    Handled rules codec qos complete (readBody codec true endOfStream body whole) calls result ∧
      (Plays Serves calls e e' → e' = e) := by
  unfold handleStreamBody at run
  obtain ⟨chunks,failed,decoded⟩ : ∃ chunks failed, codec.decodeStream body = (chunks,failed) := ⟨_,_,rfl⟩
  have decodes : (server rules codec).codec.decodeStream body = (chunks,failed) := decoded
  simp only [decodes] at run
  simp only [readBody,if_true,decoded]
  cases failed with
  | some text =>
    obtain ⟨rfl,same⟩ := runs_ret.mp run
    cases same
    exact ⟨handled_unread rfl (by simp [Reading.completes]) rfl,plays_nil.mp⟩
  | none => exact chargeUsage_handled run

/-- What follows the last piece of a response that is not streamed. -/
theorem wholeBody_handled {whole : Bytes} {unknown : ProcessingResponse} {broken : String → ProcessingResponse}
    (run : Runs (match codec.unmarshalResponse whole with
      | .error e => pure (some ⟨broken e,true,.zero⟩)
      | .ok res => if res.model = "" then pure (some ⟨unknown,true,.zero⟩)
        else chargeUsage (server rules codec) qos res.usage complete : Action (Option BodyResult)) calls (some result)) :
    Handled rules codec qos complete (readBody codec false true body whole) calls result ∧
      (Plays Serves calls e e' → e' = e) := by
  simp only [readBody]
  cases read : codec.unmarshalResponse whole with
  | error text =>
    rw [read] at run
    obtain ⟨rfl,same⟩ := runs_ret.mp run
    cases same
    exact ⟨handled_unread rfl (by simp [Reading.completes]) rfl,plays_nil.mp⟩
  | ok res =>
    rw [read] at run
    simp only at run ⊢
    split at run
    · rename_i unnamed
      obtain ⟨rfl,same⟩ := runs_ret.mp run
      cases same
      simp only [unnamed,if_true]
      exact ⟨handled_unread rfl (by simp [Reading.completes]) rfl,plays_nil.mp⟩
    · rename_i named
      simp only [named,if_false]
      exact chargeUsage_handled run

private theorem handleBody_handled {stream : Bool}
    (run : Runs (handleBody (server rules codec) requestID body endOfStream qos stream complete) calls (some result))
    (played : Plays Serves calls e e') :
    Handled rules codec qos complete (readBody codec stream endOfStream body (e.buffer.getD [] ++ body)) calls result ∧
      e'.timing = e.timing ∧ e'.buffer = if stream then e.buffer else if endOfStream then none else some
        (e.buffer.getD [] ++ body) := by
  unfold handleBody at run
  cases stream with
  | true =>
    rw [if_pos rfl] at run
    obtain ⟨handled,aside⟩ := handleStreamBody_handled run
    rw [aside played]
    exact ⟨handled,rfl,rfl⟩
  | false =>
    rw [if_neg (by simp)] at run
    obtain ⟨whole,rest,rfl,later⟩ := runs_call.mp run
    obtain ⟨e₁,⟨rfl,rfl⟩,played⟩ := plays_cons.mp played
    cases endOfStream with
    | false =>
      obtain ⟨rfl,same⟩ := runs_ret.mp later
      cases same
      rw [plays_nil.mp played]
      refine ⟨handled_cons rfl rfl (handled_unread rfl ?_ rfl),rfl,rfl⟩
      exact (Bool.or_false _).symm
    | true =>
      obtain ⟨_,rest,rfl,last⟩ := runs_call.mp later
      obtain ⟨e₂,rfl,played⟩ := plays_cons.mp played
      obtain ⟨handled,aside⟩ := wholeBody_handled last
      rw [aside played]
      exact ⟨handled_cons rfl rfl (handled_cons rfl rfl handled),rfl,rfl⟩

theorem finishResponse_spec {timing : ProcessingTime} {model : String} {hasCompleted done : Bool}
    (run : Runs (finishResponse (server rules codec) requestID timing qos model hasCompleted endOfStream result) calls
      (some (resp,done)))
    (played : Plays Serves calls e e') :
    done = result.complete ∧ e'.buffer = e.buffer ∧ charging calls = [] ∧
      e'.timing.isSome = !(!hasCompleted && result.complete && endOfStream) ∧
      recorded calls = if !hasCompleted && result.complete && endOfStream then
        [(result.usage.promptTokens,result.usage.completionTokens)] else [] := by
  obtain ⟨now,rest,rfl,later⟩ := runs_call.mp run
  obtain ⟨e₁,rfl,played₁⟩ := plays_cons.mp played
  have deferred : Runs (if !hasCompleted && result.complete && endOfStream then _ else _ :
    Action (Option (ProcessingResponse × Bool))) rest (some (resp,done)) := later
  split at deferred
  · rename_i ends
    cases qos with
    | none => cases deferred
    | some qos =>
      obtain ⟨_,_,rfl,counted⟩ := runs_call.mp deferred
      obtain ⟨_,_,rfl,timed⟩ := runs_call.mp counted
      obtain ⟨_,_,rfl,deleted⟩ := runs_call.mp timed
      obtain ⟨rfl,same⟩ := runs_ret.mp deleted
      cases same
      obtain ⟨_,rfl,played₂⟩ := plays_cons.mp played₁
      obtain ⟨_,rfl,played₃⟩ := plays_cons.mp played₂
      obtain ⟨_,rfl,played₄⟩ := plays_cons.mp played₃
      cases plays_nil.mp played₄
      exact ⟨rfl,rfl,rfl,by simp [ends],by rw [if_pos ends]; rfl⟩
  · rename_i ends
    obtain ⟨_,_,rfl,timed⟩ := runs_call.mp deferred
    obtain ⟨_,_,rfl,stored⟩ := runs_call.mp timed
    obtain ⟨rfl,same⟩ := runs_ret.mp stored
    cases same
    obtain ⟨_,rfl,played₂⟩ := plays_cons.mp played₁
    obtain ⟨_,rfl,played₃⟩ := plays_cons.mp played₂
    cases plays_nil.mp played₃
    exact ⟨rfl,rfl,rfl,by simp [ends],by rw [if_neg ends]; rfl⟩

/-- What a message with a piece of a response does to the entry of its request, and what it
    charges and records. -/
structure Answered (rules : LimitConfig) (codec : Codec) (vars : Session) (reading : Reading) (endOfStream : Bool)
    (calls : List Call) (completed : Bool) (e' : Entry) : Prop where
  completed : completed = (vars.completed || reading.completes)
  timing : e'.timing.isSome = !(!vars.completed && reading.completes && endOfStream)
  charges : ∃ outcome, Runs (chargeReading rules codec vars.qos reading) (charging calls) outcome
  records : recorded calls = if !vars.completed && reading.completes && endOfStream then
    [(reading.counted.promptTokens,reading.counted.completionTokens)] else []

/-- The buffer behind a piece of a response. -/
def bufferAfter (stream endOfStream : Bool) (body : Bytes) (buffer : Option Bytes) : Option Bytes :=
  if stream then buffer else if endOfStream then none else some (buffer.getD [] ++ body)

private theorem handleResponseBody_answered {done : Bool}
    (run : Runs (handleResponseBody (server rules codec) requestID body endOfStream vars.qos vars.model vars.stream vars.completed)
      calls (some (resp,done)))
    (played : Plays Serves calls e e') :
    Answered rules codec vars (readBody codec vars.stream endOfStream body (e.buffer.getD [] ++ body)) endOfStream calls done e' ∧
      e'.buffer = bufferAfter vars.stream endOfStream body e.buffer := by
  obtain ⟨pt,rest,rfl,loaded⟩ := runs_call.mp run
  obtain ⟨e₁,⟨rfl,rfl⟩,played₁⟩ := plays_cons.mp played
  have loaded : Runs (startTiming (server rules codec) _ >>= _) rest (some (resp,done)) := loaded
  obtain ⟨start,first,later,rfl,starts,handles⟩ := runs_bind.mp loaded
  obtain ⟨e₂,played₂,played₃⟩ := plays_append.mp played₁
  have quiet := (runs_within (startTiming_quiet _) starts).1
  cases plays_aside (fun call is => (quiet call is).1.aside) played₂
  obtain ⟨uncharged,unrecorded⟩ := quiet_calls quiet
  obtain ⟨result,second,third,rfl,handled,finishes⟩ := runs_bind.mp handles
  obtain ⟨e₃,played₄,played₅⟩ := plays_append.mp played₃
  cases result with
  | none => cases finishes
  | some result =>
    obtain ⟨handled,timing,buffer⟩ := handleBody_handled handled played₄
    obtain ⟨rfl,kept,none,stays,records⟩ := finishResponse_spec finishes played₅
    refine ⟨⟨handled.complete,?_,?_,?_⟩,kept.trans buffer⟩
    · rw [stays,handled.complete]
      cases vars.completed <;> rfl
    · have only : charging (⟨.loadTiming requestID,e.timing.getD ⟨Option.none,0⟩⟩ :: (first ++
        (second ++ third))) = charging second := by
        rw [charging,List.filter_cons_of_neg (by simp [isCharge]),← charging]
        simp [uncharged,none]
      rw [only]
      exact handled.charges
    · have only : recorded (⟨.loadTiming requestID,e.timing.getD ⟨Option.none,0⟩⟩ :: (first ++
        (second ++ third))) = recorded third := by
        rw [recorded,List.filterMap_cons_none rfl,← recorded]
        simp [unrecorded,handled.records]
      rw [only,records,handled.complete,handled.counts]
      cases vars.completed <;> rfl

/-! ### Turns -/

theorem turn_answered {vars' : Session} {msg : ProcessingRequest} (piece : pieceOf vars msg = some (body,endOfStream))
    (run : Runs (processRequest (server rules codec) requestID vars msg) calls (some (resp,vars')))
    (played : Plays Serves calls e e') :
    Answered rules codec vars (readBody codec vars.stream endOfStream body (e.buffer.getD [] ++ body)) endOfStream calls
        vars'.completed e' ∧
      e'.buffer = bufferAfter vars.stream endOfStream body e.buffer ∧ vars' = { vars with completed := vars'.completed } := by
  cases msg with
  | responseBody body' endOfStream' =>
    simp only [pieceOf] at piece
    split at piece
    · rename_i status
      cases piece
      obtain ⟨answer,first,rest,rfl,answers,later⟩ := runs_bind.mp run
      rw [answerBody,if_neg (by simpa using status)] at answers
      cases answer with
      | none => cases later
      | some answer =>
        obtain ⟨resp',completed⟩ := answer
        obtain ⟨recorded_,second,third,rfl,records,last⟩ := runs_bind.mp later
        have quiet := (runs_within (recordRequest_quiet _ _) records).1
        obtain ⟨uncharged,unrecorded⟩ := quiet_calls quiet
        obtain ⟨e₁,played₁,played₂⟩ := plays_append.mp played
        obtain ⟨e₂,played₃,played₄⟩ := plays_append.mp played₂
        cases plays_aside (fun call is => (quiet call is).1.aside) played₃
        cases recorded_ with
        | none => cases last
        | some =>
          obtain ⟨rfl,same⟩ := runs_ret.mp last
          cases same
          cases plays_nil.mp played₄
          obtain ⟨answered,buffer⟩ := handleResponseBody_answered answers played₁
          refine ⟨⟨answered.completed,answered.timing,?_,?_⟩,buffer,rfl⟩
          · rw [List.append_nil,charging_append,uncharged,List.append_nil]
            exact answered.charges
          · rw [List.append_nil,recorded_append,unrecorded,List.append_nil]
            exact answered.records
    · cases piece
  | _ => cases piece

theorem turn_aside {msg : ProcessingRequest} {answer : Option (ProcessingResponse × Session)}
    (aside : pieceOf vars msg = none) (run : Runs (processRequest (server rules codec) requestID vars msg) calls answer)
    (played : Plays Serves calls e e') : e' = e ∧ recorded calls = [] := by
  have plain : Issues Plain (fun _ => True) (processRequest (server rules codec) requestID vars msg) := by
    cases msg with
    | requestHeaders headers => exact within_ask ⟨rfl,rfl,nofun⟩ (fun _ => trivial)
    | requestBody body => exact within_bind (handleRequestBody_plain body vars.token) (fun _ _ => trivial)
    | responseHeaders headers =>
      simp only [processRequest]
      split
      · refine within_bind (within_mono (recordRequest_quiet _ _) (fun _ is => is.1) (fun _ is => is)) (fun recorded_ _ => ?_)
        cases recorded_ <;> trivial
      · trivial
    | responseBody body endOfStream =>
      have status : vars.statusCode ≠ 200 := by
        intro status
        simp [pieceOf,status] at aside
      simp only [processRequest,answerBody,if_pos status,pure_eq,ret_bind]
      refine within_bind (within_mono (recordRequest_quiet _ _) (fun _ is => is.1) (fun _ is => is)) (fun recorded_ _ => ?_)
      cases recorded_ <;> trivial
    | unknown => trivial
  have all := (runs_within plain run).1
  exact ⟨plays_aside (fun call is => (all call is).aside) played,
    List.filterMap_eq_nil_iff.mpr (fun call is => (all call is).silent)⟩

end Bodies

/-! ### What the turns tell -/

/-- The unread part of the response after the turns, the newest first. -/
def buffered : List Turn → Option Bytes
  | [] => none
  | turn :: older =>
    match turn.piece with
    | none => buffered older
    | some (body,endOfStream) => bufferAfter turn.vars.stream endOfStream body (buffered older)

/-- What the piece of a turn tells after the older turns. -/
def readTurn (codec : Codec) (turn : Turn) (older : List Turn) : Reading :=
  match turn.piece with
  | none => .pending
  | some (body,endOfStream) => readBody codec turn.vars.stream endOfStream body ((buffered older).getD [] ++ body)

section Goes
variable {ι : Type} {h : Host ι} {i : ι} {t : View} {vars : Session}

theorem goes_buffer (goes : Goes h i ⟨⟨none,none⟩,[]⟩ .initial t vars) : t.entry.buffer = buffered t.turns := by
  induction goes with
  | here => rfl
  | @turn t' vars' vars'' msg resp calls entry _ run played ih =>
    show entry.buffer = buffered (⟨vars',msg,_⟩ :: t'.turns)
    cases piece : pieceOf vars' msg with
    | none =>
      rw [(turn_aside piece run played).1,ih]
      simp [buffered,Turn.piece,piece]
    | some piece' =>
      obtain ⟨body,endOfStream⟩ := piece'
      rw [(turn_answered piece run played).2.1,ih]
      simp [buffered,Turn.piece,piece]

/-- The time of the response is still kept after the turns. -/
def timed (codec : Codec) : List Turn → Bool
  | [] => false
  | turn :: older =>
    match turn.piece with
    | none => timed codec older
    | some (_,endOfStream) => !(!turn.vars.completed && (readTurn codec turn older).completes && endOfStream)

/-- What each turn of a session charged and recorded. -/
inductive Told (h : Host ι) : List Turn → Prop
  | nil : Told h []
  | aside {turn : Turn} {older : List Turn} : Told h older → turn.piece = none → recorded turn.calls = [] → Told h (turn :: older)
  | piece {turn : Turn} {older : List Turn} {body : Bytes} {endOfStream : Bool} : Told h older →
      turn.piece = some (body,endOfStream) →
      (∃ outcome, Runs (chargeReading h.rules h.codec turn.vars.qos (readTurn h.codec turn older))
        (charging turn.calls) outcome) →
      (recorded turn.calls = if !turn.vars.completed && (readTurn h.codec turn older).completes && endOfStream then
        [((readTurn h.codec turn older).counted.promptTokens,(readTurn h.codec turn older).counted.completionTokens)] else []) →
      Told h (turn :: older)

theorem goes_told (goes : Goes h i ⟨⟨none,none⟩,[]⟩ .initial t vars) :
    Told h t.turns ∧ t.entry.timing.isSome = timed h.codec t.turns := by
  induction goes with
  | here => exact ⟨.nil,rfl⟩
  | @turn t' vars' vars'' msg resp calls entry before run played ih =>
    show Told h (⟨vars',msg,_⟩ :: t'.turns) ∧ entry.timing.isSome = timed h.codec (⟨vars',msg,_⟩ :: t'.turns)
    cases piece : pieceOf vars' msg with
    | none =>
      obtain ⟨rfl,none⟩ := turn_aside piece run played
      refine ⟨.aside ih.1 piece (by simpa [recorded,tokenCounts] using none),?_⟩
      simp [timed,Turn.piece,piece,ih.2]
    | some piece' =>
      obtain ⟨body,endOfStream⟩ := piece'
      obtain ⟨answered,_,_⟩ := turn_answered piece run played
      have read : readTurn h.codec ⟨vars',msg,calls ++ [⟨.send resp,()⟩]⟩ t'.turns =
          readBody h.codec vars'.stream endOfStream body (t'.entry.buffer.getD [] ++ body) := by
        rw [goes_buffer before]
        simp [readTurn,Turn.piece,piece]
      rw [← read] at answered
      refine ⟨.piece ih.1 piece ?_ ?_,?_⟩
      · simpa [charging,isCharge] using answered.charges
      · rw [recorded_append,answered.records]
        exact List.append_nil _
      · rw [answered.timing]
        simp [timed,Turn.piece,piece]

end Goes

end Arks.Responses
