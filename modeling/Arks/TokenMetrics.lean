import Arks.Chunks

/-!
The token metrics of a session against what it charged. A usage is charged with the
message that brings it, but it is recorded only if that message also ends the stream and
the response was not complete before. It is recorded even if the limiter refused it.
-/
namespace Arks.TokenMetrics
open Programs Programs.Prog Gateway Interfaces Exchanges Responses Chunks

/-! ### Charges and records -/

/-- The limiter or the quota has taken a charge. -/
def accepted : Call → Bool
  | ⟨.doLimit _,.ok _⟩ | ⟨.incrUsage _,.ok _⟩ => true
  | _ => false

/-- The turn charged the usage of its piece. -/
def charged (turn : Turn) : Bool := turn.piece.isSome && turn.calls.any accepted

/-- The turn handled the piece that ends the stream. -/
def ends (turn : Turn) : Bool := turn.piece.any Prod.snd

/-- The prompt and completion tokens of the usage that a turn read. -/
def countsOf (codec : Codec) (turn : Turn) (older : List Turn) : Int × Int :=
  ((readTurn codec turn older).counted.promptTokens,(readTurn codec turn older).counted.completionTokens)

/-- The counts of all usages that were charged. -/
def chargedCounts (codec : Codec) : List Turn → List (Int × Int)
  | [] => []
  | turn :: older => if charged turn then countsOf codec turn older :: chargedCounts codec older else chargedCounts codec older

/-- The counts that `RecordTokenUsage` was called with. -/
def recordedCounts (turns : List Turn) : List (Int × Int) := turns.flatMap (fun turn => recorded turn.calls)

/-- The token metrics match the charges. -/
structure Metered (codec : Codec) (turns : List Turn) : Prop where
  charged : (∃ turn ∈ turns, ends turn = true) → chargedCounts codec turns ≠ [] → recordedCounts turns = chargedCounts codec turns
  free : chargedCounts codec turns = [] → ∀ counts ∈ recordedCounts turns, counts = (0,0)

/-- No piece comes after the one that ends the stream. -/
def EndsLast (turns : List Turn) : Prop :=
  ∀ newer turn older, turns = newer ++ turn :: older → ends turn = true → ∀ other ∈ newer, other.piece = none

/-- No usage came before the last piece, and what came with it was charged unless it was zero. -/
structure Timely (codec : Codec) (turn : Turn) (older : List Turn) : Prop where
  first : ∀ other ∈ older, charged other = false
  uncompleted : charged turn = true → turn.vars.completed = false
  refused : charged turn = false → turn.vars.completed = false → countsOf codec turn older = (0,0)

/-- The turns of a session that are over. -/
def finished : Local → List Turn → List Turn
  | .crashed,turns => turns.tail
  | _,turns => turns

section Turns
variable {ι : Type} {h : Host ι} {i : ι} {t : View} {vars : Session} {turn : Turn} {newer older turns : List Turn}

theorem accepted_charge : ∀ {call : Call}, accepted call = true → isCharge call.1 = true
  | ⟨.doLimit _,_⟩,_ | ⟨.incrUsage _,_⟩,_ => rfl

theorem chargedCounts_free (free : ∀ other ∈ older, charged other = false) : chargedCounts h.codec older = [] := by
  induction older with
  | nil => rfl
  | cons turn older ih =>
    rw [chargedCounts,if_neg (by simp [free turn (by simp)])]
    exact ih (fun other is => free other (by simp [is]))

private theorem chargedCounts_some {other : Turn} (is : other ∈ older) (charges : charged other = true) :
    chargedCounts h.codec older ≠ [] := by
  induction older with
  | nil => cases is
  | cons turn older ih =>
    rw [chargedCounts]
    split
    · exact List.cons_ne_nil _ _
    · rename_i free
      rcases List.mem_cons.mp is with rfl | is
      · exact absurd charges free
      · exact ih is

theorem told_older (newer : List Turn) (told : Told h (newer ++ older)) : Told h older := by
  induction newer with
  | nil => exact told
  | cons turn newer ih =>
    cases told with
    | aside told => exact ih told
    | piece told => exact ih told

private theorem charged_piece {body : Effects.Bytes} {endOfStream : Bool} (piece : turn.piece = some (body,endOfStream)) :
    charged turn = turn.calls.any accepted := by
  simp [charged,piece]

/-- A turn that charged has read a usage. -/
theorem charged_used (told : Told h (turn :: older)) (charges : charged turn = true) :
    (readTurn h.codec turn older).completes = true := by
  cases told with
  | aside _ none => simp [charged,none] at charges
  | piece _ piece run =>
    obtain ⟨outcome,run⟩ := run
    rw [charged_piece piece,List.any_eq_true] at charges
    obtain ⟨call,is,accepts⟩ := charges
    have nonempty : charging turn.calls ≠ [] :=
      List.ne_nil_of_mem (List.mem_filter.mpr ⟨is,accepted_charge accepts⟩)
    cases used : (readTurn h.codec turn older).used with
    | none =>
      have idle : chargeReading h.rules h.codec turn.vars.qos (readTurn h.codec turn older) = .ret (.ok ()) := by
        cases turn.vars.qos with
        | none => rfl
        | some qos => exact chargeReading_unused used
      rw [idle] at run
      exact absurd (runs_ret.mp run).1 nonempty
    | some usage =>
      unfold Reading.completes
      split
      · rfl
      · rw [used]
        rfl

theorem told_recorded (told : Told h (turn :: older)) : recorded turn.calls =
    if !turn.vars.completed && (readTurn h.codec turn older).completes && ends turn then [countsOf h.codec turn older] else [] := by
  cases told with
  | aside _ none silent => simp [ends,none,silent]
  | piece _ piece _ records => simpa [ends,piece,countsOf] using records

/-- Nothing is recorded before the stream ends. -/
theorem recorded_unended (told : Told h older) (open_ : ∀ other ∈ older, ends other = false) : recordedCounts older = [] := by
  induction older with
  | nil => rfl
  | cons turn older ih =>
    rw [recordedCounts,List.flatMap_cons,told_recorded told,open_ turn (by simp),Bool.and_false,if_neg (by simp)]
    exact ih (told_older [turn] told) (fun other is => open_ other (by simp [is]))

private theorem recorded_aside (told : Told h (newer ++ older)) (aside : ∀ other ∈ newer, other.piece = none) :
    recordedCounts (newer ++ older) = recordedCounts older ∧ chargedCounts h.codec
    (newer ++ older) = chargedCounts h.codec older := by
  induction newer with
  | nil => exact ⟨rfl,rfl⟩
  | cons turn newer ih =>
    have none : turn.piece = none := aside turn (by simp)
    obtain ⟨records,charges⟩ := ih (told_older [turn] told) (fun other is => aside other (by simp [is]))
    constructor
    · rw [List.cons_append,recordedCounts,List.flatMap_cons,told_recorded told,if_neg (by simp [ends,none])]
      exact records
    · rw [List.cons_append,chargedCounts,if_neg (by simp [charged,none])]
      exact charges

/-! ### The completed flag -/

/-- The response is complete after the turns. -/
def done (codec : Codec) : List Turn → Bool
  | [] => false
  | turn :: older => done codec older || (turn.piece.isSome && (readTurn codec turn older).completes)

/-- Every turn has found the flag as the older ones left it. -/
def Marked (codec : Codec) (turns : List Turn) : Prop :=
  ∀ newer turn older, turns = newer ++ turn :: older → turn.vars.completed = done codec older

private theorem aside_completed {rules : Counters.LimitConfig} {codec : Codec} {requestID : String} {vars vars' : Session}
    {msg : ProcessingRequest} {resp : ProcessingResponse} {calls : List Call} (aside : pieceOf vars msg = none)
    (run : Runs (processRequest (server rules codec) requestID vars msg) calls (some (resp,vars'))) :
    vars'.completed = vars.completed := by
  have keeps : Issues (fun _ => True) (fun answer => ∀ resp vars', answer = some (resp,vars') →
      vars'.completed = vars.completed) (processRequest (server rules codec) requestID vars msg) := by
    cases msg with
    | requestHeaders headers =>
      refine within_ask trivial (fun _ => ?_)
      rintro _ _ ⟨⟩
      rfl
    | requestBody body =>
      refine within_bind within_trivial (fun _ _ => ?_)
      rintro _ _ ⟨⟩
      rfl
    | responseHeaders headers =>
      simp only [processRequest]
      split
      · refine within_bind within_trivial (fun recorded_ _ => ?_)
        cases recorded_ with
        | none => rintro _ _ ⟨⟩
        | some =>
          rintro _ _ ⟨⟩
          rfl
      · rintro _ _ ⟨⟩
        rfl
    | responseBody body endOfStream =>
      have status : vars.statusCode ≠ 200 := by
        intro status
        simp [pieceOf,status] at aside
      simp only [processRequest,answerBody,if_pos status,pure_eq,ret_bind]
      refine within_bind within_trivial (fun recorded_ _ => ?_)
      cases recorded_ with
      | none => rintro _ _ ⟨⟩
      | some =>
        rintro _ _ ⟨⟩
        rfl
    | unknown =>
      rintro _ _ ⟨⟩
      rfl
  exact (runs_within keeps run).2 resp vars' rfl

theorem goes_marked (goes : Goes h i ⟨⟨none,none⟩,[]⟩ .initial t vars) :
    vars.completed = done h.codec t.turns ∧ Marked h.codec t.turns := by
  induction goes with
  | here => exact ⟨rfl,fun newer turn older split => by simp at split⟩
  | @turn t' vars' vars'' msg resp calls entry before run played ih =>
    obtain ⟨flag,marked⟩ := ih
    constructor
    · rw [done,← flag]
      cases piece : pieceOf vars' msg with
      | none => simp [aside_completed piece run,Turn.piece,piece]
      | some piece' =>
        obtain ⟨body,endOfStream⟩ := piece'
        have read : readTurn h.codec ⟨vars',msg,calls ++ [⟨.send resp,()⟩]⟩ t'.turns =
            readBody h.codec vars'.stream endOfStream body (t'.entry.buffer.getD [] ++ body) := by
          rw [goes_buffer before]
          simp [readTurn,Turn.piece,piece]
        rw [read,(turn_answered piece run played).1.completed]
        simp [Turn.piece,piece]
    · intro newer turn older split
      cases newer with
      | nil =>
        cases split
        exact flag
      | cons _ newer => exact marked newer turn older (List.cons.inj split).2

private theorem done_charged (told : Told h older) {other : Turn} (is : other ∈ older) (charges : charged other = true) :
    done h.codec older = true := by
  induction older with
  | nil => cases is
  | cons turn older ih =>
    rw [done,Bool.or_eq_true,Bool.and_eq_true]
    rcases List.mem_cons.mp is with rfl | is
    · have handled : other.piece.isSome = true := (Bool.and_eq_true _ _ ▸ charges).1
      exact .inr ⟨handled,charged_used told charges⟩
    · exact .inl (ih (told_older [turn] told) is)

/-! ### When they match -/

private theorem counts_incomplete (incomplete : (readTurn h.codec turn older).completes = false) : countsOf h.codec turn older =
    (0,0) := by
  have unused : (readTurn h.codec turn older).used = none := by
    cases reads : readTurn h.codec turn older with
    | pending | broken => rfl
    | usage used =>
      rw [reads] at incomplete
      simpa [Reading.completes] using incomplete
  simp [countsOf,Reading.counted,unused,CompletionUsage.zero]

/-- When the stream has ended with this turn, the turn alone may have recorded something. -/
theorem ended_counts (told : Told h turns) (last : EndsLast turns) (split : turns = newer ++ turn :: older)
    (ended : ends turn = true) :
    Told h (turn :: older) ∧ chargedCounts h.codec turns = chargedCounts h.codec (turn :: older) ∧ recordedCounts turns =
      if !turn.vars.completed && (readTurn h.codec turn older).completes then [countsOf h.codec turn older] else [] := by
  subst split
  have here := told_older newer told
  obtain ⟨records,charges⟩ := recorded_aside told (last newer turn older rfl ended)
  have before : ∀ other ∈ older, ends other = false := by
    intro other is
    by_contra ended'
    obtain ⟨first,rest,rfl⟩ := List.append_of_mem is
    have none := last (newer ++ turn :: first) other rest (by simp) (by simpa using ended') turn (by simp)
    simp [ends,none] at ended
  refine ⟨here,charges,?_⟩
  rw [records,recordedCounts,List.flatMap_cons,← recordedCounts,recorded_unended (told_older [turn] here) before,List.append_nil,
    told_recorded here,ended,Bool.and_true]

/-- A usage that was charged must have been recorded, and the flag must have been unset for that. -/
theorem metered_uncompleted (told : Told h turns) (last : EndsLast turns) (metered : Metered h.codec turns)
    (split : turns = newer ++ turn :: older) (ended : ends turn = true) {other : Turn} (is : other ∈ turn :: older)
    (charges : charged other = true) : turn.vars.completed = false := by
  obtain ⟨_,same,records⟩ := ended_counts told last split ended
  have nonempty : chargedCounts h.codec turns ≠ [] := by
    rw [same]
    exact chargedCounts_some is charges
  have recorded_ := metered.charged ⟨turn,by simp [split],ended⟩ nonempty
  by_contra completed
  rw [records,if_neg (by simp [completed])] at recorded_
  exact nonempty recorded_.symm

private theorem timely_of_metered (told : Told h turns) (marked : Marked h.codec turns) (last : EndsLast turns)
    (metered : Metered h.codec turns) (split : turns = newer ++ turn :: older) (ended : ends turn = true) :
    Timely h.codec turn older := by
  obtain ⟨here,same,records⟩ := ended_counts told last split ended
  have first : ∀ other ∈ older, charged other = false := by
    intro other is
    by_contra charges
    have charges : charged other = true := by simpa using charges
    have unset := metered_uncompleted told last metered split ended (List.mem_cons_of_mem turn is) charges
    rw [marked newer turn older split,done_charged (told_older [turn] here) is charges] at unset
    cases unset
  refine ⟨first,metered_uncompleted told last metered split ended (.head _),?_⟩
  intro free uncompleted
  cases completes : (readTurn h.codec turn older).completes with
  | false => exact counts_incomplete completes
  | true =>
    have nothing : chargedCounts h.codec turns = [] := by
      rw [same,chargedCounts,if_neg (by simp [free]),chargedCounts_free first]
    refine metered.free nothing _ ?_
    rw [records,if_pos (by simp [uncompleted,completes])]
    exact List.mem_singleton_self _

private theorem metered_of_timely (told : Told h turns) (last : EndsLast turns) (split : turns = newer ++ turn :: older)
    (ended : ends turn = true) (timely : Timely h.codec turn older) : Metered h.codec turns := by
  obtain ⟨here,same,records⟩ := ended_counts told last split ended
  rw [chargedCounts,chargedCounts_free timely.first] at same
  by_cases charges : charged turn = true
  · rw [if_pos charges] at same
    constructor
    · intro _ _
      rw [records,same,if_pos (by simp [timely.uncompleted charges,charged_used here charges])]
    · intro nothing
      rw [same] at nothing
      cases nothing
  · rw [if_neg charges] at same
    constructor
    · exact fun _ nonempty => absurd same nonempty
    · intro _ counts is
      rw [records] at is
      split at is
      · rename_i unset
        simp only [Bool.and_eq_true,Bool.not_eq_true'] at unset
        rw [List.mem_singleton.mp is]
        exact timely.refused (by simpa using charges) unset.1
      · cases is

private theorem metered_iff (told : Told h turns) (marked : Marked h.codec turns) (last : EndsLast turns) :
    Metered h.codec turns ↔
      ∀ newer turn older, turns = newer ++ turn :: older → ends turn = true → Timely h.codec turn older := by
  constructor
  · intro metered newer turn older split ended
    exact timely_of_metered told marked last metered split ended
  · intro timely
    by_cases ended : ∃ turn ∈ turns, ends turn = true
    · obtain ⟨turn,is,ended⟩ := ended
      obtain ⟨newer,older,split⟩ := List.append_of_mem is
      exact metered_of_timely told last split ended (timely newer turn older split ended)
    · have open_ : ∀ turn ∈ turns, ends turn = false := by simpa using ended
      refine ⟨fun ended' => absurd ended' ended,fun _ counts is => ?_⟩
      rw [recorded_unended told open_] at is
      cases is

end Turns

section Sessions
variable {ι : Type} {h : Host ι} {i : ι} {l : Local} {t : View}

private theorem rests_finished (rests : Rests h i l t) : Told h (finished l t.turns) ∧ Marked h.codec (finished l t.turns) := by
  cases l with
  | waiting vars | returned vars => exact ⟨(goes_told rests).1,(goes_marked rests).2⟩
  | crashed =>
    obtain ⟨t',vars,msg,calls,before,_,_,turns⟩ := rests
    rw [turns]
    exact ⟨(goes_told before).1,(goes_marked before).2⟩

/-- A session charges and records nothing in the turn in which it crashes. -/
theorem crashed_free {turn : Turn} {older : List Turn} (rests : Rests h i .crashed t) (turns : t.turns = turn :: older) :
    charged turn = false ∧ recorded turn.calls = [] := by
  obtain ⟨t',vars,msg,calls,_,run,played,newest⟩ := rests
  rw [newest] at turns
  cases turns
  cases piece : pieceOf vars msg with
  | none => exact ⟨by simp [charged,Turn.piece,piece],(turn_aside piece run played).2⟩
  | some piece' =>
    cases msg with
    | responseBody body endOfStream =>
      have status : vars.statusCode = 200 := by
        by_contra other
        simp [pieceOf,other] at piece
      cases known : vars.qos with
      | some qos => obtain ⟨_,_,⟨⟩,_⟩ := (runs_within (responseBody_present known body endOfStream) run).2
      | none =>
        obtain ⟨free,silent⟩ := idle_calls (runs_within (message_unknown known status body endOfStream) run).1
        refine ⟨?_,silent⟩
        have none : calls.any accepted = false := by
          rw [List.any_eq_false]
          intro call is accepts
          have charges : call ∈ charging calls := List.mem_filter.mpr ⟨is,accepted_charge accepts⟩
          rw [free] at charges
          cases charges
        simp [charged,none]
    | _ => cases piece

end Sessions

/-- The token metrics match the charges exactly in the sessions in which no usage was charged before the
    last piece, and the one that came with it was charged, unless it was zero, with the flag unset. -/
theorem metrics_match_iff {ι : Type} [DecidableEq ι] (h : Host ι) (c d : Config Op Reply ι (Shared ι) Local)
    (opening : h.Opening c)
    (run : Reach h.system (fun _ => True) c d) (i : ι) (l : Local) (rests : d.prog i = .ret l)
    (last : EndsLast (finished l (d.shared.turns i))) :
    (Metered h.codec (finished l (d.shared.turns i)) ↔ ∀ newer turn older,
      finished l (d.shared.turns i) = newer ++ turn :: older → ends turn = true → Timely h.codec turn older) ∧
    ∀ turn older, l = .crashed → d.shared.turns i = turn :: older → charged turn = false ∧ recorded turn.calls = [] := by
  have here : Rests h i l (viewOf h i d.shared) := (sessions_alone opening run i).2 l rests
  obtain ⟨told,marked⟩ := rests_finished here
  refine ⟨metered_iff told marked last,?_⟩
  rintro turn older rfl turns
  exact crashed_free here turns

theorem endsLast_cons {turn : Turn} {older : List Turn} (before : ∀ other ∈ older, ends other = false) : EndsLast
    (turn :: older) := by
  intro newer other rest split ended
  cases newer with
  | nil => simp
  | cons _ newer =>
    have is : other ∈ older := by simp [(List.cons.inj split).2]
    rw [before other is] at ended
    cases ended

/-- The usage of a response that comes as a whole is recorded. -/
theorem metrics_match_whole : recordedCounts ((chatted false [([7],true)]).2.turns ()) = [(1,2)] ∧
    ∀ newer turn older, (chatted false [([7],true)]).2.turns () = newer ++ turn :: older → ends turn = true →
      Timely solo.codec turn older := by
  obtain ⟨prog,run,over_⟩ := chatted_reach false [([7],true)]
  have last : EndsLast ((chatted false [([7],true)]).2.turns ()) := endsLast_cons (by decide +kernel)
  have metered : Metered solo.codec ((chatted false [([7],true)]).2.turns ()) := by
    refine ⟨fun _ _ => by decide +kernel,fun none => ?_⟩
    exact absurd none (by decide +kernel)
  exact ⟨by decide +kernel,(metrics_match_iff solo soloOpening _ soloOpening_opening run () _ over_ last).1.mp metered⟩

/-- The usage of a stream that comes before its last message is charged and never recorded. -/
theorem metrics_missed : ∃ prog vars, Reach solo.system
    (fun _ => True) soloOpening ⟨(chatted true [([7],false),([],true)]).2,prog⟩ ∧
    prog () = .ret (.returned vars) ∧ EndsLast ((chatted true [([7],false),([],true)]).2.turns ()) ∧
    chargedCounts solo.codec ((chatted true [([7],false),([],true)]).2.turns ()) = [(1,2)] ∧
    recordedCounts ((chatted true [([7],false),([],true)]).2.turns ()) = [] ∧
    ¬ Metered solo.codec ((chatted true [([7],false),([],true)]).2.turns ()) := by
  obtain ⟨prog,run,over_⟩ := chatted_reach true [([7],false),([],true)]
  refine ⟨prog,_,run,over_,endsLast_cons (by decide +kernel),by decide +kernel,by decide +kernel,fun metered => ?_⟩
  have same := metered.charged (by decide +kernel) (by decide +kernel)
  exact absurd same (by decide +kernel)

end Arks.TokenMetrics
