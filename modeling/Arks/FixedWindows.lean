import Arks.RateSessions
import Arks.Windows

/-!
The Redis limiter as a fixed-window counter. Any number of callers check and count
requests at the same time, and each of their commands is a step of its own. The
counter is the list of the entries that were applied, each with the clock that its
call read. What a check reports is the sum of the entries of the same limit in the
same window.
-/
namespace Arks.FixedWindows
open Programs Programs.Prog Counters Effects Services Windows
open RateSessions (Made)
open RateSessions.Target (Told Queued Long made_known queueLimits_queued runLimits_append)

variable {ι : Type} [DecidableEq ι] (c : RedisRateLimter)

/-! ### The limiter and its callers -/

/-- What a caller's last call returned. -/
inductive Finished
  | nothing
  | checked (requests : List RateLimitRequest) (result : Except String (List (Option RateLimitResponse)))
  | counted (requests : List RateLimitRequest) (result : Except String Unit)

inductive Calls : Action Finished → Prop
  | checkLimit (requests : List RateLimitRequest) :
      Calls (c.checkLimit requests >>= fun result => pure (.checked requests result))
  | doLimit (requests : List RateLimitRequest) :
      Calls (c.doLimit requests >>= fun result => pure (.counted requests result))

/-- A command on the key of a window is executed before the end of that window, which
    is the one of the clock that its call read. -/
def InTime (clock : Int) (op : Op) : Prop :=
  ∀ req rule s t, c.config.getRule req.ruleName = some rule → Lasts rule s →
    keyOf op = some (generateRateKey c.keyPrefix req rule (unix t)) → clock < (windowOf rule t + s) * second

/-- All commands succeed, and in time. -/
def limiterSystem : System Op Reply ι World Finished where
  act _ op w r w' := Acts (fun _ => False) w op r w' ∧ Heard op r ∧ InTime c w.clock op
  env := Passes
  start _ _ p := Calls c p

/-- The key of a request's limit in the window that starts at `start`. -/
def windowKey (req : RateLimitRequest) (start : Int) : String :=
  c.keyPrefix ++ ":" ++ identifierText req.identifier ++ req.ruleName ++ ":" ++ toString start

/-- Where a run starts: nobody has called, and Redis has no key of the limiter. -/
structure Fresh (d : Config Op Reply ι (Traced Op Reply ι World) Finished) : Prop where
  rest : ∀ i, d.prog i = .ret .nothing
  trace : d.shared.trace = []
  log : d.shared.state.increments = []
  redis : ∀ req rule start, c.config.getRule req.ruleName = some rule →
    d.shared.state.redis (windowKey c req start) = none

/-! ### What the trace says -/

/-- Where a caller stands: the clock it read, the requests it still has to read or to
    count, and what it found. -/
inductive Turn
  | idle
  | checking (t : Int) (todo : List RateLimitRequest) (seen : List (RateLimitRequest × Int))
  | counting (t : Int) (todo : List RateLimitRequest)

def Turn.clock : Turn → Option Int
  | .idle => none
  | .checking t _ _ => some t
  | .counting t _ => some t

def Turn.looked (v : Int) : Turn → Turn
  | .checking t (req :: todo) seen => .checking t todo (seen ++ [(req,v)])
  | turn => turn

def Turn.counted : Turn → Turn
  | .counting t (_ :: todo) => .counting t todo
  | turn => turn

/-- The requests whose rule is configured; the others are skipped. -/
def configured (requests : List RateLimitRequest) : List RateLimitRequest :=
  requests.filter (fun req => (c.config.getRule req.ruleName).isSome)

def observe (turn : Turn) : (op : Op) → Reply op → Turn
  | .now (.checkLimit requests),t => .checking t (configured c requests) []
  | .now (.doLimit requests),t => .counting t (configured c requests)
  | .get _,r => turn.looked (currentValue r)
  | .incrBy _ _,_ => turn.counted
  | _,_ => turn

/-- A command on a counter is for the next request of the call, at the clock it read. -/
def allowed (turn : Turn) : Op → Prop
  | .now .elsewhere => False
  | .get key => ∃ t req todo seen rule, turn = .checking t (req :: todo) seen ∧
      c.config.getRule req.ruleName = some rule ∧ key = generateRateKey c.keyPrefix req rule (unix t)
  | .incrBy key n => ∃ t req todo rule, turn = .counting t (req :: todo) ∧
      c.config.getRule req.ruleName = some rule ∧ key = generateRateKey c.keyPrefix req rule (unix t) ∧ n = req.request
  | .expire key seconds => ∃ t req rule, c.config.getRule req.ruleName = some rule ∧
      key = generateRateKey c.keyPrefix req rule (unix t) ∧ Long rule seconds
  | .set _ _ => False
  | _ => True

def protocol : Protocol Op Reply Turn := ⟨allowed c,observe c⟩

def turnOf (i : ι) (trace : List (Event Op Reply ι)) : Turn := observed (protocol c) .idle i trace

/-- An entry of `DoLimit` with the clock that its call read. -/
abbrev Entry := RateLimitRequest × Int

def entryOf (turn : Turn) : Op → List Entry
  | .incrBy _ _ => match turn with
    | .counting t (req :: _) => [(req,t)]
    | _ => []
  | _ => []

/-- The entries whose increment was carried out, the newest first. -/
def applied : List (Event Op Reply ι) → List Entry
  | [] => []
  | e :: earlier => entryOf (turnOf c e.who earlier) e.op ++ applied earlier

/-- The entries for the same limit in the window of `t`. -/
def Counts (rule : LimitRuleConfig) (req : RateLimitRequest) (t : Int) (entry : Entry) : Prop :=
  identifierText entry.1.identifier = identifierText req.identifier ∧ entry.1.ruleName = req.ruleName ∧
    windowOf rule entry.2 = windowOf rule t

instance (rule : LimitRuleConfig) (req : RateLimitRequest) (t : Int) (entry : Entry) : Decidable (Counts rule req t entry) :=
  inferInstanceAs (Decidable (_ ∧ _ ∧ _))

/-- The fixed-window counter. -/
def usage (rule : LimitRuleConfig) (req : RateLimitRequest) (t : Int) : List Entry → Int
  | [] => 0
  | entry :: entries => (if Counts rule req t entry then entry.1.request else 0) + usage rule req t entries

def clockReading : (op : Op) → Reply op → Option Int
  | .now _,t => some t
  | _,_ => none

/-- The clock that the caller read last. -/
def sampled (i : ι) : List (Event Op Reply ι) → Option Int
  | [] => none
  | e :: earlier => if e.who = i then (clockReading e.op e.reply).or (sampled i earlier) else sampled i earlier

/-- The counter at the moment of the caller's last read of a request's key is `v`. -/
def ReadAt (i : ι) (trace : List (Event Op Reply ι)) (t : Int) (req : RateLimitRequest) (v : Int) : Prop :=
  ∃ rule later before r, c.config.getRule req.ruleName = some rule ∧
    trace = later ++ ⟨i,.get (generateRateKey c.keyPrefix req rule (unix t)),r⟩ :: before ∧
    (∀ e ∈ later, e.who = i → clockReading e.op e.reply = none) ∧ v = usage rule req t (applied c before)

/-- The report on a request: nothing for a rule that is not configured, and otherwise
    the counter and whether the request takes it beyond the limit. -/
def Reports (i : ι) (trace : List (Event Op Reply ι)) (t : Int) (req : RateLimitRequest) : Option RateLimitResponse → Prop
  | none => c.config.getRule req.ruleName = none
  | some resp => ReadAt c i trace t req resp.currentUsage ∧
      (minInt64 ≤ resp.currentUsage + req.request → resp.currentUsage + req.request ≤ maxInt64 →
        (resp.overLimit = true ↔ req.limit < resp.currentUsage + req.request))

/-! ### The calls follow the protocol -/

/-- The replies when every command succeeds. -/
def Answers : (op : Op) → Reply op → Prop
  | .random bound,n => 0 ≤ n ∧ (0 < bound → n < bound)
  | .ttl _,r => ∃ left, r = .ok left
  | .get _,r => ∀ message, r ≠ .error (.failed message)
  | _,_ => True

theorem answers_told : Told Answers := ⟨fun _ _ drawn => drawn,fun _ _ told => told⟩

theorem answers_acts {op : Op} {r : Reply op} {w w' : World} (act : Acts (fun _ => False) w op r w') (heard : Heard op r) :
    Answers op r := by
  cases op with
  | random bound =>
    cases act with
    | done => exact ⟨le_refl 0,fun positive => positive⟩
    | refused never _ | unheard never _ => exact never.elim
    | random low high => exact ⟨low,fun _ => high⟩
  | ttl key =>
    cases act with
    | done => exact ⟨_,rfl⟩
    | refused never _ | unheard never _ => exact never.elim
  | get key =>
    rintro message rfl
    exact heard rfl message rfl
  | _ => trivial

variable {c}

/-- What a check answers, given what it found for the configured requests. -/
inductive Answered (c : RedisRateLimter) :
    List RateLimitRequest → List (RateLimitRequest × Int) → List (Option RateLimitResponse) → Prop
  | done : Answered c [] [] []
  | skip {req : RateLimitRequest} {requests : List RateLimitRequest} {seen : List (RateLimitRequest × Int)}
      {responses : List (Option RateLimitResponse)} : c.config.getRule req.ruleName = none →
      Answered c requests seen responses → Answered c (req :: requests) seen (none :: responses)
  | next {req : RateLimitRequest} {requests : List RateLimitRequest} {seen : List (RateLimitRequest × Int)}
      {responses : List (Option RateLimitResponse)} (resp : RateLimitResponse) :
      resp.overLimit = decide (req.limit < int64 (resp.currentUsage + req.request)) →
      Answered c requests seen responses →
      Answered c (req :: requests) ((req,resp.currentUsage) :: seen) (some resp :: responses)

/-- At the end of a call. -/
def Rests (c : RedisRateLimter) (turn : Turn) : Finished → Prop
  | .checked requests result => ∃ t seen responses, turn = .checking t [] seen ∧ result = .ok responses ∧
      Answered c requests seen responses
  | _ => True

private theorem follows_readItems (t : Int) (requests : List RateLimitRequest) (seen : List (RateLimitRequest × Int)) :
    Follows Answers (protocol c) (fun turn results => ∃ new, turn = .checking t [] (seen ++ new) ∧
      Answered c requests new (results.map (Option.map (CheckedItem.response t))) ∧
      ∀ message, checkErr results ≠ some (.failed message))
      (readItems (requests.map (c.checkItem t))) (.checking t (configured c requests) seen) := by
  induction requests generalizing seen with
  | nil => exact ⟨[],by simp [configured],.done,by simp [checkErr]⟩
  | cons req requests ih =>
    cases known : c.config.getRule req.ruleName with
    | none =>
      have skipped : configured c (req :: requests) = configured c requests := by simp [configured,known]
      simp only [List.map_cons,RedisRateLimter.checkItem,known,Option.map_none,readItems,skipped]
      refine follows_bind (ih seen) ?_
      rintro _ results ⟨new,rfl,answered,heard⟩
      exact ⟨new,rfl,.skip known answered,heard⟩
    | some rule =>
      have due : configured c (req :: requests) = req :: configured c requests := by simp [configured,known]
      simp only [List.map_cons,RedisRateLimter.checkItem,known,Option.map_some,readItems,due,issue_bind,follows_call]
      refine ⟨⟨t,req,_,seen,rule,rfl,known,rfl⟩,fun getCmd found => ⟨trivial,fun ttlCmd told => ?_⟩⟩
      refine follows_bind (ih (seen ++ [(req,currentValue getCmd)])) ?_
      rintro _ results ⟨new,rfl,answered,heard⟩
      refine ⟨(req,currentValue getCmd) :: new,by simp,
        .next (CheckedItem.response t ⟨⟨req,_⟩,getCmd,ttlCmd⟩) rfl answered,fun message => ?_⟩
      obtain ⟨left,rfl⟩ := told
      rcases getCmd with (_ | failed) | v
      · simp [checkErr,errOf]
      · exact absurd rfl (found failed)
      · simpa [checkErr,errOf] using heard message

theorem follows_checkLimit (requests : List RateLimitRequest) (turn : Turn) :
    Follows Answers (protocol c) (fun turn result => Rests c turn (.checked requests result)) (c.checkLimit requests) turn := by
  simp only [RedisRateLimter.checkLimit,issue_bind,follows_call]
  refine ⟨trivial,fun t _ => ?_⟩
  refine follows_bind (follows_readItems t requests []) ?_
  rintro _ results ⟨seen,rfl,answered,heard⟩
  have whole : Rests c (.checking t [] ([] ++ seen))
      (.checked requests (.ok (results.map (Option.map (CheckedItem.response t))))) := ⟨t,seen,_,rfl,rfl,answered⟩
  split
  · rename_i message failed
    exact absurd failed (heard message)
  · exact whole

variable {t : Int} {rule : LimitRuleConfig}

private theorem expires_unseen {req : RateLimitRequest} {expiry : List Int}
    (known : c.config.getRule req.ruleName = some rule) (long : ∀ seconds ∈ expiry, Long rule seconds) :
    ∀ cmd ∈ expiry.map (LimitCmd.expire (generateRateKey c.keyPrefix req rule (unix t))), (protocol c).Unseen cmd.op := by
  intro cmd member
  obtain ⟨seconds,listed,rfl⟩ := List.mem_map.mp member
  exact fun _ => ⟨⟨t,req,rule,known,rfl,long seconds listed⟩,fun _ => rfl⟩

/-- The queued commands apply the configured requests one after the other. -/
theorem follows_runLimits {requests : List RateLimitRequest} {cmds : List LimitCmd} (queued : Queued c t requests cmds) :
    Follows Answers (protocol c) (fun _ _ => True) (runLimits cmds) (.counting t (configured c requests)) := by
  induction queued with
  | done => trivial
  | @skip req requests cmds unknown _ ih =>
    have skipped : configured c (req :: requests) = configured c requests := by simp [configured,unknown]
    rw [skipped]
    exact ih
  | @next req requests rule cmds expiry known long _ ih =>
    have due : configured c (req :: requests) = req :: configured c requests := by simp [configured,known]
    simp only [runLimits,issue_bind,follows_call,runLimits_append,due]
    refine ⟨⟨t,req,_,rule,rfl,known,rfl,rfl⟩,fun _ _ => ?_⟩
    refine follows_bind (Q := fun _ _ => True) ?_ (fun _ _ _ => trivial)
    refine follows_bind (follows_unseen (runLimits_within (expires_unseen known long))) ?_
    rintro _ _ ⟨rfl,_⟩
    exact follows_bind ih (fun _ _ _ => trivial)

theorem follows_doLimit (made : Made c) (requests : List RateLimitRequest) (turn : Turn) :
    Follows Answers (protocol c) (fun _ _ => True) (c.doLimit requests) turn := by
  simp only [RedisRateLimter.doLimit,issue_bind,follows_call]
  refine ⟨trivial,fun t _ => ?_⟩
  refine follows_bind (follows_unseen (queueLimits_queued made answers_told (fun _ _ => ⟨trivial,fun _ => rfl⟩)
    (fun _ _ => ⟨trivial,fun _ => rfl⟩) t requests)) ?_
  rintro _ _ ⟨rfl,cmds,rfl,queued⟩
  exact follows_bind (follows_runLimits queued) (fun _ _ _ => trivial)

private theorem calls_follow (made : Made c) {p : Action Finished} (begins : Calls c p) (turn : Turn) :
    Follows Answers (protocol c) (Rests c) p turn := by
  cases begins with
  | checkLimit requests => exact follows_bind (follows_checkLimit requests turn) (fun _ _ rests => rests)
  | doLimit requests => exact follows_bind (follows_doLimit made requests turn) (fun _ _ _ => trivial)

/-! ### The counters and the applied entries -/

theorem windowKey_inj (made : Made c) {req req' : RateLimitRequest} {rule' : LimitRuleConfig} {start start' : Int}
    (known : c.config.getRule req.ruleName = some rule) (known' : c.config.getRule req'.ruleName = some rule')
    (same : windowKey c req start = windowKey c req' start') :
    identifierText req.identifier = identifierText req'.identifier ∧ req.ruleName = req'.ruleName ∧ rule = rule' ∧
      start = start' := by
  obtain ⟨texts,names,starts⟩ := limitKey_inj (known_rule_plain (made_known made known)).1
    (known_rule_plain (made_known made known')).1 same
  rw [names] at known
  exact ⟨texts,names,Option.some.inj (known.symm.trans known'),starts⟩

private theorem windowKey_injective (made : Made c) {req : RateLimitRequest}
    (known : c.config.getRule req.ruleName = some rule) : Function.Injective (windowKey c req) :=
  fun _ _ same => (windowKey_inj made known known same).2.2.2

/-- What holds at every moment of a run. -/
structure Ledger (c : RedisRateLimter) (d : Traced Op Reply ι World) : Prop where
  clocks : ∀ i t, sampled i d.trace = some t → t ≤ d.state.clock
  turns : ∀ i, (turnOf c i d.trace).clock = sampled i d.trace
  kept : ∀ req rule s, c.config.getRule req.ruleName = some rule → Lasts rule s → Kept (windowKey c req) s d.state
  sums : ∀ req rule t, c.config.getRule req.ruleName = some rule →
    charged (windowKey c req (windowOf rule t)) d.state.increments = usage rule req t (applied c d.trace)
  reads : ∀ i t todo seen, turnOf c i d.trace = .checking t todo seen → ∀ found ∈ seen, ReadAt c i d.trace t found.1 found.2

/-- The value of a key while its window lasts. -/
theorem ledger_value {d : Traced Op Reply ι World} (ledger : Ledger c d) {req : RateLimitRequest}
    {s : Int} (known : c.config.getRule req.ruleName = some rule) (lasts : Lasts rule s)
    (current : d.state.clock < (windowOf rule t + s) * second) :
    d.state.value (generateRateKey c.keyPrefix req rule (unix t)) = usage rule req t (applied c d.trace) :=
  (value_current (ledger.kept req rule s known lasts) current).trans (ledger.sums req rule t known)

theorem turnOf_cons (i : ι) (e : Event Op Reply ι) (trace : List (Event Op Reply ι)) :
    turnOf c i (e :: trace) = if e.who = i then observe c (turnOf c i trace) e.op e.reply else turnOf c i trace := rfl

section Steps
variable {d d' : Traced Op Reply ι World} {i : ι} {op : Op} {r : Reply op}

private theorem observe_clock (turn : Turn) (ok : allowed c turn op) :
    (observe c turn op r).clock = (clockReading op r).or turn.clock := by
  cases op with
  | now caller =>
    cases caller with
    | elsewhere => exact ok.elim
    | checkLimit _ | doLimit _ => rfl
  | get key =>
    obtain ⟨t,req,todo,seen,rule,rfl,_⟩ := ok
    rfl
  | incrBy key n =>
    obtain ⟨t,req,todo,rule,rfl,_⟩ := ok
    rfl
  | _ => rfl

private theorem acts_now {caller : Caller} {now : Int} {w w' : World} (act : Acts (fun _ => False) w (.now caller) now w') :
    now = w.clock := by
  cases act with
  | done => rfl
  | refused never _ | unheard never _ => exact never.elim

private theorem clocks_acts (ledger : Ledger c d) (act : Acts (fun _ => False) d.state op r d'.state)
    (traced : d'.trace = ⟨i,op,r⟩ :: d.trace) (j : ι) (t : Int) (read : sampled j d'.trace = some t) : t ≤ d'.state.clock := by
  rw [acts_clock act]
  simp only [traced,sampled] at read
  split at read
  · cases op with
    | now caller =>
      cases read
      exact (acts_now act).le
    | _ => exact ledger.clocks j t read
  · exact ledger.clocks j t read

private theorem turns_acts (ledger : Ledger c d) (ok : allowed c (turnOf c i d.trace) op)
    (traced : d'.trace = ⟨i,op,r⟩ :: d.trace)
    (j : ι) : (turnOf c j d'.trace).clock = sampled j d'.trace := by
  simp only [traced,turnOf_cons,sampled]
  by_cases same : i = j
  · subst same
    rw [if_pos rfl,if_pos rfl,observe_clock _ ok,ledger.turns]
  · rw [if_neg same,if_neg same,ledger.turns]

/-- The commands of a call are proper for every limit. -/
theorem proper_allowed (made : Made c) (ledger : Ledger c d) (ok : allowed c (turnOf c i d.trace) op) {req : RateLimitRequest}
    {s : Int} (known : c.config.getRule req.ruleName = some rule) (lasts : Lasts rule s) :
    Proper (windowKey c req) s d.state.clock op := by
  cases op with
  | incrBy key n =>
    obtain ⟨t,req',todo,rule',stands,known',rfl,_⟩ := ok
    intro start same
    obtain ⟨_,_,rfl,rfl⟩ := windowKey_inj made known' known same
    have read := ledger.turns i
    rw [stands] at read
    exact (windowOf_le lasts t).trans (ledger.clocks i t read.symm)
  | expire key seconds =>
    obtain ⟨t,req',rule',known',rfl,long⟩ := ok
    intro start same
    obtain ⟨_,_,rfl,_⟩ := windowKey_inj made known' known same
    exact long s lasts
  | set key value => exact ok.elim
  | _ => trivial

private theorem sums_acts (made : Made c) (ledger : Ledger c d) (ok : allowed c (turnOf c i d.trace) op)
    (act : Acts (fun _ => False) d.state op r d'.state) (heard : Heard op r) (traced : d'.trace = ⟨i,op,r⟩ :: d.trace)
    {req : RateLimitRequest} (t : Int) (known : c.config.getRule req.ruleName = some rule) :
    charged (windowKey c req (windowOf rule t)) d'.state.increments = usage rule req t (applied c d'.trace) := by
  rw [acts_logged act heard,traced,applied]
  cases op with
  | incrBy key n =>
    obtain ⟨t',req',todo,rule',stands,known',rfl,rfl⟩ := ok
    have same : generateRateKey c.keyPrefix req' rule' (unix t') = windowKey c req (windowOf rule t) ↔
        Counts rule req t (req',t') := by
      constructor
      · intro keys
        obtain ⟨texts,names,rfl,starts⟩ := windowKey_inj made known' known keys
        exact ⟨texts,names,starts⟩
      · rintro ⟨texts,names,starts⟩
        have rules : rule' = rule := by
          simp only at names
          rw [names] at known'
          exact Option.some.inj (known'.symm.trans known)
        subst rules
        simp only at texts names starts
        change windowKey c req' (windowOf rule' t') = _
        rw [windowKey,windowKey,texts,names,starts]
    simp only [logged,stands,entryOf,List.cons_append,List.nil_append,charged,usage,same,ledger.sums req rule t known]
  | _ => exact ledger.sums req rule t known

theorem readAt_cons {trace : List (Event Op Reply ι)} {v : Int} {req : RateLimitRequest} (read : ReadAt c i trace t req v)
    {e : Event Op Reply ι} (same : e.who = i → clockReading e.op e.reply = none) : ReadAt c i (e :: trace) t req v := by
  obtain ⟨rule,later,before,r,known,rfl,quiet,value⟩ := read
  refine ⟨rule,e :: later,before,r,known,rfl,?_,value⟩
  intro x member
  rcases List.mem_cons.mp member with rfl | member
  · exact same
  · exact quiet x member

private theorem reads_acts (made : Made c) (ledger : Ledger c d) (ok : allowed c (turnOf c i d.trace) op)
    (act : Acts (fun _ => False) d.state op r d'.state) (heard : Heard op r) (inTime : InTime c d.state.clock op)
    (traced : d'.trace = ⟨i,op,r⟩ :: d.trace) (j : ι) {todo : List RateLimitRequest}
    {seen : List (RateLimitRequest × Int)} (stands : turnOf c j d'.trace = .checking t todo seen) :
    ∀ found ∈ seen, ReadAt c j d'.trace t found.1 found.2 := by
  rw [traced] at stands ⊢
  rw [turnOf_cons] at stands
  by_cases same : i = j
  · subst same
    rw [if_pos rfl] at stands
    cases op with
    | now caller =>
      cases caller with
      | elsewhere => exact ok.elim
      | checkLimit requests =>
        cases stands
        simp
      | doLimit requests => cases stands
    | get key =>
      obtain ⟨t',req,todo',seen',rule,before,known,rfl⟩ := ok
      obtain ⟨s,lasts⟩ := newLimitConfig_lasts (made_known made known)
      simp only [observe,before,Turn.looked] at stands
      cases stands
      intro found member
      rcases List.mem_append.mp member with member | member
      · exact readAt_cons (ledger.reads i t _ _ before found member) (fun _ => rfl)
      · cases List.mem_singleton.mp member
        have current := inTime req rule s t known lasts rfl
        refine ⟨rule,[],d.trace,r,known,rfl,by simp,?_⟩
        rw [← ledger_value ledger known lasts current]
        rcases (acts_get act).2 with ⟨message,rfl⟩ | value
        · exact absurd rfl (heard rfl message)
        · exact value
    | incrBy key n =>
      obtain ⟨t',req,todo',rule,before,_⟩ := ok
      simp only [observe,before,Turn.counted] at stands
      cases stands
    | _ => exact fun found member => readAt_cons (ledger.reads i t _ _ stands found member) (fun _ => rfl)
  · rw [if_neg same] at stands
    exact fun found member => readAt_cons (ledger.reads j t _ _ stands found member) (fun mine => absurd mine same)

private theorem ledger_acts (made : Made c) (ledger : Ledger c d) (ok : allowed c (turnOf c i d.trace) op)
    (act : (limiterSystem c).traced.act i op d r d') : Ledger c d' := by
  obtain ⟨⟨act,heard,inTime⟩,traced⟩ := act
  refine ⟨clocks_acts ledger act traced,turns_acts ledger ok traced,?_,?_,?_⟩
  · intro req rule s known lasts
    exact kept_acts (ledger.kept req rule s known lasts) (windowKey_injective made known) lasts.positive
      (proper_allowed made ledger ok known lasts) act heard
  · intro req rule t known
    exact sums_acts made ledger ok act heard traced t known
  · intro j t todo seen stands
    exact reads_acts made ledger ok act heard inTime traced j stands

private theorem ledger_env (ledger : Ledger c d) (moved : (limiterSystem (ι := ι) c).traced.env d d') : Ledger c d' := by
  obtain ⟨passed,traced⟩ := moved
  have later : d.state.clock ≤ d'.state.clock ∧ d'.state.increments = d.state.increments := by
    obtain ⟨w,trace⟩ := d
    obtain ⟨w',trace'⟩ := d'
    cases passed with
    | tick later => exact ⟨later,rfl⟩
    | tokens _ | endpoints _ | quotaSpec _ _ | newQuota _ _ => exact ⟨le_refl _,rfl⟩
  obtain ⟨clock,log⟩ := later
  refine ⟨?_,?_,?_,?_,?_⟩
  · intro j t read
    rw [traced] at read
    exact (ledger.clocks j t read).trans clock
  · rw [traced]
    exact ledger.turns
  · intro req rule s known lasts
    exact kept_passes (ledger.kept req rule s known lasts) passed
  · rw [traced,log]
    exact ledger.sums
  · rw [traced]
    exact ledger.reads

end Steps

/-! ### Runs -/

section Runs
variable {first d : Config Op Reply ι (Traced Op Reply ι World) Finished}

private theorem fresh_ledger (fresh : Fresh c first) : Ledger c first.shared := by
  refine ⟨?_,?_,?_,?_,?_⟩
  · intro i t read
    rw [fresh.trace] at read
    cases read
  · intro i
    rw [fresh.trace]
    rfl
  · intro req rule s known _
    have absent := fun start => fresh.redis req rule start known
    refine ⟨?_,?_,?_⟩
    · intro start cell found
      rw [absent] at found
      cases found
    · intro start cell found
      rw [absent] at found
      cases found
    · intro start _
      rw [absent,fresh.log]
      rfl
  · intro req rule t _
    rw [fresh.log,fresh.trace]
    rfl
  · intro i t todo seen stands
    rw [fresh.trace] at stands
    cases stands

/-- Every caller stands where its trace says. -/
theorem reach_turns (made : Made c) (fresh : Fresh c first) (run : Reach (limiterSystem c).traced (fun _ => True) first d)
    (i : ι) : Follows Answers (protocol c) (Rests c) (d.prog i) (turnOf c i d.shared.trace) := by
  refine reach_follows (Q := fun _ => Rests c) ?_ ?_ fresh.trace ?_ run i
  · intro i op d e r _ _ act _
    exact answers_acts act.1 act.2.1
  · intro i turn _ p _ begins
    exact calls_follow made begins turn
  · intro i
    rw [fresh.rest]
    trivial

private theorem reach_ledger (made : Made c) (fresh : Fresh c first)
    (run : Reach (limiterSystem c).traced (fun _ => True) first d) :
    Ledger c d.shared := by
  refine reach_traced (fresh_ledger fresh) ?_ (fun _ _ ledger moved => ledger_env ledger ⟨moved,rfl⟩) run
  intro d i op next r state before ledger at_i acted _
  have follows := reach_turns made fresh before i
  rw [at_i] at follows
  exact ledger_acts made ledger follows.1 ⟨acted,rfl⟩

private theorem answered_reports {i : ι} {trace : List (Event Op Reply ι)} {requests : List RateLimitRequest}
    {seen : List (RateLimitRequest × Int)} {responses : List (Option RateLimitResponse)}
    (answered : Answered c requests seen responses) (reads : ∀ found ∈ seen, ReadAt c i trace t found.1 found.2) :
    List.Forall₂ (Reports c i trace t) requests responses := by
  induction answered with
  | done => exact .nil
  | skip unknown _ ih => exact .cons unknown (ih reads)
  | @next req _ _ _ resp flagged _ ih =>
    have exceeds : minInt64 ≤ resp.currentUsage + req.request → resp.currentUsage + req.request ≤ maxInt64 →
        (resp.overLimit = true ↔ req.limit < resp.currentUsage + req.request) := by
      intro low high
      rw [flagged,int64_of_fits ⟨low,Int.lt_of_le_sub_one high⟩,decide_eq_true_iff]
    have read := reads (req,resp.currentUsage) List.mem_cons_self
    exact .cons ⟨read,exceeds⟩ (ih (fun found member => reads found (.tail _ member)))

/-- In every run, a key holds the sum of the entries applied in its window until the
    window ends, and every check reports that sum as it was when it read the key.
    Limits are told apart by the text of their identifiers, which for plain labels are
    the identifiers themselves. -/
theorem checkLimit_reports_usage (made : Made c) (fresh : Fresh c first)
    (run : Reach (limiterSystem c).traced (fun _ => True) first d) :
    (∀ req rule s t, c.config.getRule req.ruleName = some rule → Lasts rule s →
      d.shared.state.clock < (windowOf rule t + s) * second →
      d.shared.state.value (generateRateKey c.keyPrefix req rule (unix t)) = usage rule req t (applied c d.shared.trace)) ∧
    (∀ i requests result, d.prog i = .ret (.checked requests result) →
      ∃ t responses, sampled i d.shared.trace = some t ∧ result = .ok responses ∧
        List.Forall₂ (Reports c i d.shared.trace t) requests responses) ∧
    (∀ labels labels', PlainLabels labels → PlainLabels labels' →
      (identifierText labels = identifierText labels' ↔ labels = labels')) := by
  have ledger := reach_ledger made fresh run
  refine ⟨?_,?_,?_⟩
  · intro req rule s t known lasts current
    exact ledger_value ledger known lasts current
  · intro i requests result returned
    have rests := reach_turns made fresh run i
    rw [returned] at rests
    obtain ⟨t,seen,responses,stands,rfl,answered⟩ := rests
    have read := ledger.turns i
    rw [stands] at read
    exact ⟨t,responses,read.symm,rfl,answered_reports answered (ledger.reads i t [] seen stands)⟩
  · intro labels labels' plain plain'
    exact ⟨identifierText_inj plain plain',fun same => by rw [same]⟩

end Runs

/-! ### A run, and identifiers with one text -/

private theorem inTime_aside {clock : Int} {op : Op} (aside : keyOf op = none) : InTime c clock op := by
  intro req rule s t _ _ keyed
  rw [aside] at keyed
  cases keyed

/-- A command at the very clock that its call read is in time. -/
theorem inTime_now (made : Made c) {req : RateLimitRequest} (known : c.config.getRule req.ruleName = some rule)
    {clock : Int} {op : Op} (keyed : keyOf op = some (generateRateKey c.keyPrefix req rule (unix clock))) :
      InTime c clock op := by
  intro req' rule' s t known' lasts keyed'
  obtain ⟨_,_,rfl,starts⟩ := windowKey_inj made known known' (Option.some.inj (keyed.symm.trans keyed'))
  have same : windowOf rule clock = windowOf rule t := starts
  rw [← same]
  exact lt_windowOf_end lasts clock

def limiter : RedisRateLimter := newRedisRateLimter "p" 0
def dotted : RateLimitRequest := ⟨[⟨"a","b.c=d"⟩],"rpm",5,1⟩
def split_ : RateLimitRequest := ⟨[⟨"a","b"⟩,⟨"c","d"⟩],"rpm",5,1⟩

/-- An operation of a caller, with its event. -/
def performBy (i : Bool) (op : Op) (s : Traced Op Reply Bool World) : Reply op × Traced Op Reply Bool World :=
  ((perform op s.state).1,⟨(perform op s.state).2,⟨i,op,(perform op s.state).1⟩ :: s.trace⟩)

/-- The next operation is heard of, and is about no key or the one of `split_` at this clock. -/
private def timely : Action Finished → Traced Op Reply Bool World → Bool
  | .ret _,_ => true
  | .call op _,s => heard op (perform op s.state).1 && (keyOf op).all (fun key =>
      key == generateRateKey "p" split_ ⟨"rpm",.request,1,.minute⟩ (unix s.state.clock))

private theorem timely_acts (made : Made limiter) (i : Bool) (op : Op) (next : Reply op → Action Finished)
    (s : Traced Op Reply Bool World) (passes : timely (.call op next) s = true) :
    (limiterSystem limiter).traced.act i op s (performBy i op s).1 (performBy i op s).2 := by
  obtain ⟨calls,keys⟩ := Bool.and_eq_true_iff.mp passes
  refine ⟨⟨.done op,heard_of_test calls,?_⟩,rfl⟩
  cases keyed : keyOf op with
  | none => exact inTime_aside keyed
  | some key =>
    rw [keyed] at keys
    have known : limiter.config.getRule split_.ruleName = some ⟨"rpm",.request,1,.minute⟩ := by decide
    exact inTime_now made known (keyed.trans (congrArg some (eq_of_beq keys)))

private theorem call_alone (made : Made limiter) {i : Bool} {p : Action Finished} {l : Finished}
    {first d : Config Op Reply Bool (Traced Op Reply Bool World) Finished} {q : Finished × Traced Op Reply Bool World}
    (run : Reach (limiterSystem limiter).traced (fun _ => True) first d) (rests : d.prog i = .ret l) (begins : Calls limiter p)
    (ends : exec (performBy i) p d.shared = q) (passes : always (performBy i) timely p d.shared = true) :
    Reach (limiterSystem limiter).traced (fun _ => True) first ⟨q.2,Function.update d.prog i (.ret q.1)⟩ := by
  have ended := reach_exec (timely_acts made i) (fun _ _ _ => trivial) (.step run (.start rests begins) trivial)
    (by rwa [Function.update_self])
  rwa [Function.update_self,Function.update_idem,ends] at ended

/-- The counter is increased by one caller and then read by the other. -/
def counted : Finished × Traced Op Reply Bool World :=
  exec (performBy false) (limiter.doLimit [split_] >>= fun result => pure (.counted [split_] result)) ⟨.fresh [] [] [],[]⟩

def checked : Finished × Traced Op Reply Bool World :=
  exec (performBy true) (limiter.checkLimit [split_] >>= fun result => pure (.checked [split_] result)) counted.2

/-- A check behind an increment reports it. -/
theorem checkLimit_reports_counted : checked.1 = .checked [split_] (.ok [some ⟨"rpm",false,1,5,60000000000⟩]) ∧
    List.Forall₂ (Reports limiter true checked.2.trace 0) [split_] [some ⟨"rpm",false,1,5,60000000000⟩] := by
  have made : Made limiter := ⟨"p",0,by decide,by decide,rfl⟩
  let first : Config Op Reply Bool (Traced Op Reply Bool World) Finished := ⟨⟨.fresh [] [] [],[]⟩,fun _ => .ret .nothing⟩
  have fresh : Fresh limiter first := ⟨fun _ => rfl,rfl,rfl,fun _ _ _ _ => rfl⟩
  have limited := call_alone made (.refl (c := first) trivial) rfl (.doLimit [split_]) (q := counted) rfl (by decide +kernel)
  have run := call_alone made limited rfl (.checkLimit [split_]) (q := checked) rfl (by decide +kernel)
  have returned : checked.1 = .checked [split_] (.ok [some ⟨"rpm",false,1,5,60000000000⟩]) := by rfl
  have read : sampled true checked.2.trace = some 0 := by decide +kernel
  obtain ⟨t,responses,sampled,ended,reports⟩ := (checkLimit_reports_usage made fresh run).2.1 true [split_] _ (by
    dsimp only
    rw [Function.update_self,returned])
  cases ended
  cases read.symm.trans sampled
  exact ⟨returned,reports⟩

/-- Two identifiers with one text share a counter. -/
theorem identifiers_collide : dotted.identifier ≠ split_.identifier ∧
    ((exec perform (limiter.doLimit [dotted] >>= fun _ => limiter.checkLimit [split_]) (World.fresh [] [] [])).1 =
      .ok [some ⟨"rpm",false,1,5,60000000000⟩]) := by
  refine ⟨by decide,?_⟩
  rfl

end Arks.FixedWindows
