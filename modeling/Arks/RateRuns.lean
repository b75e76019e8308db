import Arks.RateSessions
import Arks.Schedules
import Arks.Windows

/-!
How far a rate limit is overshot. While a window lasts, Redis holds exactly what
was counted in it: its key expires no sooner than the window ends. So the runs of
the gateway are runs of check first and count later, and the bound of that pattern
holds for every window, whatever the order of the sessions' steps, also for those
that were checked in an earlier window.
-/
namespace Arks.RateRuns
open Programs Programs.Prog Api Counters Effects Services Gateway Sessions
open Replicas Admission RateSessions Schedules
open Windows (Kept Proper kept_acts kept_passes put_same put_other)

variable {ι : Type} {D : Deployment ι} (t : Target D)

/-! ### The keys of the limit -/

/-- How much a key holds, at any time. -/
structure Bounded (w : World) : Prop where
  bounds : ∀ start cell, w.redis (t.key start) = some cell →
    0 ≤ cell.value ∧ cell.value ≤ charged (t.key start) w.increments ∧ cell.value ≤ maxInt64
  positive : ∀ start, 0 ≤ charged (t.key start) w.increments

/-- What Redis holds for the limit: each key is of a window that has begun, holds
    no more than was counted there, and exactly that until the window ends. -/
def Windows (s : Int) (w : World) : Prop := Kept t.key s w ∧ Bounded t w

variable {t} {s : Int} {w w' : World}

theorem value_bounds (bounded : Bounded t w) (start : Int) :
    0 ≤ w.value (t.key start) ∧ w.value (t.key start) ≤ charged (t.key start) w.increments ∧
      w.value (t.key start) ≤ maxInt64 := by
  unfold World.value
  cases found : w.cell (t.key start) with
  | none => exact ⟨le_refl 0,bounded.positive start,by decide⟩
  | some cell => exact bounded.bounds start cell (Option.eq_some_of_filter_eq_some found)

/-- A move that leaves the keys of the limit alone. -/
theorem bounded_aside (bounded : Bounded t w) (redis : ∀ start, w'.redis (t.key start) = w.redis (t.key start))
    (increments : ∀ start, charged (t.key start) w'.increments = charged (t.key start) w.increments) : Bounded t w' := by
  refine ⟨?_,?_⟩
  · intro start cell found
    rw [redis] at found
    rw [increments]
    exact bounded.bounds start cell found
  · intro start
    rw [increments]
    exact bounded.positive start

private theorem bounded_counted (bounded : Bounded t w) {start n : Int} (amount : 0 ≤ n)
    (fits : w.value (t.key start) + n ≤ maxInt64) :
    Bounded t { w.put (t.key start) (some ⟨w.value (t.key start) + n,(w.cell (t.key start)).bind Cell.expireAt⟩) with
      increments := (t.key start,n) :: w.increments } := by
  have bounds := value_bounds bounded start
  have log : ∀ other, charged (t.key other) ((t.key start,n) :: w.increments) =
      (if t.key start = t.key other then n else 0) + charged (t.key other) w.increments := fun _ => rfl
  have grown : ∀ other, charged (t.key other) w.increments ≤ charged (t.key other) ((t.key start,n) :: w.increments) := by
    intro other
    rw [log]
    split <;> omega
  refine ⟨?_,fun other => (bounded.positive other).trans (grown other)⟩
  intro other cell found
  by_cases same : other = start
  · subst same
    cases put_same.symm.trans found
    refine ⟨Int.add_nonneg bounds.1 amount,?_,fits⟩
    simp only [log,if_true]
    omega
  · have old := bounded.bounds other cell ((put_other (fun keys => same (Target.key_inj keys))).symm.trans found)
    exact ⟨old.1,old.2.1.trans (grown other),old.2.2⟩

private theorem bounded_expire (bounded : Bounded t w) {start : Int} {expireAt : Option Int} {cell : Cell}
    (stored : w.cell (t.key start) = some cell) : Bounded t (w.put (t.key start) (some ⟨cell.value,expireAt⟩)) := by
  refine ⟨?_,bounded.positive⟩
  intro other c found
  by_cases same : other = start
  · subst same
    cases put_same.symm.trans found
    exact bounded.bounds other cell (Option.eq_some_of_filter_eq_some stored)
  · exact bounded.bounds other c ((put_other (fun keys => same (Target.key_inj keys))).symm.trans found)

private theorem bounded_acts {fails : Op → Prop} (bounded : Bounded t w) (lasts : 0 < s) {op : Op} {r : Reply op}
    (proper : Proper t.key s w.clock op) (act : Acts fails w op r w') (heard : Heard op r)
    (counts : ∀ start n, op = .incrBy (t.key start) n → 0 ≤ n) : Bounded t w' := by
  cases redis : op.isRedis with
  | false =>
    obtain ⟨cells,log,_⟩ := acts_aside act redis
    exact bounded_aside bounded (fun _ => by rw [cells]) (fun _ => by rw [log])
  | true =>
    obtain ⟨rfl,rfl⟩ := acts_heard act heard redis
    cases op with
    | get key =>
      simp only [perform]
      split <;> exact bounded
    | ttl key => exact bounded
    | set key value => exact bounded_aside bounded (fun start => put_other (Ne.symm (proper start))) (fun _ => rfl)
    | incrBy key n =>
      simp only [perform]
      split
      · rename_i fits
        by_cases mine : ∃ start, key = t.key start
        · obtain ⟨start,rfl⟩ := mine
          exact bounded_counted bounded (counts start n rfl) fits.2
        · have other : ∀ start, t.key start ≠ key := fun start same => mine ⟨start,same.symm⟩
          exact bounded_aside bounded (fun start => put_other (other start))
            (fun start => by simp [charged,Ne.symm (other start)])
      · exact bounded
    | expire key seconds =>
      simp only [perform]
      cases stored : w.cell key with
      | none => exact bounded
      | some cell =>
        by_cases mine : ∃ start, key = t.key start
        · obtain ⟨start,rfl⟩ := mine
          have long := proper start rfl
          simp only [show ¬ seconds ≤ 0 by omega,if_false]
          exact bounded_expire bounded stored
        · have other : ∀ start, t.key start ≠ key := fun start same => mine ⟨start,same.symm⟩
          exact bounded_aside bounded (fun start => put_other (other start)) (fun _ => rfl)
    | _ => cases redis

/-- What the protocol allows is proper when it counts in windows that have begun. -/
theorem proper_of_allowed (lasts : Lasts t.rule s) {clock : Int} {op : Op} {stage : Stage} (allowed : t.protocol.allowed stage op)
    (begun : ∀ start n, op = .incrBy (t.key start) n → start * second ≤ clock) : Proper t.key s clock op := by
  cases op with
  | incrBy key n => exact fun start same => begun start n (by rw [same])
  | expire key seconds => exact fun start same => allowed start same s lasts
  | set key value => exact allowed
  | _ => trivial

/-- What an operation that the protocol allows does to the keys of the limit. -/
theorem windows_acts {fails : Op → Prop} (windows : Windows t s w) (lasts : Lasts t.rule s) {op : Op} {r : Reply op}
    {stage : Stage} (allowed : t.protocol.allowed stage op) (act : Acts fails w op r w') (heard : Heard op r)
    (counts : ∀ start n, op = .incrBy (t.key start) n → start * second ≤ w.clock ∧ 0 ≤ n) : Windows t s w' := by
  have proper := proper_of_allowed lasts allowed (fun start n same => (counts start n same).1)
  obtain ⟨kept,bounded⟩ := windows
  exact ⟨kept_acts kept (fun _ _ => Target.key_inj) lasts.positive proper act heard,
    bounded_acts bounded lasts.positive proper act heard (fun start n same => (counts start n same).2)⟩

private theorem windows_passes (windows : Windows t s w) (passed : Passes w w') : Windows t s w' := by
  obtain ⟨kept,bounded⟩ := windows
  refine ⟨kept_passes kept passed,?_⟩
  cases passed with
  | tick _ | tokens _ | endpoints _ | quotaSpec _ _ | newQuota _ _ =>
    exact bounded_aside bounded (fun _ => rfl) (fun _ => rfl)

/-! ### Runs -/

variable (t)

/-- Session `i` reads the clock of `CheckLimit` for this limit. -/
def Checks (e : Event Op Reply ι) (i : ι) : Prop :=
  e.who = i ∧ ∃ requests, e.op = .now (.checkLimit requests) ∧ t.Aims requests

/-- An increment for this limit, in some window. -/
def Counts (e : Event Op Reply ι) : Prop := ∃ start n, e.op = .incrBy (t.key start) n

/-- At no moment of the trace are more than `k` sessions between the clock reading
    of their check and their increment. -/
def FewBetween (k : Nat) (trace : List (Event Op Reply ι)) : Prop :=
  AtMost (Checks t) (fun e i => e.who = i ∧ Counts t e) k trace

/-- What is assumed of every moment of a run: the user's limits stay, no Redis call
    has failed, and the counters of requests, which are `int64`s, are not full. For
    a token limit, each session has charged at most once, and at most `m` tokens. -/
structure Ordinary (m : Int) (c : Config Op Reply ι (Traced Op Reply ι World) Local) : Prop where
  steady : ∀ obj ∈ c.shared.state.tokens, t.Steady obj
  heard : ∀ e ∈ c.shared.trace, Heard e.op e.reply
  room : t.rule.type = .request → ∀ start, charged (t.key start) c.shared.state.increments < maxInt64
  amounts : t.rule.type = .token → ∀ e ∈ c.shared.trace, ∀ start n, e.op = .incrBy (t.key start) n → 0 ≤ n ∧ n ≤ m
  once : t.rule.type = .token → c.shared.trace.Pairwise (fun e e' => Counts t e → Counts t e' → e.who ≠ e'.who)

/-- Where a run starts: nobody has begun, and nothing was counted for the limit. -/
structure Untouched (c : Config Op Reply ι (Traced Op Reply ι World) Local) : Prop where
  rest : ∀ i, ∃ l, c.prog i = .ret l ∧ AtRest l
  trace : c.shared.trace = []
  log : c.shared.state.increments = []
  redis : ∀ start, c.shared.state.redis (t.key start) = none

/-- The most that a session adds: one request, or `m` tokens. -/
def largest (m : Int) : Int := match t.rule.type with
  | .request => 1
  | .token => m

/-- The counter of one window, as check first and count later sees it. -/
def counter (m W : Int) : Counter (Event Op Reply ι) ι where
  window := W
  base := 0
  threshold := t.limit.value - t.amount
  largest := largest t m
  opens := Checks t
  adds := addsTo (t.key W)

/-- What an event can do to the stage of its session. -/
theorem observe_cases {t : Target D} (e : Event Op Reply ι) (stage : Stage) :
    t.protocol.observe stage e.op e.reply = stage ∨
      (∃ w, t.protocol.observe stage e.op e.reply = .opened w) ∨ (∃ w, t.protocol.observe stage e.op e.reply = .charging w) ∨
      (Counts t e ∧ t.protocol.observe stage e.op e.reply = .charged) ∨
      ∃ i w r, e = ⟨i,.get (t.key w),r⟩ ∧ t.protocol.observe stage e.op e.reply = .read w (currentValue r) := by
  obtain ⟨i,op,r⟩ := e
  cases op with
  | now caller =>
    cases caller with
    | elsewhere => exact .inl rfl
    | checkLimit requests =>
      by_cases aims : t.Aims requests
      · exact .inr (.inl ⟨_,if_pos aims⟩)
      · exact .inl (if_neg aims)
    | doLimit requests =>
      by_cases aims : t.Aims requests
      · cases stage with
        | read w v => exact .inr (.inr (.inl ⟨_,if_pos aims⟩))
        | _ => exact .inl (if_pos aims)
      · exact .inl (if_neg aims)
  | get key =>
    cases stage with
    | opened w =>
      by_cases mine : key = t.key w
      · subst mine
        exact .inr (.inr (.inr (.inr ⟨i,w,r,rfl,if_pos rfl⟩)))
      · exact .inl (if_neg mine)
    | _ => exact .inl rfl
  | incrBy key n =>
    cases stage with
    | charging w =>
      by_cases mine : key = t.key w
      · exact .inr (.inr (.inr (.inl ⟨⟨w,n,by rw [mine]⟩,if_pos mine⟩)))
      · exact .inl (if_neg mine)
    | _ => exact .inl rfl
  | _ => exact .inl rfl

theorem answers_acts {t : Target D} {op : Op} {r : Reply op} {fails : Op → Prop} {w w' : World} (act : Acts fails w op r w')
    (steady : ∀ obj ∈ w.tokens, t.Steady obj) (heard : Heard op r) : t.Answers op r := by
  have stored := acts_storeAnswers act
  cases op with
  | listTokens token =>
    rintro objs rfl obj member
    rcases stored with ⟨e,failed⟩ | listed
    · cases failed
    · cases listed
      obtain ⟨present,same⟩ := List.mem_filter.mp member
      exact ⟨steady obj present,of_decide_eq_true same⟩
  | listEndpoints ns =>
    rintro eps rfl ep member
    rcases stored with ⟨e,failed⟩ | listed
    · cases failed
    · cases listed
      exact of_decide_eq_true (List.mem_filter.mp member).2
  | random bound =>
    cases act with
    | done => exact ⟨le_refl 0,id⟩
    | refused _ failed => cases failed
    | unheard _ failed => cases failed
    | random low high => exact ⟨low,fun _ => high⟩
  | ttl key => exact ⟨_,(acts_heard act heard rfl).1⟩
  | _ => trivial

section Simulation
variable [DecidableEq ι]

/-- The sessions' stages after a trace. -/
def stages (trace : List (Event Op Reply ι)) (i : ι) : Stage := observed t.protocol .idle i trace

/-- The gateway's state is one that check first and count later reaches by the same
    events, and what Redis holds agrees with it. -/
structure Simulates (m W s : Int) (d : Traced Op Reply ι World) : Prop where
  reach : Reachable (counter t m W) ⟨windowOf t.rule d.state.clock,stages t d.trace,d.trace⟩
  windows : Windows t s d.state
  total : (counter t m W).total d.trace = charged (t.key W) d.state.increments
  read : ∀ i w v, stages t d.trace i = .read w v → 0 ≤ v ∧ v + t.amount ≤ maxInt64
  counted : ∀ i, stages t d.trace i = .charged → ∃ e ∈ d.trace, e.who = i ∧ Counts t e
  units : t.rule.type = .request → ∀ e ∈ d.state.increments, ∀ start, e.1 = t.key start → e.2 = 1

variable {t} {m W : Int} {d : Traced Op Reply ι World} {i : ι} {op : Op} {r : Reply op}

theorem stages_cons (e : Event Op Reply ι) (trace : List (Event Op Reply ι)) :
    stages t (e :: trace) = Function.update (stages t trace) e.who
      (t.protocol.observe (stages t trace e.who) e.op e.reply) := observed_cons t.protocol .idle e trace

/-- What is known of an operation that a session is about to have carried out. -/
structure Issued (t : Target D) (m : Int) (d : Traced Op Reply ι World) (i : ι) (op : Op) (r : Reply op) : Prop where
  allowed : t.protocol.allowed (stages t d.trace i) op
  heard : Heard op r
  room : t.rule.type = .request → ∀ start, charged (t.key start) d.state.increments < maxInt64
  amounts : t.rule.type = .token → ∀ start n, op = .incrBy (t.key start) n → 0 ≤ n ∧ n ≤ m
  once : t.rule.type = .token → ∀ e ∈ d.trace, Counts t ⟨i,op,r⟩ → Counts t e → i ≠ e.who

/-- An increment is one that was due, in a window that has begun. -/
theorem issued_due (sim : Simulates t m W s d) (lasts : Lasts t.rule s) (issued : Issued t m d i op r) {start n : Int}
    (incr : op = .incrBy (t.key start) n) :
    stages t d.trace i = .charging start ∧ start * second ≤ d.state.clock ∧ 0 ≤ n ∧ n ≤ largest t m := by
  subst incr
  obtain ⟨due,one⟩ := issued.allowed start rfl
  have amount : 0 ≤ n ∧ n ≤ largest t m := by
    unfold largest
    cases kind : t.rule.type with
    | request =>
      rw [one kind]
      exact ⟨by decide,le_refl 1⟩
    | token => exact issued.amounts kind start n rfl
  rcases due with charging | ⟨token,charged⟩
  · have fits := (reachable_sound sim.reach).stages i
    simp only [charging] at fits
    have begun := windowOf_le lasts d.state.clock
    have : start * second ≤ windowOf t.rule d.state.clock * second :=
      Int.mul_le_mul_of_nonneg_right fits.1 (by decide)
    exact ⟨charging,by omega,amount⟩
  · obtain ⟨e,member,same,counts⟩ := sim.counted i charged
    exact absurd same.symm (issued.once token e member ⟨start,n,rfl⟩ counts)

/-- An event that leaves the session where it is. -/
theorem reach_silent (sim : Simulates t m W s d) (silent : (counter t m W).adds ⟨i,op,r⟩ = none)
    (same : t.protocol.observe (stages t d.trace i) op r = stages t d.trace i) :
    Reachable (counter t m W) ⟨windowOf t.rule d.state.clock,stages t (⟨i,op,r⟩ :: d.trace),⟨i,op,r⟩ :: d.trace⟩ := by
  rw [stages_cons,same,Function.update_eq_self]
  exact reachable_step sim.reach (.other silent)

private theorem admits_low (sim : Simulates t m W s d) {w v : Int} (read : stages t d.trace i = .read w v) (admits : t.Admits v) :
    0 ≤ v ∧ v ≤ t.limit.value - t.amount := by
  obtain ⟨low,high⟩ := sim.read i w v read
  have amount : 0 ≤ t.amount := by
    unfold Target.amount
    cases t.rule.type <;> decide
  unfold Target.Admits at admits
  unfold maxInt64 at high
  rw [int64_of_fits ⟨by omega,by omega⟩] at admits
  omega

/-- A clock reading of `CheckLimit` opens the check, one of `DoLimit` the charge of an admitted session. -/
theorem reach_now {caller : Caller} (sim : Simulates t m W s d) (issued : Issued t m d i (.now caller) d.state.clock) :
    Reachable (counter t m W) ⟨windowOf t.rule d.state.clock,stages t (⟨i,.now caller,d.state.clock⟩ :: d.trace),
      ⟨i,.now caller,d.state.clock⟩ :: d.trace⟩ := by
  cases caller with
  | elsewhere => exact reach_silent sim rfl rfl
  | checkLimit requests =>
    by_cases aims : t.Aims requests
    · have idle : stages t d.trace i = .idle := issued.allowed aims
      have opened : t.protocol.observe (stages t d.trace i) (.now (.checkLimit requests)) d.state.clock =
          .opened (windowOf t.rule d.state.clock) := if_pos aims
      rw [stages_cons,opened]
      exact reachable_step sim.reach (.opens idle ⟨rfl,requests,rfl,aims⟩ rfl)
    · exact reach_silent sim rfl (if_neg aims)
  | doLimit requests =>
    by_cases aims : t.Aims requests
    · have ready : t.Ready (stages t d.trace i) := issued.allowed aims
      rcases ready with ⟨w,v,read,admits⟩ | ⟨_,charged⟩
      · obtain ⟨low,high⟩ := admits_low sim read admits
        have charging : t.protocol.observe (stages t d.trace i) (.now (.doLimit requests)) d.state.clock =
            .charging (windowOf t.rule d.state.clock) := by
          rw [read]
          exact if_pos aims
        rw [stages_cons,charging]
        refine reachable_step (reachable_step sim.reach (.aims read high ?_)) (.other rfl)
        exact fun _ => low.trans high
      · refine reach_silent sim rfl ?_
        rw [charged]
        exact if_pos aims
    · exact reach_silent sim rfl (if_neg aims)

variable {fails : Op → Prop} {w' : World}

/-- A session that looks at the counter of its window finds what was counted. -/
theorem reach_get {key : String} {r : Reply (.get key)} (sim : Simulates t m W s d) (lasts : Lasts t.rule s)
    (issued : Issued t m d i (.get key) r) (act : Acts fails d.state (.get key) r w') :
    Reachable (counter t m W)
      ⟨windowOf t.rule d.state.clock,stages t (⟨i,.get key,r⟩ :: d.trace),⟨i,.get key,r⟩ :: d.trace⟩ := by
  by_cases looks : ∃ w, stages t d.trace i = .opened w ∧ key = t.key w
  · obtain ⟨w,opened,rfl⟩ := looks
    have value : currentValue r = d.state.value (t.key w) :=
      (acts_get act).2.resolve_left (fun ⟨message,failed⟩ => issued.heard rfl message (by rw [failed]; rfl))
    have read : t.protocol.observe (stages t d.trace i) (.get (t.key w)) r = .read w (currentValue r) := by
      rw [opened]
      exact if_pos rfl
    rw [stages_cons,read]
    refine reachable_step (reachable_step sim.reach (.reads opened ?_)) (.other rfl)
    rintro rfl still
    have lasting := lt_windowOf_end lasts d.state.clock
    have now : windowOf t.rule d.state.clock = w := still
    rw [now] at lasting
    rw [value,Arks.Windows.value_current sim.windows.1 lasting,← sim.total]
    exact (Int.zero_add _).symm
  · refine reach_silent sim rfl ?_
    cases opened : stages t d.trace i with
    | opened w => exact if_neg (fun same => looks ⟨w,opened,same⟩)
    | _ => rfl

/-- An increment adds to the window that the session has aimed at. -/
theorem reach_incrBy {key : String} {n : Int} {r : Reply (.incrBy key n)} (sim : Simulates t m W s d) (lasts : Lasts t.rule s)
    (issued : Issued t m d i (.incrBy key n) r) :
    Reachable (counter t m W)
      ⟨windowOf t.rule d.state.clock,stages t (⟨i,.incrBy key n,r⟩ :: d.trace),⟨i,.incrBy key n,r⟩ :: d.trace⟩ := by
  by_cases mine : ∃ start, key = t.key start
  · obtain ⟨start,rfl⟩ := mine
    obtain ⟨charging,_,low,high⟩ := issued_due sim lasts issued rfl
    have charged : t.protocol.observe (stages t d.trace i) (.incrBy (t.key start) n) r = .charged := by
      rw [charging]
      exact if_pos rfl
    rw [stages_cons,charged]
    by_cases here : start = W
    · subst here
      exact reachable_step sim.reach (.adds charging (if_pos rfl) low high)
    · exact reachable_step sim.reach (.elsewhere charging (if_neg (fun same => here (Target.key_inj same))))
  · refine reach_silent sim (if_neg (fun same => mine ⟨W,same⟩)) ?_
    exact (Target.unseen_incrBy (fun start same => mine ⟨start,same⟩) n _).2 r

theorem reach_acts (sim : Simulates t m W s d) (lasts : Lasts t.rule s)
    (issued : Issued t m d i op r) (act : Acts fails d.state op r w') :
    Reachable (counter t m W) ⟨windowOf t.rule d.state.clock,stages t (⟨i,op,r⟩ :: d.trace),⟨i,op,r⟩ :: d.trace⟩ := by
  cases op with
  | now caller =>
    have clock : r = d.state.clock := by
      cases act with
      | done => rfl
      | refused _ failed => cases failed
      | unheard _ failed => cases failed
    subst clock
    exact reach_now sim issued
  | get key => exact reach_get sim lasts issued act
  | incrBy key n => exact reach_incrBy sim lasts issued
  | _ => exact reach_silent sim rfl rfl

/-- A value that a session has read is in the range of the check. -/
theorem read_acts (sim : Simulates t m W s d) (issued : Issued t m d i op r)
    (act : Acts fails d.state op r w') {j : ι} {w v : Int} (read : stages t (⟨i,op,r⟩ :: d.trace) j = .read w v) :
    0 ≤ v ∧ v + t.amount ≤ maxInt64 := by
  by_cases other : j = i
  swap
  · rw [stages_cons,Function.update_of_ne other] at read
    exact sim.read j w v read
  subst other
  rw [stages_cons,Function.update_self] at read
  rcases observe_cases (t := t) ⟨j,op,r⟩ (stages t d.trace j) with same | ⟨_,other⟩ | ⟨_,other⟩ | ⟨_,other⟩ |
    ⟨_,w₁,r₁,event,reads⟩
  · exact sim.read j w v (same.symm.trans read)
  · cases other.symm.trans read
  · cases other.symm.trans read
  · cases other.symm.trans read
  · cases reads.symm.trans read
    cases event
    have value : currentValue r₁ = d.state.value (t.key w) :=
      (acts_get act).2.resolve_left (fun ⟨message,failed⟩ => issued.heard rfl message (by rw [failed]; rfl))
    obtain ⟨low,counted,fits⟩ := value_bounds sim.windows.2 w
    rw [value]
    refine ⟨low,?_⟩
    unfold Target.amount
    cases kind : t.rule.type with
    | request =>
      have := issued.room kind w
      simp only [checkAmount,Option.getD_some]
      omega
    | token => simpa [checkAmount] using fits

/-- Who is charged has counted. -/
theorem counted_acts (sim : Simulates t m W s d) {j : ι} (charged : stages t (⟨i,op,r⟩ :: d.trace) j = .charged) :
    ∃ e ∈ (⟨i,op,r⟩ : Event Op Reply ι) :: d.trace, e.who = j ∧ Counts t e := by
  have before : stages t d.trace j = .charged → ∃ e ∈ (⟨i,op,r⟩ : Event Op Reply ι) :: d.trace, e.who = j ∧ Counts t e := by
    intro charged
    obtain ⟨e,member,counts⟩ := sim.counted j charged
    exact ⟨e,.tail _ member,counts⟩
  by_cases other : j = i
  swap
  · rw [stages_cons,Function.update_of_ne other] at charged
    exact before charged
  subst other
  rw [stages_cons,Function.update_self] at charged
  rcases observe_cases (t := t) ⟨j,op,r⟩ (stages t d.trace j) with same | ⟨_,other⟩ | ⟨_,other⟩ | ⟨counts,_⟩ |
    ⟨_,_,_,_,other⟩
  · exact before (same.symm.trans charged)
  · cases other.symm.trans charged
  · cases other.symm.trans charged
  · exact ⟨_,.head _,rfl,counts⟩
  · cases other.symm.trans charged

theorem simulates_acts (sim : Simulates t m W s d) (lasts : Lasts t.rule s)
    (issued : Issued t m d i op r) (act : Acts fails d.state op r w') :
    Simulates t m W s ⟨w',⟨i,op,r⟩ :: d.trace⟩ := by
  refine ⟨?_,?_,?_,fun j w v read => read_acts sim issued act read,fun j charged => counted_acts sim charged,?_⟩
  · simp only [acts_clock act]
    exact reach_acts sim lasts issued act
  · refine windows_acts sim.windows lasts issued.allowed act issued.heard ?_
    intro start n incr
    obtain ⟨_,begun,low,_⟩ := issued_due sim lasts issued incr
    exact ⟨begun,low⟩
  · rw [charged_acts (i := i) act issued.heard,← sim.total]
    rfl
  · intro request e member start mine
    rw [acts_logged act issued.heard] at member
    rcases List.mem_append.mp member with new | old
    · cases op with
      | incrBy key n =>
        obtain rfl := List.mem_singleton.mp new
        exact (issued.allowed start mine).2 request
      | _ => cases new
    · exact sim.units request e old start mine

private theorem simulates_passes (sim : Simulates t m W s d) (lasts : Lasts t.rule s) (passed : Passes d.state w') :
    Simulates t m W s ⟨w',d.trace⟩ := by
  have windows := windows_passes sim.windows passed
  cases passed with
  | tick later =>
    exact ⟨reachable_step sim.reach (.pass (windowOf_mono lasts later)),windows,sim.total,sim.read,sim.counted,sim.units⟩
  | tokens | endpoints | quotaSpec | newQuota => exact ⟨sim.reach,windows,sim.total,sim.read,sim.counted,sim.units⟩

private theorem simulates_initial {c : Config Op Reply ι (Traced Op Reply ι World) Local} (untouched : Untouched t c) :
    Simulates t m W s c.shared := by
  obtain ⟨_,trace,log,redis⟩ := untouched
  have empty : ∀ start, charged (t.key start) c.shared.state.increments = 0 := fun start => by rw [log]; rfl
  have absent : ∀ start cell, c.shared.state.redis (t.key start) ≠ some cell := fun start cell found => by
    rw [redis start] at found
    cases found
  refine ⟨?_,⟨⟨?_,?_,?_⟩,?_,?_⟩,?_,?_,?_,?_⟩
  · rw [trace]
    exact ⟨_,.refl⟩
  · exact fun start cell found => absurd found (absent start cell)
  · exact fun start cell found => absurd found (absent start cell)
  · intro start _
    rw [redis start,empty start]
    rfl
  · exact fun start cell found => absurd found (absent start cell)
  · exact fun start => (empty start).ge
  · rw [trace,empty W]
    rfl
  · intro i w v read
    rw [trace] at read
    cases read
  · intro i charged
    rw [trace] at charged
    cases charged
  · intro _ e member
    rw [log] at member
    cases member

/-- Every run of the gateway is one of check first and count later. -/
theorem run_simulates {c d : Config Op Reply ι (Traced Op Reply ι World) Local}
    (untouched : Untouched t c) (lasts : Lasts t.rule s) (run : Reach (D.system fails).traced (Ordinary t m) c d) :
    Simulates t m W s d.shared := by
  refine reach_traced (simulates_initial untouched) ?_ (fun _ _ sim passed => simulates_passes sim lasts passed) run
  intro d i op next r state before sim at_i acted ok
  have follows : Follows t.Answers t.protocol (Keeps t.Stands (fun _ _ => True) (fun _ => True)) (d.prog i)
      (stages t d.shared.trace i) := reach_follows
    (fun _ _ d e _ legal ok act traced => answers_acts act legal.steady
      (ok.heard _ (by rw [traced]; exact .head _)))
    (fun _ _ _ _ rests begins => Target.starts_follow rests begins) untouched.trace (fun i => by
      obtain ⟨l,resting,kind⟩ := untouched.rest i
      rw [resting]
      rcases kind with rfl | rfl
      · exact ⟨rfl,rfl⟩
      · trivial) before i
  rw [at_i] at follows
  refine simulates_acts sim lasts ⟨follows.1,ok.heard _ (.head _),(reach_legal before).room,?_,?_⟩ acted
  · intro token start n incr
    exact ok.amounts token _ (.head _) start n incr
  · intro token e member
    exact (List.pairwise_cons.mp (ok.once token)).1 e member

end Simulation

/-! ### The bound -/

variable {t}

theorem charged_units {key : String} {log : List (String × Int)} (units : ∀ e ∈ log, e.1 = key → e.2 = 1) :
    charged key log = log.countP (fun e => e.1 = key) := by
  induction log with
  | nil => rfl
  | cons e log ih =>
    have rest := ih (fun x member => units x (.tail _ member))
    by_cases mine : e.1 = key
    · have one := units e (.head _) mine
      rw [List.countP_cons_of_pos (by simpa using mine)]
      simp only [charged,mine,one,if_true,rest]
      omega
    · rw [List.countP_cons_of_neg (by simpa using mine)]
      simp [charged,mine,rest]

private theorem few_adders {k : Nat} {m W : Int} {trace : List (Event Op Reply ι)} (few : FewBetween t k trace) :
    AtMost (counter t m W).opens (counter t m W).adder k trace := by
  refine atMost_mono ?_ few
  rintro e i ⟨n,adds⟩
  obtain ⟨who,incr⟩ := addsTo_some adds
  exact ⟨who,W,n,incr⟩

/-- The overshoot of a rate limit is bounded in every window, whatever the order of
    the sessions' steps: with at most `k` sessions between their check and their
    increment, by `k - 1` requests, or by what `k` sessions charge. -/
theorem overshoot_bounded [DecidableEq ι] {fails : Op → Prop} {m : Int} (largest : 0 ≤ m)
    {c d : Config Op Reply ι (Traced Op Reply ι World) Local} (untouched : Untouched t c)
    (run : Reach (D.system fails).traced (Ordinary t m) c d) {k : Nat} (few : FewBetween t k d.shared.trace) (W : Int) :
    (t.rule.type = .request →
      (t.limit.value = 0 → d.shared.state.increments.countP (fun e => e.1 = t.key W) = 0) ∧
      (1 ≤ t.limit.value → (d.shared.state.increments.countP (fun e => e.1 = t.key W) : Int) ≤ t.limit.value + k - 1)) ∧
    (t.rule.type = .token → 0 ≤ t.limit.value →
      charged (t.key W) d.shared.state.increments ≤ t.limit.value + k * m) := by
  obtain ⟨s,lasts⟩ := newLimitConfig_lasts (Target.made_known t.made t.known)
  have sim : Simulates t m W s d.shared := run_simulates untouched lasts run
  have sound := reachable_sound sim.reach
  have bound : 0 ≤ RateRuns.largest t m → charged (t.key W) d.shared.state.increments ≤
      max 0 (t.limit.value - t.amount) + k * RateRuns.largest t m := by
    intro positive
    rw [← sim.total,← Int.zero_add (Counter.total _ _)]
    exact total_le sound (few_adders few) positive
  constructor
  · intro request
    have amount : t.amount = 1 := by simp [Target.amount,request,checkAmount]
    have unit : RateRuns.largest t m = 1 := by simp [RateRuns.largest,request]
    have count := charged_units (fun e member => sim.units request e member W)
    refine ⟨fun zero => ?_,fun _ => ?_⟩
    · have closed : t.limit.value - t.amount < 0 := by omega
      have none_ := sim.total.symm.trans (total_zero sound closed)
      omega
    · rw [amount,unit] at bound
      have := bound (by decide)
      omega
  · intro token nonneg
    have amount : t.amount = 0 := by simp [Target.amount,token,checkAmount]
    have most : RateRuns.largest t m = m := by simp [RateRuns.largest,token]
    rw [amount,most] at bound
    have := bound largest
    omega

/-- A user with one request a minute, in a gateway for four sessions. -/
def single : Target (small (Fin 4)) where
  qos := ⟨"alice","team","chat","basic",[⟨"rpm",1⟩]⟩
  limit := ⟨"rpm",1⟩
  rule := ⟨"rpm",.request,1,.minute⟩
  made := ⟨"arks",0,by decide,by decide,rfl⟩
  plain := ⟨by decide,by decide,by decide⟩
  listed := List.mem_cons_self
  distinct := by decide
  known := rfl

def waiting : State (Fin 4) := awaiting 1 1000 (fun _ => .session .opening .initial [])

/-- The first session is checked, the second is checked and counts, the first counts, and the third is turned away;
    the fourth sends nothing. -/
def crossing : List (Move (Fin 4)) :=
  sends 0 "alice" ++ steps 0 7 ++ sends 1 "alice" ++ steps 1 11 ++ steps 0 4 ++ sends 2 "alice" ++ steps 2 11

/-- What `Ordinary` asks, for the samples: few increments by one. -/
private def ordinaryTest (trace : List (Event Op Reply (Fin 4))) (w : World) : Bool :=
  decide (w.tokens = waiting.shared.tokens) && trace.all (fun e => heard e.op e.reply) &&
    w.increments.all (fun e => decide (e.2 = 1)) && decide (w.increments.length ≤ 3)

private theorem ordinary_of_test (trace : List (Event Op Reply (Fin 4))) (w : World) (prog : Fin 4 → Action Local)
    (passes : ordinaryTest trace w = true) : Ordinary single 0 ⟨⟨w,trace⟩,prog⟩ := by
  simp only [ordinaryTest,Bool.and_eq_true,decide_eq_true_eq,List.all_eq_true] at passes
  obtain ⟨⟨⟨tokens,calls⟩,units⟩,short⟩ := passes
  refine ⟨fun obj member => ?_,fun e member => heard_of_test (calls e member),fun _ start => ?_,nofun,nofun⟩
  · dsimp only at member
    rw [tokens] at member
    rw [List.mem_singleton.mp member]
    rintro qos ⟨⟩ _ _
    rfl
  · rw [charged_units (fun e member _ => units e member)]
    have count := List.countP_le_length (p := fun e => decide (e.1 = single.key start)) (l := w.increments)
    unfold maxInt64
    omega

/-- Who is checked, and who counts. -/
private def rateCode (e : Event Op Reply (Fin 4)) : Option (Fin 4 × Bool) :=
  match e.op with
  | .now (.checkLimit _) => some (e.who,false)
  | .incrBy _ _ => some (e.who,true)
  | _ => none

/-- Two sessions at once use the limit of one request and one more. -/
theorem overshoot_bounded_crossing : FewBetween single 2 (record (small (Fin 4)) waiting crossing) ∧
    (run (small (Fin 4)) waiting crossing).shared.increments.countP (fun e => e.1 = single.key 0) = 2 ∧
    ((run (small (Fin 4)) waiting crossing).shared.increments.countP (fun e => e.1 = single.key 0) : Int) ≤ 1 + (2 : Nat) - 1 := by
  have untouched : Untouched single (waiting.behind []) := ⟨fun _ => ⟨_,rfl,.inl rfl⟩,rfl,rfl,fun _ => rfl⟩
  have reached : Reach ((small (Fin 4)).system redisUp).traced (Ordinary single 0) (waiting.behind [])
      ((run (small (Fin 4)) waiting crossing).behind (record (small (Fin 4)) waiting crossing ++ [])) :=
    run_reach _ ordinary_of_test (by decide +kernel)
  rw [List.append_nil] at reached
  have few : FewBetween single 2 (record (small (Fin 4)) waiting crossing) := by
    have codes : (record (small (Fin 4)) waiting crossing).filterMap rateCode =
        [(2,false),(0,true),(1,true),(1,false),(0,false)] := by decide +kernel
    refine atMost_of_codes rateCode ?_ ?_ codes (by decide)
    · rintro ⟨who,op,r⟩ i ⟨rfl,requests,rfl,_⟩
      rfl
    · rintro ⟨who,op,r⟩ i ⟨rfl,start,n,rfl⟩
      rfl
  exact ⟨few,by decide +kernel,((overshoot_bounded (le_refl 0) untouched reached few 0).1 rfl).2 (by decide)⟩

end Arks.RateRuns
