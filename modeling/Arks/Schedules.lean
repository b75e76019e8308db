import Arks.Replicas

/-!
Runs of the gateway as lists of moves. From the moves and from how each call turns
out the run follows, so that it can be computed. `run_reach` says that these are
runs of the system, with the trace that they leave.
-/
namespace Arks.Schedules
open Programs Programs.Prog Api Counters Effects Services Gateway Sessions Replicas

variable {ι : Type}

/-- How a call turns out: the random part, the failure of an API call with whether it
    took effect all the same, and the version of each quota that the cache gives. -/
structure Choice where
  draw : Int
  fault : Option (String × Bool)
  version : KubeName → KubeName → Option Nat

/-- The version of a quota that a read gives. -/
def Choice.seen (x : Choice) (past : List ArksQuota) (q : ArksQuota) : ArksQuota :=
  match x.version q.namespace_ q.name with
  | none => q
  | some v => (past.find? (fun p => p.namespace_ = q.namespace_ ∧ p.name = q.name ∧ p.resourceVersion = v)).getD q

/-- Of a choice, only the versions of the quotas of `N`. -/
def Choice.part (N : KubeName) (x : Choice) : Choice :=
  { x with version := fun ns name => if ns = N then x.version ns name else none }

def Choice.answer {α : Type} (x : Choice) (value : Except String α) : Except String α :=
  match x.fault with
  | none => value
  | some (message,_) => .error message

/-- An operation with Redis up. -/
def resolve (x : Choice) : (op : Op) → World → Reply op × World
  | .random bound,w => (if 0 < bound then x.draw % bound else 0,w)
  | .listTokens token,w => (x.answer (perform (.listTokens token) w).1,w)
  | .listEndpoints namespace_,w => (x.answer (perform (.listEndpoints namespace_) w).1,w)
  | .getQuota namespace_ name,w => (x.answer ((perform (.getQuota namespace_ name) w).1.map (x.seen w.past)),w)
  | .listQuotas,w => (x.answer (.ok (w.quotas.map (x.seen w.past))),w)
  | .updateQuotaStatus quota,w =>
    match x.fault with
    | none => perform (.updateQuotaStatus quota) w
    | some (message,applied) => (.error message,if applied then (perform (.updateQuotaStatus quota) w).2 else w)
  | op,w => perform op w

/-- A move of the gateway: Envoy sends a message, a replica begins a pass, a party
    carries out its next operation, or time passes. -/
inductive Move (ι : Type)
  | message (i : ι) (msg : ProcessingRequest)
  | pass (i : ι)
  | step (i : ι) (x : Choice)
  | tick (t : Int)

abbrev State (ι : Type) := Config Op Reply ι World Local

section Runs
variable [DecidableEq ι]

/-- A move that is not possible changes nothing. -/
def move (D : Deployment ι) (c : State ι) : Move ι → State ι
  | .message i msg => match c.prog i with
    | .ret (.session phase vars sent) =>
      if accepts phase msg then ⟨c.shared,Function.update c.prog i (D.handle i vars sent msg)⟩ else c
    | _ => c
  | .pass i => match c.prog i with
    | .ret .replica => ⟨c.shared,Function.update c.prog i D.pass⟩
    | _ => c
  | .step i x => match c.prog i with
    | .call op next => ⟨(resolve x op c.shared).2,Function.update c.prog i (next (resolve x op c.shared).1)⟩
    | .ret _ => c
  | .tick t => if c.shared.clock ≤ t then ⟨{ c.shared with clock := t },c.prog⟩ else c

def run (D : Deployment ι) (c : State ι) : List (Move ι) → State ι
  | [] => c
  | m :: moves => run D (move D c m) moves

theorem run_append (D : Deployment ι) (c : State ι) (a b : List (Move ι)) : run D c (a ++ b) = run D (run D c a) b := by
  induction a generalizing c with
  | nil => rfl
  | cons m a ih => exact ih _

/-! Every such run is one of the system, in which API calls may fail. -/

theorem seen_cases (x : Choice) (past : List ArksQuota) (q : ArksQuota) :
    (x.seen past q = q ∨ x.seen past q ∈ past) ∧ (x.seen past q).namespace_ = q.namespace_ ∧ (x.seen past q).name = q.name := by
  unfold Choice.seen
  split
  · exact ⟨.inl rfl,rfl,rfl⟩
  · rename_i v _
    cases found : past.find? (fun p => p.namespace_ = q.namespace_ ∧ p.name = q.name ∧ p.resourceVersion = v) with
    | none => exact ⟨.inl rfl,rfl,rfl⟩
    | some p =>
      have is := List.find?_some found
      simp only [decide_eq_true_eq] at is
      exact ⟨.inr (List.mem_of_find?_eq_some found),is.1,is.2.1⟩

private theorem seen_mem (x : Choice) {quotas past : List ArksQuota} {q : ArksQuota} (stored : q ∈ quotas) :
    x.seen past q ∈ quotas ++ past := by
  rcases (seen_cases x past q).1 with same | old
  · rw [same]
    exact List.mem_append_left _ stored
  · exact List.mem_append_right _ old

private theorem resolve_acts (x : Choice) (op : Op) (w : World) :
    Acts (fun op => op.isRedis = false) w op (resolve x op w).1 (resolve x op w).2 := by
  cases op with
  | random bound =>
    simp only [resolve]
    split
    · rename_i positive
      exact .random (Int.emod_nonneg _ (by omega)) (Int.emod_lt_of_pos _ positive)
    · exact .done _
  | listTokens | listEndpoints =>
    simp only [resolve,Choice.answer]
    split
    · exact .done _
    · exact .refused rfl rfl
  | getQuota namespace_ name =>
    simp only [resolve,Choice.answer]
    split
    · have performed : Acts (fun op => op.isRedis = false) w _ _ _ := .done (.getQuota namespace_ name)
      cases found : w.quota namespace_ name with
      | none => simpa only [perform,found,Except.map] using performed
      | some q =>
        simp only [perform,found,Except.map]
        obtain ⟨_,home,named⟩ := seen_cases x w.past q
        have is := List.find?_some found
        simp only [Bool.and_eq_true,decide_eq_true_eq] at is
        exact .staleQuota (seen_mem x (List.mem_of_find?_eq_some found)) (by rw [home]; exact is.1)
          (by rw [named]; exact is.2)
    · exact .refused rfl rfl
  | listQuotas =>
    simp only [resolve,Choice.answer]
    split
    · refine .staleQuotas ?_
      intro q member
      obtain ⟨q',stored,rfl⟩ := List.mem_map.mp member
      exact seen_mem x stored
    · exact .refused rfl rfl
  | updateQuotaStatus quota =>
    simp only [resolve]
    split
    · exact .done _
    · split
      · exact .unheard rfl rfl
      · exact .refused rfl rfl
  | _ => exact .done _

/-- The event of a move. -/
def eventOf (c : State ι) : Move ι → List (Event Op Reply ι)
  | .step i x => match c.prog i with
    | .call op _ => [⟨i,op,(resolve x op c.shared).1⟩]
    | .ret _ => []
  | _ => []

/-- The events of a run, the newest first. -/
def record (D : Deployment ι) (c : State ι) : List (Move ι) → List (Event Op Reply ι)
  | [] => []
  | m :: moves => record D (move D c m) moves ++ eventOf c m

/-- The trace and the world pass a test all along a run. -/
def along (D : Deployment ι) (test : List (Event Op Reply ι) → World → Bool) (c : State ι) (trace : List (Event Op Reply ι)) :
    List (Move ι) → Bool
  | [] => test trace c.shared
  | m :: moves => test trace c.shared && along D test (move D c m) (eventOf c m ++ trace) moves

/-- A state with the trace that led to it. -/
def State.behind (c : State ι) (trace : List (Event Op Reply ι)) : Config Op Reply ι (Traced Op Reply ι World) Local :=
  ⟨⟨c.shared,trace⟩,c.prog⟩

/-- Only calls of the API may fail. -/
abbrev redisUp (op : Op) : Prop := op.isRedis = false

private theorem move_step (D : Deployment ι) (c : State ι) (trace : List (Event Op Reply ι)) (m : Move ι) :
    (move D c m).behind (eventOf c m ++ trace) = c.behind trace ∨
      Step (D.system redisUp).traced (c.behind trace) ((move D c m).behind (eventOf c m ++ trace)) := by
  cases m with
  | message i msg =>
    simp only [move,eventOf]
    split
    · rename_i phase vars sent rests
      split
      · rename_i sendable
        exact .inr (.start rests (.message sendable))
      · exact .inl rfl
    · exact .inl rfl
  | pass i =>
    simp only [move,eventOf]
    split
    · rename_i rests
      exact .inr (.start rests .pass)
    · exact .inl rfl
  | step i x =>
    simp only [move,eventOf]
    cases stands : c.prog i with
    | ret l => exact .inl rfl
    | call op next => exact .inr (.act stands ⟨resolve_acts x op c.shared,rfl⟩)
  | tick t =>
    simp only [move,eventOf]
    split
    · rename_i later
      exact .inr (.env ⟨.tick later,rfl⟩)
    · exact .inl rfl

private theorem along_first {D : Deployment ι} {test : List (Event Op Reply ι) → World → Bool} {c : State ι}
    {trace : List (Event Op Reply ι)} {moves : List (Move ι)} (passes : along D test c trace moves = true) :
    test trace c.shared = true := by
  cases moves with
  | nil => exact passes
  | cons m moves => exact (Bool.and_eq_true_iff.mp passes).1

/-- The states of a run are states that the system reaches. -/
theorem run_reach (D : Deployment ι) {test : List (Event Op Reply ι) → World → Bool}
    {legal : Config Op Reply ι (Traced Op Reply ι World) Local → Prop}
    (ok : ∀ trace w prog, test trace w = true → legal ⟨⟨w,trace⟩,prog⟩) {c : State ι} {trace : List (Event Op Reply ι)}
    {moves : List (Move ι)} (passes : along D test c trace moves = true) :
    Reach (D.system redisUp).traced legal (c.behind trace) ((run D c moves).behind (record D c moves ++ trace)) := by
  induction moves generalizing c trace with
  | nil => exact .refl (ok _ _ _ passes)
  | cons m moves ih =>
    obtain ⟨here,later⟩ := Bool.and_eq_true_iff.mp passes
    have rest := ih later
    rw [← List.append_assoc] at rest
    refine reach_trans ?_ rest
    rcases move_step D c trace m with same | step
    · rw [same]
      exact .refl (ok _ _ _ here)
    · exact .step (.refl (ok _ _ _ here)) step (ok _ _ _ (along_first later))

end Runs

/-! ### A schedule for samples -/

/-- Every call succeeds, and the caches are up to date. -/
def calm : Choice := ⟨0,none,fun _ _ => none⟩

/-- The next operations of a party. -/
def steps (i : ι) (n : Nat) : List (Move ι) := List.replicate n (.step i calm)

/-- A session sends the request with its token; its first operation is part of it. -/
def sends (i : ι) (token : String) : List (Move ι) :=
  [.message i (.requestHeaders [rawHeader "authorization" ("Bearer " ++ token)]),.step i calm,.message i (.requestBody chatRequest)]

/-- The answer of the backend comes. -/
def answered (i : ι) : List (Move ι) :=
  [.message i (.responseHeaders [rawHeader ":status" "200"]),.message i (.responseBody chatAnswer true)]

/-- The token of `alice`, with a limit on requests and the quota `basic`. -/
def aliceToken (namespace_ : KubeName) (token : String) (limit : Int) : ArksToken :=
  ⟨namespace_,.alice,token,[⟨"chat",[⟨.rpm,limit⟩],"basic"⟩]⟩

def basicQuota (namespace_ : KubeName) (limit : Int) : ArksQuota := ⟨namespace_,.basic,1,[⟨"total",limit⟩],[]⟩

/-- A gateway with these limits on requests and tokens, before anybody has begun. -/
def awaiting (requests tokens : Int) (role : ι → Local) : State ι :=
  ⟨.fresh [aliceToken .team "alice" requests] [chatEndpoint .team] [basicQuota .team tokens],fun i => .ret (role i)⟩

end Arks.Schedules
