import Arks.FixedWindows

/-!
Whether every counter of the limiter expires. `DoLimit` reads the time to live of a key, and
sets an expiry behind the increment when it found none. A key that was found with an expiry
may be gone before the increment, which then makes a new one without. A key without an
expiry is harmless while some call is sure to set one; so the counters expire in every run
in which each increment of a key that was found with an expiry still finds the key.
-/
namespace Arks.Expiries
open Programs Programs.Prog Counters Effects Services
open FixedWindows (Answers answers_acts)

/-! ### The callers -/

section Callers
variable {ι : Type} [DecidableEq ι] (c : RedisRateLimter)

/-- Any number of callers of `DoLimit`. Every command is a step of its own and succeeds,
    and time passes between the steps. -/
def callers : System Op Reply ι World (Except String Unit) where
  act _ op w r w' := Acts (fun _ => False) w op r w' ∧ Heard op r
  env := Passes
  start _ _ p := ∃ requests, p = c.doLimit requests

/-- A key of the limiter. -/
def RateKey (key : String) : Prop :=
  ∃ req rule now, c.config.getRule req.ruleName = some rule ∧ key = generateRateKey c.keyPrefix req rule now

/-- Every key of the limiter that exists has an expiry. -/
def Expiring (w : World) : Prop := ∀ key, RateKey c key → ∀ cell, w.cell key = some cell → cell.expireAt.isSome

/-- What a caller has read: whether it read a time to live since it read the clock, and the keys
    whose last time to live was not negative. -/
structure Reading where
  looked : Bool
  found : String → Bool

def observe (a : Reading) : (op : Op) → Reply op → Reading
  | .now _,_ => { a with looked := false }
  | .ttl key,.ok left => ⟨true,Function.update a.found key (decide (0 ≤ left))⟩
  | .ttl _,.error _ => { a with looked := true }
  | _,_ => a

/-- The part of `DoLimit` that reads. -/
def reading : Protocol Op Reply Reading where
  allowed _ op := (∀ key n, op ≠ .incrBy key n) ∧ (∀ key value, op ≠ .set key value) ∧ ∀ caller, op ≠ .now caller
  observe := observe

def readingOf (i : ι) (trace : List (Event Op Reply ι)) : Reading := observed reading ⟨false,fun _ => false⟩ i trace

/-- The caller's next step comes before it has read a time to live in this call. -/
def Early (a : Reading) (op : Op) : Prop := a.looked = false ∨ ∃ caller, op = .now caller

/-- The caller is between its first `TTL` and the end of its pipeline. -/
def Between (d : Config Op Reply ι (Traced Op Reply ι World) (Except String Unit)) (i : ι) : Prop :=
  ∃ op next, d.prog i = .call op next ∧ ¬ Early (readingOf i d.shared.trace) op

/-- A key that the caller's last `TTL` found with an expiry is still there when it is incremented. -/
def Prompt (i : ι) (s : Traced Op Reply ι World) (op : Op) : Prop :=
  ∀ key n, op = .incrBy key n → (readingOf i s.trace).found key = true → (s.state.cell key).isSome

/-- The callers when no key expires between a `TTL` that found it and the increment. -/
def promptCallers : System Op Reply ι (Traced Op Reply ι World) (Except String Unit) where
  act i op s r s' := (callers c).traced.act i op s r s' ∧ Prompt i s op
  env := (callers (ι := ι) c).traced.env
  start := (callers (ι := ι) c).traced.start

end Callers

/-! ### Keys without an expiry -/

/-- The key is there, and never expires. -/
def Bare (w : World) (key : String) : Prop := ∃ cell, w.cell key = some cell ∧ cell.expireAt = none

theorem expiring_iff {c : RedisRateLimter} {w : World} : Expiring c w ↔ ∀ key, RateKey c key → ¬ Bare w key := by
  constructor
  · rintro expiring key rate ⟨cell,there,never⟩
    have expires := expiring key rate cell there
    rw [never] at expires
    cases expires
  · intro none_bare key rate cell there
    rw [Option.isSome_iff_ne_none]
    exact fun never => none_bare key rate ⟨cell,there,never⟩

section Cells
variable {w w' : World} {key : String}

theorem cell_some {cell : Cell} : w.cell key = some cell ↔ w.redis key = some cell ∧ cell.live w.clock = true := by
  simp [World.cell,Option.filter_eq_some_iff]

theorem bare_iff : Bare w key ↔ ∃ cell, w.redis key = some cell ∧ cell.expireAt = none := by
  constructor
  · rintro ⟨cell,there,never⟩
    exact ⟨cell,(cell_some.mp there).1,never⟩
  · rintro ⟨cell,there,never⟩
    exact ⟨cell,cell_some.mpr ⟨there,by simp [Cell.live,never]⟩,never⟩

theorem bare_same (redis : w'.redis key = w.redis key) : Bare w' key ↔ Bare w key := by
  rw [bare_iff,bare_iff,redis]

/-- Time takes keys away, and nobody else touches Redis. -/
theorem passes_bare (passed : Passes w w') : Bare w' key ↔ Bare w key := by
  cases passed <;> exact bare_same rfl

private theorem incrBy_bare {k : String} {n : Int} (bare : Bare (perform (.incrBy k n) w).2 key) :
    Bare w key ∨ (key = k ∧ w.cell key = none) := by
  simp only [perform] at bare
  split at bare
  · by_cases same : key = k
    · subst same
      obtain ⟨cell,there,never⟩ := bare_iff.mp bare
      rw [show (World.put w key _).redis key = _ from Windows.put_same] at there
      cases there
      cases before : w.cell key with
      | none => exact .inr ⟨rfl,rfl⟩
      | some old =>
        rw [before] at never
        exact .inl ⟨old,before,never⟩
    · exact .inl ((bare_same (Windows.put_other same)).mp bare)
  · exact .inl bare

private theorem expire_bare {k : String} {seconds : Int} (bare : Bare (perform (.expire k seconds) w).2 key) :
    Bare w key ∧ key ≠ k := by
  simp only [perform] at bare
  split at bare
  · rename_i missing
    refine ⟨bare,?_⟩
    rintro rfl
    obtain ⟨cell,there,_⟩ := bare
    rw [missing] at there
    cases there
  · by_cases same : key = k
    · subst same
      obtain ⟨cell,there,never⟩ := bare_iff.mp bare
      rw [Windows.put_same] at there
      split at there
      · cases there
      · cases there
        cases never
    · exact ⟨(bare_same (Windows.put_other same)).mp bare,same⟩

/-- A key without an expiry was one before, or was made by an increment; an `EXPIRE` leaves none. -/
theorem acts_bare {op : Op} {r : Reply op} (act : Acts (fun _ => False) w op r w') (heard : Heard op r)
    (unset : ∀ value, op ≠ .set key value) (bare : Bare w' key) :
    (Bare w key ∧ ∀ seconds, op ≠ .expire key seconds) ∨ ∃ n, op = .incrBy key n ∧ w.cell key = none := by
  cases redis : op.isRedis with
  | false =>
    refine .inl ⟨(bare_same (congrFun (acts_aside act redis).1 key)).mp bare,?_⟩
    rintro seconds rfl
    cases redis
  | true =>
    obtain ⟨rfl,rfl⟩ := acts_heard act heard redis
    cases op with
    | get k =>
      refine .inl ⟨?_,by simp⟩
      simp only [perform] at bare
      split at bare <;> exact bare
    | ttl k => exact .inl ⟨bare,by simp⟩
    | set k value =>
      have other : key ≠ k := fun same => unset value (by rw [same])
      exact .inl ⟨(bare_same (Windows.put_other other)).mp bare,by simp⟩
    | incrBy k n =>
      rcases incrBy_bare bare with before | ⟨rfl,missing⟩
      · exact .inl ⟨before,by simp⟩
      · exact .inr ⟨n,rfl,missing⟩
    | expire k seconds =>
      obtain ⟨before,other⟩ := expire_bare bare
      refine .inl ⟨before,?_⟩
      rintro seconds' wrong
      cases wrong
      exact other rfl
    | _ => cases redis

end Cells

/-! ### What a call is sure to do -/

/-- The operation sets the expiry of the key. -/
def Expires (key : String) (op : Op) : Prop := ∃ seconds, op = .expire key seconds

/-- Behind every increment of a key that was not found with an expiry the call is sure to set one,
    and before it has read a time to live it is sure to set none. -/
def Covers {α : Type} : Action α → Reading → Prop
  | .ret _,_ => True
  | .call op next,a => (∀ key value, op ≠ .set key value) ∧
      (∀ key n, op = .incrBy key n → a.found key = false → ∀ r, Answers op r → Surely Answers (Expires key) (next r)) ∧
      (Early a op → ∀ key, ¬ Surely Answers (Expires key) (.call op next)) ∧
      ∀ r, Answers op r → Covers (next r) (observe a op r)

section Programs
variable {α β : Type} {a : Reading}

theorem covers_map {p : Action α} {f : α → Action β} (values : ∀ v, ∃ x, f v = .ret x) (covers : Covers p a) : Covers
    (p >>= f) a := by
  induction p generalizing a with
  | ret value =>
    obtain ⟨x,ends⟩ := values value
    show Covers (f value) a
    rw [ends]
    trivial
  | call op next ih =>
    obtain ⟨unset,sets,early,rest⟩ := covers
    refine ⟨unset,?_,?_,fun r possible => ih r (rest r possible)⟩
    · exact fun key n is missing r possible => surely_bind (sets key n is missing r possible)
    · exact fun is key sure => early is key (surely_map (p := .call op next) values sure)

/-- A part that only reads, once a time to live was read. -/
theorem covers_read {Q : Reading → α → Prop} {p : Action α} {f : α → Action β} (follows : Follows Answers reading Q p a)
    (looked : a.looked = true) (rest : ∀ b v, Q b v → b.looked = true → Covers (f v) b) : Covers (p >>= f) a := by
  induction p generalizing a with
  | ret value => exact rest a value follows looked
  | call op next ih =>
    obtain ⟨⟨unincremented,unset,unclocked⟩,later⟩ := follows
    refine ⟨unset,fun key n is => absurd is (unincremented key n),?_,fun r possible => ?_⟩
    · rintro (wrong | ⟨caller,is⟩)
      · rw [looked] at wrong
        cases wrong
      · exact absurd is (unclocked caller)
    · refine ih r (later r possible) ?_
      show (observe a op r).looked = true
      cases op with
      | now caller => exact absurd rfl (unclocked caller)
      | ttl key => cases r <;> rfl
      | _ => exact looked

end Programs

variable {cmds : List LimitCmd}

section Calls
variable {c : RedisRateLimter} {now : Int} {a : Reading}

/-- Every increment of a key that was not found with an expiry has an `EXPIRE` behind it. -/
def Paired (found : String → Bool) : List LimitCmd → Prop
  | [] => True
  | .incrBy key _ :: cmds => (found key = false → ∃ seconds, .expire key seconds ∈ cmds) ∧ Paired found cmds
  | .expire _ _ :: cmds => Paired found cmds

theorem paired_expires {found : String → Bool} {key : String} (paired : Paired found cmds) :
    ∀ expiry : List Int, Paired found (expiry.map (.expire key) ++ cmds)
  | [] => paired
  | _ :: expiry => paired_expires paired expiry

private theorem expireCmds_expires {P : Op → Prop} (draw : ∀ bound, P (.random bound)) (rule : LimitRuleConfig) (key : String)
    (left : Int) :
    Within Answers P (fun cmds => ∃ expiry : List Int, cmds = expiry.map (.expire key) ∧ (left < 0 → expiry ≠ []))
      (c.expireCmds rule key left) := by
  unfold RedisRateLimter.expireCmds RedisRateLimter.expiration
  by_cases fresh : left < 0
  · by_cases jitters : 0 < c.jitter
    · simp only [fresh,jitters,if_true,issue_bind,call_bind,within_call]
      exact ⟨draw _,fun extra _ => ⟨[_],rfl,by simp⟩⟩
    · simp only [fresh,jitters,if_true,if_false]
      exact ⟨[_],rfl,by simp⟩
  · simp only [fresh,if_false]
    exact ⟨[],rfl,fun wrong => wrong.elim⟩

/-- What the reads leave to be run: the commands are paired, and a key that was found with an expiry before
    and without one later has an `EXPIRE` among them. -/
structure Planned (a b : Reading) (cmds : List LimitCmd) : Prop where
  paired : Paired b.found cmds
  lost : ∀ key, a.found key = true → b.found key = false → ∃ seconds, .expire key seconds ∈ cmds

/-- One more request ahead of what is planned. -/
theorem planned_cons {b : Reading} {key : String} {left n : Int} {expiry : List Int}
    (planned : Planned (observe a (.ttl key) (.ok left)) b cmds) (sets : left < 0 → expiry ≠ []) :
    Planned a b (.incrBy key n :: expiry.map (.expire key) ++ cmds) := by
  -- the last time to live of the key decides whether somebody sets it an expiry
  have own : b.found key = false → ∃ seconds, .expire key seconds ∈ expiry.map (.expire key) ++ cmds := by
    intro missing
    by_cases fresh : left < 0
    · obtain ⟨seconds,rest,rfl⟩ := List.exists_cons_of_ne_nil (sets fresh)
      exact ⟨seconds,by simp⟩
    · have seen : (observe a (.ttl key) (.ok left)).found key = true := by
        simp only [observe,Function.update_self,decide_eq_true_eq]
        omega
      obtain ⟨seconds,is⟩ := planned.lost key seen missing
      exact ⟨seconds,List.mem_append_right _ is⟩
  refine ⟨⟨own,paired_expires planned.paired expiry⟩,fun other seen missing => ?_⟩
  by_cases same : other = key
  · subst same
    obtain ⟨seconds,is⟩ := own missing
    exact ⟨seconds,.tail _ is⟩
  · have still : (observe a (.ttl key) (.ok left)).found other = true := by
      simpa only [observe,Function.update_of_ne same] using seen
    obtain ⟨seconds,is⟩ := planned.lost other still missing
    exact ⟨seconds,.tail _ (List.mem_append_right _ is)⟩

private theorem queueLimits_follows (requests : List RateLimitRequest) :
    Follows Answers reading (fun b queued => ∃ cmds, queued = .ok cmds ∧ Planned a b cmds) (c.queueLimits now requests) a := by
  induction requests generalizing a with
  | nil => exact ⟨[],rfl,trivial,fun key seen missing => by rw [seen] at missing; cases missing⟩
  | cons req requests ih =>
    rw [RedisRateLimter.queueLimits]
    cases known : c.config.getRule req.ruleName with
    | none => exact ih
    | some rule =>
      simp only [issue_bind,follows_call]
      refine ⟨⟨by simp,by simp,by simp⟩,fun read told => ?_⟩
      obtain ⟨left,rfl⟩ := told
      have draws : ∀ bound, reading.Unseen (.random bound) := fun bound b => ⟨⟨by simp,by simp,by simp⟩,fun _ => rfl⟩
      refine follows_bind (follows_unseen (expireCmds_expires draws rule _ left)) ?_
      rintro _ _ ⟨rfl,expiry,rfl,sets⟩
      refine follows_bind ih ?_
      rintro b _ ⟨cmds,rfl,planned⟩
      exact ⟨_,rfl,planned_cons planned sets⟩

/-- A queued `EXPIRE` is sure to be sent. -/
theorem runLimits_surely {key : String} {seconds : Int} (queued : .expire key seconds ∈ cmds) :
    Surely Answers (Expires key) (runLimits cmds) := by
  induction cmds with
  | nil => simp at queued
  | cons cmd cmds ih =>
    cases cmd with
    | incrBy k n =>
      have later : .expire key seconds ∈ cmds := by simpa using queued
      simp only [runLimits,issue_bind]
      exact .inr (fun _ _ => surely_bind (ih later))
    | expire k s =>
      simp only [runLimits,issue_bind]
      rcases List.mem_cons.mp queued with same | later
      · cases same
        exact .inl ⟨seconds,rfl⟩
      · exact .inr (fun _ _ => surely_bind (ih later))

private theorem runLimits_covers (looked : a.looked = true) (paired : Paired a.found cmds) : Covers (runLimits cmds) a := by
  have late : ∀ op, (∀ caller, op ≠ .now caller) → ¬ Early a op := by
    rintro op unclocked (wrong | ⟨caller,is⟩)
    · rw [looked] at wrong
      cases wrong
    · exact unclocked caller is
  induction cmds with
  | nil => trivial
  | cons cmd cmds ih =>
    cases cmd with
    | incrBy key n =>
      simp only [runLimits,issue_bind]
      refine ⟨by simp,?_,fun early => absurd early (late _ (by simp)),fun _ _ => covers_map (fun _ => ⟨_,rfl⟩) (ih paired.2)⟩
      rintro key' n' same missing r _
      cases same
      obtain ⟨seconds,queued⟩ := paired.1 missing
      exact surely_bind (runLimits_surely queued)
    | expire key seconds =>
      simp only [runLimits,issue_bind]
      exact ⟨by simp,by simp,fun early => absurd early (late _ (by simp)),fun _ _ => covers_map (fun _ => ⟨_,rfl⟩) (ih paired)⟩

/-- The replies of a Redis in which every key has an expiry. -/
def calm : (op : Op) → Reply op
  | .ttl _ => .ok 0
  | op => (perform op (World.fresh [] [] [])).1

private theorem calm_answers (op : Op) : Answers op (calm op) := by
  cases op with
  | random bound => exact ⟨le_refl _,fun positive => positive⟩
  | ttl key => exact ⟨0,rfl⟩
  | get key =>
    intro message wrong
    cases wrong
  | _ => trivial

private theorem queueLimits_calm (requests : List RateLimitRequest) :
    Within (fun op r => r = calm op) (fun op => ∀ key, ¬ Expires key op)
      (fun queued => ∀ cmds, queued = .ok cmds → ∀ cmd ∈ cmds, ∀ key, ¬ Expires key cmd.op) (c.queueLimits now requests) := by
  induction requests with
  | nil =>
    rintro _ ⟨⟩
    simp
  | cons req requests ih =>
    rw [RedisRateLimter.queueLimits]
    cases known : c.config.getRule req.ruleName with
    | none => exact ih
    | some rule =>
      simp only [issue_bind,within_call]
      refine ⟨by simp [Expires],?_⟩
      rintro _ rfl
      have none_set : Within (fun op r => r = calm op) (fun op => ∀ key, ¬ Expires key op) (fun cmds => cmds = [])
          (c.expireCmds rule (generateRateKey c.keyPrefix req rule (unix now)) 0) := by
        simp [RedisRateLimter.expireCmds]
      refine within_bind none_set ?_
      rintro _ rfl
      refine within_bind ih (fun queued quiet => ?_)
      cases queued with
      | error e => simp
      | ok cmds =>
        rintro _ ⟨⟩ cmd is key
        rcases List.mem_cons.mp is with rfl | is
        · simp [Expires,LimitCmd.op]
        · exact quiet cmds rfl cmd (by simpa using is) key

/-- The rest of a call behind its clock. -/
def fromClock (c : RedisRateLimter) (now : Int) (requests : List RateLimitRequest) : Action (Except String Unit) := do
  match ← c.queueLimits now requests with
  | .error e => pure (.error e)
  | .ok cmds => do
    let err ← runLimits cmds
    pure (errorOr err)

private theorem doLimit_eq (c : RedisRateLimter) (requests : List RateLimitRequest) :
    c.doLimit requests = .call (.now (.doLimit requests)) (fun now => fromClock c now requests) := rfl

/-- Before it has read a time to live, a call may end without an `EXPIRE`. -/
theorem fromClock_unsure (requests : List RateLimitRequest) (key : String) :
    ¬ Surely Answers (Expires key) (fromClock c now requests) := by
  refine not_surely calm_answers (within_bind (within_mono (queueLimits_calm requests) (fun _ quiet => quiet key)
    (fun _ quiet => quiet))
    (fun queued quiet => ?_))
  cases queued with
  | error e => trivial
  | ok cmds => exact within_bind (runLimits_within (fun cmd is => quiet cmds rfl cmd is key)) (fun _ _ => trivial)

private theorem queueLimits_first (c : RedisRateLimter) (now : Int) (requests : List RateLimitRequest) :
    c.queueLimits now requests = .ret (.ok []) ∨ ∃ key next, c.queueLimits now requests = .call (.ttl key) next := by
  induction requests with
  | nil => exact .inl rfl
  | cons req requests ih =>
    rw [RedisRateLimter.queueLimits]
    cases known : c.config.getRule req.ruleName with
    | none => exact ih
    | some rule => exact .inr ⟨_,_,rfl⟩

private theorem pipeline_covers {b : Reading} {queued : Except String (List LimitCmd)} (looked : b.looked = true)
    (planned : ∃ cmds, queued = .ok cmds ∧ Planned a b cmds) :
    Covers (match queued with
      | .error e => (pure (.error e) : Action (Except String Unit))
      | .ok cmds => runLimits cmds >>= fun err => pure (errorOr err)) b := by
  obtain ⟨cmds,rfl,planned⟩ := planned
  exact covers_map (fun _ => ⟨_,rfl⟩) (runLimits_covers looked planned.paired)

private theorem fromClock_covers (requests : List RateLimitRequest) : Covers (fromClock c now requests) a := by
  have unsure := @fromClock_unsure c now requests
  have follows := @queueLimits_follows c now a requests
  unfold fromClock at unsure ⊢
  rcases queueLimits_first c now requests with ends | ⟨key,next,reads⟩
  · rw [ends]
    trivial
  · rw [reads] at follows unsure ⊢
    refine ⟨by simp,by simp,fun _ => unsure,fun read told => ?_⟩
    obtain ⟨left,rfl⟩ := told
    exact covers_read (follows.2 _ ⟨left,rfl⟩) rfl (fun b queued planned looked => pipeline_covers looked planned)

private theorem doLimit_covers (c : RedisRateLimter) (requests : List RateLimitRequest) : Covers (c.doLimit requests) a := by
  rw [doLimit_eq]
  refine ⟨by simp,by simp,fun _ key sure => ?_,fun now _ => fromClock_covers requests⟩
  rcases sure with ⟨seconds,wrong⟩ | later
  · cases wrong
  · exact fromClock_unsure requests key (later (0 : Int) trivial)

end Calls

/-! ### Runs -/

section Runs
variable {ι : Type} [DecidableEq ι] {c : RedisRateLimter} {b d : Config Op Reply ι (Traced Op Reply ι World) (Except String Unit)}

/-- Somebody is sure to set the expiry of every key of the limiter that has none. -/
structure Covered (c : RedisRateLimter) (d : Config Op Reply ι (Traced Op Reply ι World) (Except String Unit)) : Prop where
  covers : ∀ i, Covers (d.prog i) (readingOf i d.shared.trace)
  pending : ∀ key, RateKey c key → Bare d.shared.state key → ∃ i, Surely Answers (Expires key) (d.prog i)

private theorem readingOf_cons (i : ι) (e : Event Op Reply ι) (trace : List (Event Op Reply ι)) :
    readingOf i (e :: trace) = if e.who = i then observe (readingOf i trace) e.op e.reply else readingOf i trace := rfl

private theorem covered_acts {i : ι} {op : Op} {next : Reply op → Action (Except String Unit)} {r : Reply op}
    {s : Traced Op Reply ι World}
    (covered : Covered c d) (at_i : d.prog i = .call op next) (act : (promptCallers c).act i op d.shared r s) :
    Covered c ⟨s,Function.update d.prog i (next r)⟩ := by
  obtain ⟨⟨⟨act,heard⟩,traced⟩,prompt⟩ := act
  have possible := answers_acts act heard
  have mine := covered.covers i
  rw [at_i] at mine
  obtain ⟨unset,sets,_,rest⟩ := mine
  constructor
  · intro j
    simp only [traced,readingOf_cons]
    by_cases same : i = j
    · subst same
      rw [if_pos rfl,Function.update_self]
      exact rest r possible
    · rw [if_neg same,Function.update_of_ne (Ne.symm same)]
      exact covered.covers j
  · intro key rate bare
    rcases acts_bare act heard (unset key) bare with ⟨before,kept⟩ | ⟨n,rfl,missing⟩
    · obtain ⟨j,sure⟩ := covered.pending key rate before
      refine ⟨j,?_⟩
      by_cases same : j = i
      · subst same
        rw [at_i] at sure
        show Surely Answers (Expires key) (Function.update d.prog j (next r) j)
        rw [Function.update_self]
        rcases sure with ⟨seconds,here⟩ | later
        · exact absurd here (kept seconds)
        · exact later r possible
      · show Surely Answers (Expires key) (Function.update d.prog i (next r) j)
        rwa [Function.update_of_ne same]
    · refine ⟨i,?_⟩
      show Surely Answers (Expires key) (Function.update d.prog i (next r) i)
      rw [Function.update_self]
      refine sets key n rfl ?_ r possible
      by_contra found
      have there := prompt key n rfl (by simpa using found)
      rw [missing] at there
      cases there

private theorem reach_covered (resting : ∀ i, ∃ l, b.prog i = .ret l) (expiring : Expiring c b.shared.state)
    (run : Reach (promptCallers c) (fun _ => True) b d) : Covered c d := by
  refine reach_invariant ⟨fun i => ?_,fun key rate bare => absurd bare (expiring_iff.mp expiring key rate)⟩ ?_ run
  · obtain ⟨l,rests⟩ := resting i
    rw [rests]
    trivial
  · intro d e _ covered move _
    cases move with
    | act at_i act => exact covered_acts covered at_i act
    | @start i l p rests begins =>
      obtain ⟨requests,rfl⟩ := begins
      constructor
      · intro j
        by_cases same : j = i
        · subst same
          simp only [Function.update_self]
          exact doLimit_covers c requests
        · simp only [Function.update_of_ne same]
          exact covered.covers j
      · intro key rate bare
        obtain ⟨j,sure⟩ := covered.pending key rate bare
        refine ⟨j,?_⟩
        have other : j ≠ i := by
          rintro rfl
          rw [rests] at sure
          exact sure
        simpa only [Function.update_of_ne other] using sure
    | env moved =>
      obtain ⟨passed,traced⟩ := moved
      refine ⟨fun i => ?_,fun key rate bare => covered.pending key rate ((passes_bare passed).mp bare)⟩
      rw [traced]
      exact covered.covers i

/-- In every run in which no key that a `TTL` found with an expiry is gone before the increment, the counters
    all have an expiry whenever no call is between its first `TTL` and the end of its pipeline. -/
theorem counters_expire (c : RedisRateLimter) (b d : Config Op Reply ι (Traced Op Reply ι World) (Except String Unit))
    (resting : ∀ i, ∃ l, b.prog i = .ret l) (expiring : Expiring c b.shared.state)
    (run : Reach (promptCallers c) (fun _ => True) b d) (idle : ∀ i, ¬ Between d i) : Expiring c d.shared.state := by
  have covered := reach_covered resting expiring run
  rw [expiring_iff]
  intro key rate bare
  obtain ⟨i,sure⟩ := covered.pending key rate bare
  have covers := covered.covers i
  cases at_i : d.prog i with
  | ret l =>
    rw [at_i] at sure
    exact sure
  | call op next =>
    rw [at_i] at covers sure
    have early : Early (readingOf i d.shared.trace) op := by
      by_contra late
      exact idle i ⟨op,next,at_i,late⟩
    exact covers.2.2.1 early key sure

end Runs

/-! ### Runs of one caller -/

open FixedWindows (limiter split_)

abbrev Callers := Config Op Reply Unit (Traced Op Reply Unit World) (Except String Unit)

/-- Nobody has called, and Redis is empty. -/
def untouched : Callers := ⟨⟨World.fresh [] [] [],[]⟩,fun _ => .ret (.ok ())⟩

/-- The caller's next step, carried out. -/
def stepped (d : Callers) (op : Op) (next : Reply op → Action (Except String Unit)) : Callers :=
  ⟨⟨(perform op d.shared.state).2,⟨(),op,(perform op d.shared.state).1⟩ :: d.shared.trace⟩,
    Function.update d.prog () (next (perform op d.shared.state).1)⟩

theorem step_done {b d : Callers} {op : Op} {next : Reply op → Action (Except String Unit)}
    (run : Reach (promptCallers limiter) (fun _ => True) b d) (at_i : d.prog () = .call op next)
    (heard : Heard op (perform op d.shared.state).1) (prompt : Prompt () d.shared op) :
    Reach (promptCallers limiter) (fun _ => True) b (stepped d op next) :=
  .step run (.act at_i ⟨⟨⟨.done op,heard⟩,rfl⟩,prompt⟩) trivial

/-- A run is one whether or not its steps are known to be prompt. -/
theorem reach_callers {b d : Callers} (run : Reach (promptCallers limiter) (fun _ => True) b d) :
    Reach (callers limiter).traced (fun _ => True) b d := by
  induction run with
  | refl ok => exact .refl ok
  | step _ move ok ih =>
    refine .step ih ?_ ok
    cases move with
    | act at_i act => exact .act at_i act.1
    | start rests begins => exact .start rests begins
    | env moved => exact .env moved

/-- The key of the sample in the first minute. -/
def splitKey : String := generateRateKey limiter.keyPrefix split_ ⟨"rpm",.request,1,.minute⟩ 0

private theorem splitKey_rate : RateKey limiter splitKey := ⟨split_,⟨"rpm",.request,1,.minute⟩,0,by decide,rfl⟩

/-- Redis behind one call at the start of the minute. -/
def counted : World := (exec perform (limiter.doLimit [split_]) (World.fresh [] [] [])).2

theorem counted_reached : ∃ d : Callers, Reach (promptCallers limiter) (fun _ => True) untouched d ∧
    (∃ l, d.prog () = .ret l) ∧ d.shared.state = counted := by
  have begun : Reach (promptCallers limiter) (fun _ => True) untouched _ :=
    .step (.refl trivial) (.start (i := ()) rfl ⟨[split_],rfl⟩) trivial
  have clocked := step_done begun rfl (fun redis => by cases redis) (fun _ _ wrong => by cases wrong)
  have looked := step_done clocked rfl (fun _ _ same => by cases same) (fun _ _ wrong => by cases wrong)
  have added := step_done looked rfl (fun _ _ same => by cases same) (fun _ _ same found => by cases same; cases found)
  have ended := step_done added rfl (fun _ _ same => by cases same) (fun _ _ wrong => by cases wrong)
  exact ⟨_,ended,⟨_,rfl⟩,rfl⟩

theorem idle_of_rest {d : Callers} (rests : ∃ l, d.prog () = .ret l) (i : Unit) : ¬ Between d i := by
  rintro ⟨op,next,at_i,_⟩
  obtain ⟨l,ends⟩ := rests
  cases at_i.symm.trans ends

/-- The counter of one call expires. -/
theorem counters_expire_once : Expiring limiter counted := by
  obtain ⟨d,run,rests,same⟩ := counted_reached
  rw [← same]
  refine counters_expire limiter untouched d (fun _ => ⟨_,rfl⟩) ?_ run (idle_of_rest rests)
  intro key _ cell there
  cases there

/-- A call reads the time to live at the start of the minute, and increments the key when it has expired. -/
theorem counter_stays : ∃ d : Callers, Reach (callers limiter).traced (fun _ => True) untouched d ∧ (∀ i, ¬ Between d i) ∧
    ¬ Expiring limiter d.shared.state := by
  obtain ⟨d,run,⟨l,rests⟩,same⟩ := counted_reached
  obtain ⟨⟨w,trace⟩,prog⟩ := d
  obtain rfl : w = counted := same
  obtain rfl : prog = fun _ => .ret l := funext (fun _ => rests)
  have begun := Reach.step (reach_callers run) (.start (i := ()) rfl ⟨[split_],rfl⟩) trivial
  have clocked : Reach (callers limiter).traced (fun _ => True) untouched _ := .step begun
    (.act (i := ()) (r := (0 : Int)) (s := ⟨counted,_⟩) rfl ⟨⟨.done _,fun redis => by cases redis⟩,rfl⟩) trivial
  have looked : Reach (callers limiter).traced (fun _ => True) untouched _ := .step clocked
    (.act (i := ()) (r := (.ok (60 * second) : Except RedisErr Int)) (s := ⟨counted,_⟩) rfl
      ⟨⟨.done _,fun _ _ same => by cases same⟩,rfl⟩) trivial
  have passed : (callers (ι := Unit) limiter).env counted { counted with clock := 61 * second } := Passes.tick (by decide)
  have later : Reach (callers limiter).traced (fun _ => True) untouched _ := .step looked
    (.env (s := ⟨{ counted with clock := 61 * second },_⟩) ⟨passed,rfl⟩) trivial
  have ended : Reach (callers limiter).traced (fun _ => True) untouched _ := .step later
    (.act (i := ()) (s := ⟨_,_⟩) rfl ⟨⟨.done _,fun _ _ same => by cases same⟩,rfl⟩) trivial
  refine ⟨_,ended,idle_of_rest ⟨_,rfl⟩,fun expiring => ?_⟩
  have expires := expiring splitKey splitKey_rate ⟨1,none⟩ rfl
  cases expires

end Arks.Expiries
