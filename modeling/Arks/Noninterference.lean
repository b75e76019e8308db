import Arks.Schedules
import Arks.Tenants

/-!
Namespaces do not interfere. A run of the gateway is a list of moves, and from the
moves alone the run follows. What a namespace sees of a run is the moves of its own
sessions and, of the quota passes, what they do for its own quotas. A gateway that
serves this namespace alone, given these moves, does the same to it as the shared
one. So two runs that look alike to a namespace leave it alike.
-/
namespace Arks.Noninterference
open Programs Programs.Prog Api Counters Effects Services Gateway Sessions Replicas
open Api.KubeName (team)
open RateSessions (Made)
open Tenants Schedules

variable {ι : Type}

/-! ### What a namespace sees -/

/-- The parties as namespace `N` sees them. -/
inductive Role
  | own | foreign | replica
deriving DecidableEq

variable (D : Deployment ι) (N : KubeName) (role : ι → Role)

/-- The operation of a pass concerns `N`: the list of quotas, a read of a key of `N`,
    and what follows such a read. -/
def Concerns (at_ : Bool) : Op → Prop
  | .listQuotas => True
  | .get key => Mine D N key
  | _ => at_ = true

open Classical in
/-- What `N` sees of a move: those of its sessions and passes, and when they happen. -/
noncomputable def sees (at_ : ι → Bool) (c : State ι) : Move ι → List (Move ι)
  | .message i msg => if role i = .own then [.message i msg] else []
  | .pass i => match c.prog i with
    | .ret .replica => [.pass i]
    | _ => []
  | .step i x => match c.prog i with
    | .call op _ =>
      if role i = .own ∨ role i = .replica ∧ Concerns D N (at_ i) op then [.tick c.shared.clock,.step i (x.part N)] else []
    | .ret _ => []
  | .tick _ => []

open Classical in
/-- Whether a pass is at a quota of `N` after an operation. -/
noncomputable def nextAt (at_ : Bool) : Op → Bool
  | .get key => decide (Mine D N key)
  | _ => at_

section Projection
variable [DecidableEq ι]

noncomputable def follow (at_ : ι → Bool) (c : State ι) : Move ι → ι → Bool
  | .step i _ => match c.prog i with
    | .call op _ => Function.update at_ i (nextAt D N (at_ i) op)
    | .ret _ => at_
  | _ => at_

noncomputable def project (at_ : ι → Bool) (c : State ι) : List (Move ι) → List (Move ι)
  | [] => []
  | m :: moves => sees D N role at_ c m ++ project (follow D N at_ c m) (move D c m) moves

end Projection

/-- The worlds of the shared gateway and of the one that serves `N` alone. -/
structure View (w t : World) : Prop where
  clock : t.clock ≤ w.clock
  tokens : t.tokens = w.tokens
  endpoints : t.endpoints = w.endpoints
  redis : ∀ key, Mine D N key → t.redis key = w.redis key
  quotas : t.quotas = part N w.quotas
  past : t.past = part N w.past
  timings : ∀ i, role i = .own → t.timings (D.requestID i) = w.timings (D.requestID i)
  buffers : ∀ i, role i = .own → t.buffers (D.requestID i) = w.buffers (D.requestID i)

variable {D N role} {w t : World}

variable {quotas : List ArksQuota} {p : Action Local}

theorem part_find {test : ArksQuota → Bool} (home : ∀ q, test q = true → q.namespace_ = N) :
    (part N quotas).find? test = quotas.find? test := by
  rw [part,List.find?_filter]
  congr 1
  funext q
  by_cases tested : test q = true
  · simp [tested,home q tested]
  · simp [tested]

theorem part_map_same {f : ArksQuota → ArksQuota} (home : ∀ q, (f q).namespace_ = q.namespace_) :
    part N (quotas.map f) = (part N quotas).map f := by
  simp only [part,List.filter_map]
  congr 1
  simp [Function.comp_def,home]

private theorem part_map_other {f : ArksQuota → ArksQuota}
    (home : ∀ q, (f q).namespace_ = q.namespace_) (away : ∀ q, q.namespace_ = N → f q = q) :
    part N (quotas.map f) = part N quotas := by
  rw [part_map_same home]
  have fixed : ∀ q ∈ part N quotas, f q = q := by
    intro q member
    exact away q (by simpa [part] using (List.mem_filter.mp member).2)
  rw [List.map_congr_left fixed,List.map_id']

theorem view_quota (view : View D N role w t) (name : String) : t.quota N name = w.quota N name := by
  unfold World.quota
  rw [view.quotas]
  refine part_find (fun q tested => ?_)
  simp only [Bool.and_eq_true,decide_eq_true_eq] at tested
  exact KubeName.ext tested.1

private theorem view_cell (view : View D N role w t) (clock : t.clock = w.clock) {key : String} (mine : Mine D N key) :
    t.cell key = w.cell key := by
  unfold World.cell
  rw [view.redis key mine,clock]

theorem view_put (view : View D N role w t) (key : String) (cell : Option Cell) :
    View D N role (w.put key cell) (t.put key cell) := by
  refine ⟨view.clock,view.tokens,view.endpoints,?_,view.quotas,view.past,view.timings,view.buffers⟩
  intro k mine
  simp only [World.put]
  split
  · rfl
  · exact view.redis k mine

theorem view_put_other (view : View D N role w t) {key : String} (other : ¬ Mine D N key) (cell : Option Cell) :
    View D N role (w.put key cell) t := by
  refine ⟨view.clock,view.tokens,view.endpoints,?_,view.quotas,view.past,view.timings,view.buffers⟩
  intro k mine
  have apart : k ≠ key := fun same => other (same ▸ mine)
  simp only [World.put,apart,if_false]
  exact view.redis k mine

/-- The log of increments is nobody's. -/
theorem view_logged (view : View D N role w t) (log log' : List (String × Int)) :
    View D N role { w with increments := log } { t with increments := log' } :=
  ⟨view.clock,view.tokens,view.endpoints,view.redis,view.quotas,view.past,view.timings,view.buffers⟩

variable {op : Op} {quota : ArksQuota}

/-- A command on a key of `N` does the same in both worlds. -/
theorem view_mine (view : View D N role w t) (clock : t.clock = w.clock) {key : String} (keyed : keyOf op = some key)
    (mine : Mine D N key) : (perform op t).1 = (perform op w).1 ∧ View D N role (perform op w).2 (perform op t).2 := by
  have cell := view_cell view clock mine
  cases op with
  | get k =>
    cases keyed
    simp only [perform,cell]
    split <;> exact ⟨rfl,view⟩
  | ttl k =>
    cases keyed
    refine ⟨?_,view⟩
    simp only [perform,ttlOf,cell,clock]
  | incrBy k n =>
    cases keyed
    have value : t.value key = w.value key := by simp only [World.value,cell]
    simp only [perform,cell,value]
    split
    · exact ⟨rfl,view_logged (view_put view key _) _ _⟩
    · exact ⟨rfl,view⟩
  | expire k seconds =>
    cases keyed
    simp only [perform,cell,clock]
    split
    · exact ⟨rfl,view⟩
    · exact ⟨rfl,view_put view key _⟩
  | set k value =>
    cases keyed
    exact ⟨rfl,view_put view key _⟩
  | _ => cases keyed

/-- A command on another key does nothing to `N`. -/
theorem view_other (view : View D N role w t) {key : String} (keyed : keyOf op = some key)
    (other : ¬ Mine D N key) : View D N role (perform op w).2 t := by
  cases op with
  | get k =>
    simp only [perform]
    split <;> exact view
  | ttl k => exact view
  | incrBy k n =>
    cases keyed
    simp only [perform]
    split
    · exact view_logged (view_put_other view other _) _ t.increments
    · exact view
  | expire k seconds =>
    cases keyed
    simp only [perform]
    split
    · exact view
    · exact view_put_other view other _
  | set k value =>
    cases keyed
    exact view_put_other view other _
  | _ => cases keyed

theorem seen_part (x : Choice) (past : List ArksQuota) {q : ArksQuota} (home : q.namespace_ = N) :
    (x.part N).seen (part N past) q = x.seen past q := by
  unfold Choice.seen
  simp only [Choice.part,home,if_true]
  split
  · rfl
  · rw [part_find]
    intro p tested
    simp only [decide_eq_true_eq] at tested
    exact tested.1

/-- The list of quotas, as `N` sees it. -/
theorem view_list (view : View D N role w t) (x : Choice) :
    (resolve (x.part N) .listQuotas t).1 = partReply N (resolve x .listQuotas w).1 := by
  have versions : t.quotas.map ((x.part N).seen t.past) = part N (w.quotas.map (x.seen w.past)) := by
    rw [part_map_same (fun q => (seen_cases x w.past q).2.1),view.quotas,view.past]
    refine List.map_congr_left (fun q member => seen_part x w.past ?_)
    simpa [part] using (List.mem_filter.mp member).2
  simp only [resolve,Choice.answer,Choice.part] at versions ⊢
  split
  · exact congrArg Except.ok versions
  · rfl

private theorem view_replace (view : View D N role w t) {old : ArksQuota} (home : old.namespace_ = N)
    (same : quota.namespace_ = old.namespace_) : View D N role (w.replaceQuota old quota) (t.replaceQuota old quota) := by
  refine ⟨view.clock,view.tokens,view.endpoints,view.redis,?_,?_,view.timings,view.buffers⟩
  · simp only [World.replaceQuota,view.quotas]
    refine (part_map_same (fun q => ?_)).symm
    split
    · rename_i is
      rw [same,is]
    · rfl
  · simp [World.replaceQuota,view.past,part,home]

private theorem view_replace_other (view : View D N role w t) {old : ArksQuota} (away : old.namespace_ ≠ N)
    (same : quota.namespace_ = old.namespace_) : View D N role (w.replaceQuota old quota) t := by
  refine ⟨view.clock,view.tokens,view.endpoints,view.redis,?_,?_,view.timings,view.buffers⟩
  · rw [view.quotas]
    refine (part_map_other (fun q => ?_) (fun q home => ?_)).symm
    · split
      · rename_i is
        rw [same,is]
      · rfl
    · have apart : q ≠ old := fun is => away (is ▸ home)
      simp [apart]
  · simp [World.replaceQuota,view.past,part,away]

/-! ### Operations -/

theorem quota_home {ns name : String} {q : ArksQuota} (found : w.quota ns name = some q) : q.namespace_.val = ns := by
  have is := List.find?_some found
  simp only [Bool.and_eq_true,decide_eq_true_eq] at is
  exact is.1

/-- The same entry in both maps of timings. -/
theorem view_timing (view : View D N role w t) (id : String) (entry : Option ProcessingTime) :
    View D N role { w with timings := fun key => if key = id then entry else w.timings key }
      { t with timings := fun key => if key = id then entry else t.timings key } := by
  refine ⟨view.clock,view.tokens,view.endpoints,view.redis,view.quotas,view.past,fun j own => ?_,view.buffers⟩
  dsimp only
  split
  · rfl
  · exact view.timings j own

/-- The same entry in both maps of buffers. -/
theorem view_buffer (view : View D N role w t) (id : String) (entry : Option Bytes) :
    View D N role { w with buffers := fun key => if key = id then entry else w.buffers key }
      { t with buffers := fun key => if key = id then entry else t.buffers key } := by
  refine ⟨view.clock,view.tokens,view.endpoints,view.redis,view.quotas,view.past,view.timings,fun j own => ?_⟩
  dsimp only
  split
  · rfl
  · exact view.buffers j own

/-- An operation of a session of `N` does the same in both worlds. -/
theorem view_own (view : View D N role w t) (clock : t.clock = w.clock) {i : ι} (own : role i = .own)
    (touches : Touches D N (role i = .own) (D.requestID i) op) (x : Choice) :
    (resolve (x.part N) op t).1 = (resolve x op w).1 ∧ View D N role (resolve x op w).2 (resolve (x.part N) op t).2 := by
  cases op with
  | now caller => exact ⟨clock,view⟩
  | random bound => exact ⟨rfl,view⟩
  | get key | ttl key | incrBy key _ | expire key _ => exact view_mine view clock rfl (touches.mpr own)
  | listTokens token =>
    refine ⟨?_,view⟩
    simp only [resolve,perform,view.tokens]
    rfl
  | listEndpoints ns =>
    refine ⟨?_,view⟩
    simp only [resolve,perform,view.endpoints]
    rfl
  | getQuota ns name =>
    refine ⟨?_,view⟩
    have home : ns = N.val := touches.mpr own
    subst home
    simp only [resolve,perform,view_quota view]
    cases found : w.quota N name with
    | none => rfl
    | some q =>
      simp only [Except.map,view.past,seen_part x w.past (KubeName.ext (quota_home found))]
      rfl
  | record metric => exact ⟨rfl,view⟩
  | loadTiming id =>
    cases touches
    simp only [resolve,perform,view.timings i own]
    exact ⟨trivial,view_timing view _ _⟩
  | storeTiming id _ | deleteTiming id => exact ⟨rfl,view_timing view _ _⟩
  | writeBuffer id data =>
    cases touches
    simp only [resolve,perform,view.buffers i own]
    exact ⟨trivial,view_buffer view _ _⟩
  | deleteBuffer id => exact ⟨rfl,view_buffer view _ _⟩
  | set _ _ | listQuotas | updateQuotaStatus _ => exact touches.elim

/-- An operation of another session does nothing to `N`. -/
theorem view_foreign (view : View D N role w t) {i : ι} (foreign : role i ≠ .own)
    (apart : ∀ j, role j = .own → D.requestID j ≠ D.requestID i)
    (touches : Touches D N (role i = .own) (D.requestID i) op) (x : Choice) : View D N role (resolve x op w).2 t := by
  cases op with
  | now _ | random _ | listTokens _ | listEndpoints _ | getQuota _ _ | record _ => exact view
  | get key | ttl key | incrBy key _ | expire key _ => exact view_other view rfl (fun mine => foreign (touches.mp mine))
  | loadTiming id | storeTiming id _ | deleteTiming id =>
    cases touches
    refine ⟨view.clock,view.tokens,view.endpoints,view.redis,view.quotas,view.past,?_,view.buffers⟩
    intro j own
    simp only [resolve,perform,apart j own,if_false]
    exact view.timings j own
  | writeBuffer id _ | deleteBuffer id =>
    cases touches
    refine ⟨view.clock,view.tokens,view.endpoints,view.redis,view.quotas,view.past,view.timings,?_⟩
    intro j own
    simp only [resolve,perform,apart j own,if_false]
    exact view.buffers j own
  | set _ _ | listQuotas | updateQuotaStatus _ => exact touches.elim

/-- A write to the status of a quota of `N`. -/
theorem view_status (view : View D N role w t) (home : quota.namespace_ = N) :
    (perform (.updateQuotaStatus quota) t).1 = (perform (.updateQuotaStatus quota) w).1 ∧
      View D N role (perform (.updateQuotaStatus quota) w).2 (perform (.updateQuotaStatus quota) t).2 := by
  have stored : t.quota quota.namespace_ quota.name = w.quota quota.namespace_ quota.name := by
    rw [home]
    exact view_quota view _
  simp only [perform,stored]
  cases found : w.quota quota.namespace_ quota.name with
  | none => exact ⟨rfl,view⟩
  | some q =>
    dsimp only
    split
    · exact ⟨rfl,view_replace view ((KubeName.ext (quota_home found)).trans home) rfl⟩
    · exact ⟨rfl,view⟩

private theorem view_status_other (view : View D N role w t) (away : quota.namespace_ ≠ N) :
    View D N role (perform (.updateQuotaStatus quota) w).2 t := by
  simp only [perform]
  cases found : w.quota quota.namespace_ quota.name with
  | none => exact view
  | some q =>
    dsimp only
    split
    · exact view_replace_other view (fun home => away ((KubeName.ext (quota_home found)).symm.trans home)) rfl
    · exact view

/-- What a pass does for a quota of `N` is the same in both worlds. -/
theorem view_pass (view : View D N role w t) (clock : t.clock = w.clock) (touches : PassTouches D N true op) (x : Choice) :
    (resolve (x.part N) op t).1 = (resolve x op w).1 ∧ View D N role (resolve x op w).2 (resolve (x.part N) op t).2 := by
  cases op with
  | now caller => exact ⟨clock,view⟩
  | get key | set key _ => exact view_mine view clock rfl (touches.mpr rfl)
  | updateQuotaStatus quota =>
    have written := view_status view (touches.mpr rfl)
    simp only [resolve,Choice.part]
    split
    · exact written
    · refine ⟨rfl,?_⟩
      dsimp only
      split
      · exact written.2
      · exact view
  | _ => exact touches.elim

private theorem view_pass_other (view : View D N role w t) (touches : PassTouches D N false op) (x : Choice) :
    View D N role (resolve x op w).2 t := by
  have away : ∀ {P : Prop}, (P ↔ false = true) → ¬ P := fun iff holds => Bool.false_ne_true (iff.mp holds)
  cases op with
  | now caller => exact view
  | get key | set key _ => exact view_other view rfl (away touches)
  | updateQuotaStatus quota =>
    have written := view_status_other view (away touches)
    simp only [resolve]
    split
    · exact written
    · dsimp only
      split
      · exact written
      · exact view
  | _ => exact touches.elim

private theorem resolve_tokens (x : Choice) (op : Op) (w : World) : (resolve x op w).2.tokens = w.tokens := by
  have status : ∀ quota, (perform (.updateQuotaStatus quota) w).2.tokens = w.tokens := by
    intro quota
    simp only [perform]
    split
    · rfl
    · split <;> rfl
  cases op with
  | get key | incrBy key n | expire key n =>
    simp only [resolve,perform]
    split <;> rfl
  | updateQuotaStatus quota =>
    simp only [resolve]
    split
    · exact status quota
    · dsimp only
      split
      · exact status quota
      · rfl
  | _ => rfl

private theorem resolve_configured (x : Choice) (op : Op) (w : World) : Configured w.tokens op (resolve x op w).1 := by
  cases op with
  | listTokens token =>
    intro objs same
    simp only [resolve,perform,Choice.answer] at same
    split at same <;> cases same
    rfl
  | getQuota ns name =>
    intro q same
    simp only [resolve,perform,Choice.answer] at same
    split at same
    · cases found : w.quota ns name with
      | none =>
        rw [found] at same
        cases same
      | some stored =>
        rw [found] at same
        cases same
        rw [(seen_cases x w.past stored).2.1]
        exact quota_home found
    · cases same
  | _ => trivial

theorem part_ret {own : Bool} {l : Local} {q : Action Local}
    (part : Part D N own (.ret l) q) : l = .replica ∧ q = .ret .replica := by
  cases part
  exact ⟨rfl,rfl⟩

private theorem concerns_mine {own : Bool} (touches : PassTouches D N true op) (near : own = true ∨ ∃ key, op = .get key) :
    Concerns D N own op ∧ nextAt D N own op = true := by
  cases op with
  | get key =>
    have mine : Mine D N key := touches.mpr rfl
    exact ⟨mine,by simpa [nextAt] using mine⟩
  | listQuotas => exact touches.elim
  | _ =>
    rcases near with at_ | ⟨key,is⟩
    · exact ⟨at_,at_⟩
    · cases is

private theorem concerns_other {own : Bool} (touches : PassTouches D N false op) (near : own = false ∨ ∃ key, op = .get key) :
    ¬ Concerns D N own op ∧ nextAt D N own op = false := by
  cases op with
  | get key =>
    have other : ¬ Mine D N key := fun mine => Bool.false_ne_true (touches.mp mine)
    exact ⟨other,by simpa [nextAt] using other⟩
  | listQuotas => exact touches.elim
  | _ =>
    rcases near with at_ | ⟨key,is⟩
    · exact ⟨fun concerns => Bool.false_ne_true (at_.symm.trans concerns),at_⟩
    · cases is

private theorem view_ticked (view : View D N role w t) : View D N role w { t with clock := w.clock } :=
  ⟨le_refl _,view.tokens,view.endpoints,view.redis,view.quotas,view.past,view.timings,view.buffers⟩

/-! ### The two gateways side by side -/

variable (D N role)

/-- Where a run starts: the sessions are to come, and no pass is under way. -/
structure Initial (c : State ι) : Prop where
  sessions : ∀ i, role i ≠ .replica → c.prog i = .ret (.session .opening .initial [])
  replicas : ∀ i, role i = .replica → c.prog i = .ret .replica

/-- The sessions with a token of `N` are its own. -/
def Sorted (tokens : List ArksToken) (moves : List (Move ι)) : Prop :=
  ∀ i headers, .message i (.requestHeaders headers) ∈ moves → role i ≠ .replica →
    (ownerOf tokens (tokenOf headers) = some N ↔ role i = .own)

/-- The shared gateway and the one that serves `N` alone. -/
structure Sim (tokens : List ArksToken) (at_ : ι → Bool) (c t : State ι) : Prop where
  view : View D N role c.shared t.shared
  fixed : c.shared.tokens = tokens
  sessions : ∀ i, role i ≠ .replica → Within (Configured tokens) (Touches D N (role i = .own) (D.requestID i))
    (Stands N (role i = .own) tokens) (c.prog i)
  own : ∀ i, role i = .own → t.prog i = c.prog i
  passes : ∀ i, role i = .replica → Part D N (at_ i) (c.prog i) (t.prog i)

/-- The worlds are alike to `N`: the same configuration, its own quotas and counters,
    and its own entries in the maps of the process. -/
structure Agree (a b : World) : Prop where
  tokens : a.tokens = b.tokens
  endpoints : a.endpoints = b.endpoints
  redis : ∀ key, Mine D N key → a.redis key = b.redis key
  quotas : part N a.quotas = part N b.quotas
  past : part N a.past = part N b.past
  timings : ∀ i, role i = .own → a.timings (D.requestID i) = b.timings (D.requestID i)
  buffers : ∀ i, role i = .own → a.buffers (D.requestID i) = b.buffers (D.requestID i)

/-- A gateway that serves `N` alone. -/
def alone (clock : Int) (c : State ι) : State ι :=
  ⟨{ c.shared with clock := clock,quotas := part N c.shared.quotas,past := part N c.shared.past },c.prog⟩

variable {D N role}

theorem sim_alone {a b : State ι} (initial : Initial role a) (initial' : Initial role b)
    (agree : Agree D N role a.shared b.shared)
    {clock : Int} (earlier : clock ≤ b.shared.clock) :
    Sim D N role a.shared.tokens (fun _ => false) b (alone N clock a) := by
  refine ⟨⟨earlier,agree.tokens,agree.endpoints,agree.redis,agree.quotas,agree.past,agree.timings,agree.buffers⟩,
    agree.tokens.symm,?_,?_,?_⟩
  · intro i session
    rw [initial'.sessions i session]
    rfl
  · intro i own
    have session : role i ≠ .replica := by simp [own]
    exact (initial.sessions i session).trans (initial'.sessions i session).symm
  · intro i replica
    have rests : (alone N clock a).prog i = .ret .replica := initial.replicas i replica
    rw [rests,initial'.replicas i replica]
    exact .ret

theorem Agree.refl (w : World) : Agree D N role w w := ⟨rfl,rfl,fun _ _ => rfl,rfl,rfl,fun _ _ => rfl,fun _ _ => rfl⟩

theorem apart_of_role {i j : ι} {r r' : Role} (this : role i = r) (that : role j = r') (differ : r ≠ r') : j ≠ i := by
  rintro rfl
  exact differ (this.symm.trans that)

section Simulation
variable [DecidableEq ι] {tokens : List ArksToken} {at_ at' : ι → Bool} {c t : State ι} {i : ι}

theorem sessions_update (sim : Sim D N role tokens at_ c t)
    (within : Within (Configured tokens) (Touches D N (role i = .own) (D.requestID i)) (Stands N (role i = .own) tokens) p)
    (j : ι) (session : role j ≠ .replica) :
    Within (Configured tokens) (Touches D N (role j = .own) (D.requestID j)) (Stands N (role j = .own) tokens)
      (Function.update c.prog i p j) := by
  by_cases is : j = i
  · subst is
    simpa using within
  · simpa only [Function.update_of_ne is] using sim.sessions j session

/-- A session of `N` goes on in both gateways. -/
theorem sim_own (sim : Sim D N role tokens at_ c t) (own : role i = .own) {w' t' : World} (view : View D N role w' t')
    (fixed : w'.tokens = tokens) (within : Within (Configured tokens) (Touches D N (role i = .own) (D.requestID i))
      (Stands N (role i = .own) tokens) p) (same : ∀ j, role j = .replica → at' j = at_ j) :
    Sim D N role tokens at' ⟨w',Function.update c.prog i p⟩ ⟨t',Function.update t.prog i p⟩ := by
  refine ⟨view,fixed,sessions_update sim within,?_,?_⟩
  · intro j mine
    by_cases is : j = i
    · subst is
      simp
    · simpa only [Function.update_of_ne is] using sim.own j mine
  · intro j replica
    have is := apart_of_role own replica (by simp)
    simpa only [Function.update_of_ne is,same j replica] using sim.passes j replica

/-- Another session goes on, and `N` does not see it. -/
theorem sim_foreign (sim : Sim D N role tokens at_ c t) (foreign : role i = .foreign) {w' : World}
    (view : View D N role w' t.shared) (fixed : w'.tokens = tokens)
    (within : Within (Configured tokens) (Touches D N (role i = .own) (D.requestID i)) (Stands N (role i = .own) tokens) p)
    (same : ∀ j, role j = .replica → at' j = at_ j) : Sim D N role tokens at' ⟨w',Function.update c.prog i p⟩ t := by
  refine ⟨view,fixed,sessions_update sim within,?_,?_⟩
  · intro j mine
    have is := apart_of_role foreign mine (by simp)
    simpa only [Function.update_of_ne is] using sim.own j mine
  · intro j replica
    have is := apart_of_role foreign replica (by simp)
    simpa only [Function.update_of_ne is,same j replica] using sim.passes j replica

/-- A pass goes on, and `N` sees its part. -/
theorem sim_replica (sim : Sim D N role tokens at_ c t) (replica : role i = .replica) {w' t' : World}
    (view : View D N role w' t') (fixed : w'.tokens = tokens) {q : Action Local} (part : Part D N (at' i) p q)
    (same : ∀ j, j ≠ i → at' j = at_ j) :
    Sim D N role tokens at' ⟨w',Function.update c.prog i p⟩ ⟨t',Function.update t.prog i q⟩ := by
  refine ⟨view,fixed,?_,?_,?_⟩
  · intro j session
    have is : j ≠ i := by
      rintro rfl
      exact session replica
    simpa only [Function.update_of_ne is] using sim.sessions j session
  · intro j mine
    have is := apart_of_role replica mine (by simp)
    simpa only [Function.update_of_ne is] using sim.own j mine
  · intro j also
    by_cases is : j = i
    · subst is
      simpa using part
    · simpa only [Function.update_of_ne is,same j is] using sim.passes j also

private theorem sim_message (made : Made D.limiter) (sim : Sim D N role tokens at_ c t) {msg : ProcessingRequest}
    (owner : ∀ headers, msg = .requestHeaders headers → role i ≠ .replica →
      (ownerOf tokens (tokenOf headers) = some N ↔ role i = .own)) :
    Sim D N role tokens at_ (move D c (.message i msg)) (run D t (sees D N role at_ c (.message i msg))) := by
  have handled : ∀ {phase vars sent}, role i ≠ .replica → c.prog i = .ret (.session phase vars sent) → accepts phase msg = true →
      Within (Configured tokens) (Touches D N (role i = .own) (D.requestID i)) (Stands N (role i = .own) tokens)
        (D.handle i vars sent msg) := by
    intro phase vars sent session rests sendable
    have stands := sim.sessions i session
    rw [rests] at stands
    exact handle_touches made stands sendable (fun headers is => owner headers is session)
  cases kind : role i with
  | own =>
    have same := sim.own i kind
    simp only [sees,kind,if_true,run,move,same]
    split
    · rename_i phase vars sent rests
      split
      · rename_i sendable
        exact sim_own sim kind sim.view sim.fixed (handled (by simp [kind]) rests sendable) (fun _ _ => rfl)
      · exact sim
    · exact sim
  | foreign =>
    simp only [sees,kind,reduceCtorEq,if_false,run,move]
    split
    · rename_i phase vars sent rests
      split
      · rename_i sendable
        exact sim_foreign sim kind sim.view sim.fixed (handled (by simp [kind]) rests sendable) (fun _ _ => rfl)
      · exact sim
    · exact sim
  | replica =>
    simp only [sees,kind,reduceCtorEq,if_false,run,move]
    split
    · rename_i phase vars sent rests
      have part := sim.passes i kind
      rw [rests] at part
      cases (part_ret part).1
    · exact sim

private theorem sim_pass (sim : Sim D N role tokens at_ c t) :
    Sim D N role tokens at_ (move D c (.pass i)) (run D t (sees D N role at_ c (.pass i))) := by
  cases rests : c.prog i with
  | call op next =>
    simp only [sees,move,rests,run]
    exact sim
  | ret l =>
    cases l with
    | session _ _ _ | crashed =>
      simp only [sees,move,rests,run]
      exact sim
    | replica =>
      cases kind : role i with
      | replica =>
        have part := sim.passes i kind
        rw [rests] at part
        simp only [sees,rests,run,move,(part_ret part).2]
        exact sim_replica sim kind sim.view sim.fixed (part_pass _) (fun _ _ => rfl)
      | own | foreign =>
        have stands := sim.sessions i (by simp [kind])
        rw [rests] at stands
        exact stands.elim

/-- The clock of the gateway that serves `N` alone is set to that of the shared one. -/
theorem run_seen (sim : Sim D N role tokens at_ c t) (x : Choice) {op : Op} {next : Reply op → Action Local}
    (stands : t.prog i = .call op next) :
    let w := { t.shared with clock := c.shared.clock }
    run D t [.tick c.shared.clock,.step i x] = ⟨(resolve x op w).2,Function.update t.prog i (next (resolve x op w).1)⟩ := by
  simp only [run,move,sim.view.clock,if_true,stands]

theorem follow_other (x : Choice) (j : ι) (other : j ≠ i) : follow D N at_ c (.step i x) j = at_ j := by
  cases stands : c.prog i with
  | ret l => simp only [follow,stands]
  | call op next => simp only [follow,stands,Function.update_of_ne other]

theorem follow_same (x : Choice) {op : Op} {next : Reply op → Action Local} (stands : c.prog i = .call op next) :
    follow D N at_ c (.step i x) i = nextAt D N (at_ i) op := by
  simp only [follow,stands,Function.update_self]

private theorem sim_step (apart : ∀ i j, role i = .own → role j ≠ .own → D.requestID i ≠ D.requestID j)
    (sim : Sim D N role tokens at_ c t) (x : Choice) :
    Sim D N role tokens (follow D N at_ c (.step i x)) (move D c (.step i x)) (run D t (sees D N role at_ c (.step i x))) := by
  have elsewhere : ∀ j, role j = .replica → role i ≠ .replica → follow D N at_ c (.step i x) j = at_ j := by
    intro j replica session
    exact follow_other x j (fun is => session (is ▸ replica))
  cases stands : c.prog i with
  | ret l =>
    simp only [follow,sees,move,stands]
    exact sim
  | call op next =>
    have fixed : (resolve x op c.shared).2.tokens = tokens := (resolve_tokens x op c.shared).trans sim.fixed
    have answered := resolve_configured x op c.shared
    rw [sim.fixed] at answered
    have ticked := view_ticked sim.view
    cases kind : role i with
    | own =>
      have within := sim.sessions i (by simp [kind])
      rw [stands] at within
      have same := (sim.own i kind).trans stands
      obtain ⟨replies,view⟩ := view_own ticked rfl kind within.1 x
      simp only [sees,stands,kind,true_or,if_true,run_seen sim (x.part N) same,replies]
      simp only [move,stands]
      exact sim_own sim kind view fixed (within.2 _ answered) (fun j replica => elsewhere j replica (by simp [kind]))
    | foreign =>
      have within := sim.sessions i (by simp [kind])
      rw [stands] at within
      have view := view_foreign sim.view (by simp [kind]) (fun j own => apart j i own (by simp [kind])) within.1 x
      simp only [sees,stands,kind,reduceCtorEq,false_and,or_self,if_false,run]
      simp only [move,stands]
      exact sim_foreign sim kind view fixed (within.2 _ answered) (fun j replica => elsewhere j replica (by simp [kind]))
    | replica =>
      have part := sim.passes i kind
      rw [stands] at part
      generalize shown : t.prog i = q at part
      cases part with
      | list rest =>
        have replies := view_list ticked x
        simp only [sees,stands,kind,reduceCtorEq,Concerns,and_self,or_true,if_true,run_seen sim (x.part N) shown,replies]
        simp only [move,stands]
        exact sim_replica sim kind ticked sim.fixed (rest _ _) (follow_other x)
      | mine touches near rest =>
        obtain ⟨replies,view⟩ := view_pass ticked rfl touches x
        obtain ⟨concerns,after⟩ := concerns_mine touches near
        simp only [sees,stands,kind,concerns,and_self,or_true,if_true,run_seen sim (x.part N) shown,replies]
        simp only [move,stands]
        refine sim_replica sim kind view fixed ?_ (follow_other x)
        rw [follow_same x stands,after]
        exact rest _
      | other touches near rest =>
        have view := view_pass_other sim.view touches x
        obtain ⟨unseen,after⟩ := concerns_other touches near
        simp only [sees,stands,kind,reduceCtorEq,unseen,and_false,or_self,if_false,run]
        simp only [move,stands]
        have part : Part D N (follow D N at_ c (.step i x) i) (next (resolve x op c.shared).1) (t.prog i) := by
          rw [follow_same x stands,after,shown]
          exact rest _
        simpa using sim_replica sim kind view fixed part (follow_other x)

private theorem sim_tick (sim : Sim D N role tokens at_ c t) (now : Int) : Sim D N role tokens at_ (move D c (.tick now)) t := by
  simp only [move]
  split
  · rename_i later
    exact ⟨⟨sim.view.clock.trans later,sim.view.tokens,sim.view.endpoints,sim.view.redis,sim.view.quotas,sim.view.past,
      sim.view.timings,sim.view.buffers⟩,sim.fixed,sim.sessions,sim.own,sim.passes⟩
  · exact sim

/-- The gateway that serves `N` alone keeps up with the shared one. -/
theorem sim_run (made : Made D.limiter) (apart : ∀ i j, role i = .own → role j ≠ .own → D.requestID i ≠ D.requestID j)
    (sim : Sim D N role tokens at_ c t) {moves : List (Move ι)} (sorted : Sorted N role tokens moves) :
    ∃ at', Sim D N role tokens at' (run D c moves) (run D t (project D N role at_ c moves)) := by
  induction moves generalizing at_ c t with
  | nil => exact ⟨at_,sim⟩
  | cons m moves ih =>
    have later : Sorted N role tokens moves := fun i headers member => sorted i headers (.tail _ member)
    have next : Sim D N role tokens (follow D N at_ c m) (move D c m) (run D t (sees D N role at_ c m)) := by
      cases m with
      | message i msg =>
        refine sim_message made sim ?_
        rintro headers rfl session
        exact sorted i headers (.head _) session
      | pass i => exact sim_pass sim
      | step i x => exact sim_step apart sim x
      | tick now => exact sim_tick sim now
    simp only [run,project,run_append]
    exact ih next later

/-- Two runs from worlds that are alike to `N`, with the same moves as far as `N` sees
    them, leave its sessions and its counters the same. -/
theorem tenants_do_not_interfere (made : Made D.limiter)
    (apart : ∀ i j, role i = .own → role j ≠ .own → D.requestID i ≠ D.requestID j) {a b : State ι} (initial : Initial role a)
    (initial' : Initial role b) (agree : Agree D N role a.shared b.shared) {moves moves' : List (Move ι)}
    (sorted : Sorted N role a.shared.tokens moves) (sorted' : Sorted N role b.shared.tokens moves')
    (same : project D N role (fun _ => false) a moves = project D N role (fun _ => false) b moves') :
    (∀ i, role i = .own → (run D a moves).prog i = (run D b moves').prog i) ∧
      ∀ key, Mine D N key → (run D a moves).shared.redis key = (run D b moves').shared.redis key := by
  rw [← agree.tokens] at sorted'
  have simA := sim_alone initial initial (Agree.refl (D := D) (N := N) _) (min_le_left a.shared.clock b.shared.clock)
  have simB := sim_alone initial initial' agree (min_le_right a.shared.clock b.shared.clock)
  obtain ⟨atA,ranA⟩ := sim_run made apart simA sorted
  obtain ⟨atB,ranB⟩ := sim_run made apart simB sorted'
  rw [← same] at ranB
  refine ⟨fun i own => ?_,fun key mine => ?_⟩
  · rw [← ranA.own i own,← ranB.own i own]
  · rw [← ranA.view.redis key mine,← ranB.view.redis key mine]

end Simulation

/-! ### Two sessions -/

/-- Messages and undisturbed steps, for which what `N` sees can be computed. -/
def Undisturbed : Move ι → Prop
  | .message _ _ => True
  | .step _ x => x = calm
  | _ => False

/-- Which own session gets a message or takes a step, and when. -/
def shown (role : ι → Role) (c : State ι) : Move ι → List (ι × (ProcessingRequest ⊕ Int))
  | .message i msg => if role i = .own then [(i,.inl msg)] else []
  | .step i _ => match c.prog i with
    | .call _ _ => if role i = .own then [(i,.inr c.shared.clock)] else []
    | .ret _ => []
  | _ => []

def shows [DecidableEq ι] (D : Deployment ι) (role : ι → Role) (c : State ι) : List (Move ι) → List (ι × (ProcessingRequest ⊕ Int))
  | [] => []
  | m :: moves => shown role c m ++ shows D role (move D c m) moves

private def expand (N : KubeName) : ι × (ProcessingRequest ⊕ Int) → List (Move ι)
  | (i,.inl msg) => [.message i msg]
  | (i,.inr clock) => [.tick clock,.step i (calm.part N)]

private theorem project_shows [DecidableEq ι] (sessions : ∀ i, role i ≠ .replica) {at_ : ι → Bool} {c : State ι}
    {moves : List (Move ι)}
    (plain : ∀ m ∈ moves, Undisturbed m) : project D N role at_ c moves = (shows D role c moves).flatMap (expand N) := by
  induction moves generalizing at_ c with
  | nil => rfl
  | cons m moves ih =>
    obtain ⟨first,rest⟩ := List.forall_mem_cons.mp plain
    have seen : sees D N role at_ c m = (shown role c m).flatMap (expand N) := by
      cases m with
      | message i msg => by_cases own : role i = .own <;> simp [sees,shown,own,expand]
      | step i x =>
        cases first
        cases stands : c.prog i with
        | ret l => simp [sees,shown,stands]
        | call op next => by_cases own : role i = .own <;> simp [sees,shown,stands,own,sessions i,expand]
      | _ => exact first.elim
    simp only [project,shows,List.flatMap_append,seen,ih rest]

private def sortedTest (N : KubeName) (role : ι → Role) (tokens : List ArksToken) : Move ι → Bool
  | .message i (.requestHeaders headers) => decide (ownerOf tokens (tokenOf headers) = some N ↔ role i = .own)
  | _ => true

private theorem sorted_of_test {tokens : List ArksToken} {moves : List (Move ι)}
    (passes : moves.all (sortedTest N role tokens) = true) : Sorted N role tokens moves := by
  intro i headers member _
  exact of_decide_eq_true (List.all_eq_true.mp passes _ member)

/-- The counter of the quota of a namespace. -/
def usageOf (namespace_ : KubeName) : String := quotaKey "arks" namespace_ KubeName.basic "total"

def pairRole (i : Bool) : Role := if i then .own else .foreign

/-- Two namespaces with a user and a quota of the same name, of which `team-a` has used so much. -/
def neighbours (used : Int) : State Bool :=
  ⟨(World.fresh [aliceToken .team "alice" 5,aliceToken .teamA "other" 5] [chatEndpoint .team,chatEndpoint .teamA]
    [basicQuota .team 1000,basicQuota .teamA 1000]).put (usageOf .teamA) (some ⟨used,none⟩),
    fun _ => .ret (.session .opening .initial [])⟩

/-- The request of `team` while `team-a` sends its own and gets the answer, and after `team-a` was turned away. -/
def busy : List (Move Bool) :=
  sends true "alice" ++ sends false "other" ++ steps false 5 ++ steps true 11 ++ steps false 6 ++ answered false ++ steps false 13 ++
    answered true ++ steps true 13
def turnedAway : List (Move Bool) :=
  sends false "other" ++ steps false 11 ++ sends true "alice" ++ steps true 11 ++ answered true ++ steps true 13

/-- What the runs leave under a key. -/
def leaves (used : Int) (moves : List (Move Bool)) (key : String) : Option Int :=
  ((run (small Bool) (neighbours used) moves).shared.redis key).map Cell.value

/-- Both runs charge `team` its three tokens, whatever `team-a` did. -/
theorem tenants_do_not_interfere_busy :
    leaves 7 busy (usageOf .teamA) = some 10 ∧
      leaves 1000 turnedAway (usageOf .teamA) = some 1000 ∧
      leaves 7 busy (usageOf .team) = some 3 ∧
      ((run (small Bool) (neighbours 7) busy).prog true = (run (small Bool) (neighbours 1000) turnedAway).prog true) ∧
      ∀ key, Mine (small Bool) team key → (run (small Bool) (neighbours 7) busy).shared.redis key =
        (run (small Bool) (neighbours 1000) turnedAway).shared.redis key := by
  have made : Made (small Bool).limiter := ⟨"arks",0,by decide,by decide,rfl⟩
  have initial : ∀ used, Initial pairRole (neighbours used) := by
    refine fun used => ⟨fun _ _ => rfl,?_⟩
    intro i replica
    cases i <;> cases replica
  have agree : Agree (small Bool) team pairRole (neighbours 7).shared (neighbours 1000).shared := by
    refine ⟨rfl,rfl,fun key mine => ?_,rfl,rfl,fun _ _ => rfl,fun _ _ => rfl⟩
    have apart : key ≠ usageOf .teamA := by
      rintro rfl
      exact absurd ((mine_quota_iff KubeName.teamA KubeName.basic "total").mp mine) (by decide)
    simp [neighbours,World.put,apart]
  have sessions : ∀ i, pairRole i ≠ .replica := by decide
  have same : project (small Bool) team pairRole (fun _ => false) (neighbours 7) busy =
      project (small Bool) team pairRole (fun _ => false) (neighbours 1000) turnedAway := by
    rw [project_shows sessions (by simp [busy,sends,answered,steps,or_imp,forall_and,Undisturbed]),
      project_shows sessions (by simp [turnedAway,sends,answered,steps,or_imp,forall_and,Undisturbed])]
    exact congrArg (List.flatMap (expand team)) (by decide +kernel)
  obtain ⟨sessions,counters⟩ := tenants_do_not_interfere made (by decide) (initial 7) (initial 1000) agree
    (sorted_of_test (by decide +kernel)) (sorted_of_test (by decide +kernel)) same
  exact ⟨by decide +kernel,by decide +kernel,by decide +kernel,sessions true rfl,counters⟩

end Arks.Noninterference
