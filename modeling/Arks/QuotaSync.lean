import Arks.Services

/-!
The pass that carries quota usage between Redis and the status of the quotas. It
writes the usage of Redis into a status that lags behind; where the status is
ahead of Redis it writes Redis, but what it writes there is the request list of
the read, in which every amount is zero.
-/
namespace Arks.QuotaSync
open Programs Programs.Prog Api Counters Effects Services

/-- The usage that a status records for a type. -/
def usedOf (status : List QuotaStatus) (type : String) : Option Int :=
  (status.find? (fun s => s.type = type)).map QuotaStatus.used

/-- The larger of the recorded usage, when there is one, and the usage in Redis. -/
def larger (used : Option Int) (usage : Int) : Int := used.elim usage (max usage)

theorem larger_of_le {used usage : Int} (le : used ≤ usage) : larger (some used) usage = usage := max_eq_left le
private theorem larger_of_ge {used usage : Int} (ge : usage ≤ used) : larger (some used) usage = used := max_eq_right ge

private theorem usedOf_setUsed (type : String) (used now : Int) (status : List QuotaStatus) (t : String) :
    usedOf (setUsed type used now status) t =
      if t = type then (usedOf status t).map (fun _ => used) else usedOf status t := by
  induction status with
  | nil => simp [usedOf,setUsed]
  | cons s status ih =>
    simp only [usedOf] at ih
    by_cases here : s.type = type
    · by_cases same : t = type
      · simp [usedOf,setUsed,here,same]
      · simp [usedOf,setUsed,here,same,Ne.symm same]
    · by_cases found : s.type = t
      · simp [usedOf,setUsed,found,found ▸ here]
      · simp [usedOf,setUsed,here,found,ih]

theorem usedOf_append (status : List QuotaStatus) (s : QuotaStatus) (t : String) :
    usedOf (status ++ [s]) t = (usedOf status t).or (if t = s.type then some s.used else none) := by
  simp only [usedOf,List.find?_append,List.find?_cons,List.find?_nil]
  cases status.find? (fun s => s.type = t) with
  | some found => simp
  | none =>
    by_cases same : t = s.type
    · simp [same]
    · simp [same,Ne.symm same]

/-! ### The decision of a pass -/

def typeOf (u : QuotaResult) : String := quotaTypeOf u.identifier

/-- What the loop does with one usage, once the time is read. -/
def foldType (now : Int) (st : SyncState) (u : QuotaResult) : SyncState :=
  match usedOf st.quotaStatus (typeOf u) with
  | some used =>
    if used < u.currentUsage then
      { st with shouldUpdateCR := true,quotaStatus := setUsed (typeOf u) u.currentUsage now st.quotaStatus }
    else if u.currentUsage < used then { st with shouldUpdateQuota := true }
    else st
  | none => { st with
      shouldUpdateCR := true
      quotaStatus := st.quotaStatus ++ [⟨typeOf u,u.currentUsage,some now⟩] }

/-- What the loop makes of a list of usages, at whatever times. -/
inductive Synced : SyncState → List QuotaResult → SyncState → Prop
  | done (st : SyncState) : Synced st [] st
  | next {st st' : SyncState} {u : QuotaResult} {usage : List QuotaResult} (now : Int) :
      Synced (foldType now st u) usage st' → Synced st (u :: usage) st'

/-- Reading the clock. -/
def IsNow (op : Op) : Prop := op = .now .elsewhere

private theorem syncType_folds {answers : (op : Op) → Reply op → Prop} (st : SyncState) (u : QuotaResult) :
    Within answers IsNow (fun st' => ∃ now, st' = foldType now st u) (syncType st u) := by
  unfold syncType foldType usedOf typeOf
  cases found : st.quotaStatus.find? (fun s => s.type = quotaTypeOf u.identifier) with
  | none => simp [found,IsNow]
  | some status =>
    by_cases behind : status.used < u.currentUsage
    · simp only [found,behind,if_true,issue_bind,pure_eq,within_call,within_ret,IsNow,true_and]
      exact fun now _ => ⟨now,by simp [behind]⟩
    · by_cases ahead : u.currentUsage < status.used
      · simp [found,behind,ahead]
      · simp [found,behind,ahead]

theorem syncTypes_synced {answers : (op : Op) → Reply op → Prop} (st : SyncState) (usage : List QuotaResult) :
    Within answers IsNow (Synced st usage) (syncTypes st usage) := by
  induction usage generalizing st with
  | nil => exact .done st
  | cons u usage ih =>
    refine within_bind (syncType_folds st u) ?_
    rintro _ ⟨now,rfl⟩
    exact within_mono (ih _) (fun _ ok => ok) (fun st' later => .next now later)

theorem foldType_used (now : Int) (st : SyncState) (u : QuotaResult) (t : String) :
    usedOf (foldType now st u).quotaStatus t =
      if t = typeOf u then some (larger (usedOf st.quotaStatus t) u.currentUsage) else usedOf st.quotaStatus t := by
  unfold foldType
  cases recorded : usedOf st.quotaStatus (typeOf u) with
  | none =>
    by_cases same : t = typeOf u
    · subst same
      simp [usedOf_append,recorded,larger]
    · simp [usedOf_append,same]
  | some used =>
    by_cases behind : used < u.currentUsage
    · simp only [behind,if_true,usedOf_setUsed]
      by_cases same : t = typeOf u
      · subst same
        simp [recorded,larger_of_le behind.le]
      · simp [same]
    · have kept : usedOf st.quotaStatus t =
          if t = typeOf u then some (larger (usedOf st.quotaStatus t) u.currentUsage) else usedOf st.quotaStatus t := by
        by_cases same : t = typeOf u
        · subst same
          simp [recorded,larger_of_ge (not_lt.mp behind)]
        · simp [same]
      by_cases ahead : u.currentUsage < used
      · simpa [behind,ahead] using kept
      · simpa [behind,ahead] using kept

theorem foldType_flag (now : Int) (st : SyncState) (u : QuotaResult) :
    (foldType now st u).shouldUpdateQuota = true ↔
      st.shouldUpdateQuota = true ∨ ∃ used ∈ usedOf st.quotaStatus (typeOf u), u.currentUsage < used := by
  unfold foldType
  cases recorded : usedOf st.quotaStatus (typeOf u) with
  | none => simp
  | some used =>
    by_cases behind : used < u.currentUsage
    · simp [behind,not_lt.mpr behind.le]
    · by_cases ahead : u.currentUsage < used <;> simp [behind,ahead]

variable {st : SyncState} {q : ArksQuota}

/-- Nothing was changed in a status that is not written. -/
theorem foldType_unchanged {now : Int} {u : QuotaResult} (unwritten : (foldType now st u).shouldUpdateCR = false) :
    st.shouldUpdateCR = false ∧ (foldType now st u).quotaStatus = st.quotaStatus := by
  unfold foldType at unwritten ⊢
  cases recorded : usedOf st.quotaStatus (typeOf u) with
  | none => simp [recorded] at unwritten
  | some used =>
    by_cases behind : used < u.currentUsage
    · simp [recorded,behind] at unwritten
    · by_cases ahead : u.currentUsage < used
      · simpa [recorded,behind,ahead] using unwritten
      · simpa [recorded,behind,ahead] using unwritten

variable {st' : SyncState} {w : World}

private theorem synced_unchanged {usage : List QuotaResult} (synced : Synced st usage st')
    (unwritten : st'.shouldUpdateCR = false) : st.shouldUpdateCR = false ∧ st'.quotaStatus = st.quotaStatus := by
  induction synced with
  | done st => exact ⟨unwritten,rfl⟩
  | next now later ih =>
    obtain ⟨before,same⟩ := ih unwritten
    obtain ⟨clean,kept⟩ := foldType_unchanged before
    exact ⟨clean,same.trans kept⟩

/-- With one usage per type, every type ends with the larger of its two values. -/
theorem synced_used {usage : List QuotaResult} (synced : Synced st usage st') {v : String → Int}
    (values : ∀ u ∈ usage, u.currentUsage = v (typeOf u)) (t : String) :
    usedOf st'.quotaStatus t = if t ∈ usage.map typeOf then some (larger (usedOf st.quotaStatus t) (v t))
      else usedOf st.quotaStatus t := by
  induction synced with
  | done st => simp
  | @next st st' u usage now later ih =>
    have value := values u List.mem_cons_self
    rw [ih (fun x member => values x (List.mem_cons_of_mem _ member)),foldType_used]
    by_cases same : t = typeOf u
    · subst same
      have again : larger (some (larger (usedOf st.quotaStatus (typeOf u)) (v (typeOf u)))) (v (typeOf u)) =
          larger (usedOf st.quotaStatus (typeOf u)) (v (typeOf u)) := by
        cases usedOf st.quotaStatus (typeOf u) <;> simp [larger]
      simp [value,again]
    · simp [same]

private theorem synced_flag {usage : List QuotaResult} (synced : Synced st usage st') {v : String → Int}
    (values : ∀ u ∈ usage, u.currentUsage = v (typeOf u)) :
    st'.shouldUpdateQuota = true ↔
      st.shouldUpdateQuota = true ∨ ∃ u ∈ usage, ∃ used ∈ usedOf st.quotaStatus (typeOf u), v (typeOf u) < used := by
  induction synced with
  | done st => simp
  | @next st st' u usage now later ih =>
    have value := values u List.mem_cons_self
    rw [ih (fun x member => values x (List.mem_cons_of_mem _ member)),foldType_flag,value]
    have same : ∀ x : QuotaResult, (∃ used ∈ usedOf (foldType now st u).quotaStatus (typeOf x), v (typeOf x) < used) ↔
        ∃ used ∈ usedOf st.quotaStatus (typeOf x), v (typeOf x) < used := by
      intro x
      rw [foldType_used]
      by_cases equal : typeOf x = typeOf u
      · rw [if_pos equal,value,← equal]
        cases usedOf st.quotaStatus (typeOf x) <;> simp [larger]
      · rw [if_neg equal]
    simp only [same,List.mem_cons,exists_eq_or_imp,or_assoc]

/-! ### One pass alone -/

variable (s : RedisQuotaService)

/-- The key that holds the usage of one type of a quota. -/
def keyOf (q : ArksQuota) (type : String) : String := quotaKey s.keyPrefix q.namespace_ q.name type

/-- The types that a quota limits. -/
def types (q : ArksQuota) : List String := q.quotas.map QuotaItem.type

/-- The requests of the pass for a quota. -/
def syncRequests (q : ArksQuota) : List QuotaRequest := qosToQuotaRequests (quotaConfigOf q) (fun _ => 0)

/-- The results that a read of Redis gives. -/
def results (w : World) (requests : List QuotaRequest) : List QuotaResult :=
  requests.map (fun r => quotaResult r (w.value (generateQuotaKey s.keyPrefix r)))

private theorem exec_getAll (w : World) (requests : List QuotaRequest) :
    exec perform (s.getAll requests) w =
      (requests.map (fun r => (r,(perform (.get (generateQuotaKey s.keyPrefix r)) w).1)),w) := by
  induction requests with
  | nil => rfl
  | cons r requests ih =>
    have kept : (perform (.get (generateQuotaKey s.keyPrefix r)) w).2 = w := by
      simp only [perform]
      split <;> rfl
    simp only [RedisQuotaService.getAll,issue_bind,exec_call,kept,exec_bind,ih,pure_eq,exec_ret,List.map_cons]

private theorem exec_getUsage (w : World) (requests : List QuotaRequest) :
    exec perform (s.getUsage requests) w = (.ok (results s w requests),w) := by
  have heard : ∀ item ∈ requests.map (fun r => (r,(perform (.get (generateQuotaKey s.keyPrefix r)) w).1)), ∀ message,
      item.2 ≠ .error (.failed message) := by
    intro item member message
    obtain ⟨r,_,rfl⟩ := List.mem_map.mp member
    rcases perform_get w (generateQuotaKey s.keyPrefix r) with ⟨_,missing,_⟩ | found
    · simp [missing]
    · simp [found]
  have value : ∀ key, currentValue (perform (.get key) w).1 = w.value key := by
    intro key
    rcases perform_get w key with ⟨_,missing,zero⟩ | found
    · rw [missing,zero]
      rfl
    · rw [found]
      rfl
  unfold RedisQuotaService.getUsage
  rw [exec_bind,exec_getAll]
  dsimp only
  split
  · rename_i message failed
    exact absurd failed (usageErr_ok heard message)
  · simp [usageResults_ok heard,results,value]

/-- Redis after the keys were set to zero. -/
def zeroed (w : World) (keys : List String) : World :=
  { w with redis := fun k => if k ∈ keys then some ⟨0,none⟩ else w.redis k }

private theorem exec_setAll (w : World) {requests : List QuotaRequest} (zeros : ∀ r ∈ requests, r.request = 0) :
    exec perform (s.setAll requests) w = (none,zeroed w (requests.map (generateQuotaKey s.keyPrefix))) := by
  induction requests generalizing w with
  | nil => simp [RedisQuotaService.setAll,zeroed]
  | cons r requests ih =>
    have zero := zeros r List.mem_cons_self
    have rest := fun w => ih w (fun x member => zeros x (.tail _ member))
    simp only [RedisQuotaService.setAll,issue_bind,exec_call,perform,exec_bind,rest,pure_eq,exec_ret,zero,errOf,Option.none_or]
    simp only [zeroed,World.put,List.map_cons,List.mem_cons,Prod.mk.injEq,true_and]
    congr 1
    funext k
    by_cases later : k ∈ requests.map (generateQuotaKey s.keyPrefix)
    · simp [later]
    · simp [later]

private theorem syncRequests_zero (q : ArksQuota) : ∀ r ∈ syncRequests q, r.request = 0 := by
  intro r member
  simp only [syncRequests,qosToQuotaRequests,List.mem_map] at member
  obtain ⟨item,_,rfl⟩ := member
  rfl

private theorem syncRequests_keys (q : ArksQuota) :
    (syncRequests q).map (generateQuotaKey s.keyPrefix) = (types q).map (keyOf s q) := by
  simp only [syncRequests,qosToQuotaRequests,types,quotaConfigOf,List.map_map]
  rfl

theorem results_types (w : World) (q : ArksQuota) : (results s w (syncRequests q)).map typeOf = types q := by
  simp only [results,syncRequests,qosToQuotaRequests,types,quotaConfigOf,List.map_map]
  refine List.map_congr_left (fun item _ => ?_)
  simp [typeOf,quotaResult,quotaTypeOf]

theorem results_values (w : World) (q : ArksQuota) :
    ∀ u ∈ results s w (syncRequests q), u.currentUsage = w.value (keyOf s q (typeOf u)) := by
  intro u member
  simp only [results,syncRequests,qosToQuotaRequests,List.map_map,List.mem_map] at member
  obtain ⟨item,_,rfl⟩ := member
  have type : typeOf (quotaResult ⟨[⟨"namespace",q.namespace_⟩,⟨"quotaname",q.name⟩,⟨"type",item.type⟩],item.value,0⟩
      (w.value (keyOf s q item.type))) = item.type := by
    simp [typeOf,quotaResult,quotaTypeOf]
  exact congrArg (fun t => w.value (keyOf s q t)) type.symm

/-- The status of the quota is ahead of Redis for some type. -/
def Outdated (w : World) (q : ArksQuota) : Prop :=
  ∃ t ∈ types q, ∃ used ∈ usedOf q.quotaStatus t, w.value (keyOf s q t) < used

/-- The larger of the two values of a type. -/
def largest (w : World) (q : ArksQuota) (t : String) : Int := larger (usedOf q.quotaStatus t) (w.value (keyOf s q t))

/-- What a pass over `qs` leaves behind, and what it leaves alone. -/
structure Passed (w : World) (qs : List ArksQuota) (w' : World) : Prop where
  clock : w'.clock = w.clock
  keys : ∀ k, (∀ q ∈ qs, k ∉ (types q).map (keyOf s q)) → w'.redis k = w.redis k
  quotas : ∀ ns name, (∀ q ∈ qs, ¬ (q.namespace_.val = ns ∧ q.name.val = name)) → w'.quota ns name = w.quota ns name
  usage : ∀ q ∈ qs, ∀ t ∈ types q,
    (Outdated s w q → w'.value (keyOf s q t) = 0) ∧ (¬ Outdated s w q → w'.value (keyOf s q t) = w.value (keyOf s q t))
  status : ∀ q ∈ qs, ∃ q', w'.quota q.namespace_ q.name = some q' ∧
    ∀ t ∈ types q, usedOf q'.quotaStatus t = some (largest s w q t)

theorem value_of_redis {w' : World} {k : String} (clock : w'.clock = w.clock) (same : w'.redis k = w.redis k) :
    w'.value k = w.value k := by
  simp [World.value,World.cell,clock,same]

private theorem value_zeroed {keys : List String} {k : String} (member : k ∈ keys) : (zeroed w keys).value k = 0 := by
  simp [World.value,World.cell,zeroed,member,Cell.live,Option.filter]

theorem quota_named {ns name : String} (found : w.quota ns name = some q) :
    q.namespace_.val = ns ∧ q.name.val = name := by
  simpa using List.find?_some found

theorem quota_replaceQuota (w : World) (old new : ArksQuota) (ns : new.namespace_ = old.namespace_)
    (name : new.name = old.name) (a b : String) :
    (w.replaceQuota old new).quota a b = (w.quota a b).map (fun q => if q = old then new else q) := by
  unfold World.quota World.replaceQuota
  rw [List.find?_map]
  congr 2
  funext q
  by_cases same : q = old
  · simp [same,ns,name]
  · simp [same]

private theorem exec_updateCR (current : w.quota q.namespace_ q.name = some q) (st : SyncState) :
    (exec perform (updateCR q st) w).2 =
      if st.shouldUpdateCR then w.replaceQuota q (ArksQuota.withStatus q st.quotaStatus) else w := by
  unfold updateCR
  by_cases write : st.shouldUpdateCR = true
  · simp [write,perform,current]
  · simp [write]

private theorem exec_syncTypes (w : World) (st : SyncState) (usage : List QuotaResult) :
    Synced st usage (exec perform (syncTypes st usage) w).1 ∧ (exec perform (syncTypes st usage) w).2 = w := by
  have folds : Issues IsNow (Synced st usage) (syncTypes st usage) := syncTypes_synced st usage
  refine exec_of_within folds (fun _ => trivial) ?_
  rintro op rfl
  rfl

private theorem exec_updateQuota (w : World) (q : ArksQuota) (st : SyncState) :
    (exec perform (ArksProvider.updateQuota ⟨s.interface⟩ (syncRequests q) st) w).2 =
      if st.shouldUpdateQuota then zeroed w ((types q).map (keyOf s q)) else w := by
  unfold ArksProvider.updateQuota
  by_cases write : st.shouldUpdateQuota = true
  · simp [write,RedisQuotaService.interface,RedisQuotaService.setUsage,exec_bind,exec_setAll s w (syncRequests_zero q),
      syncRequests_keys]
  · simp [write]

/-- A pass over one quota: Redis first, then its status. -/
theorem exec_syncQuota (current : w.quota q.namespace_ q.name = some q) :
    ∃ st, Synced ⟨q.quotaStatus,false,false⟩ (results s w (syncRequests q)) st ∧
      (exec perform (ArksProvider.syncQuota ⟨s.interface⟩ q) w).2 =
        (let w := if st.shouldUpdateQuota then zeroed w ((types q).map (keyOf s q)) else w
        if st.shouldUpdateCR then w.replaceQuota q (ArksQuota.withStatus q st.quotaStatus) else w) := by
  obtain ⟨synced,kept⟩ := exec_syncTypes w ⟨q.quotaStatus,false,false⟩ (results s w (syncRequests q))
  refine ⟨_,synced,?_⟩
  have read : exec perform ((RedisQuotaService.interface s).getUsage (syncRequests q)) w = _ :=
    exec_getUsage s w (syncRequests q)
  have requests : qosToQuotaRequests (quotaConfigOf q) (fun _ => 0) = syncRequests q := rfl
  simp only [ArksProvider.syncQuota,requests,exec_bind,read,kept,exec_updateQuota]
  refine exec_updateCR ?_ _
  split
  · exact current
  · exact current

/-- A write to a status leaves Redis alone and replaces this one quota. -/
theorem passed_status (current : w.quota q.namespace_ q.name = some q) (st : SyncState)
    (clean : st.shouldUpdateCR = false → st.quotaStatus = q.quotaStatus) :
    let w' := if st.shouldUpdateCR then w.replaceQuota q (ArksQuota.withStatus q st.quotaStatus) else w
    w'.clock = w.clock ∧ w'.redis = w.redis ∧
      (∀ ns name, ¬ (q.namespace_.val = ns ∧ q.name.val = name) → w'.quota ns name = w.quota ns name) ∧
      ∃ q', w'.quota q.namespace_ q.name = some q' ∧ q'.quotaStatus = st.quotaStatus := by
  by_cases write : st.shouldUpdateCR = true
  · simp only [write,if_true]
    refine ⟨rfl,rfl,?_,ArksQuota.withStatus q st.quotaStatus,?_,rfl⟩
    · intro ns name other
      rw [quota_replaceQuota w q (ArksQuota.withStatus q st.quotaStatus) rfl rfl]
      cases found : w.quota ns name with
      | none => rfl
      | some r =>
        have different : r ≠ q := by
          rintro rfl
          exact other (quota_named found)
        simp [different]
    · rw [quota_replaceQuota w q (ArksQuota.withStatus q st.quotaStatus) rfl rfl,current]
      simp
  · rw [if_neg write]
    exact ⟨rfl,rfl,fun _ _ _ => rfl,q,current,(clean (by simpa using write)).symm⟩

private theorem passed_syncQuota (current : w.quota q.namespace_ q.name = some q) :
    Passed s w [q] (exec perform (ArksProvider.syncQuota ⟨s.interface⟩ q) w).2 := by
  obtain ⟨st,synced,left⟩ := exec_syncQuota s current
  rw [left]
  have flag : st.shouldUpdateQuota = true ↔ Outdated s w q := by
    rw [synced_flag (v := fun t => w.value (keyOf s q t)) synced (results_values s w q)]
    unfold Outdated
    rw [← results_types s w q]
    simp
  have used : ∀ t ∈ types q, usedOf st.quotaStatus t = some (largest s w q t) := by
    intro t member
    rw [synced_used (v := fun t => w.value (keyOf s q t)) synced (results_values s w q),results_types,if_pos member]
    rfl
  have before : (if st.shouldUpdateQuota then zeroed w ((types q).map (keyOf s q)) else w).quota = w.quota ∧
      (if st.shouldUpdateQuota then zeroed w ((types q).map (keyOf s q)) else w).clock = w.clock := by
    split <;> exact ⟨rfl,rfl⟩
  obtain ⟨clock,redis,quotas,q',found,written⟩ := passed_status (by rw [before.1]; exact current) st
    (fun unwritten => (synced_unchanged synced unwritten).2)
  refine ⟨clock.trans before.2,?_,?_,?_,?_⟩
  · intro k outside
    rw [redis]
    split
    · simp only [zeroed,if_neg (outside q List.mem_cons_self)]
    · rfl
  · intro ns name outside
    rw [quotas ns name (outside q List.mem_cons_self),before.1]
  · intro r member t limited
    obtain rfl := List.mem_singleton.mp member
    rw [value_of_redis clock (congrFun redis _),← flag]
    constructor
    · intro write
      rw [if_pos write]
      exact value_zeroed (List.mem_map_of_mem limited)
    · intro write
      rw [if_neg write]
  · intro r member
    obtain rfl := List.mem_singleton.mp member
    exact ⟨q',found,fun t limited => by rw [written]; exact used t limited⟩

/-- Two quotas are different objects. -/
def Different (a b : ArksQuota) : Prop := ¬ (a.namespace_ = b.namespace_ ∧ a.name = b.name)

theorem keyOf_ne {a b : ArksQuota} (different : Different a b) (t u : String) : keyOf s a t ≠ keyOf s b u := by
  intro same
  obtain ⟨ns,name,_⟩ := quotaKey_inj a.namespace_.lacks_equals b.namespace_.lacks_equals a.name.lacks_equals
    b.name.lacks_equals same
  exact different ⟨KubeName.ext ns,KubeName.ext name⟩

private theorem passed_cons {w' w'' : World} {qs : List ArksQuota} (apart : ∀ r ∈ qs, Different q r)
    (first : Passed s w [q] w') (rest : Passed s w' qs w'') : Passed s w (q :: qs) w'' := by
  -- the pass over `q` touches neither the usage nor the status of the others, and they not those of `q`
  have theirs : ∀ r ∈ qs, ∀ t, w'.value (keyOf s r t) = w.value (keyOf s r t) := by
    intro r member t
    refine value_of_redis first.clock (first.keys _ ?_)
    intro q' single inside
    obtain rfl := List.mem_singleton.mp single
    obtain ⟨u,_,same⟩ := List.mem_map.mp inside
    exact keyOf_ne s (apart r member) u t same
  have outdated : ∀ r ∈ qs, (Outdated s w' r ↔ Outdated s w r) := by
    intro r member
    simp only [Outdated,theirs r member]
  have mine : ∀ t, w''.value (keyOf s q t) = w'.value (keyOf s q t) := by
    intro t
    refine value_of_redis rest.clock (rest.keys _ ?_)
    intro r member inside
    obtain ⟨u,_,same⟩ := List.mem_map.mp inside
    exact keyOf_ne s (apart r member) t u same.symm
  refine ⟨rest.clock.trans first.clock,?_,?_,?_,?_⟩
  · intro k outside
    rw [rest.keys k (fun r member => outside r (List.mem_cons_of_mem _ member)),
      first.keys k (fun r member => outside r (by rw [List.mem_singleton.mp member]; exact .head _))]
  · intro ns name outside
    rw [rest.quotas ns name (fun r member => outside r (List.mem_cons_of_mem _ member)),
      first.quotas ns name (fun r member => outside r (by rw [List.mem_singleton.mp member]; exact .head _))]
  · intro r member t limited
    rcases List.mem_cons.mp member with rfl | member
    · rw [mine t]
      exact first.usage r (.head _) t limited
    · have later := rest.usage r member t limited
      rwa [outdated r member,theirs r member] at later
  · intro r member
    rcases List.mem_cons.mp member with rfl | member
    · obtain ⟨q',found,used⟩ := first.status r List.mem_cons_self
      refine ⟨q',?_,used⟩
      rw [rest.quotas _ _ ?_,found]
      rintro other inside ⟨ns,name⟩
      exact apart other inside ⟨KubeName.ext ns.symm,KubeName.ext name.symm⟩
    · obtain ⟨q',found,used⟩ := rest.status r member
      refine ⟨q',found,fun t limited => ?_⟩
      rw [used t limited,largest,largest,theirs r member]

private theorem passed_syncQuotas {qs : List ArksQuota} (apart : qs.Pairwise Different)
    (current : ∀ q ∈ qs, w.quota q.namespace_ q.name = some q) :
    Passed s w qs (exec perform (ArksProvider.syncQuotas ⟨s.interface⟩ qs) w).2 := by
  induction qs generalizing w with
  | nil => exact ⟨rfl,fun _ _ => rfl,fun _ _ _ => rfl,by simp,by simp⟩
  | cons q qs ih =>
    obtain ⟨head,tail⟩ := List.pairwise_cons.mp apart
    have first := passed_syncQuota s (current q (.head _))
    rw [ArksProvider.syncQuotas,exec_bind]
    refine passed_cons s head first (ih tail ?_)
    intro r member
    rw [first.quotas]
    · exact current r (.tail _ member)
    · intro q' single
      obtain rfl := List.mem_singleton.mp single
      rintro ⟨ns,name⟩
      exact head r member ⟨KubeName.ext ns,KubeName.ext name⟩

/-- The API server keeps one object per namespace and name. -/
def Distinct (w : World) : Prop := w.quotas.Pairwise Different

theorem quota_of_mem (distinct : Distinct w) (member : q ∈ w.quotas) : w.quota q.namespace_ q.name = some q := by
  unfold World.quota
  unfold Distinct at distinct
  generalize w.quotas = quotas at distinct member
  induction quotas with
  | nil => cases member
  | cons r rest ih =>
    obtain ⟨head,tail⟩ := List.pairwise_cons.mp distinct
    by_cases same : r = q
    · simp [same]
    · have later : q ∈ rest := (List.mem_cons.mp member).resolve_left (Ne.symm same)
      have apart : ¬ (r.namespace_.val = q.namespace_.val ∧ r.name.val = q.name.val) :=
        fun names => head q later ⟨KubeName.ext names.1,KubeName.ext names.2⟩
      rw [List.find?_cons_of_neg (by simpa using apart)]
      exact ih tail later

/-- Both sides hold the larger of the two values that each type had. -/
def Recovered (w w' : World) (q : ArksQuota) : Prop :=
  ∀ t ∈ types q, w'.value (keyOf s q t) = largest s w q t ∧
    ∃ q', w'.quota q.namespace_ q.name = some q' ∧ usedOf q'.quotaStatus t = some (largest s w q t)

theorem passed_sync (distinct : Distinct w) :
    Passed s w w.quotas (exec perform (ArksProvider.syncQuotaUsage ⟨s.interface⟩) w).2 := by
  have run := passed_syncQuotas s distinct (fun q member => quota_of_mem distinct member)
  simpa [ArksProvider.syncQuotaUsage,perform,exec_bind] using run

/-- After a pass, a quota has recovered on both sides exactly when its status was
    not ahead of Redis for any type, or there was no usage to keep at all. -/
theorem sync_recovers_iff (w : World) (distinct : Distinct w) (q : ArksQuota) (member : q ∈ w.quotas) :
    Recovered s w (exec perform (ArksProvider.syncQuotaUsage ⟨s.interface⟩) w).2 q ↔
      (∀ t ∈ types q, ∀ used ∈ usedOf q.quotaStatus t, used ≤ w.value (keyOf s q t)) ∨
        ∀ t ∈ types q, largest s w q t = 0 := by
  have passed := passed_sync s distinct
  obtain ⟨q',found,used⟩ := passed.status q member
  constructor
  · intro recovered
    by_cases outdated : Outdated s w q
    · refine .inr (fun t limited => ?_)
      rw [← (recovered t limited).1]
      exact (passed.usage q member t limited).1 outdated
    · refine .inl (fun t limited used recorded => ?_)
      by_contra ahead
      exact outdated ⟨t,limited,used,recorded,not_le.mp ahead⟩
  · intro safe t limited
    refine ⟨?_,q',found,used t limited⟩
    by_cases outdated : Outdated s w q
    · rcases safe with ahead | empty
      · obtain ⟨u,inside,used,recorded,less⟩ := outdated
        exact absurd less (not_lt.mpr (ahead u inside used recorded))
      · rw [(passed.usage q member t limited).1 outdated,empty t limited]
    · rw [(passed.usage q member t limited).2 outdated,largest]
      cases recorded : usedOf q.quotaStatus t with
      | none => rfl
      | some used =>
        refine (larger_of_le (not_lt.mp (fun ahead => ?_))).symm
        exact outdated ⟨t,limited,used,recorded,ahead⟩

/-- A quota with a recorded usage of 100 tokens. -/
def usedQuota : ArksQuota where
  namespace_ := .team
  name := .basic
  resourceVersion := 1
  quotas := [⟨"total",1000⟩]
  quotaStatus := [⟨"total",100,none⟩]

/-- A quota whose status lags behind Redis, for each type by another amount. -/
def laggingQuota : ArksQuota :=
  { usedQuota with quotas := [⟨"prompt",500⟩,⟨"total",1000⟩], quotaStatus := [⟨"prompt",20,none⟩,⟨"total",100,none⟩] }

def lagging : World :=
  ((World.fresh [] [] [laggingQuota]).put (keyOf ⟨"arks"⟩ laggingQuota "prompt") (some ⟨30,none⟩)).put
    (keyOf ⟨"arks"⟩ laggingQuota "total") (some ⟨150,none⟩)

theorem sync_recovers_lagging : Recovered ⟨"arks"⟩ lagging
    (exec perform (ArksProvider.syncQuotaUsage ⟨RedisQuotaService.interface ⟨"arks"⟩⟩) lagging).2 laggingQuota ∧
    (types laggingQuota).map (largest ⟨"arks"⟩ lagging laggingQuota) = [30,150] :=
  ⟨(sync_recovers_iff ⟨"arks"⟩ lagging (List.pairwise_singleton _ _) laggingQuota (.head _)).mpr
    (.inl (by decide +kernel)),by decide +kernel⟩

/-- Redis lost its keys: the pass does not bring the recorded usage back. -/
theorem lost_usage_zeroed :
    ¬ Recovered ⟨"arks"⟩ (.fresh [] [] [usedQuota])
      (exec perform (ArksProvider.syncQuotaUsage ⟨RedisQuotaService.interface ⟨"arks"⟩⟩) (.fresh [] [] [usedQuota])).2
      usedQuota := by
  intro recovered
  have passed := passed_sync ⟨"arks"⟩ (w := .fresh [] [] [usedQuota]) (List.pairwise_singleton _ _)
  have lost : World.value (.fresh [] [] [usedQuota]) (keyOf ⟨"arks"⟩ usedQuota "total") = 0 := rfl
  have outdated : Outdated ⟨"arks"⟩ (.fresh [] [] [usedQuota]) usedQuota :=
    ⟨"total",by decide,100,rfl,by rw [lost]; decide⟩
  have zero := (passed.usage usedQuota (.head _) "total" (by decide)).1 outdated
  rw [(recovered "total" (by decide)).1,largest,lost] at zero
  exact absurd zero (by decide)

end Arks.QuotaSync
