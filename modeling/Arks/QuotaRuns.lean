import Arks.Interfaces
import Arks.QuotaSync
import Arks.Schedules

/-!
Charges and passes side by side. While the status of a quota is nowhere ahead of
Redis, no pass ever overwrites Redis: every status that a replica has read, old
or new, stays a lower bound of what Redis will ever tell it. So the usage in Redis
is what it was plus what has been charged, and the statuses follow it from below.
-/
namespace Arks.QuotaRuns
open Programs Programs.Prog Api Counters Effects Services Gateway Sessions
open QuotaSync Replicas Schedules

variable {ι : Type} (D : Deployment ι)

/-- The keys that hold quota usage. -/
def IsQuotaKey (key : String) : Prop := ∃ ns name type, key = quotaKey D.quotas.keyPrefix ns name type

/-- Two versions of one object. -/
def SameObject (a b : ArksQuota) : Prop := a.namespace_ = b.namespace_ ∧ a.name = b.name

/-- Every usage that `a` records is recorded by `b` too, and not smaller. -/
def UsedLe (a b : List QuotaStatus) : Prop := ∀ t x, usedOf a t = some x → ∃ y, usedOf b t = some y ∧ x ≤ y

/-- Every usage that the status records is covered by Redis. -/
def Covered (w : World) (q : ArksQuota) (status : List QuotaStatus) : Prop :=
  ∀ t x, usedOf status t = some x → x ≤ w.value (keyOf D.quotas q t)

/-- What holds of the shared state all along; `base` is the usage at the start. -/
structure Sound (base : String → Int) (w : World) : Prop where
  steady : ∀ key, IsQuotaKey D key → ∀ cell, w.redis key = some cell → cell.expireAt = none
  counted : ∀ key, IsQuotaKey D key → w.value key = base key + charged key w.increments
  positive : ∀ e ∈ w.increments, IsQuotaKey D e.1 → 0 ≤ e.2
  covered : ∀ q ∈ w.quotas ++ w.past, Covered D w q q.quotaStatus
  distinct : Distinct w
  older : ∀ q ∈ w.quotas, ∀ old ∈ w.past, SameObject old q → old.resourceVersion < q.resourceVersion
  stored : ∀ old ∈ w.past, ∃ q ∈ w.quotas, SameObject old q

/-- How the shared state moves. -/
structure Grows (w w' : World) : Prop where
  usage : ∀ key, IsQuotaKey D key → w.value key ≤ w'.value key
  versions : ∀ q ∈ w.quotas ++ w.past, q ∈ w'.quotas ++ w'.past
  used : ∀ q ∈ w.quotas, ∃ q' ∈ w'.quotas, SameObject q q' ∧ UsedLe q.quotaStatus q'.quotaStatus

/-- What the parties rely on. -/
def Rely (base : String → Int) (w w' : World) : Prop := Sound D base w → Sound D base w' ∧ Grows D w w'

/-- What a party may issue: it never sets a key, lets no quota key expire, and
    writes a status only over a version it has read, from above that version and
    from below Redis. -/
def May : Op → World → Prop
  | .set _ _,_ => False
  | .expire key _,_ => ¬ IsQuotaKey D key
  | .updateQuotaStatus q,w => ∃ snapshot ∈ w.quotas ++ w.past, SameObject snapshot q ∧
      snapshot.resourceVersion = q.resourceVersion ∧ UsedLe snapshot.quotaStatus q.quotaStatus ∧
      Covered D w q q.quotaStatus
  | _,_ => True

theorem usedLe_refl (a : List QuotaStatus) : UsedLe a a := fun _ x recorded => ⟨x,recorded,le_refl x⟩

theorem usedLe_trans {a b c : List QuotaStatus} (first : UsedLe a b) (second : UsedLe b c) : UsedLe a c := by
  intro t x recorded
  obtain ⟨y,atB,le⟩ := first t x recorded
  obtain ⟨z,atC,le'⟩ := second t y atB
  exact ⟨z,atC,le.trans le'⟩

theorem grows_refl (w : World) : Grows D w w :=
  ⟨fun _ _ => le_refl _,fun _ member => member,fun q member => ⟨q,member,⟨rfl,rfl⟩,usedLe_refl _⟩⟩

theorem grows_trans {a b c : World} (first : Grows D a b) (second : Grows D b c) : Grows D a c := by
  refine ⟨fun key isKey => (first.usage key isKey).trans (second.usage key isKey),
    fun q member => second.versions q (first.versions q member),fun q member => ?_⟩
  obtain ⟨q',member',same,le⟩ := first.used q member
  obtain ⟨q'',member'',same',le'⟩ := second.used q' member'
  exact ⟨q'',member'',⟨same.1.trans same'.1,same.2.trans same'.2⟩,usedLe_trans le le'⟩

theorem rely_refl (base : String → Int) (w : World) : Rely D base w w := fun sound => ⟨sound,grows_refl D w⟩

private theorem rely_trans {base : String → Int} (a b c : World) (first : Rely D base a b) (second : Rely D base b c) :
    Rely D base a c := by
  intro sound
  obtain ⟨sound',grows⟩ := first sound
  obtain ⟨sound'',grows'⟩ := second sound'
  exact ⟨sound'',grows_trans D grows grows'⟩

private theorem keyOf_isKey (q : ArksQuota) (t : String) : IsQuotaKey D (keyOf D.quotas q t) := ⟨_,_,_,rfl⟩

variable {D}

variable {q : ArksQuota} {i : ι} {items : List (QuotaRequest × Except RedisErr Int)} {s : World}

theorem covered_mono {w w' : World} {status : List QuotaStatus} (covered : Covered D w q status)
    (grows : ∀ key, IsQuotaKey D key → w.value key ≤ w'.value key) : Covered D w' q status :=
  fun t x recorded => (covered t x recorded).trans (grows _ (keyOf_isKey D q t))

/-! ### Steps of the shared state -/

section Steps
variable {base : String → Int} {w w' : World}

private theorem steady_value (sound : Sound D base w) {key : String} (isKey : IsQuotaKey D key)
    (redis : w'.redis key = w.redis key) : w'.value key = w.value key := by
  unfold World.value World.cell
  rw [redis]
  cases found : w.redis key with
  | none => rfl
  | some cell => simp [Option.filter,Cell.live,sound.steady key isKey cell found]

theorem steady_cell (sound : Sound D base w) {key : String} (isKey : IsQuotaKey D key) :
    (w.cell key).bind Cell.expireAt = none := by
  cases found : w.cell key with
  | none => rfl
  | some cell => exact sound.steady key isKey cell (Option.eq_some_of_filter_eq_some found)

/-- A move that leaves the quotas and their keys alone. -/
theorem sound_aside (sound : Sound D base w) (quotas : w'.quotas = w.quotas) (past : w'.past = w.past)
    (redis : ∀ key, IsQuotaKey D key → w'.redis key = w.redis key)
    (increments : ∀ key, IsQuotaKey D key → charged key w'.increments = charged key w.increments)
    (positive : ∀ e ∈ w'.increments, IsQuotaKey D e.1 → 0 ≤ e.2) : Sound D base w' ∧ Grows D w w' := by
  have value : ∀ key, IsQuotaKey D key → w'.value key = w.value key :=
    fun key isKey => steady_value sound isKey (redis key isKey)
  refine ⟨⟨?_,?_,positive,?_,?_,?_,?_⟩,⟨?_,?_,?_⟩⟩
  · intro key isKey cell found
    rw [redis key isKey] at found
    exact sound.steady key isKey cell found
  · intro key isKey
    rw [value key isKey,increments key isKey]
    exact sound.counted key isKey
  · intro q member
    rw [quotas,past] at member
    exact covered_mono (sound.covered q member) (fun key isKey => (value key isKey).ge)
  · unfold Distinct
    rw [quotas]
    exact sound.distinct
  · rw [quotas,past]
    exact sound.older
  · rw [quotas,past]
    exact sound.stored
  · exact fun key isKey => (value key isKey).ge
  · intro q member
    rw [quotas,past]
    exact member
  · intro q member
    exact ⟨q,by rw [quotas]; exact member,⟨rfl,rfl⟩,usedLe_refl _⟩

private theorem value_put (w : World) (key other : String) (v : Int) :
    (w.put key (some ⟨v,none⟩)).value other = if other = key then v else w.value other := by
  by_cases same : other = key
  · simp [World.value,World.cell,World.put,same,Option.filter,Cell.live]
  · simp [World.value,World.cell,World.put,same]

private theorem sound_incremented (sound : Sound D base w) (key : String) (n : Int) (positive : IsQuotaKey D key → 0 ≤ n) :
    let w' := { w.put key (some ⟨w.value key + n,(w.cell key).bind Cell.expireAt⟩) with
      increments := (key,n) :: w.increments }
    Sound D base w' ∧ Grows D w w' := by
  intro w'
  have value : ∀ other, IsQuotaKey D other → w'.value other = w.value other + if key = other then n else 0 := by
    intro other isKey
    change (w.put key _).value other = _
    by_cases same : key = other
    · subst same
      simp [steady_cell sound isKey,value_put]
    · simp [World.value,World.cell,World.put,same,Ne.symm same]
  have grows : ∀ other, IsQuotaKey D other → w.value other ≤ w'.value other := by
    intro other isKey
    rw [value other isKey]
    split
    · rename_i same
      have := positive (same ▸ isKey)
      omega
    · omega
  refine ⟨⟨?_,?_,?_,?_,sound.distinct,sound.older,sound.stored⟩,
    ⟨grows,fun _ member => member,fun q member => ⟨q,member,⟨rfl,rfl⟩,usedLe_refl _⟩⟩⟩
  · intro other isKey cell found
    by_cases same : other = key
    · subst same
      simp only [w',World.put,if_true,Option.some.injEq] at found
      subst found
      exact steady_cell sound isKey
    · simp only [w',World.put,same,if_false] at found
      exact sound.steady other isKey cell found
  · intro other isKey
    rw [value other isKey,sound.counted other isKey]
    simp only [w',charged]
    omega
  · intro e member isKey
    rcases List.mem_cons.mp member with rfl | member
    · exact positive isKey
    · exact sound.positive e member isKey
  · exact fun q member => covered_mono (sound.covered q member) grows

theorem same_object_eq (distinct : Distinct w) {a b : ArksQuota} (left : a ∈ w.quotas) (right : b ∈ w.quotas)
    (same : SameObject a b) : a = b := by
  have atA := quota_of_mem distinct left
  rw [same.1,same.2,quota_of_mem distinct right] at atA
  exact (Option.some.inj atA).symm

section Replaced
variable {old new : ArksQuota}

theorem mem_replaced (q : ArksQuota) (listed : q ∈ (w.replaceQuota old new).quotas) : q = new ∨ q ∈ w.quotas ∧ q ≠ old := by
  obtain ⟨p,present,rfl⟩ := List.mem_map.mp listed
  by_cases this : p = old
  · exact .inl (if_pos this)
  · exact .inr (by simpa [this] using present)

private theorem new_replaced (member : old ∈ w.quotas) : new ∈ (w.replaceQuota old new).quotas :=
  List.mem_map.mpr ⟨old,member,if_pos rfl⟩

theorem kept_replaced (present : q ∈ w.quotas) (other : q ≠ old) : q ∈ (w.replaceQuota old new).quotas :=
  List.mem_map.mpr ⟨q,present,if_neg other⟩

/-- The quota that stands for one that was listed before. -/
theorem stands_replaced (same : SameObject old new) (present : q ∈ w.quotas) :
    ∃ p ∈ (w.replaceQuota old new).quotas, SameObject q p ∧ (q = old ∧ p = new ∨ p = q) := by
  by_cases this : q = old
  · subst this
    exact ⟨new,new_replaced present,same,.inl ⟨rfl,rfl⟩⟩
  · exact ⟨q,kept_replaced present this,⟨rfl,rfl⟩,.inr rfl⟩

private theorem distinct_replaced (distinct : Distinct w) (same : SameObject old new) : Distinct (w.replaceQuota old new) := by
  unfold Distinct World.replaceQuota
  rw [List.pairwise_map]
  refine distinct.imp ?_
  intro a b different named
  have identity : ∀ q, SameObject q (if q = old then new else q) := by
    intro q
    split
    · rename_i this
      exact this ▸ same
    · exact ⟨rfl,rfl⟩
  exact different ⟨(identity a).1.trans (named.1.trans (identity b).1.symm),
    (identity a).2.trans (named.2.trans (identity b).2.symm)⟩

end Replaced

/-- Storing the next version of a quota, its status from above the old one and from below Redis. -/
theorem sound_replaced (sound : Sound D base w) {old new : ArksQuota} (member : old ∈ w.quotas)
    (same : SameObject old new) (version : new.resourceVersion = old.resourceVersion + 1)
    (above : UsedLe old.quotaStatus new.quotaStatus) (covered : Covered D w new new.quotaStatus) :
    Sound D base (w.replaceQuota old new) ∧ Grows D w (w.replaceQuota old new) := by
  refine ⟨⟨sound.steady,sound.counted,sound.positive,?_,distinct_replaced sound.distinct same,?_,?_⟩,
    ⟨fun _ _ => le_refl _,?_,?_⟩⟩
  · intro q listed
    rcases List.mem_append.mp listed with listed | listed
    · rcases mem_replaced q listed with rfl | ⟨present,_⟩
      · exact covered
      · exact sound.covered q (List.mem_append_left _ present)
    · rcases List.mem_cons.mp listed with rfl | listed
      · exact sound.covered q (List.mem_append_left _ member)
      · exact sound.covered q (List.mem_append_right _ listed)
  · intro q listed o past named
    rcases mem_replaced q listed with rfl | ⟨present,other⟩ <;> rcases List.mem_cons.mp past with rfl | past
    · omega
    · have := sound.older old member o past ⟨named.1.trans same.1.symm,named.2.trans same.2.symm⟩
      omega
    · exact absurd (same_object_eq sound.distinct member present named).symm other
    · exact sound.older q present o past named
  · intro o past
    have current : ∃ q ∈ w.quotas, SameObject o q := by
      rcases List.mem_cons.mp past with rfl | past
      · exact ⟨o,member,rfl,rfl⟩
      · exact sound.stored o past
    obtain ⟨q,present,named⟩ := current
    obtain ⟨p,listed,next,_⟩ := stands_replaced same present
    exact ⟨p,listed,named.1.trans next.1,named.2.trans next.2⟩
  · intro q listed
    rcases List.mem_append.mp listed with present | past
    · by_cases this : q = old
      · exact List.mem_append_right _ (this ▸ (.head _))
      · exact List.mem_append_left _ (kept_replaced present this)
    · exact List.mem_append_right _ (.tail _ past)
  · intro q present
    obtain ⟨p,listed,next,⟨rfl,rfl⟩ | rfl⟩ := stands_replaced same present
    · exact ⟨p,listed,next,above⟩
    · exact ⟨p,listed,next,usedLe_refl _⟩

private theorem sound_created (sound : Sound D base w) (absent : w.quota q.namespace_ q.name = none)
    (empty : q.quotaStatus = []) :
    Sound D base { w with quotas := w.quotas ++ [q] } ∧ Grows D w { w with quotas := w.quotas ++ [q] } := by
  have unnamed : ∀ p ∈ w.quotas, ¬ SameObject p q := by
    rintro p present ⟨ns,name⟩
    have found := quota_of_mem sound.distinct present
    rw [ns,name,absent] at found
    cases found
  refine ⟨⟨sound.steady,sound.counted,sound.positive,?_,?_,?_,?_⟩,⟨fun _ _ => le_refl _,?_,?_⟩⟩
  · intro p listed
    simp only [List.append_assoc,List.cons_append,List.nil_append,List.mem_append,List.mem_cons] at listed
    rcases listed with present | rfl | past
    · exact sound.covered p (List.mem_append_left _ present)
    · intro t x recorded
      rw [empty] at recorded
      cases recorded
    · exact sound.covered p (List.mem_append_right _ past)
  · refine List.pairwise_append.mpr ⟨sound.distinct,List.pairwise_singleton _ _,?_⟩
    intro p present r new
    obtain rfl := List.mem_singleton.mp new
    exact unnamed p present
  · intro p listed o past named
    rcases List.mem_append.mp listed with present | new
    · exact sound.older p present o past named
    · obtain rfl := List.mem_singleton.mp new
      obtain ⟨current,present,same⟩ := sound.stored o past
      exact absurd ⟨same.1.symm.trans named.1,same.2.symm.trans named.2⟩ (unnamed current present)
  · intro o past
    obtain ⟨p,present,named⟩ := sound.stored o past
    exact ⟨p,List.mem_append_left _ present,named⟩
  · intro p listed
    simp only [List.append_assoc,List.cons_append,List.nil_append,List.mem_append,List.mem_cons] at listed ⊢
    rcases listed with present | past
    · exact .inl present
    · exact .inr (.inr past)
  · exact fun p present => ⟨p,List.mem_append_left _ present,⟨rfl,rfl⟩,usedLe_refl _⟩

/-- A write to a status is refused, or it is made over the snapshot it was computed from. -/
theorem sound_status (sound : Sound D base w) (may : May D (.updateQuotaStatus q) w) :
    Sound D base (perform (.updateQuotaStatus q) w).2 ∧ Grows D w (perform (.updateQuotaStatus q) w).2 := by
  obtain ⟨snapshot,listed,same,version,above,covered⟩ := may
  simp only [perform]
  cases found : w.quota q.namespace_ q.name with
  | none => exact ⟨sound,grows_refl D w⟩
  | some current =>
    have named := quota_named found
    have member : current ∈ w.quotas := List.mem_of_find?_eq_some found
    by_cases accepted : current.resourceVersion = q.resourceVersion
    · simp only [accepted,if_true]
      have isCurrent : snapshot = current := by
        have identity : SameObject snapshot current :=
          ⟨same.1.trans (KubeName.ext named.1).symm,same.2.trans (KubeName.ext named.2).symm⟩
        rcases List.mem_append.mp listed with present | past
        · exact same_object_eq sound.distinct present member identity
        · have := sound.older current member snapshot past identity
          omega
      subst isCurrent
      refine sound_replaced sound member ⟨rfl,rfl⟩ rfl above ?_
      intro t x recorded
      have le := covered t x recorded
      unfold QuotaSync.keyOf at le ⊢
      rwa [← same.1,← same.2] at le
    · simp only [accepted,if_false]
      exact ⟨sound,grows_refl D w⟩

theorem perform_sound (sound : Sound D base w) {op : Op} (may : May D op w)
    (positive : ∀ e ∈ (perform op w).2.increments, IsQuotaKey D e.1 → 0 ≤ e.2) :
    Sound D base (perform op w).2 ∧ Grows D w (perform op w).2 := by
  have still : Sound D base w ∧ Grows D w w := ⟨sound,grows_refl D w⟩
  cases op with
  | set key value => exact may.elim
  | updateQuotaStatus q => exact sound_status sound may
  | incrBy key n =>
    simp only [perform] at positive ⊢
    split
    · rename_i fits
      simp only [fits] at positive
      exact sound_incremented sound key n (fun isKey => positive (key,n) (.head _) isKey)
    · exact still
  | expire key seconds =>
    simp only [perform]
    cases w.cell key with
    | none => exact still
    | some cell =>
      refine sound_aside sound rfl rfl ?_ (fun _ _ => rfl) sound.positive
      intro other isKey
      have apart : other ≠ key := fun same => may (same ▸ isKey)
      simp [World.put,apart]
  | get | getQuota =>
    simp only [perform]
    split <;> exact still
  | now | random | ttl | listTokens | listEndpoints | listQuotas | record => exact still
  | loadTiming | storeTiming | deleteTiming | writeBuffer | deleteBuffer =>
    exact sound_aside sound rfl rfl (fun _ _ => rfl) (fun _ _ => rfl) sound.positive

private theorem acts_sound {fails : Op → Prop} (sound : Sound D base w) {op : Op} {r : Reply op} (may : May D op w)
    (act : Acts fails w op r w') (positive : ∀ e ∈ w'.increments, IsQuotaKey D e.1 → 0 ≤ e.2) :
    Sound D base w' ∧ Grows D w w' := by
  cases act with
  | done => exact perform_sound sound may positive
  | refused => exact ⟨sound,grows_refl D w⟩
  | unheard => exact perform_sound sound may positive
  | random | staleQuota | staleQuotas => exact ⟨sound,grows_refl D w⟩

private theorem passes_sound (sound : Sound D base w) (moved : Passes w w') : Sound D base w' ∧ Grows D w w' := by
  cases moved with
  | tick | tokens | endpoints => exact sound_aside sound rfl rfl (fun _ _ => rfl) (fun _ _ => rfl) sound.positive
  | quotaSpec items member =>
    exact sound_replaced sound member ⟨rfl,rfl⟩ rfl (usedLe_refl _)
      (fun t x recorded => sound.covered _ (List.mem_append_left _ member) t x recorded)
  | newQuota absent empty => exact sound_created sound absent empty

end Steps

/-! ### Sessions -/

section Parties
variable {base : String → Int} {fails : Op → Prop} {w : World}

/-- What a session may issue, at any time. -/
def SessionOp : Op → Prop
  | .set _ _ | .updateQuotaStatus _ => False
  | .expire key _ => EndsInDigit key
  | _ => True

/-- The protocol with one state, in which a session may issue its operations. -/
def sessionProtocol : Protocol Op Reply Unit := ⟨fun _ => SessionOp,fun _ _ _ => ()⟩

theorem session_quota {answers : (op : Op) → Reply op → Prop} (qos : UserQos) : QuotaIssues D answers SessionOp qos :=
  ⟨trivial,fun _ _ _ => ⟨trivial,fun _ => trivial⟩⟩

theorem session_rate (qos : UserQos) : RateIssues D SessionOp qos where
  record _ := trivial
  random _ := trivial
  check _ _ := trivial
  limit _ _ := trivial
  rate _ _ _ _ := ⟨trivial,trivial,fun _ => trivial,fun _ => rateKey_digit _ _ _ _⟩

theorem session_rules : SessionRules D (fun _ => True) (fun _ => True) (fun _ _ => True) sessionProtocol
    (fun _ _ _ => True) (fun _ _ => True) where
  blind := by
    intro _ op plain
    refine ⟨?_,fun _ _ => rfl⟩
    cases op <;> trivial
  requested _ _ _ := trivial
  answering _ _ _ := trivial
  ended _ _ _ _ _ := trivial
  admitted := by
    intro _ a _ qos model stream _ _
    refine follows_mono (follows_of_within (fun _ ok => ⟨ok,fun _ _ => rfl⟩)
      (admitRequest_within (session_rate qos) (session_quota qos) model stream)) ?_
    rintro _ result ⟨_,owner⟩
    exact ⟨owner,by split <;> trivial⟩
  charged := by
    intro qos a usage complete _
    cases qos with
    | none =>
      unfold chargeUsage
      split <;> trivial
    | some qos =>
      exact follows_mono (follows_of_within (fun _ ok => ⟨ok,fun _ _ => rfl⟩)
        (chargeUsage_within (session_rate qos) (session_quota qos) usage complete)) (fun _ _ _ => trivial)

/-- A party at rest: a replica knows that the shared state is sound. -/
def Rests (D : Deployment ι) (base : String → Int) : Local → World → Prop
  | .replica,w => Sound D base w
  | _,_ => True

variable {p : Action Local} {st : SyncState} {α : Type} {c d : Config Op Reply ι World Local}

private theorem session_guar {l : Local} (session : l ≠ .replica) (begins : Starts D i l p) :
    Guar ((D.system fails).act i) (Rely D base) (May D) (Rests D base) p w := by
  have rests : Keeps (fun _ _ (_ : Unit) => True) (fun _ _ => True) (fun _ => False) () l := by
    cases l with
    | session phase => cases phase <;> trivial
    | crashed => trivial
    | replica => exact absurd rfl session
  have follows := session_follows (session_rules (D := D)) (fun _ never => never.elim) rests begins
  have within : Issues SessionOp (fun l => l ≠ .replica) p := by
    refine within_of_follows (fun _ _ allowed => allowed) ?_ follows
    rintro _ v kept rfl
    exact kept
  refine guar_of_within (I := fun _ => True) (fun _ _ _ _ => trivial) (fun _ _ _ _ _ _ _ => trivial)
    (fun _ _ _ _ _ _ => trivial) ?_ ?_ within trivial
  · intro op w _ issued
    cases op with
    | expire key seconds =>
      rintro ⟨ns,name,t,rfl⟩
      exact quotaKey_digit _ _ _ _ issued
    | set | updateQuotaStatus => exact issued.elim
    | _ => trivial
  · intro l w _ isSession
    cases l with
    | replica => exact absurd rfl isSession
    | _ => trivial

/-! ### Passes -/

private theorem acts_listQuotas {r : Reply .listQuotas} {w' : World} (act : Acts fails w .listQuotas r w') :
    w' = w ∧ ∀ qs, r = .ok qs → ∀ q ∈ qs, q ∈ w.quotas ++ w.past := by
  cases act with
  | done =>
    refine ⟨rfl,fun qs ok q member => ?_⟩
    cases ok
    exact List.mem_append_left _ member
  | refused _ failed =>
    cases failed
    exact ⟨rfl,fun _ ok => by cases ok⟩
  | unheard _ failed =>
    cases failed
    exact ⟨rfl,fun _ ok => by cases ok⟩
  | staleQuotas versions =>
    refine ⟨rfl,fun qs ok => ?_⟩
    cases ok
    exact versions

/-- The reads of a pass: each is made in a state that has grown from the one before. -/
inductive ReadAll (D : Deployment ι) : World → List (QuotaRequest × Except RedisErr Int) → World → Prop
  | done {w w' : World} : Grows D w w' → ReadAll D w [] w'
  | next {w w₁ w' : World} {req : QuotaRequest} {getCmd : Except RedisErr Int}
      {items : List (QuotaRequest × Except RedisErr Int)} : Grows D w w₁ →
      ((∃ message, getCmd = .error (.failed message)) ∨
        currentValue getCmd = w₁.value (generateQuotaKey D.quotas.keyPrefix req)) →
      ReadAll D w₁ items w' → ReadAll D w ((req,getCmd) :: items) w'

theorem readAll_later {w w' w'' : World} (reads : ReadAll D w items w') (grows : Grows D w' w'') : ReadAll D w items w'' := by
  induction reads with
  | done before => exact .done (grows_trans D before grows)
  | next before read _ ih => exact .next before read (ih grows)

private theorem usageResults_cons {req : QuotaRequest} {getCmd : Except RedisErr Int} {usage : List QuotaResult}
    (ok : usageResults ((req,getCmd) :: items) = .ok usage) :
    (∀ message, getCmd ≠ .error (.failed message)) ∧
      ∃ rest, usageResults items = .ok rest ∧ usage = quotaResult req (currentValue getCmd) :: rest := by
  rw [usageResults.eq_def] at ok
  cases later : usageResults items with
  | error e => rcases getCmd with (_ | message) | v <;> simp [later] at ok
  | ok rest => rcases getCmd with (_ | message) | v <;> simp_all

/-- A usage that no record is ahead of is the one that gets recorded. -/
theorem foldType_behind (now : Int) {u : QuotaResult}
    (behind : ∀ used, usedOf st.quotaStatus (typeOf u) = some used → used ≤ u.currentUsage) :
    (foldType now st u).shouldUpdateQuota = st.shouldUpdateQuota ∧ ∀ t,
      usedOf (foldType now st u).quotaStatus t = if t = typeOf u then some u.currentUsage else usedOf st.quotaStatus t := by
  constructor
  · rw [Bool.eq_iff_iff,foldType_flag]
    refine ⟨fun flag => flag.resolve_right ?_,.inl⟩
    rintro ⟨used,recorded,ahead⟩
    exact not_lt.mpr (behind used recorded) ahead
  · intro t
    rw [foldType_used]
    by_cases same : t = typeOf u
    · subst same
      cases recorded : usedOf st.quotaStatus (typeOf u) with
      | none => simp [larger]
      | some used => simp [larger_of_le (behind used recorded)]
    · simp [same]

/-- What the pass computes from its reads: a status that is covered by Redis does
    not call for a write to Redis, and stays covered. -/
theorem synced_covered {w w' : World} (reads : ReadAll D w items w')
    (keys : ∀ item ∈ items, generateQuotaKey D.quotas.keyPrefix item.1 = keyOf D.quotas q (quotaTypeOf item.1.identifier))
    {usage : List QuotaResult} (ok : usageResults items = .ok usage) {st' : SyncState} (synced : Synced st usage st')
    (covered : Covered D w q st.quotaStatus) :
    st'.shouldUpdateQuota = st.shouldUpdateQuota ∧ UsedLe st.quotaStatus st'.quotaStatus ∧
      Covered D w' q st'.quotaStatus := by
  induction reads generalizing usage st with
  | done grows =>
    cases ok
    cases synced
    exact ⟨rfl,usedLe_refl _,covered_mono covered grows.usage⟩
  | @next w w₁ w' req getCmd items grows read _ ih =>
    obtain ⟨readable,rest,later,rfl⟩ := usageResults_cons ok
    have value : currentValue getCmd = w₁.value (keyOf D.quotas q (quotaTypeOf req.identifier)) := by
      rw [← keys (req,getCmd) List.mem_cons_self]
      exact read.resolve_left (fun ⟨message,failed⟩ => readable message failed)
    have before : Covered D w₁ q _ := covered_mono covered grows.usage
    cases synced with
    | next now synced =>
      have behind : ∀ used, usedOf st.quotaStatus (typeOf (quotaResult req (currentValue getCmd))) = some used →
          used ≤ (quotaResult req (currentValue getCmd)).currentUsage :=
        fun used recorded => (before _ used recorded).trans value.ge
      obtain ⟨flag,folded⟩ := foldType_behind now behind
      have above : UsedLe st.quotaStatus (foldType now st (quotaResult req (currentValue getCmd))).quotaStatus := by
        intro t x recorded
        rw [folded]
        split
        · rename_i same
          exact ⟨_,rfl,behind x (same ▸ recorded)⟩
        · exact ⟨x,recorded,le_refl x⟩
      have during : Covered D w₁ q (foldType now st (quotaResult req (currentValue getCmd))).quotaStatus := by
        intro t x recorded
        rw [folded] at recorded
        split at recorded
        · rename_i same
          rw [← Option.some.inj recorded,same]
          exact value.le
        · exact before t x recorded
      obtain ⟨unset,higher,after⟩ := ih (fun item member => keys item (.tail _ member)) later synced during
      exact ⟨unset.trans flag,usedLe_trans above higher,after⟩

/-- Where a pass stands: the state is sound and has grown from `w`. -/
def Since (D : Deployment ι) (base : String → Int) (w s : World) : Prop := Sound D base s ∧ Grows D w s

theorem since_later {w s' : World} (since : Since D base w s) (moved : Rely D base s s') : Since D base w s' := by
  obtain ⟨sound,grows⟩ := moved since.1
  exact ⟨sound,grows_trans D since.2 grows⟩

private theorem getAll_guar (requests : List QuotaRequest) {w : World} (sound : Sound D base w) :
    Guar ((D.system fails).act i) (Rely D base) (May D)
      (fun items s => Since D base w s ∧ ReadAll D w items s ∧ ∀ item ∈ items, item.1 ∈ requests)
      (D.quotas.getAll requests) w := by
  induction requests generalizing w with
  | nil =>
    intro s moved
    obtain ⟨sound',grows⟩ := moved sound
    exact ⟨⟨sound',grows⟩,.done grows,by simp⟩
  | cons req requests ih =>
    simp only [RedisQuotaService.getAll,issue_bind]
    intro s moved
    obtain ⟨sound',grows⟩ := moved sound
    refine ⟨trivial,fun r s' act => ?_⟩
    obtain ⟨rfl,read⟩ := acts_get act
    refine guar_bind (rely_refl D base) (ih sound') ?_
    rintro items u ⟨since,reads,listed⟩ v further
    have later := since_later since further
    refine ⟨⟨later.1,grows_trans D grows later.2⟩,.next grows read (readAll_later reads (further since.1).2),?_⟩
    intro item member
    rcases List.mem_cons.mp member with rfl | member
    · exact .head _
    · exact .tail _ (listed item member)

private theorem getUsage_guar (requests : List QuotaRequest) {w : World} (sound : Sound D base w) :
    Guar ((D.system fails).act i) (Rely D base) (May D)
      (fun r s => Since D base w s ∧ ∀ usage, r = .ok usage → ∃ items, usageResults items = .ok usage ∧
        ReadAll D w items s ∧ ∀ item ∈ items, item.1 ∈ requests)
      (D.quotas.getUsage requests) w := by
  refine guar_bind (rely_refl D base) (getAll_guar requests sound) ?_
  rintro items s ⟨since,reads,listed⟩
  split
  · intro s' moved
    exact ⟨since_later since moved,by simp⟩
  · intro s' moved
    refine ⟨since_later since moved,fun usage ok => ⟨items,ok,?_,listed⟩⟩
    exact readAll_later reads (moved since.1).2

/-- A part of the pass that only reads the clock. -/
theorem clock_guar {p : Action α} {Q : α → Prop} {w : World} (reads : Issues IsNow Q p) (since : Since D base w s) :
    Guar ((D.system fails).act i) (Rely D base) (May D) (fun a s => Since D base w s ∧ Q a) p s := by
  refine guar_of_within (I := Since D base w) (fun _ _ since moved => since_later since moved) ?_
    (fun _ _ _ _ _ _ => trivial) ?_ (fun _ _ since ok => ⟨since,ok⟩) reads since
  · rintro op s r s' since rfl act
    cases act with
    | done => exact since
    | refused _ failed => cases failed
    | unheard _ failed => cases failed
  · rintro op s _ rfl
    trivial

private theorem syncRequests_keyOf {req : QuotaRequest} (member : req ∈ syncRequests q) :
    generateQuotaKey D.quotas.keyPrefix req = keyOf D.quotas q (quotaTypeOf req.identifier) := by
  obtain ⟨item,_,rfl⟩ := List.mem_map.mp member
  rfl

private theorem acts_status {r : Reply (.updateQuotaStatus q)} {w' : World} (sound : Sound D base w)
    (may : May D (.updateQuotaStatus q) w) (act : Acts fails w (.updateQuotaStatus q) r w') :
    Sound D base w' ∧ Grows D w w' := by
  cases act with
  | done => exact sound_status sound may
  | refused => exact ⟨sound,grows_refl D w⟩
  | unheard => exact sound_status sound may

private theorem updateCR_guar {w : World} (version : q ∈ w.quotas ++ w.past)
    (above : UsedLe q.quotaStatus st.quotaStatus) (covered : Covered D s q st.quotaStatus) (since : Since D base w s) :
    Guar ((D.system fails).act i) (Rely D base) (May D) (fun _ s => Since D base w s) (updateCR q st) s := by
  unfold updateCR
  split
  · simp only [issue_bind]
    intro s' moved
    have since' := since_later since moved
    have may : May D (.updateQuotaStatus { q with quotaStatus := st.quotaStatus }) s' :=
      ⟨q,since'.2.versions q version,⟨rfl,rfl⟩,rfl,above,covered_mono covered (moved since.1).2.usage⟩
    refine ⟨may,fun r s'' act => ?_⟩
    obtain ⟨sound,grows⟩ := acts_status since'.1 may act
    exact fun t further => since_later ⟨sound,grows_trans D since'.2 grows⟩ further
  · exact fun s' moved => since_later since moved

/-- A pass over one quota, from any version of it that was read. -/
theorem syncQuota_guar {w : World} (sound : Sound D base w) (version : q ∈ w.quotas ++ w.past) :
    Guar ((D.system fails).act i) (Rely D base) (May D) (fun _ s => Since D base w s) (D.provider.syncQuota q) w := by
  refine guar_bind (rely_refl D base) (getUsage_guar (syncRequests q) sound) ?_
  rintro read s ⟨since,results⟩
  cases read with
  | error e => exact fun s' moved => since_later since moved
  | ok usage =>
    obtain ⟨items,ok,reads,listed⟩ := results usage rfl
    refine guar_bind (rely_refl D base) (clock_guar (syncTypes_synced _ usage) ⟨since.1,grows_refl D s⟩) ?_
    rintro st u ⟨since',synced⟩
    obtain ⟨unset,above,covered⟩ := synced_covered reads (fun item member => syncRequests_keyOf (listed item member)) ok
      synced (sound.covered q version)
    -- the flag is still down, so the pass goes on to the status
    have skipped : D.provider.updateQuota (syncRequests q) st = pure () := by
      simp [ArksProvider.updateQuota,unset]
    change Guar _ _ _ _ (D.provider.updateQuota (syncRequests q) st >>= fun _ => updateCR q st) u
    rw [skipped]
    exact updateCR_guar version above (covered_mono covered since'.2.usage) ⟨since'.1,grows_trans D since.2 since'.2⟩

private theorem syncQuotas_guar {qs : List ArksQuota} {w : World} (versions : ∀ q ∈ qs, q ∈ w.quotas ++ w.past)
    (since : Since D base w s) :
    Guar ((D.system fails).act i) (Rely D base) (May D) (fun _ s => Since D base w s) (D.provider.syncQuotas qs) s := by
  induction qs generalizing s with
  | nil => exact fun s' moved => since_later since moved
  | cons q qs ih =>
    have version := since.2.versions q (versions q (.head _))
    refine guar_bind (rely_refl D base) (syncQuota_guar since.1 version) ?_
    intro _ u since'
    exact ih (fun x member => versions x (.tail _ member)) ⟨since'.1,grows_trans D since.2 since'.2⟩

private theorem pass_guar {w : World} (sound : Sound D base w) :
    Guar ((D.system fails).act i) (Rely D base) (May D) (Rests D base) D.pass w := by
  have pass : Guar ((D.system fails).act i) (Rely D base) (May D) (fun _ s => Sound D base s)
      D.provider.syncQuotaUsage w := by
    simp only [ArksProvider.syncQuotaUsage,issue_bind]
    intro s moved
    obtain ⟨sound',_⟩ := moved sound
    refine ⟨trivial,fun r s' act => ?_⟩
    obtain ⟨rfl,versions⟩ := acts_listQuotas act
    cases r with
    | error e => exact fun t further => (further sound').1
    | ok qs =>
      refine guar_bind (rely_refl D base) (syncQuotas_guar (versions qs rfl) ⟨sound',grows_refl D _⟩) ?_
      exact fun _ u since t further => (further since.1).1
  refine guar_bind (rely_refl D base) pass ?_
  exact fun _ u sound' t further => (further sound').1

/-! ### Whole runs -/

/-- Every charge of a quota so far was for a count that is not negative. -/
def Charges (D : Deployment ι) (c : Config Op Reply ι World Local) : Prop :=
  ∀ e ∈ c.shared.increments, IsQuotaKey D e.1 → 0 ≤ e.2

/-- Where a run starts: nobody has begun, the usages do not expire, no status is
    ahead of Redis, and the older versions in the caches are older indeed. -/
structure Initial (D : Deployment ι) (c : Config Op Reply ι World Local) : Prop where
  rest : ∀ i, ∃ l, c.prog i = .ret l ∧ AtRest l
  log : c.shared.increments = []
  lasting : ∀ key, IsQuotaKey D key → ∀ cell, c.shared.redis key = some cell → cell.expireAt = none
  covered : ∀ q ∈ c.shared.quotas, Covered D c.shared q q.quotaStatus
  distinct : Distinct c.shared
  history : ∀ old ∈ c.shared.past, ∃ q ∈ c.shared.quotas, SameObject old q ∧
    old.resourceVersion < q.resourceVersion ∧ UsedLe old.quotaStatus q.quotaStatus

theorem initial_sound (initial : Initial D c) : Sound D c.shared.value c.shared := by
  refine ⟨initial.lasting,?_,?_,?_,initial.distinct,?_,?_⟩
  · intro key _
    rw [initial.log]
    exact (add_zero _).symm
  · intro e member
    rw [initial.log] at member
    cases member
  · intro q member
    rcases List.mem_append.mp member with present | past
    · exact initial.covered q present
    · obtain ⟨current,present,same,_,le⟩ := initial.history q past
      intro t x recorded
      obtain ⟨y,recorded',le'⟩ := le t x recorded
      have bound := initial.covered current present t y recorded'
      unfold QuotaSync.keyOf at bound ⊢
      rw [same.1,same.2]
      exact le'.trans bound
  · intro q present old past same
    obtain ⟨current,present',same',older,_⟩ := initial.history old past
    rwa [same_object_eq initial.distinct present present' ⟨same.1.symm.trans same'.1,same.2.symm.trans same'.2⟩]
  · intro old past
    obtain ⟨q,present,same,_⟩ := initial.history old past
    exact ⟨q,present,same⟩

private theorem starts_guar {l : Local} {w : World} (rests : Rests D base l w) (begins : Starts D i l p) :
    Guar ((D.system fails).act i) (Rely D base) (May D) (Rests D base) p w := by
  cases l with
  | replica =>
    cases begins
    exact pass_guar rests
  | session | crashed => exact session_guar (by simp) begins

theorem initial_guar (initial : Initial D c) (i : ι) :
    Guar ((D.system fails).act i) (Rely D c.shared.value) (May D) (Rests D c.shared.value) (c.prog i) c.shared := by
  obtain ⟨l,resting,kind⟩ := initial.rest i
  rw [resting]
  intro s moved
  rcases kind with rfl | rfl
  · trivial
  · exact (moved (initial_sound initial)).1

/-! ### Where charges come from -/

/-- The program is in the loop of `IncrUsage`, at a request for this key and amount. -/
def Applies (D : Deployment ι) {α : Type} (key : String) (n : Int) (p : Action α) : Prop :=
  ∃ req rest after, p = D.quotas.incrAll (req :: rest) >>= after ∧ key = generateQuotaKey D.quotas.keyPrefix req ∧ n = req.request

/-- A request as it is logged. -/
def chargeOf (D : Deployment ι) (req : QuotaRequest) : String × Int := (generateQuotaKey D.quotas.keyPrefix req,req.request)

variable [DecidableEq ι]

/-- In every state of a run every party keeps its guarantee, the state is sound and has grown. -/
theorem run_sound (first : ∀ i, Guar ((D.system fails).act i) (Rely D base) (May D)
      (Rests D base) (c.prog i) c.shared) (sound : Sound D base c.shared) (run : Reach (D.system fails) (Charges D) c d) :
    (∀ i, Guar ((D.system fails).act i) (Rely D base) (May D) (Rests D base) (d.prog i) d.shared) ∧
      Sound D base d.shared ∧ Grows D c.shared d.shared := by
  obtain ⟨holds,moved⟩ := reach_guar (G := fun _ => May D) (Q := fun _ => Rests D base) (rely_refl D base) (rely_trans D)
    (fun _ _ _ _ passed sound => passes_sound sound passed)
    (fun _ _ _ _ _ _ legal may act sound => acts_sound sound may act legal)
    (fun _ _ _ _ rests begins => starts_guar rests begins) first run
  exact ⟨holds,moved sound⟩

/-- On the way from `d` party `i` makes these calls, while the others log `more`. -/
inductive Meanwhile (D : Deployment ι) (fails : Op → Prop) (i : ι) (d : Config Op Reply ι World Local) :
    List (Call Op Reply) → List (String × Int) → Config Op Reply ι World Local → Prop
  | here : Meanwhile D fails i d [] [] d
  | own {calls : List (Call Op Reply)} {more : List (String × Int)} {e : Config Op Reply ι World Local} {op : Op}
      {next : Reply op → Action Local} {r : Reply op} {w : World} : Meanwhile D fails i d calls more e →
      e.prog i = .call op next → Acts fails e.shared op r w →
      Meanwhile D fails i d (calls ++ [⟨op,r⟩]) more ⟨w,Function.update e.prog i (next r)⟩
  | other {calls : List (Call Op Reply)} {more added : List (String × Int)} {e e' : Config Op Reply ι World Local} :
      Meanwhile D fails i d calls more e → Step (D.system fails) e e' → e'.prog i = e.prog i →
      e'.shared.increments = added ++ e.shared.increments → Meanwhile D fails i d calls (added ++ more) e'

/-- No charge is lost or doubled between the start `c` and the moment `d`, nor
    does a status go back until any later moment `e`. -/
structure Kept (D : Deployment ι) (fails : Op → Prop) (c d e : Config Op Reply ι World Local) : Prop where
  usage : ∀ ns name t, d.shared.value (quotaKey D.quotas.keyPrefix ns name t) =
    c.shared.value (quotaKey D.quotas.keyPrefix ns name t) +
      charged (quotaKey D.quotas.keyPrefix ns name t) d.shared.increments
  applied : ∀ i requests next calls more later, d.prog i = D.quotas.incrUsage requests >>= next →
    Meanwhile D fails i d calls more later → Runs (D.quotas.incrUsage requests) calls (.ok ()) →
    later.shared.increments.Perm (requests.map (chargeOf D) ++ more ++ d.shared.increments)
  only : ∀ i key n next, d.prog i = .call (.incrBy key n) next → IsQuotaKey D key → Applies D key n (d.prog i)
  covered : ∀ q ∈ d.shared.quotas, ∀ t used, usedOf q.quotaStatus t = some used →
    used ≤ d.shared.value (quotaKey D.quotas.keyPrefix q.namespace_ q.name t)
  rising : ∀ q ∈ d.shared.quotas, ∃ q' ∈ e.shared.quotas, SameObject q q' ∧ UsedLe q.quotaStatus q'.quotaStatus
  unset : ∀ i key value next, d.prog i ≠ .call (.set key value) next

/-- Two sessions and one replica, before any of them has begun. -/
def opened : State (Fin 3) := awaiting 5 2 (fun i => if i = 2 then .replica else .session .opening .initial [])

theorem opened_initial : Initial (small (Fin 3)) opened where
  rest i := by
    refine ⟨_,rfl,?_⟩
    dsimp only
    split
    · exact .inr rfl
    · exact .inl rfl
  log := rfl
  lasting _ _ _ found := by cases found
  covered q member t x recorded := by
    obtain rfl := List.mem_singleton.mp member
    cases recorded
  distinct := List.pairwise_singleton _ _
  history _ past := by cases past

/-- The first session is answered while a pass has read the usage, and the next pass is complete. -/
def answeredMeanwhile : List (Move (Fin 3)) :=
  sends 0 "alice" ++ steps 0 11 ++ [.pass 2] ++ steps 2 2 ++ answered 0 ++ steps 0 13 ++ steps 2 2 ++ [.pass 2] ++ steps 2 4

def chargedOnce : State (Fin 3) := run (small (Fin 3)) opened answeredMeanwhile

/-- The second session asks for the same quota. -/
def askedAgain : State (Fin 3) := run (small (Fin 3)) chargedOnce (sends 1 "alice" ++ steps 1 7)

end Parties
end Arks.QuotaRuns
