import Arks.Readiness

/-!
The replicas of the children after a pass. A pass of `Reconcile` runs on the cluster, where
every call may fail before it takes effect. When it returns without an error, the phase is
not Failed and the children are there, their replicas are compared with the specification.
The reconciler of `ArksApplication` sets them only when it creates the leader worker set.
That of the disaggregated applications enforces them in every pass that gets to the
children, but it passes over a failed update, and takes zero replicas of the router for one.
-/
namespace Arks.ReplicaCounts
open Programs Programs.Prog Api Kube Controllers Workloads Applications Passes

/-! ### Calls on a cluster -/

section Frames
variable {index : Index} {c c' : Cluster} {k : Kind} {ns name : String} {calls : List KubeCall} {o : Object k}

theorem plays_frame (aside : ∀ call ∈ calls, ¬ Touches k ns name call.1) (played : Plays (Fallible index) calls c c') :
    c'.objects k ns name = c.objects k ns name := by
  refine plays_keep (f := fun c : Cluster => c.objects k ns name) ?_ played
  intro call is c c' served
  exact fallible_frame served (aside call is)

theorem touches_kind {op : KubeOp} (touches : Touches k ns name op) : kindOf op = k := by
  cases op with
  | get | list => cases touches
  | create | update | updateStatus | patch | delete => exact touches.1

theorem plays_kind (others : ∀ call ∈ calls, kindOf call.1 ≠ k) (played : Plays (Fallible index) calls c c') :
    c'.objects k ns name = c.objects k ns name :=
  plays_frame (fun call is touches => others call is (touches_kind touches)) played

theorem not_touches_get {k' : Kind} {ns' name' : String} : ¬ Touches k ns name (.get k' ns' name') := fun touches => touches

/-- A call that fails leaves the cluster as it is. -/
theorem refused_same {op : KubeOp} {e : ApiErr} (served : Fallible index op c (.error e) c') : c' = c := by
  cases served with
  | handled done =>
    cases handles_cases done with
    | got | refused => rfl
  | failed => rfl

/-- A ladder that comes to the create has not found the child. -/
theorem attempt_plays {message : String} {r : KubeReply (.create k o)}
    (played : Plays (Fallible index) (⟨.get k ns name,.error (.notFound message)⟩ :: (calls ++ [⟨.create k o,r⟩])) c c') :
    c.objects k ns name = none ∧ ∃ c₁, Plays (Fallible index) calls c c₁ ∧ Fallible index (.create k o) c₁ r c' := by
  obtain ⟨c₁,got,played⟩ := plays_cons.mp played
  obtain ⟨c₂,during,last⟩ := plays_append.mp played
  obtain ⟨rfl,_,absent⟩ := fallible_get got
  obtain ⟨c₃,made,same⟩ := plays_cons.mp last
  cases plays_nil.mp same
  exact ⟨absent message rfl,c₂,during,made⟩

/-- The ladder of a child that is there leaves it as it is; one that goes on without it has created it. -/
theorem ladder_plays {generate : KubeAction (Generated (Object k))} {ensured : Ensured}
    (ladder : Ladder k ns name generate calls ensured) (played : Plays (Fallible index) calls c c')
    (quiet : ∀ calls g, Runs generate calls g → ∀ call ∈ calls, ¬ Touches k ns name call.1)
    (named : ∀ calls o, Runs generate calls (.object o) → key k o = (ns,name)) :
    c'.objects k ns name = c.objects k ns name ∨
      (c.objects k ns name = none ∧ ∃ calls o, Runs generate calls (.object o) ∧ c'.objects k ns name = some o) := by
  have unmade : ∀ {message : String} {calls : List KubeCall} {g : Generated (Object k)}, Runs generate calls g →
      ∀ call ∈ ⟨.get k ns name,.error (.notFound message)⟩ :: calls, ¬ Touches k ns name call.1 := by
    intro message calls g generated call is
    rcases List.mem_cons.mp is with rfl | is
    · exact not_touches_get
    · exact quiet _ _ generated call is
  cases ladder with
  | found | unread => exact .inl (plays_frame (by simpa using not_touches_get) played)
  | panicked _ generated => exact .inl (plays_frame (unmade generated) played)
  | ungenerated _ generated => exact .inl (plays_frame (unmade generated) played)
  | @created message calls o generated =>
    obtain ⟨absent,c₁,_,made⟩ := attempt_plays played
    refine .inr ⟨absent,calls,o,generated,?_⟩
    rw [serves_create (fallible_serves made)]
    have here := Cluster.put_stored (c := c₁) o
    rwa [named calls o generated] at here
  | @existed message text calls o generated =>
    obtain ⟨_,c₁,during,made⟩ := attempt_plays played
    rw [refused_same made]
    exact .inl (plays_frame (quiet _ _ generated) during)
  | @uncreated message calls o e generated =>
    obtain ⟨_,c₁,during,made⟩ := attempt_plays played
    rw [refused_same made]
    exact .inl (plays_frame (quiet _ _ generated) during)

private theorem delete_gone {r : KubeReply (.delete k ns name)} (served : Fallible index (.delete k ns name) c r c')
    (gone : r = .ok () ∨ ∃ message, r = .error (.notFound message)) : c'.objects k ns name = none := by
  cases served with
  | handled done => exact handles_delete done
  | failed message => simp at gone

private theorem delete_absent {k' : Kind} {ns' name' : String} {r : KubeReply (.delete k ns name)}
    (served : Fallible index (.delete k ns name) c r c') (absent : c.objects k' ns' name' = none) :
    c'.objects k' ns' name' = none := by
  cases served with
  | handled done =>
    cases handles_cases done with
    | refused => exact absent
    | deleted =>
      by_cases same : k = k' ∧ (ns,name) = (ns',name')
      · obtain ⟨rfl,same⟩ := same
        cases same
        rw [Cluster.remove_objects,if_pos ⟨rfl,rfl⟩]
      · rw [Cluster.remove_aside same,absent]
  | failed => exact absent

/-- The children of an application are gone when their removal is reported. -/
theorem removeChildren_plays {children : List (Kind × String × String)}
    (run : Runs (Reconciler.removeChildren ns children) calls (.ok ())) (played : Plays (Fallible index) calls c c') :
    (∀ k n, c.objects k ns n = none → c'.objects k ns n = none) ∧ ∀ child ∈ children, c'.objects child.1 ns child.2.1 = none := by
  induction children generalizing c calls with
  | nil =>
    obtain ⟨rfl,_⟩ := runs_ret.mp run
    cases plays_nil.mp played
    exact ⟨fun _ _ absent => absent,by simp⟩
  | cons child children ih =>
    obtain ⟨k,n,what⟩ := child
    obtain ⟨removed,rest,rfl,later⟩ := runs_call.mp run
    obtain ⟨c₁,deleted,behind⟩ := plays_cons.mp played
    obtain ⟨ok,reported⟩ : Runs (Reconciler.removeChildren ns children) rest (.ok ()) ∧
        (removed = .ok () ∨ ∃ message, removed = .error (.notFound message)) := by
      rcases removed with (message | message | message) | _
      · exact ⟨later,.inr ⟨message,rfl⟩⟩
      · cases (runs_ret.mp later).2
      · cases (runs_ret.mp later).2
      · exact ⟨later,.inl rfl⟩
    obtain ⟨kept,gone⟩ := ih ok behind
    refine ⟨fun k' n' absent => kept k' n' (delete_absent deleted absent),fun child is => ?_⟩
    rcases List.mem_cons.mp is with rfl | is
    · exact kept k n (delete_gone deleted reported)
    · exact gone child is

/-- An accepted update stores what it answers, or lets the object go. -/
theorem fallible_update {o' : Object k} (served : Fallible index (.update k o) c (.ok o') c') :
    ∃ stored, o' = updated (c.revision + 1) k stored o ∧
      (∀ found, c'.objects k (key k o).1 (key k o).2 = some found → found = o') ∧
      (released k o' = false → c'.objects k (key k o).1 (key k o).2 = some o') := by
  cases handles_cases (serves_ok (fallible_serves served)) with
  | @updated _ _ stored _ _ stays =>
    refine ⟨stored,rfl,?_⟩
    rw [Cluster.put_objects,key_updated,if_pos ⟨rfl,rfl⟩]
    exact ⟨fun _ same => (Option.some.inj same).symm,fun _ => rfl⟩
  | @released _ _ stored _ _ gone =>
    refine ⟨stored,rfl,?_⟩
    simp [Cluster.remove_objects,gone]

end Frames

/-! ### The effect of a pass -/

section Effect
variable {k : Kind} (r : Reconciler k) {σ : Type} (f : Object k → σ)

/-- A part of the specification that the skeleton of a reconciler leaves alone. -/
structure Counted : Prop extends Tame r where
  keyed : ∀ app, key k app = ((r.meta_ app).namespace_.val,(r.meta_ app).name.val)
  of_withMeta : ∀ app m, f (r.withMeta app m) = f app
  of_withProgress : ∀ app s, f (r.withProgress app s) = f app
  of_defaulted : ∀ app, f (r.defaulted app) = f app
  of_updated : ∀ revision stored sent, f (updated revision k stored sent) = f sent
  of_statusUpdated : ∀ revision stored sent, f (statusUpdated revision k stored sent) = f stored
  progress_statusUpdated : ∀ revision stored sent, r.progress (statusUpdated revision k stored sent) = r.progress sent
  modelName_withProgress : ∀ app s, r.modelName (r.withProgress app s) = r.modelName app
  modelName_defaulted : ∀ app, r.modelName (r.defaulted app) = r.modelName app
  syncs : ∀ {app calls result}, Runs (r.sync app) calls result → r.meta_ result.1 = r.meta_ app
  halts : ∀ {app model calls app' result}, ¬ Runs (r.start app model) calls (.stop app' (.done result))

/-- A pass over the application gets to its children: the finalizer is on, and the model was ready or is. -/
def Serving (c : Cluster) (app : Object k) : Prop :=
  arksApplicationControllerFinalizer ∈ (r.meta_ app).finalizers ∧
    (Progress.check (r.progress app) .loaded = true ∨
      ∃ model, c.objects .model (r.meta_ app).namespace_ (r.modelName app) = some model ∧ model.status.phase = some .ready)

variable (index : Index)

/-- What a pass without an error does to the children of an application that is not left Failed. -/
inductive Effect (c c' : Cluster) (app : Object k) (calls : List KubeCall) : Prop
  | removed : (∀ child ∈ r.children app, c'.objects child.1 (r.meta_ app).namespace_ child.2.1 = none) → Effect c c' app calls
  | idle : ¬ Serving r c app → (∀ kind, childKind kind → c'.objects kind = c.objects kind) → Effect c c' app calls
  | served {app₁ app₂ after : Object k} {model : ArksModel} {during rest : List KubeCall} {result : Result} {c₁ c₂ : Cluster} :
      Serving r c app → r.meta_ app₁ = r.meta_ app → f app₁ = f app → Runs (r.announce app₁ model) during (.next app₂) →
      Runs (r.sync app₂) rest (after,.done result) → (r.progress after).phase ≠ some .failed →
      Plays (Fallible index) during c c₁ → Plays (Fallible index) rest c₁ c₂ →
      (∀ kind, childKind kind → c'.objects kind = c₂.objects kind) →
      (∀ call, kindOf call.1 = .lws → (call ∈ calls ↔ call ∈ during ++ rest)) → Effect c c' app calls

/-- A pass over the application that returns no error, where every call may fail. -/
def Succeeds (namespace_ name : String) (calls : List KubeCall) (c c' : Cluster) : Prop :=
  ∃ result, Runs (r.reconcileRequest namespace_ name) calls (.done result) ∧ Plays (Fallible index) calls c c'

variable {r f index}
variable {c c' : Cluster} {ns name : String} {calls : List KubeCall} {app app' : Object k}

/-- The pass goes on with the application as it was read, up to its status. -/
structure Carried (r : Reconciler k) (f : Object k → σ) (app app' : Object k) : Prop where
  meta_ : r.meta_ app' = r.meta_ app
  part : f app' = f app
  model : r.modelName app' = r.modelName app
  loaded : Progress.check (r.progress app') .loaded = Progress.check (r.progress app) .loaded

private theorem precheck_carried (counted : Counted r f) (goes : r.precheck (r.initialized app) = .next app') :
    Carried r f app app' := by
  have first : Carried r f app (r.initialized app) :=
    ⟨by simp [Reconciler.initialized],
      by rw [Reconciler.initialized,counted.of_defaulted]; exact counted.of_withProgress ..,
      by rw [Reconciler.initialized,counted.modelName_defaulted]; exact counted.modelName_withProgress ..,
      by simp [Reconciler.initialized]⟩
  rcases precheck_next r goes with ⟨_,rfl⟩ | ⟨_,_,rfl⟩
  · exact first
  · exact ⟨(r.meta_revise ..).trans first.meta_,(counted.of_withProgress ..).trans first.part,
      (counted.modelName_withProgress ..).trans first.model,by simpa using first.loaded⟩

theorem key_of (counted : Counted r f) (stored : c.objects k ns name = some app) :
    (r.meta_ app).namespace_.val = ns ∧ (r.meta_ app).name.val = name := by
  have same := (counted.keyed app).symm.trans (c.keyed stored)
  cases same
  exact ⟨rfl,rfl⟩

/-- The status is written to the object that is there. -/
theorem status_written {after : Object k} (counted : Counted r f)
    (written : Fallible index (.updateStatus k after) c₁ (.ok ()) c') (same : key k after = (ns,name))
    (stored : c'.objects k ns name = some app') :
    r.progress app' = r.progress after ∧ ∃ before, c₁.objects k ns name = some before ∧ f app' = f before := by
  obtain ⟨before,present,_,rfl⟩ := serves_updateStatus (fallible_serves written)
  have here : c₁.objects k ns name = some before := by
    rw [Cluster.stored,same] at present
    exact present
  rw [Cluster.put_objects,key_statusUpdated,c₁.keyed here,if_pos ⟨rfl,rfl⟩] at stored
  cases stored
  exact ⟨counted.progress_statusUpdated ..,before,here,counted.of_statusUpdated ..⟩

theorem others_kept {op : KubeOp} {reply : KubeReply op} (tame : Tame r) (own : kindOf op = k)
    (served : Fallible index op c reply c') : ∀ kind, childKind kind → c'.objects kind = c.objects kind := by
  intro kind child
  funext ns name
  refine fallible_frame served (fun touches => tame.own ?_)
  rw [← own,touches_kind touches]
  exact child

private theorem own_kept (tame : Tame r) (kinds : ∀ call ∈ calls, kindOf call.1 = .model ∨ childKind (kindOf call.1))
    (played : Plays (Fallible index) calls c c') : c'.objects k ns name = c.objects k ns name := by
  refine plays_kind (fun call is same => ?_) played
  rcases kinds call is with model | child
  · exact tame.model (same.symm.trans model)
  · exact tame.own (same ▸ child)

private theorem effect_removed (counted : Counted r f) {result : Result} (present : c.objects k ns name = some app)
    (run : Runs (r.remove app) calls (.done result)) (deleted : (r.meta_ app).deletionTimestamp.isSome)
    (played : Plays (Fallible index) calls c c') (stored : c'.objects k ns name = some app') :
    f app' = f app ∧ ∀ child ∈ r.children app, c'.objects child.1 (r.meta_ app).namespace_ child.2.1 = none := by
  obtain ⟨rfl,rfl⟩ := key_of counted present
  rw [Reconciler.remove,if_neg (by simpa using Option.isSome_iff_ne_none.mp deleted)] at run
  obtain ⟨removed,first,rest,rfl,children,later⟩ := runs_bind.mp run
  obtain ⟨c₁,during,behind⟩ := plays_append.mp played
  cases removed with
  | error text => cases (runs_ret.mp later).2
  | ok =>
    obtain ⟨written,last,rfl,ended⟩ := runs_call.mp later
    cases written with
    | error e => cases (runs_ret.mp ended).2
    | ok o' =>
      obtain ⟨rfl,_⟩ := runs_ret.mp ended
      obtain ⟨c₂,update,same⟩ := plays_cons.mp behind
      cases plays_nil.mp same
      refine ⟨?_,fun child is => ?_⟩
      · obtain ⟨before,rfl,kept,_⟩ := fallible_update update
        rw [counted.keyed] at kept
        simp only [r.meta_withMeta,removeFinalizer] at kept
        rw [kept app' stored,counted.of_updated,counted.of_withMeta]
      · rw [others_kept counted.toTame rfl update _ (counted.children app child is)]
        exact (removeChildren_plays children during).2 child is

/-- What a pass from the model on does, when its status is written and is not Failed. -/
theorem effect_served (counted : Counted r f) {app₀ after : Object k} {inner : List KubeCall} {result : Result}
    (present : c.objects k ns name = some app) (carries : arksApplicationControllerFinalizer ∈ (r.meta_ app).finalizers)
    (carried : Carried r f app app₀) (served : Served r app₀ inner (after,.done result))
    (played : Plays (Fallible index) inner c c₁) (written : Fallible index (.updateStatus k after) c₁ (.ok ()) c')
    (unfailed : (r.progress after).phase ≠ some .failed) :
    Effect r f index c c' app (⟨.get k ns name,.ok app⟩ :: (inner ++ [⟨.updateStatus k after,.ok ()⟩])) := by
  have others := others_kept counted.toTame rfl written
  have own : k ≠ .lws := fun lws => counted.own (.inl lws)
  cases served with
  | missing => simp at unfailed
  | @waiting model _ _ waits =>
    obtain ⟨got,last,same⟩ := plays_cons.mp played
    cases plays_nil.mp same
    obtain ⟨rfl,read,_⟩ := fallible_get last
    obtain ⟨unloaded,⟨_,_,rfl⟩ | ⟨_,unready,_,rfl⟩⟩ := waitModel_stop r waits
    · simp at unfailed
    · refine .idle (fun serving => ?_) others
      rcases serving.2 with loaded | ⟨model',found,ready⟩
      · rw [← carried.loaded,unloaded] at loaded
        cases loaded
      · have here := read model rfl
        rw [carried.meta_,carried.model,found] at here
        cases here
        exact unready ready
  | @stopped model _ _ _ calls waits announces =>
    cases announce_runs r announces with
    | stopped _ starts => exact absurd starts counted.halts
  | @synced model app₁ app₂ during rest _ waits announces synced =>
    obtain ⟨got,first,behind⟩ := plays_cons.mp played
    obtain ⟨rfl,read,_⟩ := fallible_get first
    obtain ⟨c₂,during_played,rest_played⟩ := plays_append.mp behind
    have place : r.meta_ app₁ = r.meta_ app := (Readiness.waitModel_meta waits).trans carried.meta_
    have part : f app₁ = f app := by
      rcases waitModel_next r waits with ⟨_,rfl⟩ | ⟨_,_,rfl⟩
      · exact carried.part
      · exact (counted.of_withProgress ..).trans carried.part
    refine .served ⟨carries,?_⟩ place part announces synced unfailed during_played rest_played others (fun call lws => ?_)
    · rcases waitModel_next r waits with ⟨loaded,_⟩ | ⟨_,ready,_⟩
      · exact .inl (carried.loaded.symm.trans loaded)
      · refine .inr ⟨model,?_,ready⟩
        have here := read model rfl
        rwa [carried.meta_,carried.model] at here
    · simp only [List.mem_cons,List.mem_append,List.not_mem_nil,or_false]
      constructor
      · rintro (rfl | (rfl | is) | rfl)
        · exact absurd lws own
        · cases lws
        · exact is
        · exact absurd lws own
      · exact fun is => .inr (.inl (.inr is))

private theorem served_meta (counted : Counted r f) {result : Object k × Outcome} (served : Served r app calls result) :
    r.meta_ result.1 = r.meta_ app := by
  cases served with
  | missing => simp
  | unread => rfl
  | waiting waits => rcases waitModel_stop r waits with ⟨_,⟨_,_,rfl⟩ | ⟨_,_,_,rfl⟩⟩ <;> simp
  | stopped waits announces => exact (announce_meta counted.toTame announces).trans (Readiness.waitModel_meta waits)
  | synced waits announces synced =>
    exact (counted.syncs synced).trans ((announce_meta counted.toTame announces).trans (Readiness.waitModel_meta waits))

theorem effect (counted : Counted r f) (succeeds : Succeeds r index ns name calls c c')
    (stored : c'.objects k ns name = some app') (unfailed : (r.progress app').phase ≠ some .failed) :
    ∃ app, c.objects k ns name = some app ∧ f app' = f app ∧ Effect r f index c c' app calls := by
  obtain ⟨result,run,played⟩ := succeeds
  generalize ended : Outcome.done result = outcome at run
  cases request_runs run with
  | gone message =>
    obtain ⟨c₁,got,same⟩ := plays_cons.mp played
    cases plays_nil.mp same
    obtain ⟨rfl,_,absent⟩ := fallible_get got
    rw [absent message rfl] at stored
    cases stored
  | unread | panicked | unwritten | failed => cases ended
  | @removed app _ _ deleted removed =>
    subst ended
    obtain ⟨c₁,got,behind⟩ := plays_cons.mp played
    obtain ⟨rfl,read,_⟩ := fallible_get got
    have present := read app rfl
    obtain ⟨part,gone⟩ := effect_removed counted present removed deleted behind stored
    exact ⟨app,present,part,.removed gone⟩
  | @done app after inner _ alive reconciled =>
    obtain ⟨c₁,got,behind⟩ := plays_cons.mp played
    obtain ⟨rfl,read,_⟩ := fallible_get got
    have present := read app rfl
    obtain ⟨rfl,rfl⟩ := key_of counted present
    obtain ⟨c₂,during,last⟩ := plays_append.mp behind
    obtain ⟨c₃,written,same⟩ := plays_cons.mp last
    cases plays_nil.mp same
    have others := others_kept counted.toTame rfl written
    refine ⟨app,present,?_⟩
    cases reconcile_runs r reconciled with
    | deleting deleted => simp [alive] at deleted
    | failed failed =>
      rw [(status_written counted written (counted.keyed app) stored).1,failed] at unfailed
      simp at unfailed
    | finalized o _ lacks =>
      obtain ⟨c₄,update,same⟩ := plays_cons.mp during
      cases plays_nil.mp same
      obtain ⟨before,rfl,kept,_⟩ := fallible_update update
      have place : key k (finalizing r app) = ((r.meta_ app).namespace_.val,(r.meta_ app).name.val) := by
        rw [counted.keyed,finalizing,r.meta_withMeta]
        unfold addFinalizer
        split <;> rfl
      rw [place] at kept
      obtain ⟨_,found,here,part⟩ := status_written counted written ((key_updated ..).trans place) stored
      refine ⟨?_,.idle (fun serving => lacks serving.1) (fun kind child => ?_)⟩
      · rw [part,kept found here,counted.of_updated,finalizing,counted.of_withMeta,Reconciler.initialized,counted.of_defaulted]
        exact counted.of_withProgress ..
      · rw [others kind child,others_kept counted.toTame rfl update kind child]
    | refused _ _ stops =>
      obtain ⟨_,_,reason,message,rfl⟩ := precheck_stop r stops
      have place : key k (r.revise (r.initialized app) (Progress.fail · .precheck reason message)) =
          ((r.meta_ app).namespace_.val,(r.meta_ app).name.val) := by
        rw [counted.keyed,r.meta_revise,Reconciler.initialized,r.meta_defaulted,r.meta_revise]
      rw [(status_written counted written place stored).1] at unfailed
      simp at unfailed
    | @served app₀ _ _ _ carries goes served =>
      have carried := precheck_carried counted goes
      have place : r.meta_ after = r.meta_ app := (served_meta counted served).trans carried.meta_
      obtain ⟨progress,before,here,part⟩ := status_written counted written (by rw [counted.keyed,place]) stored
      rw [own_kept counted.toTame (served_kinds counted.toTame served) during,present] at here
      cases here
      exact ⟨part,effect_served counted present carries carried served during written (progress ▸ unfailed)⟩

end Effect

/-! ### `ArksApplication` -/

section Plain
variable {p : Platform} {app app' : ArksApplication} {model : ArksModel} {calls : List KubeCall}
  {index : Index} {c c' : Cluster} {ns name : String}

theorem afterWorkload_halts {k : Kind} {r : Fields k} {app app' : Object k} {what noun : String} {ensured : Ensured}
    {result : Result} : r.afterWorkload app what noun ensured ≠ .stop app' (.done result) := by
  cases ensured <;> simp [Fields.afterWorkload]

private theorem startApplication_halts {result : Result} : ¬ Runs (startApplication p app model) calls
    (.stop app' (.done result)) := by
  intro run
  obtain ⟨lws,first,rest,rfl,_,later⟩ := runs_bind.mp run
  cases goes : applicationFields.afterWorkload app "" "LWS" lws with
  | stop app₁ outcome =>
    rw [goes] at later
    obtain ⟨_,same⟩ := runs_ret.mp later
    cases same
    exact afterWorkload_halts goes
  | next app₁ =>
    rw [goes] at later
    obtain ⟨service,second,last,rfl,_,ended⟩ := runs_bind.mp later
    obtain ⟨_,same⟩ := runs_ret.mp ended
    cases service <;> cases same

private theorem syncApplication_meta {result : ArksApplication × Outcome} (run : Runs (syncApplication app) calls result) :
    result.1.toObjectMeta = app.toObjectMeta := by
  obtain ⟨read,rest,rfl,later⟩ := runs_call.mp run
  rcases read with (_ | _ | _) | lws <;> obtain ⟨_,rfl⟩ := runs_ret.mp later <;> rfl

/-- The replicas of an application. -/
theorem plain_counted : Counted (arksApplicationReconciler p) (fun app => app.spec.replicas) where
  toTame := tame_plain p
  keyed _ := rfl
  of_withMeta _ _ := rfl
  of_withProgress _ _ := rfl
  of_defaulted _ := rfl
  of_updated _ _ _ := rfl
  of_statusUpdated _ _ _ := rfl
  progress_statusUpdated _ _ _ := rfl
  modelName_withProgress _ _ := rfl
  modelName_defaulted _ := rfl
  syncs := syncApplication_meta
  halts := startApplication_halts

private theorem generateLws_replicas {lws : LeaderWorkerSet} (generated : generateLws p app model = .object lws) :
    lws.replicas = int32 (lwsReplicas app) := by
  simp only [generateLws,generated_bind,generated_pure] at generated
  obtain ⟨_,_,_,_,_,_,_,_,rfl⟩ := generated
  rfl

private theorem int32_lwsReplicas : int32 (lwsReplicas app) = max 0 app.spec.replicas ↔ max 0 app.spec.replicas < 2 ^ 31 := by
  have clamped : lwsReplicas app = max 0 app.spec.replicas := by
    unfold lwsReplicas
    split <;> omega
  rw [clamped,int32]
  have low := Int.le_max_left 0 app.spec.replicas
  generalize max 0 app.spec.replicas = n at low ⊢
  constructor
  · intro same
    have below := Int.bmod_lt (x := n) (m := 2 ^ 32) (by decide)
    omega
  · exact fun fits => int32_of_fits (by omega) fits

/-- The replicas of the leader worker set are right before the pass, or it is created and they fit in `int32`. -/
def PlainRight (c : Cluster) (ns name : String) (app : ArksApplication) : Prop :=
  match c.objects .lws ns name with
  | some lws => lws.replicas = max 0 app.spec.replicas
  | none => max 0 app.spec.replicas < 2 ^ 31

/-- What seeing to the children does to the leader worker set. -/
theorem startApplication_plays {app₁ : ArksApplication} {flow : Flow ArksApplication}
    (run : Runs (startApplication p app₁ model) calls flow) (place : app₁.toObjectMeta = app.toObjectMeta)
    (part : app₁.spec.replicas = app.spec.replicas) (played : Plays (Fallible index) calls c c') :
    c'.objects .lws app.namespace_ app.name = c.objects .lws app.namespace_ app.name ∨
      (c.objects .lws app.namespace_ app.name = none ∧
        ∃ lws, lws.replicas = int32 (lwsReplicas app) ∧ c'.objects .lws app.namespace_ app.name = some lws) := by
  obtain ⟨ensured,first,rest,rfl,ladder,services⟩ := startApplication_runs p app₁ model run
  obtain ⟨c₁,during,behind⟩ := plays_append.mp played
  rw [← place,lwsReplicas,← part,plays_kind (fun call is => by rw [services call is]; simp) behind]
  rcases ladder_plays ladder during (fun calls g generated => by simp [(runs_ret.mp generated).1])
    (fun calls o generated => Readiness.generateLws_key (runs_ret.mp generated).2.symm) with
    same | ⟨absent,calls,o,generated,stored⟩
  · exact .inl same
  · exact .inr ⟨absent,o,generateLws_replicas (runs_ret.mp generated).2.symm,stored⟩

private theorem syncApplication_reads {result : ArksApplication × Outcome} (run : Runs (syncApplication app) calls result) :
    ∀ call ∈ calls, ¬ Touches .lws ns name call.1 := by
  obtain ⟨read,rest,rfl,later⟩ := runs_call.mp run
  have last : rest = [] := by rcases read with (_ | _ | _) | lws <;> exact (runs_ret.mp later).1
  subst last
  simp [Touches]

/-- The replicas are right after the pass when they were before, or when the set was created with them. -/
theorem plain_counts {lws : LeaderWorkerSet} (succeeds : Succeeds (arksApplicationReconciler p) index ns name calls c c')
    (stored : c'.objects .application ns name = some app') (unfailed : app'.status.phase ≠ some .failed)
    (present : c'.objects .lws ns name = some lws) :
    ∃ app, c.objects .application ns name = some app ∧ app'.spec.replicas = app.spec.replicas ∧
      (lws.replicas = max 0 app'.spec.replicas ↔ PlainRight c ns name app) := by
  obtain ⟨app,read,same,effect⟩ := effect plain_counted succeeds stored unfailed
  refine ⟨app,read,same,?_⟩
  have unchanged : c'.objects .lws ns name = c.objects .lws ns name →
      (lws.replicas = max 0 app'.spec.replicas ↔ PlainRight c ns name app) := by
    intro kept
    rw [PlainRight,← kept,present,same]
  obtain ⟨rfl,rfl⟩ : app.namespace_.val = ns ∧ app.name.val = name := key_of (plain_counted (p := p)) read
  cases effect with
  | removed gone =>
    have absent : c'.objects .lws app.namespace_ app.name = none :=
      gone (.lws,app.name.val,"underlying LWS") (by simp [arksApplicationReconciler])
    rw [present] at absent
    cases absent
  | idle _ kept => exact unchanged (by rw [kept .lws (.inl rfl)])
  | @served app₁ app₂ after model during rest result c₁ c₂ _ place part announces synced _ played₁ played₂ kept =>
    have place : app₁.toObjectMeta = app.toObjectMeta := place
    have synced : Runs (syncApplication app₂) rest (after,.done result) := synced
    have last : c'.objects .lws app.namespace_ app.name = c₁.objects .lws app.namespace_ app.name := by
      rw [kept .lws (.inl rfl),plays_frame (syncApplication_reads synced) played₂]
    cases announce_runs _ announces with
    | already =>
      cases plays_nil.mp played₁
      exact unchanged last
    | started _ starts =>
      rcases startApplication_plays starts place part played₁ with first | ⟨absent,made,count,created⟩
      · exact unchanged (last.trans first)
      · rw [last,created] at present
        cases present
        rw [count,same,PlainRight,absent]
        exact int32_lwsReplicas

end Plain

/-! ### `ArksDisaggregatedApplication` -/

section Disaggregated
open Workloads.Disaggregated (Role routerReplicas generateRouterDeployment)
open Applications.Disaggregated
variable {p : Platform} {app app' : ArksDisaggregatedApplication} {model : ArksModel} {calls : List KubeCall} {role : Role}
  {index : Index} {c c' : Cluster} {ns name : String}

/-- The replicas that a specification asks for. -/
def counts (app : ArksDisaggregatedApplication) : Option Int × Option Int × Option Int :=
  (app.spec.prefill.replicas,app.spec.decode.replicas,app.spec.router.replicas)

/-- A configured number of replicas: the one that is given unless it is negative, else one. -/
def configured : Option Int → Int
  | some n => if 0 ≤ n then n else 1
  | none => 1

theorem workloadReplicas_configured (workload : ArksDisaggregatedWorkload) :
    workloadReplicas workload = configured workload.replicas := by
  unfold workloadReplicas configured
  cases workload.replicas <;> rfl

variable {result : Result} {flow : Flow ArksDisaggregatedApplication} {c₁ : Cluster}

private theorem start_halts : ¬ Runs (start p app model) calls (.stop app' (.done result)) := by
  intro run
  have halts : Issues (fun _ => True) (fun flow => ∀ app' result, flow ≠ .stop app' (.done result)) (start p app model) :=
    start_stages (by simp) (fun _ _ _ => within_bind within_trivial (fun _ _ _ _ => afterWorkload_halts))
      (fun _ _ => within_bind within_trivial (fun _ _ _ _ => afterWorkload_halts))
      (fun _ _ => within_bind within_trivial (fun service _ => by cases service <;> simp [Disaggregated.afterService]))
  exact (runs_within halts run).2 _ _ rfl

/-- Copying the state of a workload keeps everything but the status. -/
theorem workloadSynced_kept (synced : WorkloadSynced app role calls flow) :
    flow.object.toObjectMeta = app.toObjectMeta ∧ flow.object.spec = app.spec := by
  cases synced with
  | gone | unread => exact ⟨rfl,rfl⟩
  | settled | adjusted => cases role <;> exact ⟨rfl,rfl⟩

private theorem routerSynced_kept {result : ArksDisaggregatedApplication × Outcome} (synced : RouterSynced app calls result) :
    result.1.toObjectMeta = app.toObjectMeta ∧ result.1.spec = app.spec := by
  cases synced <;> exact ⟨rfl,rfl⟩

private theorem sync_meta {result : ArksDisaggregatedApplication × Outcome} (run : Runs (sync app) calls result) :
    result.1.toObjectMeta = app.toObjectMeta := by
  rcases sync_runs run with ⟨app₁,prefill,same⟩ | ⟨app₁,app₂,_,_,_,prefill,decode,same⟩ |
    ⟨app₁,app₂,_,_,_,_,prefill,decode,router⟩
  · rw [same]
    exact (workloadSynced_kept prefill).1
  · rw [same]
    exact (workloadSynced_kept decode).1.trans (workloadSynced_kept prefill).1
  · exact (routerSynced_kept router).1.trans ((workloadSynced_kept decode).1.trans (workloadSynced_kept prefill).1)

theorem disaggregated_counted : Counted (arksDisaggregatedApplicationReconciler p) counts where
  toTame := tame_disaggregated p
  keyed _ := rfl
  of_withMeta _ _ := rfl
  of_withProgress _ _ := rfl
  of_defaulted _ := rfl
  of_updated _ _ _ := rfl
  of_statusUpdated _ _ _ := rfl
  progress_statusUpdated _ _ _ := rfl
  modelName_withProgress _ _ := rfl
  modelName_defaulted _ := rfl
  syncs := sync_meta
  halts := start_halts

/-! #### What seeing to the children leaves -/

/-- Seeing to the children changes the specification only in negative replicas and in the size of the prefill workload. -/
structure SameCounts (app app' : ArksDisaggregatedApplication) : Prop where
  namespace_ : app'.namespace_ = app.namespace_
  name : app'.name = app.name
  workload : ∀ role : Role, configured (role.workload app').replicas = configured (role.workload app).replicas
  router : app'.spec.router.replicas = app.spec.router.replicas

theorem SameCounts.trans {app₁ app₂ : ArksDisaggregatedApplication} (first : SameCounts app app₁)
    (second : SameCounts app₁ app₂) :
    SameCounts app app₂ :=
  ⟨second.namespace_.trans first.namespace_,second.name.trans first.name,fun role => (second.workload role).trans
    (first.workload role),
    second.router.trans first.router⟩

theorem SameCounts.symm (same : SameCounts app app') : SameCounts app' app :=
  ⟨same.namespace_.symm,same.name.symm,fun role => (same.workload role).symm,same.router.symm⟩

theorem sameCounts_of (namespace_ : app'.namespace_ = app.namespace_) (name : app'.name = app.name)
    (same : counts app' = counts app) : SameCounts app app' := by
  simp only [counts,Prod.mk.injEq] at same
  refine ⟨namespace_,name,fun role => ?_,same.2.2⟩
  cases role with
  | prefill => rw [Role.workload,Role.workload,same.1]
  | decode => rw [Role.workload,Role.workload,same.2.1]

private theorem sized_counts : SameCounts app (sized app) := by
  unfold sized
  split
  · exact ⟨rfl,rfl,fun role => by cases role <;> rfl,rfl⟩
  · exact ⟨rfl,rfl,fun _ => rfl,rfl⟩

private theorem settle_counts : SameCounts app (settle role app) := by
  have settles : ∀ replicas : Option Int, configured (replicas.map (fun n => if n < 0 then 1 else n)) = configured replicas := by
    intro replicas
    cases replicas with
    | none => rfl
    | some n => simp only [Option.map_some,configured]; split <;> split <;> omega
  cases role with
  | prefill => exact ⟨rfl,rfl,fun role => by cases role; exact settles _; rfl,rfl⟩
  | decode => exact ⟨rfl,rfl,fun role => by cases role; rfl; exact settles _,rfl⟩

theorem startWorkload_counts (run : Runs (startWorkload p role app model) calls (.next app')) : SameCounts app app' := by
  obtain ⟨lws,first,rest,rfl,_,later⟩ := runs_bind.mp run
  obtain ⟨⟨b,rfl⟩,rfl⟩ := Readiness.afterWorkload_next (runs_ret.mp later).2.symm
  cases b with
  | true => exact settle_counts
  | false => exact ⟨rfl,rfl,fun _ => rfl,rfl⟩

theorem lwsName_congr (role : Role) (same : app'.name = app.name) : lwsName role app' = lwsName role app := by
  cases role with
  | prefill => rw [lwsName,prefillName,same]; rfl
  | decode => rw [lwsName,decodeName,same]; rfl

theorem routerName_congr (same : app'.name = app.name) : routerName app' = routerName app := by rw [routerName,same]; rfl

/-- The stored deployment of the router. -/
abbrev routerDeployment (c : Cluster) (app : ArksDisaggregatedApplication) : Option Deployment :=
  c.objects .deployment app.namespace_ (routerName app)

theorem routerDeployment_congr (c : Cluster) (same : SameCounts app app') : routerDeployment c app' = routerDeployment c app := by
  rw [routerDeployment,same.namespace_,routerName_congr same.name]

/-- The deployment of the router is as it was, or has been created with replicas. -/
def RouterKept (c c' : Cluster) (app : ArksDisaggregatedApplication) : Prop :=
  routerDeployment c' app = routerDeployment c app ∨
    routerDeployment c app = none ∧ ∃ deploy n, deploy.replicas = some n ∧ routerDeployment c' app = some deploy

theorem routerKept_congr (same : SameCounts app app') : RouterKept c c' app' ↔ RouterKept c c' app := by
  simp only [RouterKept,routerDeployment_congr _ same]

private theorem generateRouterDeployment_replicas {deploy : Deployment}
    (run : Runs (generateRouterDeployment p app) calls (.object deploy)) : deploy.replicas = some (routerReplicas app) := by
  have built : ∀ account, Workloads.Disaggregated.routerDeployment p app account = .object deploy →
      deploy.replicas = some (routerReplicas app) := by
    intro account generated
    simp only [Workloads.Disaggregated.routerDeployment,generated_bind,generated_pure] at generated
    obtain ⟨_,_,_,_,rfl⟩ := generated
    rfl
  unfold generateRouterDeployment at run
  split at run
  · obtain ⟨made,first,rest,rfl,_,later⟩ := runs_bind.mp run
    cases made with
    | error => cases later
    | ok account => exact built account (runs_ret.mp later).2.symm
  · exact built _ (runs_ret.mp run).2.symm

/-- What the ladder of the router does to its deployment. -/
theorem startRouter_plays (run : Runs (startRouter p app) calls flow) (played : Plays (Fallible index) calls c c') :
    RouterKept c c' app := by
  obtain ⟨deploy,first,rest,rfl,ensured,later⟩ := runs_bind.mp run
  obtain ⟨rfl,_⟩ := runs_ret.mp later
  rw [List.append_nil] at played
  have generates : ∀ {calls : List KubeCall} {g : Generated Deployment}, Runs (do
      let deploy ← generateRouterDeployment p app
      pure (do
        let deploy ← deploy
        pure { deploy with name := routerName app }) : KubeAction (Generated Deployment)) calls g →
      ∃ made, Runs (generateRouterDeployment p app) calls made ∧
        g = (do let deploy ← made; pure { deploy with name := routerName app }) := by
    intro calls g run
    obtain ⟨made,_,_,rfl,generated,ended⟩ := runs_bind.mp run
    obtain ⟨rfl,rfl⟩ := runs_ret.mp ended
    exact ⟨made,by simpa using generated,rfl⟩
  rcases ladder_plays (ensure_runs ensured) played (fun calls g generated call is touches => by
      obtain ⟨made,run,_⟩ := generates generated
      have kind : rbacKind (kindOf call.1) :=
        (runs_within (generateRouterDeployment_within (P := fun op => rbacKind (kindOf op)) p app (fun _ _ _ is => is)
          (fun _ _ is => is)) run).1 call is
      rw [touches_kind touches] at kind
      exact kind) (fun calls o generated => by
      obtain ⟨made,run,same⟩ := generates generated
      obtain ⟨deploy,rfl,named⟩ := generated_bind.mp same.symm
      cases generated_pure.mp named
      rw [key,Readiness.generateRouterDeployment_namespace run]) with same | ⟨absent,calls,o,generated,stored⟩
  · exact .inl same
  · obtain ⟨made,run,same⟩ := generates generated
    obtain ⟨deploy,rfl,named⟩ := generated_bind.mp same.symm
    cases generated_pure.mp named
    have count : deploy.replicas = some (routerReplicas app) := generateRouterDeployment_replicas run
    refine .inr ⟨absent,_,routerReplicas app,?_,stored⟩
    exact count

/-- The router's deployment is there with its replicas, or is created with those of the specification. -/
theorem start_plays (run : Runs (start p app model) calls (.next app')) (played : Plays (Fallible index) calls c c') :
    SameCounts app app' ∧ RouterKept c c' app := by
  obtain ⟨prefill,calls₁,rest,rfl,run₁,later⟩ := runs_bind.mp run
  cases prefill with
  | stop => cases later
  | next app₁ =>
    obtain ⟨decode,calls₂,rest,rfl,run₂,later₂⟩ := runs_bind.mp later
    cases decode with
    | stop => cases later₂
    | next app₂ =>
      obtain ⟨router,calls₃,rest,rfl,run₃,last⟩ := runs_bind.mp later₂
      cases router with
      | stop => cases last
      | next app₃ =>
        obtain ⟨c₁,played₁,behind₁⟩ := plays_append.mp played
        obtain ⟨c₂,played₂,behind₂⟩ := plays_append.mp behind₁
        obtain ⟨c₃,played₃,played₄⟩ := plays_append.mp behind₂
        have counts₂ : SameCounts app app₂ := (sized_counts.trans (startWorkload_counts run₁)).trans (startWorkload_counts run₂)
        have same₃ : app₃ = app₂ := by
          obtain ⟨deploy,_,_,_,_,ended⟩ := runs_bind.mp run₃
          exact (Readiness.afterWorkload_next (runs_ret.mp ended).2.symm).2
        subst same₃
        have same₄ : app' = app₃ := by
          obtain ⟨service,_,_,_,_,ended⟩ := runs_bind.mp last
          have next := (runs_ret.mp ended).2
          cases service <;> cases next <;> rfl
        subst same₄
        have workloads : ∀ {role app calls flow c c'}, Runs (startWorkload p role app model) calls flow →
            Plays (Fallible index) calls c c' → ∀ ns name, c'.objects .deployment ns name = c.objects .deployment ns name :=
          fun run played ns name => plays_kind (fun call is => by
            rw [(runs_within (startWorkload_within p _ model _) run).1 call is]
            simp) played
        have service : ∀ ns name, c'.objects .deployment ns name = c₃.objects .deployment ns name :=
          fun ns name => plays_kind (fun call is => by
            rw [(runs_within (startService_within _) last).1 call is]
            simp) played₄
        refine ⟨counts₂,?_⟩
        have routed := (routerKept_congr counts₂).mp (startRouter_plays run₃ played₃)
        rw [RouterKept,routerDeployment,routerDeployment,service,← workloads run₁ played₁,← workloads run₂ played₂]
        exact routed

/-! #### What copying the state leaves -/

/-- No update of a leader worker set fails. -/
def Adjusts (calls : List KubeCall) : Prop := ∀ o e, (⟨.update .lws o,.error e⟩ : KubeCall) ∉ calls

theorem adjusts_append {first last : List KubeCall} : Adjusts (first ++ last) ↔ Adjusts first ∧ Adjusts last := by
  simp [Adjusts,forall_and]

/-- Seeing to the children updates none. -/
theorem start_adjusts (run : Runs (start p app model) calls flow) : Adjusts calls := by
  have workload : ∀ role app, Issues (fun op => ∀ o, op ≠ .update .lws o) (fun _ => True)
      (startWorkload p role app model) :=
    fun role app => within_bind (ensure_within (by simp) (by simp)) (fun _ _ => trivial)
  have others : ∀ {k : Kind}, k ≠ .lws → ∀ {op : KubeOp}, kindOf op = k → ∀ o, op ≠ .update .lws o := by
    rintro k other op rfl o rfl
    exact other rfl
  have quiet : Issues (fun op => ∀ o, op ≠ .update .lws o) (fun _ => True) (start p app model) := by
    refine start_stages (Q := fun _ => True) trivial (fun role app _ => workload role app) (fun app _ => ?_)
      (fun app _ => within_mono (startService_within app) (fun op kind => others (by simp) kind) (fun _ _ => trivial))
    refine within_mono (startRouter_within p app) (fun op kind => ?_) (fun _ _ => trivial)
    rintro o rfl
    exact kind
  exact fun o e is => (runs_within quiet run).1 _ is o rfl

/-- The stored child of a role has the replicas of the specification unless its update failed. -/
theorem workloadSynced_plays (synced : WorkloadSynced app role calls (.next app')) (played : Plays (Fallible index) calls c c')
    (unfailed : app'.status.phase ≠ some .failed) :
    (∃ lws, c'.objects .lws app.namespace_ (lwsName role app) = some lws ∧
      (lws.replicas = configured (role.workload app).replicas ↔ Adjusts calls)) ∧
    (∀ k ns name, ¬ (k = .lws ∧ (app.namespace_.val,lwsName role app) = (ns,name)) →
      c'.objects k ns name = c.objects k ns name) ∧ app.status.phase ≠ some .failed := by
  cases synced with
  | gone => exact absurd rfl unfailed
  | @settled lws right =>
    obtain ⟨c₁,got,same⟩ := plays_cons.mp played
    cases plays_nil.mp same
    obtain ⟨rfl,read,_⟩ := fallible_get got
    refine ⟨⟨lws,read lws rfl,?_⟩,fun _ _ _ _ => rfl,?_⟩
    · rw [← workloadReplicas_configured]
      exact iff_of_true right (by simp [Adjusts])
    · cases role <;> exact unfailed
  | @adjusted lws written wrong =>
    obtain ⟨c₁,got,last⟩ := plays_cons.mp played
    obtain ⟨rfl,read,_⟩ := fallible_get got
    obtain ⟨c₂,update,same⟩ := plays_cons.mp last
    cases plays_nil.mp same
    have present := read lws rfl
    have named : key .lws lws = (app.namespace_.val,lwsName role app) := c₁.keyed present
    have place : key .lws { lws with replicas := workloadReplicas (role.workload app) } = (app.namespace_.val,lwsName role app) :=
      named
    refine ⟨?_,fun k ns name aside => ?_,?_⟩
    · cases written with
      | error e =>
        cases refused_same update
        refine ⟨lws,present,?_⟩
        rw [← workloadReplicas_configured]
        exact iff_of_false wrong (by simp [Adjusts])
      | ok stored =>
        obtain ⟨before,rfl,_,kept⟩ := fallible_update update
        rw [place] at kept
        refine ⟨_,kept rfl,?_⟩
        rw [← workloadReplicas_configured]
        exact iff_of_true rfl (by simp [Adjusts])
    · refine fallible_frame update (fun touches => aside ⟨touches.1.symm,?_⟩)
      exact place.symm.trans touches.2
    · cases role <;> exact unfailed

/-- The replicas of the router are enforced where the deployment states any. -/
theorem routerSynced_plays {after : ArksDisaggregatedApplication}
    (synced : RouterSynced app calls (after,.done result)) (played : Plays (Fallible index) calls c c')
    (unfailed : after.status.phase ≠ some .failed) :
    (∃ before deploy, routerDeployment c app = some before ∧
      routerDeployment c' app = some deploy ∧
      deploy.replicas = before.replicas.map (fun _ => enforcedRouterReplicas app)) ∧
    (∀ ns name, c'.objects .lws ns name = c.objects .lws ns name) ∧ Adjusts calls ∧ app.status.phase ≠ some .failed := by
  cases synced with
  | gone => exact absurd rfl unfailed
  | @settled deploy right =>
    obtain ⟨c₁,got,same⟩ := plays_cons.mp played
    cases plays_nil.mp same
    obtain ⟨rfl,read,_⟩ := fallible_get got
    refine ⟨⟨deploy,deploy,read deploy rfl,read deploy rfl,?_⟩,fun _ _ => rfl,by simp [Adjusts],unfailed⟩
    cases count : deploy.replicas with
    | none => rfl
    | some n => rw [right n count,Option.map_some]
  | @adjusted deploy stored n count =>
    obtain ⟨c₁,got,last⟩ := plays_cons.mp played
    obtain ⟨rfl,read,_⟩ := fallible_get got
    obtain ⟨c₂,update,same⟩ := plays_cons.mp last
    cases plays_nil.mp same
    have present := read deploy rfl
    have named : key .deployment deploy = (app.namespace_.val,routerName app) := c₁.keyed present
    have place : key .deployment { deploy with replicas := some (enforcedRouterReplicas app) } =
      (app.namespace_.val,routerName app) := named
    obtain ⟨before,rfl,_,kept⟩ := fallible_update update
    rw [place] at kept
    refine ⟨⟨deploy,_,present,kept rfl,?_⟩,fun ns name => ?_,by simp [Adjusts],unfailed⟩
    · rw [count]
      rfl
    · exact fallible_frame update (fun touches => by cases touches.1)

private theorem lwsNames_differ (app : ArksDisaggregatedApplication) : prefillName app ≠ decodeName app := by
  intro same
  have suffixes := (String.append_right_inj app.name.val).mp same
  exact absurd suffixes (by decide)

/-- A child has the replicas that the specification asks for; a deployment that states none has one. -/
structure RightCounts (c : Cluster) (app : ArksDisaggregatedApplication) : Prop where
  workload : ∀ role lws, c.objects .lws app.namespace_ (lwsName role app) = some lws →
    lws.replicas = configured (role.workload app).replicas
  router : ∀ deploy, routerDeployment c app = some deploy →
    deploy.replicas.getD 1 = configured app.spec.router.replicas

private theorem enforced_configured : enforcedRouterReplicas app = configured app.spec.router.replicas ↔
    app.spec.router.replicas ≠ some 0 := by
  unfold enforcedRouterReplicas configured
  cases app.spec.router.replicas with
  | none => simp
  | some n =>
    simp only [ne_eq,Option.some.injEq]
    split <;> split <;> omega

/-- What copying the state of the children leaves of their replicas. -/
theorem sync_plays {after : ArksDisaggregatedApplication} (run : Runs (sync app) calls (after,.done result))
    (played : Plays (Fallible index) calls c c') (unfailed : after.status.phase ≠ some .failed) :
    (∃ before, routerDeployment c app = some before ∧
      (RightCounts c' app ↔ Adjusts calls ∧
        (before.replicas.map (fun _ => enforcedRouterReplicas app)).getD 1 = configured app.spec.router.replicas)) := by
  rcases sync_runs run with ⟨app₁,prefill,_⟩ | ⟨app₁,app₂,first,second,_,prefill,decode,_⟩ |
    ⟨app₁,app₂,first,second,last,rfl,prefill,decode,router⟩
  · cases prefill
  · cases decode
  obtain ⟨c₁,played₁,behind⟩ := plays_append.mp played
  obtain ⟨c₂,played₂,played₃⟩ := plays_append.mp behind
  obtain ⟨place₁,spec₁⟩ := workloadSynced_kept prefill
  obtain ⟨place₂,spec₂⟩ := workloadSynced_kept decode
  simp only [Flow.object] at place₁ spec₁ place₂ spec₂
  obtain ⟨⟨before,deploy,read,stored,count⟩,others₃,adjusts₃,unfailed₂⟩ := routerSynced_plays router played₃ unfailed
  obtain ⟨⟨lws₂,stored₂,right₂⟩,others₂,unfailed₁⟩ := workloadSynced_plays decode played₂ unfailed₂
  obtain ⟨⟨lws₁,stored₁,right₁⟩,others₁,_⟩ := workloadSynced_plays prefill played₁ unfailed₁
  rw [Role.workload,spec₁] at right₂
  rw [lwsName_congr .decode (congrArg ObjectMeta.name place₁),place₁] at stored₂ others₂
  rw [routerDeployment,routerName_congr (congrArg ObjectMeta.name (place₂.trans place₁)),place₂,place₁] at read stored
  rw [enforcedRouterReplicas,spec₂,spec₁] at count
  -- the update of one role leaves the set of the other alone
  have stored₁ : c'.objects .lws app.namespace_ (prefillName app) = some lws₁ := by
    rw [others₃,others₂ _ _ _ (fun same => lwsNames_differ app (Prod.mk.inj same.2).2.symm)]
    exact stored₁
  have stored₂ : c'.objects .lws app.namespace_ (decodeName app) = some lws₂ := by
    rw [others₃]
    exact stored₂
  refine ⟨before,?_,?_⟩
  · rw [routerDeployment,← others₁ _ _ _ (by simp),← others₂ _ _ _ (by simp)]
    exact read
  · rw [adjusts_append,adjusts_append,← right₁,← right₂,and_iff_left adjusts₃]
    constructor
    · intro right
      refine ⟨⟨right.workload .prefill lws₁ stored₁,right.workload .decode lws₂ stored₂⟩,?_⟩
      have routed := right.router deploy stored
      rw [count] at routed
      exact routed
    · rintro ⟨⟨prefill,decode⟩,router⟩
      refine ⟨fun role lws is => ?_,fun deploy' is => ?_⟩
      · cases role with
        | prefill => cases stored₁.symm.trans is; exact prefill
        | decode => cases stored₂.symm.trans is; exact decode
      · cases stored.symm.trans is
        rw [count]
        exact router

/-- A pass that gets to the children leaves the right replicas unless an update of a leader
    worker set fails, none are configured for the router, or its deployment states none. A pass
    that does not get there leaves what is there. -/
structure DisaggregatedRight (p : Platform) (c : Cluster) (calls : List KubeCall)
    (app : ArksDisaggregatedApplication) : Prop where
  serving : Serving (arksDisaggregatedApplicationReconciler p) c app → Adjusts calls ∧ app.spec.router.replicas ≠ some 0 ∧
    ∀ deploy, routerDeployment c app = some deploy → deploy.replicas = none →
      configured app.spec.router.replicas = 1
  idle : ¬ Serving (arksDisaggregatedApplicationReconciler p) c app → RightCounts c app

theorem rightCounts_congr {app₁ : ArksDisaggregatedApplication} (same : SameCounts app app₁)
    (kept : ∀ kind, childKind kind → c₁.objects kind = c.objects kind) : RightCounts c₁ app₁ ↔ RightCounts c app := by
  have names := fun role => lwsName_congr role same.name
  have lws := kept .lws (.inl rfl)
  have router : routerDeployment c₁ app₁ = routerDeployment c app := by
    rw [routerDeployment_congr _ same,routerDeployment,kept .deployment (.inr (.inl trivial))]
  constructor
  · intro right
    refine ⟨fun role lws' is => ?_,fun deploy is => ?_⟩
    · rw [← same.workload role]
      exact right.workload role lws' (by rw [lws,names role,same.namespace_]; exact is)
    · rw [← same.router]
      exact right.router deploy (router.trans is)
  · intro right
    refine ⟨fun role lws' is => ?_,fun deploy is => ?_⟩
    · rw [lws,names role,same.namespace_] at is
      rw [same.workload role]
      exact right.workload role lws' is
    · rw [same.router]
      exact right.router deploy (router.symm.trans is)

/-- The children of a disaggregated application that have replicas. -/
def ChildrenExist (c : Cluster) (app : ArksDisaggregatedApplication) : Prop :=
  (∀ role, (c.objects .lws app.namespace_ (lwsName role app)).isSome) ∧
    (routerDeployment c app).isSome

/-- The deployment that the pass finds or creates gets the right replicas. -/
theorem routed_iff {before : Deployment} (present : routerDeployment c₁ app = some before)
    (deployed : RouterKept c c₁ app) :
    (before.replicas.map (fun _ => enforcedRouterReplicas app)).getD 1 = configured app.spec.router.replicas ↔
      app.spec.router.replicas ≠ some 0 ∧
        ∀ deploy, routerDeployment c app = some deploy → deploy.replicas = none →
          configured app.spec.router.replicas = 1 := by
  cases count : before.replicas with
  | some n =>
    rw [Option.map_some,Option.getD_some,enforced_configured]
    refine ⟨fun right => ⟨right,fun deploy is unset => ?_⟩,fun right => right.1⟩
    rcases deployed with same | ⟨absent,_⟩
    · rw [← same,present] at is
      cases is
      rw [count] at unset
      cases unset
    · rw [absent] at is
      cases is
  | none =>
    have here : routerDeployment c app = some before := by
      rcases deployed with same | ⟨_,deploy,n,set,stored⟩
      · rw [← same,present]
      · rw [present] at stored
        cases stored
        rw [count] at set
        cases set
    rw [Option.map_none,Option.getD_none]
    refine ⟨fun right => ⟨fun zero => ?_,fun _ _ _ => right.symm⟩,fun right => (right.2 before here count).symm⟩
    rw [zero] at right
    exact absurd right (by decide)

private theorem disaggregated_counts (succeeds : Succeeds (arksDisaggregatedApplicationReconciler p) index ns name calls c c')
    (stored : c'.objects .disaggregated ns name = some app') (unfailed : app'.status.phase ≠ some .failed)
    (exist : ChildrenExist c' app') :
    ∃ app, c.objects .disaggregated ns name = some app ∧ counts app' = counts app ∧
      (RightCounts c' app' ↔ DisaggregatedRight p c calls app) := by
  obtain ⟨app,read,same,effect⟩ := effect disaggregated_counted succeeds stored unfailed
  refine ⟨app,read,same,?_⟩
  have moved : SameCounts app app' := by
    have here := key_of (disaggregated_counted (p := p)) stored
    have there := key_of (disaggregated_counted (p := p)) read
    exact sameCounts_of (KubeName.ext (here.1.trans there.1.symm)) (KubeName.ext (here.2.trans there.2.symm)) same
  cases effect with
  | removed gone =>
    have absent : routerDeployment c' app = none :=
      gone (.deployment,routerName app,"underlying router deployment") (by simp [arksDisaggregatedApplicationReconciler])
    have present := exist.2
    rw [routerDeployment_congr _ moved,absent] at present
    cases present
  | idle waits kept =>
    rw [rightCounts_congr moved kept]
    exact ⟨fun right => ⟨fun serving => absurd serving waits,fun _ => right⟩,fun right => right.idle waits⟩
  | @served app₁ app₂ after model during rest result c₁ c₂ serving place part announces synced unfailed₂ played₁ played₂ kept own =>
    have synced : Runs (sync app₂) rest (after,.done result) := synced
    obtain ⟨before,present,right⟩ := sync_plays synced played₂ unfailed₂
    have same₁ : SameCounts app app₁ :=
      sameCounts_of (congrArg ObjectMeta.namespace_ place) (congrArg ObjectMeta.name place) part
    obtain ⟨quiet,same₂,deployed⟩ : Adjusts during ∧ SameCounts app app₂ ∧ RouterKept c c₁ app := by
      cases announce_runs _ announces with
      | already =>
        cases plays_nil.mp played₁
        exact ⟨by simp [Adjusts],same₁,.inl rfl⟩
      | started _ starts =>
        have starts : Runs (start p (fields.revise app₁ (Progress.setPhase · .creating)) model) during (.next _) := starts
        obtain ⟨counted,routed⟩ := start_plays starts played₁
        have creating : SameCounts app (fields.revise app₁ (Progress.setPhase · .creating)) :=
          same₁.trans (sameCounts_of rfl rfl rfl)
        exact ⟨start_adjusts starts,(creating.trans counted).trans (sameCounts_of rfl rfl rfl),(routerKept_congr creating).mp routed⟩
    have adjusts : Adjusts calls ↔ Adjusts rest := by
      rw [← and_iff_right (b := Adjusts rest) quiet,← adjusts_append]
      exact forall_congr' (fun o => forall_congr' (fun e => not_congr (own _ rfl)))
    rw [routerDeployment_congr _ same₂] at present
    rw [rightCounts_congr (same₂.symm.trans moved) kept,right,← adjusts,same₂.router,
      show enforcedRouterReplicas app₂ = enforcedRouterReplicas app by rw [enforcedRouterReplicas,same₂.router]; rfl]
    have routed := routed_iff present deployed
    constructor
    · rintro ⟨adjusted,counted⟩
      exact ⟨fun _ => ⟨adjusted,routed.mp counted⟩,fun waits => absurd serving waits⟩
    · intro holds
      exact ⟨(holds.serving serving).1,routed.mpr (holds.serving serving).2⟩

end Disaggregated

/-- The replicas after a pass that returns no error, does not leave the application Failed
    and finds the children there: they are right exactly when they were before or the pass
    creates the set, for an `ArksApplication`, and when nothing keeps the pass from
    enforcing them, for a disaggregated one. -/
theorem replicas_converge_iff (p : Platform) (index : Index) (ns name : String) (calls : List KubeCall) (c c' : Cluster) :
    (∀ app' lws, Succeeds (arksApplicationReconciler p) index ns name calls c c' →
      c'.objects .application ns name = some app' → app'.status.phase ≠ some .failed → c'.objects .lws ns name = some lws →
      ∃ app, c.objects .application ns name = some app ∧ app'.spec.replicas = app.spec.replicas ∧
        (lws.replicas = max 0 app'.spec.replicas ↔ PlainRight c ns name app)) ∧
    ∀ app', Succeeds (arksDisaggregatedApplicationReconciler p) index ns name calls c c' →
      c'.objects .disaggregated ns name = some app' → app'.status.phase ≠ some .failed → ChildrenExist c' app' →
      ∃ app, c.objects .disaggregated ns name = some app ∧ counts app' = counts app ∧
        (RightCounts c' app' ↔ DisaggregatedRight p c calls app) :=
  ⟨fun _ _ succeeds stored unfailed present => plain_counts succeeds stored unfailed present,
    fun _ succeeds stored unfailed exist => disaggregated_counts succeeds stored unfailed exist⟩

/-! ### Samples -/

/-- One pass over `llm`, where the calls in `fails` fail. -/
def passOver {k : Kind} (r : Reconciler k) (fails : KubeOp → Bool) (c : Cluster) : Outcome × Cluster :=
  exec (respond fails) (r.reconcileRequest "team-a" "llm") c

theorem passOver_succeeds {k : Kind} {r : Reconciler k} {fails : KubeOp → Bool} {c : Cluster} {result : Result}
    (index : Index) (done : (passOver r fails c).1 = .done result) :
    ∃ calls, Succeeds r index "team-a" "llm" calls c (passOver r fails c).2 :=
  ⟨_,result,done ▸ exec_runs _ _ _,exec_plays (respond_fallible fails) _ _⟩

def host : Platform := ⟨fun _ => "",id⟩

/-- `llm` is to be started with some replicas. -/
def loadedPlain (replicas : Int) : ArksApplication :=
  let app := llmPlain (progressOf .loading .isTrue .isTrue .isFalse)
  { app with spec := { app.spec with replicas := replicas } }

@[inherit_doc loadedPlain]
def loadedDisaggregated (prefill decode router : Int) : ArksDisaggregatedApplication :=
  let app := llmDisaggregated (progressOf .loading .isTrue .isTrue .isFalse)
  { app with spec :=
    { app.spec with
      prefill := { app.spec.prefill with replicas := some prefill }
      decode := { app.spec.decode with replicas := some decode }
      router := { app.spec.router with replicas := some router } } }

/-- A cluster with the model and the application. -/
def clusterWith (k : Kind) (app : Object k) : Cluster := (Cluster.empty.put .model claimedModel).put k app

/-- The user edits the application. -/
def edit (k : Kind) (change : Object k → Object k) (c : Cluster) : Cluster :=
  match c.objects k "team-a" "llm" with
  | some app => c.put k (change app)
  | none => c

/-- `llm` is started with one replica, and edited to ask for three. -/
def scaledPlain : Cluster :=
  edit .application (fun app => { app with spec := { app.spec with replicas := 3 } })
    (passOver (arksApplicationReconciler host) (fun _ => false) (clusterWith .application (loadedPlain 1))).2

/-- The prefill workload of `llm` is started with one replica, and edited to ask for two. -/
def scaledPrefill : Cluster :=
  edit .disaggregated (fun app =>
      { app with spec := { app.spec with prefill := { app.spec.prefill with replicas := some 2 } } })
    (passOver (arksDisaggregatedApplicationReconciler host) (fun _ => false)
      (clusterWith .disaggregated (loadedDisaggregated 1 1 1))).2

/-- Every update of a leader worker set fails. -/
def failingUpdates : KubeOp → Bool
  | .update .lws _ => true
  | _ => false

/-- The phase of `llm`, and for each of its children the replicas that it has and those that are configured. -/
def summary (c : Cluster) : Option (Option ArksApplicationPhase × (Int × Int) × (Int × Int) × (Int × Int)) := do
  let app ← c.objects .disaggregated "team-a" "llm"
  let prefill ← c.objects .lws app.namespace_ (Disaggregated.lwsName .prefill app)
  let decode ← c.objects .lws app.namespace_ (Disaggregated.lwsName .decode app)
  let router ← routerDeployment c app
  pure (app.status.phase,(prefill.replicas,configured app.spec.prefill.replicas),
    (decode.replicas,configured app.spec.decode.replicas),(router.replicas.getD 1,configured app.spec.router.replicas))

theorem summary_some {c : Cluster} {phase : Option ArksApplicationPhase} {prefill decode router : Int × Int}
    (read : summary c = some (phase,prefill,decode,router)) :
    ∃ app, c.objects .disaggregated "team-a" "llm" = some app ∧ app.status.phase = phase ∧ ChildrenExist c app ∧
      configured app.spec.prefill.replicas = prefill.2 ∧ configured app.spec.router.replicas = router.2 ∧
      (RightCounts c app → prefill.1 = prefill.2 ∧ router.1 = router.2) := by
  simp only [summary,Option.bind_eq_bind,Option.bind_eq_some_iff,Option.pure_def,Option.some.injEq,Prod.mk.injEq] at read
  obtain ⟨app,stored,lws₁,stored₁,lws₂,stored₂,deploy,stored₃,rfl,rfl,_,rfl⟩ := read
  refine ⟨app,stored,rfl,⟨fun role => ?_,by rw [stored₃]; rfl⟩,rfl,rfl,fun right => ?_⟩
  · cases role with
    | prefill => rw [stored₁]; rfl
    | decode => rw [stored₂]; rfl
  · exact ⟨right.workload .prefill lws₁ stored₁,right.router deploy stored₃⟩

/-- An edit of the replicas does not reach the leader worker set of an `ArksApplication`. A
    disaggregated application gets a router although none is configured, and keeps the old
    replicas when an update fails, in passes that return no error. -/
theorem replicas_diverge :
    (∃ calls c c' app' lws, Succeeds (arksApplicationReconciler host) (fun _ _ => []) "team-a" "llm" calls c c' ∧
      c'.objects .application "team-a" "llm" = some app' ∧ app'.status.phase = some .running ∧
      c'.objects .lws "team-a" "llm" = some lws ∧ lws.replicas = 1 ∧ app'.spec.replicas = 3) ∧
    (∃ calls c c' app', Succeeds (arksDisaggregatedApplicationReconciler host) (fun _ _ => []) "team-a" "llm" calls c c' ∧
      c'.objects .disaggregated "team-a" "llm" = some app' ∧ app'.status.phase = some .running ∧ ChildrenExist c' app' ∧
      configured app'.spec.router.replicas = 0 ∧ ¬ RightCounts c' app') ∧
    ∃ calls c c' app', Succeeds (arksDisaggregatedApplicationReconciler host) (fun _ _ => []) "team-a" "llm" calls c c' ∧
      c'.objects .disaggregated "team-a" "llm" = some app' ∧ app'.status.phase = some .running ∧ ChildrenExist c' app' ∧
      configured app'.spec.prefill.replicas = 2 ∧ ¬ RightCounts c' app' := by
  refine ⟨?_,?_,?_⟩
  · have done : (passOver (arksApplicationReconciler host) (fun _ => false) scaledPlain).1 = .done .empty := by decide +kernel
    obtain ⟨calls,succeeds⟩ := passOver_succeeds (fun _ _ => []) done
    have app : ((passOver (arksApplicationReconciler host) (fun _ => false) scaledPlain).2.objects .application "team-a" "llm").map
        (fun app => (app.status.phase,app.spec.replicas)) = some (some .running,3) := by decide +kernel
    have lws : ((passOver (arksApplicationReconciler host) (fun _ => false) scaledPlain).2.objects .lws "team-a" "llm").map
        LeaderWorkerSet.replicas = some 1 := by decide +kernel
    obtain ⟨app',stored,same⟩ := Option.map_eq_some_iff.mp app
    obtain ⟨lws,present,count⟩ := Option.map_eq_some_iff.mp lws
    obtain ⟨running,three⟩ := Prod.mk.inj same
    exact ⟨calls,_,_,app',lws,succeeds,stored,running,present,count,three⟩
  · have done : (passOver (arksDisaggregatedApplicationReconciler host) (fun _ => false)
        (clusterWith .disaggregated (loadedDisaggregated 1 1 0))).1 = .done .empty := by decide +kernel
    have left : summary (passOver (arksDisaggregatedApplicationReconciler host) (fun _ => false)
        (clusterWith .disaggregated (loadedDisaggregated 1 1 0))).2 = some (some .running,(1,1),(1,1),(1,0)) := by decide +kernel
    obtain ⟨calls,succeeds⟩ := passOver_succeeds (fun _ _ => []) done
    obtain ⟨app',stored,running,exist,_,router,right⟩ := summary_some left
    exact ⟨calls,_,_,app',succeeds,stored,running,exist,router,fun all => absurd (right all).2 (by decide)⟩
  · have done : (passOver (arksDisaggregatedApplicationReconciler host) failingUpdates scaledPrefill).1 = .done .empty := by
      decide +kernel
    have left : summary (passOver (arksDisaggregatedApplicationReconciler host) failingUpdates scaledPrefill).2 =
        some (some .running,(1,2),(1,1),(1,1)) := by decide +kernel
    obtain ⟨calls,succeeds⟩ := passOver_succeeds (fun _ _ => []) done
    obtain ⟨app',stored,running,exist,prefill,_,right⟩ := summary_some left
    exact ⟨calls,_,_,app',succeeds,stored,running,exist,prefill,fun all => absurd (right all).1 (by decide)⟩

end Arks.ReplicaCounts
