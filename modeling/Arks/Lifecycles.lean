import Arks.Versions
import Arks.Families
import Arks.Loading
import Arks.Endpoints

/-!
The lives of the custom resources. Whatever a pass of a reconciler writes to its object, it
has derived from the version it read: the specification is the one it read, up to defaults,
and the stage does not go back. The API server refuses a write that does not know the last
version, so this holds between any two versions of an object that follow each other, for any
number of replicas, with caches as old as they like, and whatever users do in between.
-/
namespace Arks.Lifecycles
open Programs Programs.Prog Api Kube Controllers Workloads Applications
open Passes Finalizers Families Versions

/-! ### Calls that stem from the object that was read -/

section Stems
variable (T : (k : Kind) → Object k → Object k → Prop) {k : Kind}

/-- A call of a pass that has read `v`. -/
inductive Stems (v : Object k) : KubeOp → Prop
  | get (kind : Kind) (ns name : String) : Stems v (.get kind ns name)
  | list (kind : Kind) (ns selected : String) : Stems v (.list kind ns selected)
  | aside {op : KubeOp} : ¬ Custom (kindOf op) → Stems v op
  | update {sent : Object k} : key k sent = key k v → version sent = version v → (∀ n, T k v (updated n k v sent)) →
      Stems v (.update k sent)
  | status {sent : Object k} : key k sent = key k v → version sent = version v → (∀ n, T k v (statusUpdated n k v sent)) →
      Stems v (.updateStatus k sent)

variable {T} {v : Object k} {op : KubeOp} {calls : List KubeCall}

private theorem stems_permitted (shown : Shown calls k v) (stems : Stems T v op) : Permitted T calls op := by
  cases stems with
  | get | list => trivial
  | update place same moves => exact fun _ => ⟨v,shown,place,same,moves⟩
  | status place same moves => exact fun _ => ⟨v,shown,place,same,moves⟩
  | aside other =>
    cases op with
    | get | list => trivial
    | create | patch | delete => exact other
    | update | updateStatus => exact fun custom => absurd custom other

/-- Each call is permitted after those before it. -/
def Ordered (T : (k : Kind) → Object k → Object k → Prop) (calls : List KubeCall) : Prop :=
  ∀ first op r rest, calls = first ++ ⟨op,r⟩ :: rest → Permitted T first op

variable {namespace_ name : String}

theorem ordered_unread {e : ApiErr} : Ordered T [⟨.get k namespace_ name,.error e⟩] := by
  intro first op r rest split
  cases first with
  | nil =>
    cases split
    trivial
  | cons call first => simp at split

/-- A pass whose calls stem from the object that it reads. -/
theorem ordered_stems (stems : ∀ call ∈ calls, Stems T v call.1) : Ordered T (⟨.get k namespace_ name,.ok v⟩ :: calls) := by
  intro first op r rest split
  cases first with
  | nil =>
    cases split
    trivial
  | cons call first =>
    obtain ⟨rfl,rfl⟩ := List.cons.inj split
    exact stems_permitted (.inl ⟨namespace_,name,.head _⟩) (stems ⟨op,r⟩ (by simp))

/-- The status that is written last may also be that of the version which an update has returned. -/
theorem ordered_status {after : Object k} {reply : KubeReply (.updateStatus k after)} (stems : ∀ call ∈ calls, Stems T v call.1)
    (last : Stems T v (.updateStatus k after) ∨
      ((∃ sent, ⟨.update k sent,.ok after⟩ ∈ calls) ∧ ∀ n, T k after (statusUpdated n k after after))) :
    Ordered T (⟨.get k namespace_ name,.ok v⟩ :: (calls ++ [⟨.updateStatus k after,reply⟩])) := by
  rcases last with last | ⟨⟨sent,is⟩,moves⟩
  · refine ordered_stems (fun call is => ?_)
    rcases List.mem_append.mp is with is | is
    · exact stems call is
    · rw [List.mem_singleton.mp is]
      exact last
  · intro first op r rest split
    rw [← List.cons_append] at split
    rcases List.eq_nil_or_concat rest with rfl | ⟨rest,call,rfl⟩
    · obtain ⟨rfl,same⟩ := List.append_inj' split rfl
      cases same
      exact fun _ => ⟨after,.inr ⟨sent,.tail _ is⟩,rfl,rfl,moves⟩
    · rw [List.concat_eq_append,← List.cons_append,← List.append_assoc] at split
      exact ordered_stems stems first op r rest (List.append_inj' split rfl).1

variable {meta_ : Object k → ObjectMeta} {subject : String} {finish : Result → Result} {remove : Object k → KubeAction Outcome}
  {reconcile : Object k → KubeAction (Object k × Outcome)}

/-- `Reconcile` obeys when what it calls stems from the object that it reads. -/
theorem request_obeys
    (removes : ∀ object calls outcome, Runs (remove object) calls outcome → ∀ call ∈ calls, Stems T object call.1)
    (reconciles : ∀ object calls after outcome, Runs (reconcile object) calls (after,outcome) →
      (∀ call ∈ calls, Stems T object call.1) ∧
      (outcome ≠ .panicked → Stems T object (.updateStatus k after) ∨
        ((∃ sent, ⟨.update k sent,.ok after⟩ ∈ calls) ∧ ∀ n, T k after (statusUpdated n k after after)))) :
    Obeys T (Controllers.reconcileRequest k meta_ subject finish remove reconcile namespace_ name) := by
  intro calls outcome run
  cases request_runs run with
  | gone | unread => exact ordered_unread
  | removed _ removed => exact ordered_stems (removes _ _ _ removed)
  | panicked _ reconciled => exact ordered_stems (reconciles _ _ _ _ reconciled).1
  | unwritten _ _ _ reconciled ends =>
    exact ordered_status (reconciles _ _ _ _ reconciled).1 ((reconciles _ _ _ _ reconciled).2 ends)
  | failed _ reconciled | done _ reconciled =>
    exact ordered_status (reconciles _ _ _ _ reconciled).1 ((reconciles _ _ _ _ reconciled).2 (by simp))

end Stems

/-! ### The phases of an application -/

/-- The stage of an application. Creating and Running are one: an application whose children are gone creates them again. -/
def rank : Option ArksApplicationPhase → Nat
  | none => 0
  | some .pending => 1
  | some .checking => 2
  | some .loading => 3
  | some .creating | some .running => 4
  | some .failed => 5

/-- What an application is past, it has passed. -/
structure Passed (s : ApplicationProgress) : Prop where
  checked : 3 ≤ rank s.phase → s.phase ≠ some .failed → Progress.check s .precheck = true
  loaded : 4 ≤ rank s.phase → s.phase ≠ some .failed → Progress.check s .loaded = true

/-- From a status to a later one. -/
def Onward (s s' : ApplicationProgress) : Prop := Passed s → Passed s' ∧ rank s.phase ≤ rank s'.phase

section Phases
variable {s s' s'' : ApplicationProgress}

private theorem rank_le (phase : Option ArksApplicationPhase) : rank phase ≤ 5 := by
  rcases phase with _ | phase
  · exact Nat.zero_le _
  · cases phase <;> decide

theorem onward_refl : Onward s s := fun passed => ⟨passed,le_rfl⟩

theorem onward_trans (first : Onward s s') (second : Onward s' s'') : Onward s s'' := by
  intro passed
  obtain ⟨passed',forward⟩ := first passed
  exact ⟨(second passed').1,forward.trans (second passed').2⟩

/-- Failed is the last phase. -/
theorem onward_failed (failed : s'.phase = some .failed) : Onward s s' := by
  refine fun _ => ⟨⟨fun _ alive => absurd failed alive,fun _ alive => absurd failed alive⟩,?_⟩
  rw [failed]
  exact rank_le _

theorem onward_initialized : Onward s (Progress.initialize_ s) := by
  intro passed
  have checks : ∀ type, Progress.check (Progress.initialize_ s) type = Progress.check s type := fun type => by simp
  cases fresh : s.phase with
  | none =>
    have new : rank (Progress.initialize_ s).phase = 1 := by simp [fresh,rank]
    exact ⟨⟨fun late => by omega,fun late => by omega⟩,Nat.zero_le _⟩
  | some phase =>
    have same : (Progress.initialize_ s).phase = s.phase := by simp [fresh]
    refine ⟨⟨?_,?_⟩,by rw [same,fresh]⟩ <;> rw [same,checks]
    · exact passed.checked
    · exact passed.loaded

/-- A stage that has not been passed is entered. -/
theorem onward_checking (live : s.phase ≠ some .failed) (unchecked : Progress.check s .precheck = false)
    (phase : s'.phase = some .checking) : Onward s s' := by
  intro passed
  have early : ¬ 3 ≤ rank s.phase := fun late => by simp [passed.checked late live] at unchecked
  have here : rank s'.phase = 2 := by rw [phase]; rfl
  exact ⟨⟨fun late => by omega,fun late => by omega⟩,by omega⟩

@[inherit_doc onward_checking]
theorem onward_loading (live : s.phase ≠ some .failed) (unloaded : Progress.check s .loaded = false)
    (checked : Progress.check s' .precheck = true) (phase : s'.phase = some .loading) : Onward s s' := by
  intro passed
  have early : ¬ 4 ≤ rank s.phase := fun late => by simp [passed.loaded late live] at unloaded
  have here : rank s'.phase = 3 := by rw [phase]; rfl
  exact ⟨⟨fun _ _ => checked,fun late => by omega⟩,by omega⟩

@[inherit_doc onward_checking]
theorem onward_creating (live : s.phase ≠ some .failed) (checked : Progress.check s' .precheck = true)
    (loaded : Progress.check s' .loaded = true) (phase : s'.phase = some .creating ∨ s'.phase = some .running) : Onward s s' := by
  refine fun _ => ⟨⟨fun _ _ => checked,fun _ _ => loaded⟩,?_⟩
  have late : rank s'.phase = 4 := by rcases phase with phase | phase <;> rw [phase] <;> rfl
  rw [late]
  rcases whole : s.phase with _ | phase
  · decide
  · cases phase <;> simp_all [rank]

end Phases

/-! ### The passes over an application -/

section Applications
variable {k : Kind} (r : Reconciler k) {σ τ : Type} (spec : Object k → σ) (status : Object k → τ)

/-- From a version of an application to the next one that a pass writes. -/
structure ApplicationMoves (v o : Object k) : Prop where
  spec : spec o = spec v ∨ spec o = spec (r.defaulted v)
  onward : Onward (r.progress v) (r.progress o)
  failed : (r.progress v).phase = some .failed → status o = status v

/-- The specification and the status are apart, as the API server keeps them apart. -/
structure Apart : Prop extends Orderly r where
  custom : Custom k
  spec_withMeta : ∀ app m, spec (r.withMeta app m) = spec app
  spec_initialized : ∀ app, spec (r.initialized app) = spec (r.defaulted app)
  spec_updated : ∀ n stored sent, spec (updated n k stored sent) = spec sent
  status_updated : ∀ n stored sent, status (updated n k stored sent) = status stored
  spec_statusUpdated : ∀ n stored sent, spec (statusUpdated n k stored sent) = spec stored
  status_statusUpdated : ∀ n stored sent, status (statusUpdated n k stored sent) = status sent
  progress_status : ∀ a b, status a = status b → r.progress a = r.progress b
  synced : ∀ {app calls result}, Runs (r.sync app) calls result → r.meta_ result.1 = r.meta_ app ∧
    (r.progress result.1 = r.progress app ∨ (r.progress result.1).phase = some .failed ∨
      ((r.progress result.1).phase = some .running ∧
        ∀ type, type ≠ .ready → Progress.check (r.progress result.1) type = Progress.check (r.progress app) type))

variable {r spec status} {app app' after : Object k} {model : ArksModel} {calls : List KubeCall} {outcome : Outcome}
  {result : Object k × Outcome}

/-- A pass that is on its way: the application has not failed and its checks have passed. -/
structure OnItsWay (s : ApplicationProgress) : Prop where
  live : s.phase ≠ some .failed
  checked : Progress.check s .precheck = true

private theorem precheck_onward (live : (r.progress app).phase ≠ some .failed)
    (goes : r.precheck (r.initialized app) = .next app') :
    OnItsWay (r.progress app') ∧ Onward (r.progress app) (r.progress app') ∧ r.meta_ app' = r.meta_ app := by
  have begun : r.progress (r.initialized app) = Progress.initialize_ (r.progress app) := by simp [Reconciler.initialized]
  have place : r.meta_ (r.initialized app) = r.meta_ app := by simp [Reconciler.initialized]
  have first : Onward (r.progress app) (r.progress (r.initialized app)) := begun ▸ onward_initialized
  have alive : (r.progress (r.initialized app)).phase ≠ some .failed := by
    rw [begun]
    cases fresh : (r.progress app).phase with
    | none => simp [fresh]
    | some phase => simpa [fresh] using live
  rcases precheck_next r goes with ⟨checked,rfl⟩ | ⟨unchecked,_,rfl⟩
  · exact ⟨⟨alive,checked⟩,first,place⟩
  · exact ⟨⟨by simp,by simp⟩,onward_trans first (onward_checking alive unchecked (by simp)),by simp [place]⟩

theorem waitModel_onward (way : OnItsWay (r.progress app)) {flow : Flow (Object k)} (goes : r.waitModel app model = flow) :
    Onward (r.progress app) (r.progress flow.object) ∧ r.meta_ flow.object = r.meta_ app ∧
      ∀ next, flow = .next next → OnItsWay (r.progress next) ∧ Progress.check (r.progress next) .loaded = true := by
  cases flow with
  | stop app' outcome =>
    obtain ⟨unloaded,⟨_,_,rfl⟩ | ⟨_,_,_,rfl⟩⟩ := waitModel_stop r goes
    · exact ⟨onward_failed (by simp [Flow.object]),by simp [Flow.object],by simp⟩
    · exact ⟨onward_loading way.live unloaded (by simp [Flow.object,way.checked]) (by simp [Flow.object]),
        by simp [Flow.object],by simp⟩
  | next app' =>
    rcases waitModel_next r goes with ⟨loaded,rfl⟩ | ⟨unloaded,_,rfl⟩
    · exact ⟨onward_refl,rfl,by rintro _ ⟨⟩; exact ⟨way,loaded⟩⟩
    · refine ⟨onward_loading way.live unloaded (by simp [Flow.object,way.checked]) (by simp [Flow.object]),
        by simp [Flow.object],?_⟩
      rintro _ ⟨⟩
      exact ⟨⟨by simp,by simp [way.checked]⟩,by simp⟩

/-- What seeing to the children leaves when it ends the pass. -/
theorem halted_onward {s s' : ApplicationProgress} (way : OnItsWay s) (loaded : Progress.check s .loaded = true)
    (halted : Halted (Progress.setPhase s .creating) s') : Onward s s' := by
  cases halted with
  | kept => exact onward_creating way.live (by simp [way.checked]) (by simp [loaded]) (.inl rfl)
  | ungenerated reason message => exact onward_failed rfl
  | uncreated reason message => exact onward_creating way.live (by simp [way.checked]) (by simp [loaded]) (.inl rfl)

theorem announce_onward (tame : Tame r) {flow : Flow (Object k)} (way : OnItsWay (r.progress app))
    (loaded : Progress.check (r.progress app) .loaded = true) (run : Runs (r.announce app model) calls flow) :
    Onward (r.progress app) (r.progress flow.object) ∧
      ∀ next, flow = .next next → OnItsWay (r.progress next) ∧ Progress.check (r.progress next) .loaded = true := by
  cases announce_runs r run with
  | already => exact ⟨onward_refl,by rintro _ ⟨⟩; exact ⟨way,loaded⟩⟩
  | stopped _ starts =>
    have halted := (runs_within (tame.start _ model) starts).2.1
    rw [r.progress_revise] at halted
    exact ⟨halted_onward way loaded halted,by simp⟩
  | started _ starts =>
    have kept := (runs_within (tame.start _ model) starts).2.1
    rw [r.progress_revise] at kept
    refine ⟨onward_creating way.live ?_ ?_ (.inr ?_),?_⟩
    · simp [Flow.object,kept,way.checked]
    · simp [Flow.object,kept,loaded]
    · simp [Flow.object,kept]
    · rintro _ ⟨⟩
      exact ⟨⟨by simp,by simp [kept,way.checked]⟩,by simp [kept,loaded]⟩

private theorem sync_onward (apart : Apart r spec status) (way : OnItsWay (r.progress app))
    (loaded : Progress.check (r.progress app) .loaded = true)
    (run : Runs (r.sync app) calls result) : Onward (r.progress app) (r.progress result.1) := by
  rcases (apart.synced run).2 with same | failed | ⟨running,same⟩
  · rw [same]
    exact onward_refl
  · exact onward_failed failed
  · exact onward_creating way.live ((same _ (by simp)).trans way.checked) ((same _ (by simp)).trans loaded) (.inr running)

private theorem served_onward (apart : Apart r spec status) (way : OnItsWay (r.progress app))
    (served : Served r app calls result) :
    Onward (r.progress app) (r.progress result.1) ∧ r.meta_ result.1 = r.meta_ app := by
  cases served with
  | missing => exact ⟨onward_failed (by simp),by simp⟩
  | unread => exact ⟨onward_refl,rfl⟩
  | waiting stops => exact ⟨(waitModel_onward way stops).1,(waitModel_onward way stops).2.1⟩
  | stopped goes announces =>
    obtain ⟨first,place,next⟩ := waitModel_onward way goes
    have second := (announce_onward apart.tame (next _ rfl).1 (next _ rfl).2 announces).1
    exact ⟨onward_trans first second,(announce_meta apart.tame announces).trans place⟩
  | synced goes announces syncs =>
    obtain ⟨first,place,next⟩ := waitModel_onward way goes
    obtain ⟨second,going⟩ := announce_onward apart.tame (next _ rfl).1 (next _ rfl).2 announces
    have third := sync_onward apart (going _ rfl).1 (going _ rfl).2 syncs
    exact ⟨onward_trans first (onward_trans second third),
      (apart.synced syncs).1.trans ((announce_meta apart.tame announces).trans place)⟩

/-! #### What is sent -/

variable {T : (k : Kind) → Object k → Object k → Prop}

/-- The metadata of one version of an object, up to the finalizers. -/
structure SameVersion (m m' : ObjectMeta) : Prop where
  namespace_ : m'.namespace_ = m.namespace_
  name : m'.name = m.name
  resourceVersion : m'.resourceVersion = m.resourceVersion

theorem sameVersion_of_eq {m m' : ObjectMeta} (same : m' = m) : SameVersion m m' := same ▸ ⟨rfl,rfl,rfl⟩

theorem sameVersion_add (m : ObjectMeta) (finalizer : String) : SameVersion m (addFinalizer m finalizer) := by
  unfold addFinalizer
  split <;> exact ⟨rfl,rfl,rfl⟩

theorem sameVersion_remove (m : ObjectMeta) (finalizer : String) : SameVersion m (removeFinalizer m finalizer) := ⟨rfl,rfl,rfl⟩

theorem told_apart (apart : Apart r spec status) (same : SameVersion (r.meta_ app) (r.meta_ after)) :
    key k after = key k app ∧ version after = version app := by
  rw [apart.keyed,apart.keyed,same.namespace_,same.name,version,version,apart.described,apart.described]
  exact ⟨rfl,same.resourceVersion⟩

/-- The status that a pass leaves of the object that it read. -/
theorem stems_status (apart : Apart r spec status) (moves : ∀ v o, ApplicationMoves r spec status v o → T k v o)
    (same : SameVersion (r.meta_ app) (r.meta_ after)) (onward : Onward (r.progress app) (r.progress after))
    (failed : (r.progress app).phase = some .failed → after = app) : Stems T app (.updateStatus k after) := by
  obtain ⟨place,number⟩ := told_apart apart same
  refine .status place number (fun n => moves _ _ ⟨.inl (apart.spec_statusUpdated ..),?_,fun is => ?_⟩)
  · rw [apart.progress_status _ _ (apart.status_statusUpdated n app after)]
    exact onward
  · rw [apart.status_statusUpdated,failed is]

/-- The update with which a pass puts the finalizer on or takes it off. -/
theorem stems_update (apart : Apart r spec status) (moves : ∀ v o, ApplicationMoves r spec status v o → T k v o)
    (same : SameVersion (r.meta_ app) (r.meta_ after)) (kept : spec after = spec app ∨ spec after = spec (r.defaulted app)) :
    Stems T app (.update k after) := by
  obtain ⟨place,number⟩ := told_apart apart same
  refine .update place number (fun n => moves _ _ ⟨?_,?_,fun _ => apart.status_updated ..⟩)
  · rw [apart.spec_updated]
    exact kept
  · rw [apart.progress_status _ _ (apart.status_updated n app after)]
    exact onward_refl

theorem stems_child {op : KubeOp} (child : childKind (kindOf op)) : Stems T app op := by
  refine .aside (fun custom => ?_)
  generalize kindOf op = kind at *
  cases kind <;> simp_all [childKind,routerKind,Custom]

private theorem served_stems (tame : Tame r) {app₁ : Object k} (served : Served r app₁ calls result) :
    ∀ call ∈ calls, Stems T app call.1 := by
  cases served with
  | missing | unread | waiting =>
    intro call is
    rw [List.mem_singleton.mp is]
    exact .get _ _ _
  | stopped _ announces =>
    intro call is
    rcases List.mem_cons.mp is with rfl | is
    · exact .get _ _ _
    · exact stems_child (announce_kinds tame announces call is)
  | synced _ announces syncs =>
    intro call is
    rcases List.mem_cons.mp is with rfl | is
    · exact .get _ _ _
    rcases List.mem_append.mp is with is | is
    · exact stems_child (announce_kinds tame announces call is)
    · exact stems_child ((runs_within (tame.sync _) syncs).1 call is)

theorem finalizing_meta (app : Object k) : SameVersion (r.meta_ app) (r.meta_ (finalizing r app)) := by
  rw [finalizing,r.meta_withMeta]
  exact sameVersion_add _ _

theorem finalizing_stems (apart : Apart r spec status) (moves : ∀ v o, ApplicationMoves r spec status v o → T k v o) :
    Stems T app (.update k (finalizing r app)) :=
  stems_update apart moves (finalizing_meta app) (.inr (by rw [finalizing,apart.spec_withMeta,apart.spec_initialized]))

private theorem remove_stems (apart : Apart r spec status) (moves : ∀ v o, ApplicationMoves r spec status v o → T k v o)
    (run : Runs (r.remove app) calls outcome) : ∀ call ∈ calls, Stems T app call.1 := by
  refine (runs_within (Q := fun _ => True) (P := Stems T app) ?_ run).1
  unfold Reconciler.remove
  split
  · trivial
  have children : ∀ child ∈ r.children app, Stems T app (.delete child.1 (r.meta_ app).namespace_ child.2.1) :=
    fun child is => stems_child (apart.tame.children app child is)
  refine within_bind (removeChildren_within _ _ children) (fun removed _ => ?_)
  cases removed with
  | error => trivial
  | ok =>
    have same := sameVersion_remove (r.meta_ app) arksApplicationControllerFinalizer
    rw [← r.meta_withMeta app (removeFinalizer _ _)] at same
    exact ⟨stems_update apart moves same (.inl (apart.spec_withMeta ..)),fun reply _ => by cases reply <;> trivial⟩

/-- What a pass of `reconcile` calls and leaves stems from the application that it reads. -/
theorem reconcile_stems (apart : Apart r spec status) (moves : ∀ v o, ApplicationMoves r spec status v o → T k v o)
    (run : Runs (r.reconcile app) calls (after,outcome)) :
    (∀ call ∈ calls, Stems T app call.1) ∧
      (Stems T app (.updateStatus k after) ∨
        ((∃ sent, ⟨.update k sent,.ok after⟩ ∈ calls) ∧ ∀ n, T k after (statusUpdated n k after after))) := by
  have unchanged : Stems T app (.updateStatus k app) :=
    stems_status apart moves (sameVersion_of_eq rfl) onward_refl (fun _ => rfl)
  cases reconcile_runs r run with
  | deleting | failed => exact ⟨by simp,.inl unchanged⟩
  | unfinalized e live =>
    refine ⟨by simpa using finalizing_stems apart moves,.inl ?_⟩
    refine stems_status apart moves (finalizing_meta app) ?_ (fun failed => absurd failed live)
    simpa [finalizing,Reconciler.initialized] using onward_initialized
  | finalized stored =>
    have kept : ∀ n, T k after (statusUpdated n k after after) := by
      refine fun n => moves _ _ ⟨.inl (apart.spec_statusUpdated ..),?_,fun _ => apart.status_statusUpdated ..⟩
      rw [apart.progress_status _ _ (apart.status_statusUpdated n after after)]
      exact onward_refl
    exact ⟨by simpa using finalizing_stems apart moves,.inr ⟨⟨finalizing r app,List.mem_singleton_self _⟩,kept⟩⟩
  | refused live _ stops =>
    obtain ⟨_,_,reason,message,rfl⟩ := precheck_stop r stops
    have same := sameVersion_of_eq (show r.meta_ (r.revise (r.initialized app) (Progress.fail · .precheck reason message)) =
      r.meta_ app by simp [Reconciler.initialized])
    exact ⟨by simp,.inl (stems_status apart moves same (onward_failed (by simp)) (fun failed => absurd failed live))⟩
  | served live _ goes served =>
    obtain ⟨way,first,place⟩ := precheck_onward live goes
    obtain ⟨second,place'⟩ := served_onward apart way served
    exact ⟨served_stems apart.tame served,.inl (stems_status apart moves (sameVersion_of_eq (place'.trans place))
      (onward_trans first second) (fun failed => absurd failed live))⟩

/-- The passes over an application obey. -/
theorem application_obeys (apart : Apart r spec status) (moves : ∀ v o, ApplicationMoves r spec status v o → T k v o)
    (namespace_ name : String) : Obeys T (r.reconcileRequest namespace_ name) := by
  refine request_obeys (fun app calls outcome run => remove_stems apart moves run) (fun app calls after outcome run => ?_)
  exact ⟨(reconcile_stems apart moves run).1,fun _ => (reconcile_stems apart moves run).2⟩

end Applications

/-! #### Both kinds of applications -/

theorem plain_apart (p : Platform) : Apart (arksApplicationReconciler p) ArksApplication.spec ArksApplication.status where
  toOrderly := orderly_plain p
  custom := trivial
  spec_withMeta _ _ := rfl
  spec_initialized _ := rfl
  spec_updated _ _ _ := rfl
  status_updated _ _ _ := rfl
  spec_statusUpdated _ _ _ := rfl
  status_statusUpdated _ _ _ := rfl
  progress_status _ _ same := congrArg (fun status : ArksApplicationStatus => status.toApplicationProgress) same
  synced {app calls result} run := by
    obtain ⟨read,rest,rfl,later⟩ := runs_call.mp run
    rcases read with (message | message | message) | lws
    · obtain ⟨rfl,rfl⟩ := runs_ret.mp later
      refine ⟨rfl,.inr (.inr ⟨rfl,fun type other => ?_⟩)⟩
      exact (Progress.check_update ..).trans (if_neg other)
    all_goals
      obtain ⟨rfl,rfl⟩ := runs_ret.mp later
      exact ⟨rfl,.inl rfl⟩

section Disaggregated
open Applications.Disaggregated

/-- The state of a child is copied, or the application has failed. -/
def Copies (app app' : ArksDisaggregatedApplication) : Prop :=
  app'.toObjectMeta = app.toObjectMeta ∧
    (fields.progress app' = fields.progress app ∨ (fields.progress app').phase = some .failed)

variable {app : ArksDisaggregatedApplication} {calls : List KubeCall}

theorem copies_trans {app₁ app₂ : ArksDisaggregatedApplication} (first : Copies app app₁) (second : Copies app₁ app₂) :
    Copies app app₂ := by
  refine ⟨second.1.trans first.1,?_⟩
  rcases second.2 with same | failed
  · rw [same]
    exact first.2
  · exact .inr failed

theorem workloadSynced_copies {role : Workloads.Disaggregated.Role}
    {flow : Flow ArksDisaggregatedApplication} (synced : WorkloadSynced app role calls flow) : Copies app flow.object := by
  cases synced with
  | gone => exact ⟨rfl,.inr rfl⟩
  | unread => exact ⟨rfl,.inl rfl⟩
  | settled | adjusted => cases role <;> exact ⟨rfl,.inl rfl⟩

private theorem routerSynced_copies
    {result : ArksDisaggregatedApplication × Outcome} (synced : RouterSynced app calls result) : Copies app result.1 := by
  cases synced with
  | gone => exact ⟨rfl,.inr rfl⟩
  | unread | settled | adjusted | unadjusted => exact ⟨rfl,.inl rfl⟩

theorem sync_copies {result : ArksDisaggregatedApplication × Outcome}
    (run : Runs (sync app) calls result) : Copies app result.1 := by
  rcases sync_runs run with ⟨app₁,first,same⟩ | ⟨app₁,app₂,_,_,_,first,second,same⟩ | ⟨app₁,app₂,_,_,_,_,first,second,last⟩
  · rw [same]
    exact workloadSynced_copies first
  · rw [same]
    exact copies_trans (workloadSynced_copies first) (workloadSynced_copies second)
  · exact copies_trans (copies_trans (workloadSynced_copies first) (workloadSynced_copies second)) (routerSynced_copies last)

theorem disaggregated_apart (p : Platform) : Apart (arksDisaggregatedApplicationReconciler p) ArksDisaggregatedApplication.spec
    ArksDisaggregatedApplication.status where
  toOrderly := orderly_disaggregated p
  custom := trivial
  spec_withMeta _ _ := rfl
  spec_initialized _ := rfl
  spec_updated _ _ _ := rfl
  status_updated _ _ _ := rfl
  spec_statusUpdated _ _ _ := rfl
  status_statusUpdated _ _ _ := rfl
  progress_status _ _ same := congrArg (fun status : ArksDisaggregatedApplicationStatus => status.toApplicationProgress) same
  synced run := ⟨(sync_copies run).1,(sync_copies run).2.imp id .inl⟩

end Disaggregated

/-! ### The passes over a model -/

section Models
open Models
variable {p : Platform} {model after : ArksModel} {calls : List KubeCall} {outcome : Outcome}

/-- How far a model is. -/
def modelRank : Option ArksModelPhase → Nat
  | none => 0
  | some .pending => 1
  | some .storageCreating => 2
  | some .modelLoading => 3
  | some .ready => 4
  | some .failed => 4

/-- A model that is being loaded has its storage. -/
def Stored (status : ArksModelStatus) : Prop :=
  status.phase = some .modelLoading → checkCondition status.conditions .storageCreated = true

/-- The phases in which nothing is done any more. -/
def Settled (status : ArksModelStatus) : Prop := status.phase = some .ready ∨ status.phase = some .failed

/-- From a version of a model to the next one that a pass writes. -/
structure ModelMoves (v o : ArksModel) : Prop where
  spec : o.spec = v.spec
  onward : Stored v.status → Stored o.status ∧ modelRank v.status.phase ≤ modelRank o.status.phase
  settled : Settled v.status → o.status = v.status

/-- From the status of a model to a later one. -/
def Proceeds (model after : ArksModel) : Prop :=
  after.toObjectMeta = model.toObjectMeta ∧
    (Stored model.status → Stored after.status ∧ modelRank model.status.phase ≤ modelRank after.status.phase)

private theorem modelRank_le (phase : Option ArksModelPhase) : modelRank phase ≤ 4 := by
  rcases phase with _ | phase
  · exact Nat.zero_le _
  · cases phase <;> decide

theorem proceeds_refl : Proceeds model model := ⟨rfl,fun stored => ⟨stored,le_rfl⟩⟩

theorem proceeds_trans {model₁ : ArksModel} (first : Proceeds model model₁) (second : Proceeds model₁ after) :
    Proceeds model after := by
  refine ⟨second.1.trans first.1,fun stored => ?_⟩
  obtain ⟨stored₁,forward⟩ := first.2 stored
  exact ⟨(second.2 stored₁).1,forward.trans (second.2 stored₁).2⟩

theorem proceeds_settled (place : after.toObjectMeta = model.toObjectMeta) (settled : Settled after.status) :
    Proceeds model after := by
  refine ⟨place,fun _ => ⟨fun loading => ?_,?_⟩⟩
  · rcases settled with is | is <;> rw [is] at loading <;> cases loading
  · have last : modelRank after.status.phase = 4 := by rcases settled with is | is <;> rw [is] <;> rfl
    rw [last]
    exact modelRank_le _

/-- A change of the conditions that takes no storage back. -/
theorem proceeds_conditions (place : after.toObjectMeta = model.toObjectMeta) (phase : after.status.phase = model.status.phase)
    (storage : checkModelCondition model .storageCreated = true → checkModelCondition after .storageCreated = true) :
    Proceeds model after := by
  refine ⟨place,fun stored => ⟨fun loading => storage (stored (phase ▸ loading)),?_⟩⟩
  rw [phase]

private theorem proceeds_initialized : Proceeds model (initializeModelCondition model) := by
  refine proceeds_conditions (by simp) ?_ (by simp)
  unfold initializeModelCondition
  split <;> rfl

/-- The storage is seen to before anything is loaded. -/
theorem proceeds_storing (unsettled : ¬ Settled model.status) (place : after.toObjectMeta = model.toObjectMeta)
    (phase : after.status.phase = some .storageCreating) (uncreated : checkModelCondition model .storageCreated = false) :
    Proceeds model after := by
  refine ⟨place,fun stored => ⟨fun loading => (by rw [phase] at loading; cases loading),?_⟩⟩
  have early : model.status.phase ≠ some .modelLoading := fun loading => by
    have created := stored loading
    rw [checkModelCondition,created] at uncreated
    cases uncreated
  rw [phase]
  rcases whole : model.status.phase with _ | now
  · decide
  · cases now <;> simp_all [modelRank,Settled]

private theorem proceeds_loading (unsettled : ¬ Settled model.status) (place : after.toObjectMeta = model.toObjectMeta)
    (phase : after.status.phase = some .modelLoading) (created : checkModelCondition after .storageCreated = true) :
    Proceeds model after := by
  refine ⟨place,fun _ => ⟨fun _ => created,?_⟩⟩
  rw [phase]
  rcases whole : model.status.phase with _ | now
  · decide
  · cases now <;> simp_all [modelRank,Settled]

theorem prepared_proceeds {flow : Flow (ArksModel × String)} (unsettled : ¬ Settled model.status)
    (prepared : Prepared model calls flow) :
    Proceeds model flow.object.1 ∧ ∀ next, flow = .next next →
      ¬ Settled next.1.status ∧ checkModelCondition next.1 .storageCreated = true := by
  cases prepared with
  | unspecified => exact ⟨proceeds_refl,by simp⟩
  | claimless => exact ⟨proceeds_settled rfl (.inr rfl),by simp⟩
  | already _ _ created => exact ⟨proceeds_refl,by rintro _ ⟨⟩; exact ⟨unsettled,created⟩⟩
  | @ensured _ pvc _ ensured _ _ uncreated =>
    have going : ∀ status reason message, ¬ Settled (updateModelCondition (setPhase model .storageCreating) .storageCreated status
        reason message).status := by
      rintro _ _ _ (is | is) <;> cases is
    cases ensured with
    | createFailed | checkFailed => exact ⟨proceeds_storing unsettled rfl rfl uncreated,by simp [afterStorage]⟩
    | present | panicked | generateFailed =>
      refine ⟨proceeds_storing unsettled rfl rfl uncreated,?_⟩
      rintro _ ⟨⟩
      exact ⟨going _ _ _,by simp⟩

theorem loaded_proceeds {claimName : String} {flow : Flow ArksModel} (unsettled : ¬ Settled model.status)
    (created : checkModelCondition model .storageCreated = true) (loaded : Loaded p model claimName calls flow) :
    Proceeds model flow.object := by
  cases loaded with
  | already | sourceless | unread => exact proceeds_refl
  | stored => exact proceeds_conditions rfl rfl (by simp [Flow.object])
  | observed worker =>
    unfold observeWorker
    split
    · exact proceeds_settled rfl (.inr rfl)
    · exact proceeds_conditions rfl rfl (by simp [Flow.object])
    · exact proceeds_refl
  | created message reply =>
    unfold afterWorker
    split <;> exact proceeds_loading unsettled rfl rfl (by simp [Flow.object,created])

theorem provided_proceeds {result : ArksModel × Outcome} (unsettled : ¬ Settled model.status)
    (provided : Provided p model calls result) : Proceeds model result.1 := by
  cases provided with
  | unprepared prepared => exact (prepared_proceeds unsettled prepared).1
  | stopped prepared loaded =>
    obtain ⟨first,next⟩ := prepared_proceeds unsettled prepared
    exact proceeds_trans first (loaded_proceeds (next _ rfl).1 (next _ rfl).2 loaded)
  | announced prepared loaded =>
    obtain ⟨first,next⟩ := prepared_proceeds unsettled prepared
    refine proceeds_trans (proceeds_trans first (loaded_proceeds (next _ rfl).1 (next _ rfl).2 loaded)) ?_
    unfold announceModel
    split
    · exact proceeds_refl
    · exact proceeds_settled rfl (.inl rfl)

/-! #### What is sent -/

variable {T : (k : Kind) → Object k → Object k → Prop}

theorem model_told {m : ObjectMeta} (same : SameVersion model.toObjectMeta m) :
    (m.namespace_.val,m.name.val) = key .model model ∧ m.resourceVersion = version (k := .model) model := by
  rw [same.namespace_,same.name,same.resourceVersion]
  exact ⟨rfl,rfl⟩

theorem model_stems_status (moves : ∀ v o : ArksModel, ModelMoves v o → T .model v o) (proceeds : Proceeds model after)
    (settled : Settled model.status → after = model) : Stems (k := .model) T model (.updateStatus .model after) := by
  obtain ⟨place,number⟩ := model_told (sameVersion_of_eq proceeds.1)
  exact .status place number (fun n => moves _ _ ⟨rfl,proceeds.2,fun is => by rw [settled is]; rfl⟩)

theorem model_stems_update (moves : ∀ v o : ArksModel, ModelMoves v o → T .model v o) {m : ObjectMeta}
    (same : SameVersion model.toObjectMeta m) :
    Stems (k := .model) T model (.update .model { model with toObjectMeta := m }) := by
  obtain ⟨place,number⟩ := model_told same
  exact .update place number (fun n => moves _ _ ⟨rfl,fun stored => ⟨stored,le_rfl⟩,fun _ => rfl⟩)

private theorem model_remove_stems (moves : ∀ v o : ArksModel, ModelMoves v o → T .model v o)
    (run : Runs (Models.remove model) calls outcome) : ∀ call ∈ calls, Stems (k := .model) T model call.1 := by
  refine (runs_within (Q := fun _ => True) (P := Stems (k := .model) T model) ?_ run).1
  have release : Issues (Stems (k := .model) T model) (fun _ => True) (Models.release model) :=
    ⟨model_stems_update moves (sameVersion_remove _ _),fun reply _ => by cases reply <;> trivial⟩
  unfold Models.remove
  split
  · trivial
  split
  · exact release
  · refine ⟨.aside (by simp [kindOf,Custom]),fun reply _ => ?_⟩
    rcases reply with (_ | _ | _) | _
    · exact release
    · trivial
    · trivial
    · exact release

theorem model_reconcile_stems (moves : ∀ v o : ArksModel, ModelMoves v o → T .model v o)
    (run : Runs (Models.reconcile p model) calls (after,outcome)) :
    (∀ call ∈ calls, Stems (k := .model) T model call.1) ∧
      (Stems (k := .model) T model (.updateStatus .model after) ∨
        ((∃ sent : ArksModel, ⟨.update .model sent,.ok after⟩ ∈ calls) ∧
          ∀ n, T .model after (statusUpdated n .model after after))) := by
  have unchanged : Stems (k := .model) T model (.updateStatus .model model) :=
    model_stems_status moves proceeds_refl (fun _ => rfl)
  have finalizing : Stems (k := .model) T model (.update .model (Models.finalizing model)) :=
    model_stems_update moves (sameVersion_add _ _)
  cases Models.reconcile_runs run with
  | deleting | settled => exact ⟨by simp,.inl unchanged⟩
  | unfinalized e =>
    obtain ⟨place,number⟩ := model_told (sameVersion_add model.toObjectMeta Models.arksModelControllerFinalizer)
    exact ⟨by simpa using finalizing,.inl (.status place number (fun n => moves _ _ ⟨rfl,fun stored => ⟨stored,le_rfl⟩,
      fun _ => rfl⟩))⟩
  | finalized stored =>
    exact ⟨by simpa using finalizing,.inr ⟨⟨Models.finalizing model,List.mem_singleton_self _⟩,
      fun n => moves _ _ ⟨rfl,fun stored => ⟨stored,le_rfl⟩,fun _ => rfl⟩⟩⟩
  | provided unsettled _ provided =>
    have going : ¬ Settled (initializeModelCondition model).status := by
      rw [Settled,Loading.initialize_phase]
      exact unsettled
    have proceeds := proceeds_trans proceeds_initialized (provided_proceeds going provided)
    refine ⟨fun call is => .aside ?_,.inl (model_stems_status moves proceeds (fun is => absurd is unsettled))⟩
    rcases DownloadPods.provided_kinds provided call is with kind | kind <;> simp [kind,Custom]

private theorem model_obeys (moves : ∀ v o : ArksModel, ModelMoves v o → T .model v o) (namespace_ name : String) :
    Obeys T (Models.reconcileRequest p namespace_ name) := by
  refine request_obeys (fun model calls outcome run => model_remove_stems moves run) (fun model calls after outcome run => ?_)
  exact ⟨(model_reconcile_stems moves run).1,fun _ => (model_reconcile_stems moves run).2⟩

end Models

/-! ### The passes over an endpoint -/

section Endpoints
open Endpoints
variable {ep : ArksEndpoint} {T : (k : Kind) → Object k → Object k → Prop}

/-- From a version of an endpoint to the next one that a pass writes: the schema fills in its defaults. -/
def EndpointMoves (v o : ArksEndpoint) : Prop := o.spec = v.spec ∨ o.spec = Kube.defaulted v.spec

theorem endpoint_stems_update (moves : ∀ v o : ArksEndpoint, EndpointMoves v o → T .endpoint v o) {m : ObjectMeta}
    (same : SameVersion ep.toObjectMeta m) : Stems (k := .endpoint) T ep (.update .endpoint { ep with toObjectMeta := m }) := by
  refine .update ?_ ?_ (fun n => moves _ _ (.inr rfl))
  · simp only [key,same.namespace_,same.name]
  · simp only [version,meta?,Option.map_some,same.resourceVersion]

private theorem writeRoute_stems (spec : HTTPRouteSpec) :
    Issues (Stems (k := .endpoint) T ep) (fun _ => True) (writeRoute ep spec) := by
  refine ⟨.get _ _ _,fun read _ => ?_⟩
  rcases read with (_ | _ | _) | route
  · exact ⟨.aside (by simp [kindOf,Custom]),fun reply _ => by cases reply <;> trivial⟩
  · trivial
  · trivial
  · exact ⟨.aside (by simp [kindOf,Custom]),fun reply _ => by cases reply <;> trivial⟩

private theorem endpoint_reconcile_stems (moves : ∀ v o : ArksEndpoint, EndpointMoves v o → T .endpoint v o) :
    Issues (Stems (k := .endpoint) T ep) (fun _ => True) (reconcile ep) := by
  simp only [reconcile,issue_bind]
  refine ⟨.list _ _ _,fun apps _ => ?_⟩
  cases apps with
  | error => trivial
  | ok apps =>
    refine ⟨.list _ _ _,fun disApps _ => ?_⟩
    cases disApps with
    | error => trivial
    | ok disApps =>
      refine within_bind (writeRoute_stems _) (fun written _ => ?_)
      cases written with
      | error => trivial
      | ok => exact ⟨.status rfl rfl (fun n => moves _ _ (.inl rfl)),fun reply _ => by cases reply <;> trivial⟩

private theorem handleDelete_stems (moves : ∀ v o : ArksEndpoint, EndpointMoves v o → T .endpoint v o) :
    Issues (Stems (k := .endpoint) T ep) (fun _ => True) (handleDelete ep) := by
  have finish := @endpoint_stems_update ep T moves _ (sameVersion_remove ep.toObjectMeta arksEndpointControllerFinalizer)
  refine ⟨.get _ _ _,fun read _ => ?_⟩
  rcases read with (_ | _ | _) | route
  · exact ⟨finish,fun reply _ => by cases reply <;> trivial⟩
  · trivial
  · trivial
  · refine ⟨.aside (by simp [kindOf,Custom]),fun reply _ => ?_⟩
    cases reply with
    | error => trivial
    | ok => exact ⟨finish,fun reply _ => by cases reply <;> trivial⟩

private theorem endpoint_obeys (moves : ∀ v o : ArksEndpoint, EndpointMoves v o → T .endpoint v o) (namespace_ name : String) :
    Obeys T (Endpoints.reconcileRequest namespace_ name) := by
  intro calls outcome run
  simp only [Endpoints.reconcileRequest,issue_bind,runs_call] at run
  obtain ⟨read,rest,rfl,later⟩ := run
  rcases read with (_ | _ | _) | ep
  · rw [(runs_ret.mp later).1]
    exact ordered_unread
  · rw [(runs_ret.mp later).1]
    exact ordered_unread
  · rw [(runs_ret.mp later).1]
    exact ordered_unread
  · refine ordered_stems (k := .endpoint) (runs_within (Q := fun _ => True) ?_ later).1
    simp only
    split
    · exact handleDelete_stems moves
    split
    · exact ⟨endpoint_stems_update moves (sameVersion_add _ _),fun reply _ => by cases reply <;> trivial⟩
    · refine within_bind (endpoint_reconcile_stems moves) (fun written _ => ?_)
      cases written <;> trivial

end Endpoints

/-! ### Runs -/

/-- From a version of a custom resource to the next one that a pass writes. -/
def Moves (p : Platform) : (k : Kind) → Object k → Object k → Prop
  | .application,v,o => ApplicationMoves (arksApplicationReconciler p) ArksApplication.spec ArksApplication.status v o
  | .disaggregated,v,o =>
    ApplicationMoves (arksDisaggregatedApplicationReconciler p) ArksDisaggregatedApplication.spec
      ArksDisaggregatedApplication.status v o
  | .model,v,o => ModelMoves v o
  | .endpoint,v,o => EndpointMoves v o
  | _,_,_ => True

/-- The passes of the four controllers. -/
inductive Pass (p : Platform) : KubeAction Outcome → Prop
  | application (ns name : String) : Pass p ((arksApplicationReconciler p).reconcileRequest ns name)
  | disaggregated (ns name : String) : Pass p ((arksDisaggregatedApplicationReconciler p).reconcileRequest ns name)
  | model (ns name : String) : Pass p (Models.reconcileRequest p ns name)
  | endpoint (ns name : String) : Pass p (Endpoints.reconcileRequest ns name)

private theorem pass_obeys {p : Platform} {pass : KubeAction Outcome} (is : Pass p pass) : Obeys (Moves p) pass := by
  cases is with
  | application => exact application_obeys (plain_apart p) (fun _ _ moves => moves) _ _
  | disaggregated => exact application_obeys (disaggregated_apart p) (fun _ _ moves => moves) _ _
  | model => exact model_obeys (fun _ _ moves => moves) _ _
  | endpoint => exact endpoint_obeys (fun _ _ moves => moves) _ _

/-- Any number of replicas of the controllers, which run any passes, and users who make certain edits. -/
def controllers (ι : Type) (p : Platform) (index : Index) (U : Edits) :
    System KubeOp KubeReply ι Archive Outcome :=
  system index U (fun _ => Pass p)

/-- The status of a custom resource is empty. -/
def Unset : (k : Kind) → Object k → Prop
  | .application,o => o.status.phase = none ∧ o.status.conditions = []
  | .disaggregated,o => o.status.phase = none ∧ o.status.conditions = []
  | .model,o => o.status.phase = none ∧ o.status.conditions = []
  | _,_ => True

/-- The status of a custom resource is the same. -/
def SameStatus : (k : Kind) → Object k → Object k → Prop
  | .application,v,o => o.status = v.status
  | .disaggregated,v,o => o.status = v.status
  | .model,v,o => o.status = v.status
  | _,_,_ => True

/-- The API server keeps the status out of what users write: a new object has none, and an edit leaves it as it is. -/
def users : Edits := fun ref old new =>
  match old,new with
  | none,some o => Unset ref.kind o
  | some v,some o => SameStatus ref.kind v o
  | _,none => True

section Runs
variable {ι : Type} [DecidableEq ι]

/-- The versions of a custom resource while the controllers run. -/
theorem controllers_history {p : Platform} {index : Index} {U : Edits} {c d : Config KubeOp KubeReply ι Archive Outcome}
    (initial : c.shared = Archive.fresh) (resting : ∀ i, ∃ outcome, c.prog i = .ret outcome)
    (run : Reach (controllers ι p index U) (fun _ => True) c d) : History (Moves p) U d.shared :=
  reach_history (fun _ _ is => pass_obeys is) initial resting run

/-! ### A team asks for a model and for applications -/

def host : Platform := ⟨fun _ => "",id⟩

/-- One replica runs the controllers, and users do what they may. -/
abbrev Team (U : Edits) (a : Archive) : Prop :=
  Settles (controllers Unit host (fun _ _ => []) U) (fun _ => True) ⟨.fresh,fun _ => .ret (.done .empty)⟩ a

private theorem team_fresh (U : Edits) : Team U .fresh := ⟨_,fun _ => ⟨_,rfl⟩,.refl trivial⟩

/-- A pass to its end. -/
def ran (pass : KubeAction Outcome) (a : Archive) : Archive := (exec Archive.perform pass a).2

theorem team_ran {U : Edits} {a : Archive} {pass : KubeAction Outcome} (team : Team U a) (is : Pass host pass) :
    Team U (ran pass a) :=
  settles_exec (i := ()) team Archive.perform_acts (fun _ => is) (fun _ _ _ _ _ => trivial) (always_true _ _)

theorem team_write {U : Edits} {a : Archive} {k : Kind} {o : Object k} (team : Team U a)
    (edit : U (refOf k o) (objectAt a.server (refOf k o)) (some o)) (numbered : version o = a.server.revision + 1) :
    Team U (a.write k o) :=
  settles_env team (Archive.write_changes edit numbered) (fun _ _ => trivial)

/-- A history that begins with an object that was created, and has not been deleted since. -/
theorem one_life {α : Type} {past : List (Option α)} {n : Nat}
    (shape : past.map Option.isSome = true :: (List.replicate n true ++ [true,false])) :
    ∃ new between old, past = some new :: (between ++ [some old,none]) ∧ none ∉ between := by
  obtain ⟨first,rest,rfl,there,shaped⟩ := List.map_eq_cons_iff.mp shape
  obtain ⟨between,ended,rfl,all,ends⟩ := List.map_eq_append_iff.mp shaped
  obtain ⟨created,_,rfl,created_there,begins⟩ := List.map_eq_cons_iff.mp ends
  obtain ⟨nothing,_,rfl,missing,empty⟩ := List.map_eq_cons_iff.mp begins
  obtain ⟨new,rfl⟩ := Option.isSome_iff_exists.mp there
  obtain ⟨old,rfl⟩ := Option.isSome_iff_exists.mp created_there
  refine ⟨new,between,old,?_,fun gone => ?_⟩
  · rw [List.map_eq_nil_iff.mp empty,Option.isNone_iff_eq_none.mp (Option.isSome_eq_false_iff.mp missing)]
  · have never : (none : Option α).isSome ∈ List.replicate n true := all ▸ List.mem_map_of_mem gone
    cases List.eq_of_mem_replicate never

/-- The model `chat` as it is created, and two passes over it. -/
def newChat : ArksModel := { claimedModel with status := ⟨none,[]⟩ }

@[inherit_doc newChat]
def chatLoaded : Archive :=
  ran (Models.reconcileRequest host "team-a" "chat") (ran (Models.reconcileRequest host "team-a" "chat")
    (Archive.fresh.write .model newChat))

theorem team_chat {U : Edits} (creates : U (refOf .model newChat) none (some newChat)) : Team U chatLoaded :=
  team_ran (team_ran (team_write (team_fresh U) creates rfl) (.model _ _)) (.model _ _)

/-- A model never goes back to an earlier phase, and one that is Ready or Failed keeps its status for
    the rest of its life: whichever replicas run, whatever they read and whichever calls fail. -/
theorem model_goes_forward (p : Platform) (index : Index)
    (c d : Config KubeOp KubeReply ι Archive Outcome) (initial : c.shared = Archive.fresh)
    (resting : ∀ i, ∃ outcome, c.prog i = .ret outcome) (run : Reach (controllers ι p index users) (fun _ => True) c d)
    (ns name : String) (later between earlier : List (Option ArksModel)) (new old : ArksModel)
    (versions : d.shared.past ⟨.model,ns,name⟩ = later ++ some new :: (between ++ some old :: earlier)) (alive : none ∉ between) :
    modelRank old.status.phase ≤ modelRank new.status.phase ∧ (Settled old.status → new.status = old.status) := by
  refine history_later ⟨.model,ns,name⟩ (fun model : ArksModel => Stored model.status)
    (fun v o : ArksModel => modelRank v.status.phase ≤ modelRank o.status.phase ∧ (Settled v.status → o.status = v.status))
    (controllers_history initial resting run) trivial ?_ ?_ ?_ ?_ ?_ versions alive
  · exact fun v => ⟨le_rfl,fun _ => rfl⟩
  · intro v o o' first second
    refine ⟨first.1.trans second.1,fun settled => ?_⟩
    rw [second.2 (first.2 settled ▸ settled),first.2 settled]
  · intro o unset loading
    rw [unset.1] at loading
    cases loading
  · intro v o same stored
    rw [show o.status = v.status from same]
    exact ⟨stored,le_rfl,fun _ => rfl⟩
  · exact fun v o moves stored => ⟨(moves.onward stored).1,(moves.onward stored).2,moves.settled⟩

/-- The model `chat` from its creation until it is ready. -/
theorem model_goes_forward_chat : ∃ new between old,
    chatLoaded.past ⟨.model,"team-a","chat"⟩ = some new :: (between ++ [some old,none]) ∧
    none ∉ between ∧ modelRank old.status.phase ≤ modelRank new.status.phase := by
  have shape : (chatLoaded.past ⟨.model,"team-a","chat"⟩).map Option.isSome =
      true :: (List.replicate 2 true ++ [true,false]) := by
    decide +kernel
  obtain ⟨new,between,old,versions,alive⟩ := one_life shape
  obtain ⟨prog,_,run⟩ := team_chat (U := users) (by exact ⟨rfl,rfl⟩)
  exact ⟨new,between,old,versions,alive,
    (model_goes_forward _ _ _ ⟨_,prog⟩ rfl (fun _ => ⟨_,rfl⟩) run _ _ [] between [none] new old versions alive).1⟩

/-- Two versions of one life of an application: it has not gone back, and one that has failed keeps its status. -/
def Forward {k : Kind} (r : Reconciler k) {τ : Type} (status : Object k → τ) (old new : Object k) : Prop :=
  rank (r.progress old).phase ≤ rank (r.progress new).phase ∧ ((r.progress old).phase = some .failed → status new = status old)

theorem application_forward {k : Kind} {r : Reconciler k} {σ τ : Type} {spec : Object k → σ} {status : Object k → τ}
    (apart : Apart r spec status) {p : Platform} {a : Archive} (history : History (Moves p) users a)
    (moves : ∀ v o, Moves p k v o → ApplicationMoves r spec status v o)
    (unset : ∀ o, Unset k o → (r.progress o).phase = none) (same : ∀ v o, SameStatus k v o → status o = status v)
    {ns name : String} {later between earlier : List (Option (Object k))} {new old : Object k}
    (versions : a.past ⟨k,ns,name⟩ = later ++ some new :: (between ++ some old :: earlier)) (alive : none ∉ between) :
    Forward r status old new := by
  refine history_later ⟨k,ns,name⟩ (fun app : Object k => Passed (r.progress app)) (Forward r status) history
    apart.custom ?_ ?_ ?_ ?_ ?_ versions alive
  · exact fun v => ⟨le_rfl,fun _ => rfl⟩
  · intro v o o' first second
    refine ⟨first.1.trans second.1,fun failed => ?_⟩
    have still : (r.progress o).phase = some .failed := by rw [apart.progress_status o v (first.2 failed),failed]
    rw [second.2 still,first.2 failed]
  · intro o new
    constructor <;> rw [unset o new] <;> exact fun late => absurd late (by decide)
  · intro v o edit passed
    have kept := apart.progress_status o v (same v o edit)
    exact ⟨kept ▸ passed,by rw [kept],fun _ => same v o edit⟩
  · intro v o written passed
    obtain ⟨passed',forward⟩ := (moves v o written).onward passed
    exact ⟨passed',forward,(moves v o written).failed⟩

/-- An application of either kind never goes back to an earlier stage, and one that has failed keeps its
    status for the rest of its life: whichever replicas run, whatever they read and whichever calls fail. -/
theorem application_goes_forward (p : Platform) (index : Index)
    (c d : Config KubeOp KubeReply ι Archive Outcome) (initial : c.shared = Archive.fresh)
    (resting : ∀ i, ∃ outcome, c.prog i = .ret outcome) (run : Reach (controllers ι p index users) (fun _ => True) c d)
    (ns name : String) :
    (∀ later between earlier new old,
      d.shared.past ⟨.application,ns,name⟩ = later ++ some new :: (between ++ some old :: earlier) →
      none ∉ between → Forward (arksApplicationReconciler p) ArksApplication.status old new) ∧
    ∀ later between earlier new old,
      d.shared.past ⟨.disaggregated,ns,name⟩ = later ++ some new :: (between ++ some old :: earlier) →
      none ∉ between → Forward (arksDisaggregatedApplicationReconciler p) ArksDisaggregatedApplication.status old new := by
  have history := controllers_history initial resting run
  constructor
  · intro later between earlier new old versions alive
    exact application_forward (plain_apart p) history (fun _ _ moves => moves) (fun _ unset => unset.1) (fun _ _ same => same)
      versions alive
  · intro later between earlier new old versions alive
    exact application_forward (disaggregated_apart p) history (fun _ _ moves => moves) (fun _ unset => unset.1)
      (fun _ _ same => same) versions alive

/-- Applications `llm` of both kinds as they are created, and two passes over each. -/
def newPlain : ArksApplication := { llmPlain ⟨none,[]⟩ with resourceVersion := 6,finalizers := [] }

@[inherit_doc newPlain]
def newDisaggregated : ArksDisaggregatedApplication :=
  let app := llmDisaggregated ⟨none,[]⟩
  { app with
    resourceVersion := 12
    finalizers := []
    spec := { app.spec with
      prefill := { app.spec.prefill with replicas := some 1 }
      decode := { app.spec.decode with replicas := some 1 }
      router := { app.spec.router with replicas := some 1 } } }

@[inherit_doc newPlain]
def plainServed : Archive :=
  ran ((arksApplicationReconciler host).reconcileRequest "team-a" "llm")
    (ran ((arksApplicationReconciler host).reconcileRequest "team-a" "llm") (chatLoaded.write .application newPlain))

@[inherit_doc newPlain]
def bothServed : Archive :=
  ran ((arksDisaggregatedApplicationReconciler host).reconcileRequest "team-a" "llm")
    (ran ((arksDisaggregatedApplicationReconciler host).reconcileRequest "team-a" "llm")
      (plainServed.write .disaggregated newDisaggregated))

private theorem team_both {U : Edits} (model : U (refOf .model newChat) none (some newChat))
    (plain : U (refOf .application newPlain) (objectAt chatLoaded.server (refOf .application newPlain)) (some newPlain))
    (disaggregated : U (refOf .disaggregated newDisaggregated)
      (objectAt plainServed.server (refOf .disaggregated newDisaggregated)) (some newDisaggregated)) : Team U bothServed := by
  have served : Team U plainServed :=
    team_ran (team_ran (team_write (team_chat model) plain (by decide +kernel)) (.application _ _)) (.application _ _)
  exact team_ran (team_ran (team_write served disaggregated (by decide +kernel)) (.disaggregated _ _)) (.disaggregated _ _)

/-- Both applications `llm` from their creation on. -/
theorem application_goes_forward_llm :
    (∃ new between old,
      bothServed.past ⟨.application,"team-a","llm"⟩ = some new :: (between ++ [some old,none]) ∧ none ∉ between ∧
      Forward (arksApplicationReconciler host) ArksApplication.status old new) ∧
    ∃ new between old,
      bothServed.past ⟨.disaggregated,"team-a","llm"⟩ = some new :: (between ++ [some old,none]) ∧ none ∉ between ∧
      Forward (arksDisaggregatedApplicationReconciler host) ArksDisaggregatedApplication.status old new := by
  have shape : (bothServed.past ⟨.application,"team-a","llm"⟩).map Option.isSome =
      true :: (List.replicate 2 true ++ [true,false]) := by
    decide +kernel
  have shape' : (bothServed.past ⟨.disaggregated,"team-a","llm"⟩).map Option.isSome =
      true :: (List.replicate 2 true ++ [true,false]) := by decide +kernel
  obtain ⟨new,between,old,versions,alive⟩ := one_life shape
  obtain ⟨new',between',old',versions',alive'⟩ := one_life shape'
  have absent : objectAt chatLoaded.server (refOf .application newPlain) = none :=
    Option.isNone_iff_eq_none.mp (by decide +kernel)
  have absent' : objectAt plainServed.server (refOf .disaggregated newDisaggregated) = none :=
    Option.isNone_iff_eq_none.mp (by decide +kernel)
  obtain ⟨prog,_,run⟩ := team_both (U := users) (by exact ⟨rfl,rfl⟩) (by rw [absent]; exact ⟨rfl,rfl⟩)
    (by rw [absent']; exact ⟨rfl,rfl⟩)
  have forward := application_goes_forward _ _ _ ⟨_,prog⟩ rfl (fun _ => ⟨_,rfl⟩) run "team-a" "llm"
  exact ⟨⟨new,between,old,versions,alive,forward.1 [] between [none] new old versions alive⟩,
    ⟨new',between',old',versions',alive',forward.2 [] between' [none] new' old' versions' alive'⟩⟩

/-- The specification of a custom resource is the same, up to the defaults that are filled in. -/
def SameSpec (p : Platform) : (k : Kind) → Object k → Object k → Prop
  | .application,v,o => o.spec = v.spec ∨ o.spec = ((arksApplicationReconciler p).defaulted v).spec
  | .disaggregated,v,o => o.spec = v.spec ∨ o.spec = ((arksDisaggregatedApplicationReconciler p).defaulted v).spec
  | .model,v,o => o.spec = v.spec
  | .endpoint,v,o => o.spec = v.spec ∨ o.spec = Kube.defaulted v.spec
  | _,_,_ => True

private theorem moves_sameSpec {p : Platform} {k : Kind} {v o : Object k} (custom : Custom k) (moves : Moves p k v o) :
    SameSpec p k v o := by
  cases k with
  | application | disaggregated => exact ApplicationMoves.spec moves
  | model => exact ModelMoves.spec moves
  | endpoint => exact moves
  | _ => cases custom

/-- No controller overwrites what a user asks for: a version whose specification is not that of the version
    before it, up to the defaults, is an edit by a user. -/
theorem edits_are_kept (p : Platform) (index : Index) (U : Edits)
    (c d : Config KubeOp KubeReply ι Archive Outcome) (initial : c.shared = Archive.fresh)
    (resting : ∀ i, ∃ outcome, c.prog i = .ret outcome) (run : Reach (controllers ι p index U) (fun _ => True) c d)
    (ref : Ref) (custom : Custom ref.kind) (later earlier : List (Option ref.Object)) (new old : ref.Object)
    (versions : d.shared.past ref = later ++ some new :: some old :: earlier) :
    U ref (some old) (some new) ∨ SameSpec p ref.kind old new := by
  have chain := (controllers_history initial resting run).chain ref custom
  rw [versions] at chain
  cases (List.isChain_cons_cons.mp (chain_from chain)).1 with
  | again =>
    refine .inr ?_
    obtain ⟨k,ns,name⟩ := ref
    cases k with
    | application | disaggregated | endpoint => exact .inl rfl
    | model => exact rfl
    | _ => cases custom
  | user edit => exact .inl edit
  | written moves => exact .inr (moves_sameSpec custom moves)

/-- What the passes have last written of the model `chat`, where users only create objects. -/
theorem edits_are_kept_chat : ∃ new old earlier, chatLoaded.past ⟨.model,"team-a","chat"⟩ = some new :: some old :: earlier ∧
    SameSpec host .model old new := by
  have shape : (chatLoaded.past ⟨.model,"team-a","chat"⟩).map Option.isSome = true :: (true :: [true,true,false]) := by
    decide +kernel
  obtain ⟨_,_,versions,there,shaped⟩ := List.map_eq_cons_iff.mp shape
  obtain ⟨_,earlier,rfl,before,_⟩ := List.map_eq_cons_iff.mp shaped
  obtain ⟨new,rfl⟩ := Option.isSome_iff_exists.mp there
  obtain ⟨old,rfl⟩ := Option.isSome_iff_exists.mp before
  obtain ⟨prog,_,run⟩ := team_chat (U := fun _ old _ => old = none) rfl
  refine ⟨new,old,earlier,versions,?_⟩
  rcases edits_are_kept _ _ _ _ ⟨_,prog⟩ rfl (fun _ => ⟨_,rfl⟩) run ⟨.model,"team-a","chat"⟩ trivial [] earlier new old
      versions with
    edit | same
  · cases edit
  · exact same

end Runs

end Arks.Lifecycles
