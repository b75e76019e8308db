import Arks.Models
import Arks.Readiness

/-!
No retry is lost. A pass can leave work that no event will bring back: an object that is
being deleted and keeps its finalizer, or an application that waits for its model, which is
not watched. Such a pass has to ask for another one. The reconciler of `ArksApplication`
always does; that of the models reports success when the worker pod cannot be deleted, and
that of the disaggregated applications drops the delay it was given.
-/
namespace Arks.Retries
open Programs Programs.Prog Api Kube Controllers Workloads Applications Passes
  Readiness

/-- The pass is followed by another one. -/
def Retried : Outcome → Prop
  | .done result => result.requeue = true ∨ 0 < result.requeueAfter
  | .failed _ => True
  | .panicked => False

instance : DecidablePred Retried := fun outcome => by
  cases outcome <;> unfold Retried <;> infer_instance

/-- The object that was read is being deleted, and the pass did not take its finalizer off. -/
def LeftDeleting (k : Kind) (meta_ : Object k → ObjectMeta) (finalizer namespace_ name : String) (calls : List KubeCall) : Prop :=
  ∃ object rest, calls = ⟨.get k namespace_ name,.ok object⟩ :: rest ∧ (meta_ object).deletionTimestamp.isSome ∧
    finalizer ∈ (meta_ object).finalizers ∧ ∀ sent stored, (⟨.update k sent,.ok stored⟩ : KubeCall) ∉ rest

section Applications
variable {k : Kind} (r : Reconciler k)

/-- The pass read the model and leaves the application waiting for it. -/
def LeftLoading (namespace_ name : String) (calls : List KubeCall) : Prop :=
  ∃ app rest after, calls = ⟨.get k namespace_ name,.ok app⟩ :: rest ∧ ⟨.updateStatus k after,.ok ()⟩ ∈ rest ∧
    (r.progress after).phase = some .loading ∧ Progress.check (r.progress after) .loaded = false ∧
    ∃ namespace_ name model, ⟨.get .model namespace_ name,.ok model⟩ ∈ rest

/-- The pass read a model that is neither ready nor failed, for an application that has not
    seen it ready, and its status was accepted. -/
def WaitsForModel (namespace_ name : String) (calls : List KubeCall) : Prop :=
  ∃ app rest after, calls = ⟨.get k namespace_ name,.ok app⟩ :: rest ∧ ⟨.updateStatus k after,.ok ()⟩ ∈ rest ∧
    Progress.check (r.progress app) .loaded = false ∧
    ∃ namespace_ name model, ⟨.get .model namespace_ name,.ok model⟩ ∈ rest ∧
      model.status.phase ≠ some .failed ∧ model.status.phase ≠ some .ready

variable {r}

/-! ### Removal -/

variable {calls : List KubeCall} {namespace_ name : String} {model : ArksModel} {after : Object k}

private theorem remove_retried {app : Object k} {outcome : Outcome}
    (deleted : (r.meta_ app).deletionTimestamp.isSome) (run : Runs (r.remove app) calls outcome) :
    Retried outcome ∨ ∃ sent stored, (⟨.update k sent,.ok stored⟩ : KubeCall) ∈ calls := by
  have present : ¬ (r.meta_ app).deletionTimestamp.isNone = true := by
    rw [Option.isNone_iff_eq_none]
    rintro absent
    simp [absent] at deleted
  unfold Reconciler.remove at run
  rw [if_neg present] at run
  obtain ⟨removed,first,rest,rfl,_,later⟩ := runs_bind.mp run
  cases removed with
  | error text =>
    obtain ⟨_,rfl⟩ := runs_ret.mp later
    exact .inl trivial
  | ok =>
    obtain ⟨written,last,rfl,ended⟩ := runs_call.mp later
    cases written with
    | error e =>
      obtain ⟨_,rfl⟩ := runs_ret.mp ended
      exact .inl trivial
    | ok stored => exact .inr ⟨_,stored,by simp⟩

theorem deleting_retried {outcome : Outcome} (run : Runs (r.reconcileRequest namespace_ name) calls outcome)
    (left : LeftDeleting k r.meta_ arksApplicationControllerFinalizer namespace_ name calls) : Retried outcome := by
  obtain ⟨object,rest,rfl,deleted,_,kept⟩ := left
  generalize whole : (⟨.get k namespace_ name,.ok object⟩ :: rest : List KubeCall) = list at run
  cases request_runs run with
  | gone | unread => cases whole
  | removed _ removed =>
    obtain ⟨same,rfl⟩ := List.cons.inj whole
    exact (remove_retried ‹_› removed).resolve_right (fun ⟨sent,stored,is⟩ => kept sent stored is)
  | panicked alive | unwritten _ _ alive | failed alive | done alive =>
    cases (List.cons.inj whole).1
    simp [alive] at deleted

/-! ### Waiting for the model -/

private theorem halted_loaded {s s' : ApplicationProgress} (halted : Halted s s') :
    Progress.check s' .loaded = Progress.check s .loaded := by
  cases halted <;> simp

variable (r) in
/-- A pass that read the model waits for it, or does not leave the application waiting. -/
def Waits (app : Object k) (model : ArksModel) (after : Object k) (outcome : Outcome) : Prop :=
  (Progress.check (r.progress app) .loaded = false ∧ model.status.phase ≠ some .failed ∧ model.status.phase ≠ some .ready ∧
      outcome = .done ⟨false,3⟩ ∧ (r.progress after).phase = some .loading ∧ Progress.check (r.progress after) .loaded = false) ∨
    (¬ (Progress.check (r.progress app) .loaded = false ∧ model.status.phase ≠ some .failed ∧ model.status.phase ≠ some .ready) ∧
      ¬ ((r.progress after).phase = some .loading ∧ Progress.check (r.progress after) .loaded = false))

/-- Copying the state of the children does not touch Loaded. -/
def SyncKeepsLoaded (r : Reconciler k) : Prop :=
  ∀ app, Issues (fun _ => True)
    (fun result => Progress.check (r.progress result.1) .loaded = Progress.check (r.progress app) .loaded) (r.sync app)

theorem waitModel_loaded {app app' : Object k} (goes : r.waitModel app model = .next app') :
    Progress.check (r.progress app') .loaded = true ∧
      ¬ (Progress.check (r.progress app) .loaded = false ∧ model.status.phase ≠ some .failed ∧
        model.status.phase ≠ some .ready) := by
  rcases waitModel_next r goes with ⟨loaded,rfl⟩ | ⟨_,ready,rfl⟩
  · exact ⟨loaded,fun wrong => by simp [loaded] at wrong⟩
  · exact ⟨by simp,fun wrong => wrong.2.2 ready⟩

private theorem serve_waits (tame : Tame r) (keeps : SyncKeepsLoaded r) {app : Object k} {outcome : Outcome}
    (served : Served r app calls (after,outcome))
    (read : (⟨.get .model namespace_ name,.ok model⟩ : KubeCall) ∈ calls) : Waits r app model after outcome := by
  have child : ∀ {calls : List KubeCall}, (∀ call ∈ calls, childKind (kindOf call.1)) →
      (⟨.get .model namespace_ name,.ok model⟩ : KubeCall) ∉ calls := by
    intro calls kinds is
    have kind := kinds _ is
    simp [kindOf,childKind,routerKind] at kind
  cases served with
  | missing | unread => simp at read
  | waiting waits =>
    cases List.mem_singleton.mp read
    obtain ⟨unloaded,⟨failed,_,rfl⟩ | ⟨unfailed,unready,rfl,rfl⟩⟩ := waitModel_stop r waits
    · exact .inr ⟨fun wrong => wrong.2.1 failed,by simp⟩
    · exact .inl ⟨unloaded,unfailed,unready,rfl,by simp,by simpa using unloaded⟩
  | stopped waits announces =>
    rcases List.mem_cons.mp read with same | is
    · cases same
      obtain ⟨loaded,not_waiting⟩ := waitModel_loaded waits
      refine .inr ⟨not_waiting,fun wrong => ?_⟩
      cases announce_runs r announces with
      | stopped _ starts =>
        have kept := halted_loaded (runs_within (tame.start _ _) starts).2.1
        rw [kept] at wrong
        simp [loaded] at wrong
    · exact absurd is (child (announce_kinds tame announces))
  | synced waits announces synced =>
    rcases List.mem_cons.mp read with same | is
    · cases same
      obtain ⟨loaded,not_waiting⟩ := waitModel_loaded waits
      refine .inr ⟨not_waiting,fun wrong => ?_⟩
      have synced := (runs_within (keeps _) synced).2
      rw [synced] at wrong
      cases announce_runs r announces with
      | already => simp [loaded] at wrong
      | started _ starts =>
        have kept := (runs_within (tame.start _ _) starts).2.1
        simp [kept,loaded] at wrong
    · rcases List.mem_append.mp is with is | is
      · exact absurd is (child (announce_kinds tame announces))
      · exact absurd is (child (runs_within (tame.sync _) synced).1)

theorem reconcile_waits (tame : Tame r) (keeps : SyncKeepsLoaded r) {app : Object k}
    {outcome : Outcome} (run : Runs (r.reconcile app) calls (after,outcome))
    (read : (⟨.get .model namespace_ name,.ok model⟩ : KubeCall) ∈ calls) : Waits r app model after outcome := by
  cases reconcile_runs r run with
  | deleting | failed | refused | unfinalized | finalized => simp at read
  | served _ _ checked served =>
    have loaded : _ = Progress.check (r.progress (r.initialized app)) .loaded := precheck_check r (by decide) checked
    rw [show Progress.check (r.progress (r.initialized app)) .loaded = Progress.check (r.progress app) .loaded by
      simp [Reconciler.initialized]] at loaded
    have waits := serve_waits tame keeps served read
    simp only [Flow.object] at loaded
    simpa only [Waits,loaded] using waits

/-- A pass writes the status after it has dealt with the children and the model. -/
theorem not_status (tame : Tame r) {o : Object k} {reply : KubeReply (.updateStatus k o)}
    (kinds : ∀ call ∈ calls, (∃ o, call.1 = .update k o) ∨ kindOf call.1 = .model ∨ childKind (kindOf call.1)) :
    (⟨.updateStatus k o,reply⟩ : KubeCall) ∉ calls := by
  intro is
  rcases kinds _ is with ⟨_,wrong⟩ | wrong | wrong
  · cases wrong
  · exact tame.model wrong
  · exact tame.own wrong

/-- The one status a pass writes is the one it ends with. -/
theorem last_status (tame : Tame r) {app o : Object k} {outcome : Outcome}
    (reconciled : Runs (r.reconcile app) calls (o,outcome))
    (written : ⟨.updateStatus k after,.ok ()⟩ ∈ calls ++ [⟨.updateStatus k o,.ok ()⟩]) : after = o := by
  rcases List.mem_append.mp written with is | is
  · exact absurd is (not_status tame (reconcile_calls tame reconciled))
  · cases List.mem_singleton.mp is
    rfl

theorem read_before {o : Object k} {ns n : String}
    (read : (⟨.get .model ns n,.ok model⟩ : KubeCall) ∈ calls ++ [⟨.updateStatus k o,.ok ()⟩]) :
    (⟨.get .model ns n,.ok model⟩ : KubeCall) ∈ calls := by
  rcases List.mem_append.mp read with is | wrong
  · exact is
  · cases List.mem_singleton.mp wrong

/-- What the pass over a request makes of the wait. -/
theorem request_waits (tame : Tame r) (keeps : SyncKeepsLoaded r) {app : Object k} {rest : List KubeCall} {outcome : Outcome}
    (run : Runs (r.reconcileRequest namespace_ name) (⟨.get k namespace_ name,.ok app⟩ :: rest) outcome)
    (written : ⟨.updateStatus k after,.ok ()⟩ ∈ rest) {ns n : String}
    (read : (⟨.get .model ns n,.ok model⟩ : KubeCall) ∈ rest) :
    ∃ ended, Waits r app model after ended ∧ ∀ result, ended = .done result → outcome = .done (r.finish result) := by
  generalize whole : (⟨.get k namespace_ name,.ok app⟩ :: rest : List KubeCall) = list at run
  cases request_runs run with
  | gone | unread => cases whole
  | removed _ removed =>
    obtain ⟨_,rfl⟩ := List.cons.inj whole
    exact absurd written (not_status tame fun call is => (remove_calls tame removed call is).imp id .inr)
  | panicked _ reconciled =>
    obtain ⟨_,rfl⟩ := List.cons.inj whole
    exact absurd written (not_status tame (reconcile_calls tame reconciled))
  | unwritten _ _ _ reconciled =>
    obtain ⟨_,rfl⟩ := List.cons.inj whole
    rcases List.mem_append.mp written with is | is
    · exact absurd is (not_status tame (reconcile_calls tame reconciled))
    · cases List.mem_singleton.mp is
  | failed _ reconciled =>
    obtain ⟨same,rfl⟩ := List.cons.inj whole
    cases same
    cases last_status tame reconciled written
    have earlier := read_before read
    exact ⟨_,reconcile_waits tame keeps reconciled earlier,fun _ same => by cases same⟩
  | done _ reconciled =>
    obtain ⟨same,rfl⟩ := List.cons.inj whole
    cases same
    cases last_status tame reconciled written
    have earlier := read_before read
    exact ⟨_,reconcile_waits tame keeps reconciled earlier,fun _ same => by cases same; rfl⟩

theorem left_waits (tame : Tame r) (keeps : SyncKeepsLoaded r) {outcome : Outcome}
    (run : Runs (r.reconcileRequest namespace_ name) calls outcome) (left : LeftLoading r namespace_ name calls) :
    outcome = .done (r.finish ⟨false,3⟩) ∧ WaitsForModel r namespace_ name calls := by
  obtain ⟨app,rest,after,rfl,written,loading,unloaded,ns,n,model,read⟩ := left
  obtain ⟨ended,waits,finished⟩ := request_waits tame keeps run written read
  rcases waits with ⟨unseen,unfailed,unready,same,_⟩ | ⟨_,not_left⟩
  · exact ⟨finished _ same,app,rest,after,rfl,written,unseen,ns,n,model,read,unfailed,unready⟩
  · exact absurd ⟨loading,unloaded⟩ not_left

private theorem waits_left (tame : Tame r) (keeps : SyncKeepsLoaded r) {outcome : Outcome}
    (run : Runs (r.reconcileRequest namespace_ name) calls outcome) (waits : WaitsForModel r namespace_ name calls) :
    outcome = .done (r.finish ⟨false,3⟩) ∧ LeftLoading r namespace_ name calls := by
  obtain ⟨app,rest,after,rfl,written,unseen,ns,n,model,read,unfailed,unready⟩ := waits
  obtain ⟨ended,waits,finished⟩ := request_waits tame keeps run written read
  rcases waits with ⟨_,_,_,same,loading,unloaded⟩ | ⟨not_waiting,_⟩
  · exact ⟨finished _ same,app,rest,after,rfl,written,loading,unloaded,ns,n,model,read⟩
  · exact absurd ⟨unseen,unfailed,unready⟩ not_waiting

end Applications

/-! ### The applications -/

private theorem syncKeepsLoaded_plain (p : Platform) : SyncKeepsLoaded (arksApplicationReconciler p) := by
  intro app
  show Within _ _ _ (syncApplication app)
  simp only [syncApplication,issue_bind,within_call]
  refine ⟨trivial,fun read _ => ?_⟩
  rcases read with (_ | _ | _) | _
  · show Progress.check (applicationFields.progress (applicationFields.revise app _)) .loaded = _
    simp
    rfl
  all_goals rfl

section Disaggregated
open Applications.Disaggregated

theorem loaded_missing (app : ArksDisaggregatedApplication) (child : String) :
    Progress.check (fields.progress (missing app child)) .loaded = Progress.check (fields.progress app) .loaded := by
  simp [missing]

theorem syncKeepsLoaded_disaggregated (p : Platform) : SyncKeepsLoaded (arksDisaggregatedApplicationReconciler p) := by
  intro app
  have workload : ∀ role app, Issues (fun _ => True)
      (fun flow : Flow ArksDisaggregatedApplication =>
        Progress.check (fields.progress flow.object) .loaded = Progress.check (fields.progress app) .loaded)
      (syncWorkload role app) := by
    intro role app
    have recorded : ∀ status, fields.progress (Role.record status app role) = fields.progress app := by
      intro _
      cases role <;> rfl
    simp only [syncWorkload,issue_bind,within_call]
    refine ⟨trivial,fun read _ => ?_⟩
    rcases read with (_ | _ | _) | lws
    · exact loaded_missing app _
    · rfl
    · rfl
    · simp only
      split
      · exact ⟨trivial,fun _ _ => by simp [Flow.object,recorded]⟩
      · simp [Flow.object,recorded]
  have router : ∀ app, Issues (fun _ => True)
      (fun result : ArksDisaggregatedApplication × Outcome =>
        Progress.check (fields.progress result.1) .loaded = Progress.check (fields.progress app) .loaded)
      (syncRouter app) := by
    intro app
    simp only [syncRouter,issue_bind,within_call]
    refine ⟨trivial,fun read _ => ?_⟩
    rcases read with (_ | _ | _) | deployment
    · exact loaded_missing app _
    · rfl
    · rfl
    · simp only
      split
      · refine ⟨trivial,fun written _ => ?_⟩
        cases written <;> rfl
      · rfl
  refine within_bind (workload .prefill app) (fun flow kept => ?_)
  cases flow with
  | stop => exact kept
  | next app₁ =>
    refine within_bind (workload .decode app₁) (fun flow kept₁ => ?_)
    cases flow with
    | stop => exact kept₁.trans kept
    | next app₂ => exact within_mono (router app₂) (fun _ is => is) (fun _ kept₂ => kept₂.trans (kept₁.trans kept))

end Disaggregated

/-! ### The models -/

section Models
variable {p : Platform} {model : ArksModel} {namespace_ name : String} {calls : List KubeCall} {outcome : Outcome}

/-- The model is deleted with its finalizer on, and its worker pod cannot be deleted. -/
def WorkerKept (namespace_ name : String) (calls : List KubeCall) : Prop :=
  ∃ (model : ArksModel) (rest : List KubeCall) (e : ApiErr), calls = ⟨.get .model namespace_ name,.ok model⟩ :: rest ∧
    model.deletionTimestamp.isSome ∧ Models.arksModelControllerFinalizer ∈ model.finalizers ∧
    ⟨.delete .pod model.namespace_ (Models.generateWorkerPodName model),.error e⟩ ∈ rest ∧ ∀ message, e ≠ .notFound message

theorem release_runs (run : Runs (Models.release model) calls outcome) :
    (∀ call ∈ calls, kindOf call.1 = .model) ∧
    (Retried outcome ∨ ∃ sent stored, (⟨.update .model sent,.ok stored⟩ : KubeCall) ∈ calls) := by
  obtain ⟨written,last,rfl,ended⟩ := runs_call.mp run
  cases written with
  | error e =>
    obtain ⟨rfl,rfl⟩ := runs_ret.mp ended
    exact ⟨by simp [kindOf],.inl trivial⟩
  | ok stored =>
    obtain ⟨rfl,rfl⟩ := runs_ret.mp ended
    exact ⟨by simp [kindOf],.inr ⟨_,stored,by simp⟩⟩

/-- The runs of `remove` for a model that is being deleted. -/
theorem remove_runs (deleted : model.deletionTimestamp.isSome) (run : Runs (Models.remove model) calls outcome) :
    (∃ e, calls = [⟨.delete .pod model.namespace_ (Models.generateWorkerPodName model),.error e⟩] ∧
        (∀ message, e ≠ .notFound message) ∧ outcome = .done .empty) ∨
      ((∀ e, ⟨.delete .pod model.namespace_ (Models.generateWorkerPodName model),.error e⟩ ∈ calls →
        ∃ message, e = .notFound message) ∧
        (Retried outcome ∨ ∃ sent stored, (⟨.update .model sent,.ok stored⟩ : KubeCall) ∈ calls)) := by
  have present : ¬ model.deletionTimestamp.isNone = true := by
    rw [Option.isNone_iff_eq_none]
    rintro absent
    simp [absent] at deleted
  have no_pod : ∀ {calls : List KubeCall} {e : ApiErr}, (∀ call ∈ calls, kindOf call.1 = .model) →
      ⟨.delete .pod model.namespace_ (Models.generateWorkerPodName model),.error e⟩ ∉ calls := by
    intro calls e kinds is
    cases kinds _ is
  unfold Models.remove at run
  rw [if_neg present] at run
  cases hub : model.spec.source.bind ArksModelSource.huggingface with
  | none =>
    rw [hub] at run
    obtain ⟨kinds,ends⟩ := release_runs run
    exact .inr ⟨fun e is => absurd is (no_pod kinds),ends⟩
  | some source =>
    rw [hub] at run
    obtain ⟨removed,rest,rfl,later⟩ := runs_call.mp run
    have released : Runs (Models.release model) rest outcome → (∀ e, removed = .error e → ∃ message, e = .notFound message) →
        ((∀ e, ⟨.delete .pod model.namespace_ (Models.generateWorkerPodName model),.error e⟩ ∈
            (⟨.delete .pod model.namespace_ (Models.generateWorkerPodName model),removed⟩ :: rest : List KubeCall) →
            ∃ message, e = .notFound message) ∧
          (Retried outcome ∨ ∃ sent stored, (⟨.update .model sent,.ok stored⟩ : KubeCall) ∈
            (⟨.delete .pod model.namespace_ (Models.generateWorkerPodName model),removed⟩ :: rest : List KubeCall))) := by
      intro run told
      obtain ⟨kinds,ends⟩ := release_runs run
      refine ⟨fun e is => ?_,ends.imp id (fun ⟨sent,stored,is⟩ => ⟨sent,stored,by simp [is]⟩)⟩
      rcases List.mem_cons.mp is with same | is
      · cases same
        exact told e rfl
      · exact absurd is (no_pod kinds)
    rcases removed with (message | message | message) | _
    · exact .inr (released later (fun e same => by cases same; exact ⟨message,rfl⟩))
    · obtain ⟨rfl,rfl⟩ := runs_ret.mp later
      exact .inl ⟨_,rfl,by simp,rfl⟩
    · obtain ⟨rfl,rfl⟩ := runs_ret.mp later
      exact .inl ⟨_,rfl,by simp,rfl⟩
    · exact .inr (released later (fun e same => by cases same))

private theorem model_retried_iff (run : Runs (Models.reconcileRequest p namespace_ name) calls outcome) :
    (LeftDeleting .model ArksModel.toObjectMeta Models.arksModelControllerFinalizer namespace_ name calls → Retried outcome) ↔
      ¬ WorkerKept namespace_ name calls := by
  have removing : ∀ {model : ArksModel} {rest : List KubeCall}, calls = ⟨.get .model namespace_ name,.ok model⟩ :: rest →
      model.deletionTimestamp.isSome → Runs (Models.remove model) rest outcome := by
    rintro model rest rfl deleted
    generalize whole : (⟨.get .model namespace_ name,.ok model⟩ :: rest : List KubeCall) = list at run
    cases request_runs run with
    | gone | unread => cases whole
    | removed _ removed =>
      obtain ⟨same,rfl⟩ := List.cons.inj whole
      cases same
      exact removed
    | panicked alive | unwritten _ _ alive | failed alive | done alive =>
      cases (List.cons.inj whole).1
      simp [alive] at deleted
  constructor
  · rintro retried ⟨model,rest,e,rfl,deleted,carries,is,other⟩
    rcases remove_runs deleted (removing rfl deleted) with ⟨_,rfl,_,rfl⟩ | ⟨told,_⟩
    · have wrong := retried ⟨model,_,rfl,deleted,carries,by simp⟩
      simp [Retried,Result.empty] at wrong
    · obtain ⟨message,same⟩ := told e is
      exact other message same
  · rintro deletable ⟨model,rest,rfl,deleted,carries,kept⟩
    rcases remove_runs deleted (removing rfl deleted) with ⟨e,rfl,other,_⟩ | ⟨_,ends⟩
    · exact absurd ⟨model,_,e,rfl,deleted,carries,by simp,other⟩ deletable
    · exact ends.resolve_right (fun ⟨sent,stored,is⟩ => kept sent stored is)

end Models

/-! ### No retry is lost -/

/-- Work is left that no event brings back. -/
def Left {k : Kind} (r : Reconciler k) (namespace_ name : String) (calls : List KubeCall) : Prop :=
  LeftDeleting k r.meta_ arksApplicationControllerFinalizer namespace_ name calls ∨ LeftLoading r namespace_ name calls

/-- A pass that leaves such work asks for another one: always for an `ArksApplication`; for a model if and
    only if its worker pod could be deleted; for a disaggregated application if and only if it does not wait
    for its model. -/
theorem left_work_retried (p : Platform) (namespace_ name : String) (calls : List KubeCall) (outcome : Outcome) :
    (Runs (Models.reconcileRequest p namespace_ name) calls outcome →
      ((LeftDeleting .model ArksModel.toObjectMeta Models.arksModelControllerFinalizer namespace_ name calls → Retried outcome) ↔
        ¬ WorkerKept namespace_ name calls)) ∧
    (Runs ((arksApplicationReconciler p).reconcileRequest namespace_ name) calls outcome →
      Left (arksApplicationReconciler p) namespace_ name calls → Retried outcome) ∧
    (Runs ((arksDisaggregatedApplicationReconciler p).reconcileRequest namespace_ name) calls outcome →
      ((Left (arksDisaggregatedApplicationReconciler p) namespace_ name calls → Retried outcome) ↔
        ¬ WaitsForModel (arksDisaggregatedApplicationReconciler p) namespace_ name calls)) := by
  refine ⟨model_retried_iff,fun run left => ?_,fun run => ⟨fun retried waits => ?_,fun unwaiting left => ?_⟩⟩
  · rcases left with deleting | loading
    · exact deleting_retried run deleting
    · rw [(left_waits (tame_plain p) (syncKeepsLoaded_plain p) run loading).1]
      exact .inr (show (0 : Int) < 3 by decide)
  · obtain ⟨rfl,loading⟩ := waits_left (tame_disaggregated p) (syncKeepsLoaded_disaggregated p) run waits
    have wrong := retried (.inr loading)
    simp [Retried,arksDisaggregatedApplicationReconciler,Result.empty] at wrong
  · rcases left with deleting | loading
    · exact deleting_retried run deleting
    · exact absurd (left_waits (tame_disaggregated p) (syncKeepsLoaded_disaggregated p) run loading).2 unwaiting

/-- The model is being deleted, and its pod cannot be. -/
def podStuck : (op : KubeOp) → KubeReply op
  | .get .model _ _ => .ok (Models.hubModel (some 0) ⟨none,[]⟩)
  | _ => .error (.other "etcdserver: request timed out")

/-- The application waits for a model that is being downloaded. -/
def modelLoading : (op : KubeOp) → KubeReply op
  | .get .disaggregated _ _ => .ok (llmDisaggregated (progressOf .loading .isTrue .isFalse .isFalse))
  | .get .model _ _ => .ok (chatModel .modelLoading)
  | .updateStatus _ _ => .ok ()
  | _ => .error (.other "")

/-- Both ways to lose a retry: the deletion of a model, and the wait for one. -/
theorem retries_lost :
    (∃ calls outcome, Runs (Models.reconcileRequest ⟨fun _ => "",id⟩ "team-a" "chat") calls outcome ∧
      LeftDeleting .model ArksModel.toObjectMeta Models.arksModelControllerFinalizer "team-a" "chat" calls ∧ ¬ Retried outcome) ∧
    ∃ calls outcome, Runs ((arksDisaggregatedApplicationReconciler ⟨fun _ => "",
      id⟩).reconcileRequest "team-a" "llm") calls outcome ∧
      LeftLoading (arksDisaggregatedApplicationReconciler ⟨fun _ => "",id⟩) "team-a" "llm" calls ∧ ¬ Retried outcome := by
  constructor
  · refine ⟨_,_,runs_replay podStuck _,⟨_,_,rfl,by decide,by decide,fun sent stored is => ?_⟩,by decide⟩
    cases is with
    | tail _ is => cases is
  · refine ⟨_,_,runs_replay modelLoading _,⟨_,_,_,rfl,.tail _ (.head _),by decide,by decide,_,_,_,.head _⟩,by decide⟩

end Arks.Retries
