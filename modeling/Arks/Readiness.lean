import Arks.Passes

/-!
Readiness is announced with the children in place. A pass that sets the condition
Ready has gone through the ladder of every child. All ladders but one end the pass
when the child can neither be read nor created: that of a router's service passes
over a read that failed, so that a disaggregated application can be announced
without a service.
-/
namespace Arks.Readiness
open Programs Programs.Prog Api Kube Controllers Workloads Applications Passes
open Workloads.Disaggregated (Role)
open Applications.Disaggregated (prefillName decodeName routerName lwsName)

/-! ### What seeing to the children leaves -/

section Skeleton
variable {k : Kind} (r : Reconciler k)

/-- A pass sets Ready: the condition was not true and is true in the status that is left. -/
def SetsReady (before after : Object k) : Prop :=
  Progress.check (r.progress before) .ready = false ∧ Progress.check (r.progress after) .ready = true

/-- An accepted update of the application returns the status that was read: it touches
    no status, and it is refused when the object is no longer what was read. -/
def StatusKept (app : Object k) (calls : List KubeCall) : Prop :=
  ∀ o stored, ⟨.update k o,.ok stored⟩ ∈ calls → r.progress stored = r.progress app

variable {r}

theorem precheck_meta {app app' : Object k} (goes : r.precheck app = .next app') : r.meta_ app' = r.meta_ app := by
  rcases precheck_next r goes with ⟨_,rfl⟩ | ⟨_,_,rfl⟩ <;> simp

theorem waitModel_meta {app app' : Object k} {model : ArksModel} (goes : r.waitModel app model = .next app') :
    r.meta_ app' = r.meta_ app := by
  rcases waitModel_next r goes with ⟨_,rfl⟩ | ⟨_,_,rfl⟩ <;> simp

/-- The application once it is announced. -/
def announced (r : Fields k) (app : Object k) : Object k :=
  r.revise app (fun s => Progress.update (Progress.setPhase s .running) .ready .isTrue "Running" "The LLM service is running")

variable (r) in
/-- A pass by how far it gets: it leaves the condition alone before it sees to the
    children, finds the application ready, or sees to the children. -/
inductive Course (app : Object k) : List KubeCall → Object k × Outcome → Prop
  | ended {calls : List KubeCall} {after : Object k} {outcome : Outcome} :
      Progress.check (r.progress after) .ready = Progress.check (r.progress app) .ready →
      (∀ call ∈ calls, kindOf call.1 = k ∨ kindOf call.1 = .model) → Course app calls (after,outcome)
  | resynced {app₁ : Object k} {call : KubeCall} {rest : List KubeCall} {result : Object k × Outcome} :
      Progress.check (r.progress app) .ready = true → kindOf call.1 = .model → Runs (r.sync app₁) rest result →
      Course app (call :: rest) result
  | halted {app₁ after : Object k} {model : ArksModel} {outcome : Outcome} {call : KubeCall} {during : List KubeCall} :
      Progress.check (r.progress app) .ready = false → kindOf call.1 = .model →
      r.meta_ app₁ = r.meta_ app → Progress.check (r.progress app₁) .ready = false →
      Runs (r.start app₁ model) during (.stop after outcome) → Course app (call :: during) (after,outcome)
  | launched {app₁ app₂ : Object k} {model : ArksModel} {call : KubeCall} {during rest : List KubeCall}
      {result : Object k × Outcome} :
      Progress.check (r.progress app) .ready = false → kindOf call.1 = .model → r.meta_ app₁ = r.meta_ app →
      Runs (r.start app₁ model) during (.next app₂) → Runs (r.sync (announced r.toFields app₂)) rest result →
      Course app (call :: (during ++ rest)) result

private theorem serve_course {app app₀ : Object k} {calls : List KubeCall} {result : Object k × Outcome}
    (same : Progress.check (r.progress app₀) .ready = Progress.check (r.progress app) .ready)
    (meta_ : r.meta_ app₀ = r.meta_ app) (served : Served r app₀ calls result) : Course r app calls result := by
  cases served with
  | missing => exact .ended (by simp [same]) (by simp [kindOf])
  | unread => exact .ended same (by simp [kindOf])
  | waiting waits => exact .ended ((waitModel_check r (by decide) waits).trans same) (by simp [kindOf])
  | stopped waits announces =>
    have kept := (waitModel_check r (by decide) waits).trans same
    have place := (waitModel_meta waits).trans meta_
    cases announce_runs r announces with
    | stopped unready starts =>
      exact .halted (kept.symm.trans unready) rfl (by simpa using place) (by simpa using unready) starts
  | synced waits announces synced =>
    have kept := (waitModel_check r (by decide) waits).trans same
    have place := (waitModel_meta waits).trans meta_
    cases announce_runs r announces with
    | already ready => exact .resynced (kept.symm.trans ready) rfl synced
    | started unready starts => exact .launched (kept.symm.trans unready) rfl (by simpa using place) starts synced

theorem course {app : Object k} {calls : List KubeCall} {result : Object k × Outcome}
    (run : Runs (r.reconcile app) calls result) (kept : StatusKept r app calls) : Course r app calls result := by
  cases reconcile_runs r run with
  | deleting | failed => exact .ended rfl (by simp)
  | unfinalized => exact .ended (by simp [finalizing,Reconciler.initialized]) (by simp [kindOf])
  | finalized stored =>
    have same := kept (finalizing r app) stored (by simp)
    exact .ended (by rw [same]) (by simp [kindOf])
  | refused _ _ checked => exact .ended ((precheck_check r (by decide) checked).trans (by simp [Reconciler.initialized])) (by simp)
  | served _ _ checked served =>
    exact serve_course ((precheck_check r (by decide) checked).trans (by simp [Reconciler.initialized]))
      ((precheck_meta checked).trans (by simp [Reconciler.initialized])) served

end Skeleton

/-! ### `ArksApplication` -/

section Plain
variable {p : Platform} {app app' : ArksApplication} {model : ArksModel} {calls : List KubeCall}

theorem generateLws_key {lws : LeaderWorkerSet} (generated : generateLws p app model = .object lws) :
    key .lws lws = (app.namespace_.val,app.name.val) := by
  simp only [generateLws,generated_bind,generated_pure] at generated
  obtain ⟨_,_,_,_,_,_,_,_,rfl⟩ := generated
  rfl

/-- Only a child that is in place lets the pass go on. -/
theorem afterWorkload_next {k : Kind} {r : Fields k} {app app' : Object k} {what noun : String} {ensured : Ensured}
    (goes : r.afterWorkload app what noun ensured = .next app') : (∃ b, ensured = .present b) ∧ app' = app := by
  cases ensured with
  | present b => cases goes; exact ⟨⟨b,rfl⟩,rfl⟩
  | panicked | generateFailed | createFailed | checkFailed => cases goes

theorem startApplication_next (run : Runs (startApplication p app model) calls (.next app')) :
    InPlace .lws app.namespace_ app.name calls ∧ InPlace .service app.namespace_ (generateApplicationServiceName app) calls := by
  obtain ⟨lws,first,rest,rfl,ensured,later⟩ := runs_bind.mp run
  have ladder := ensure_runs ensured
  cases goes : applicationFields.afterWorkload app "" "LWS" lws with
  | stop app₁ outcome =>
    rw [goes] at later
    cases later
  | next app₁ =>
    rw [goes] at later
    obtain ⟨⟨b,rfl⟩,rfl⟩ := afterWorkload_next goes
    obtain ⟨service,second,last,rfl,ensured,later⟩ := runs_bind.mp later
    obtain ⟨rfl,next⟩ := runs_ret.mp later
    refine ⟨inPlace_mono (by simp; tauto) (ladder_present ?_ ladder),?_⟩
    · intro calls o generated
      obtain ⟨_,same⟩ := runs_ret.mp generated
      exact generateLws_key same.symm
    · rcases ladder_given (ensure_runs ensured) rfl with ⟨b,rfl,placed⟩ | ⟨e,_,rfl,_⟩ | ⟨e,rfl,_⟩
      · exact inPlace_mono (by simp; tauto) placed
      · cases next
      · cases next

private theorem plain_ready {after : ArksApplication} {outcome : Outcome}
    (run : Runs ((arksApplicationReconciler p).reconcile app) calls (after,outcome))
    (kept : StatusKept (arksApplicationReconciler p) app calls) (sets : SetsReady (arksApplicationReconciler p) app after) :
    InPlace .lws app.namespace_ app.name calls ∧ InPlace .service app.namespace_ (generateApplicationServiceName app) calls := by
  cases course run kept with
  | ended same => rw [SetsReady,same,sets.1] at sets; cases sets.2
  | resynced ready => rw [sets.1] at ready; cases ready
  | halted unready _ _ unready₁ starts =>
    have left := halted_ready (runs_within (startApplication_within p _ _) starts).2.1 unready₁
    exact absurd (left.symm.trans sets.2) (by simp)
  | @launched app₁ _ _ _ _ _ _ _ _ meta_ starts =>
    have same : app₁.toObjectMeta = app.toObjectMeta := meta_
    obtain ⟨lws,service⟩ := startApplication_next starts
    rw [generateApplicationServiceName_eq,same] at service
    rw [same] at lws
    exact ⟨inPlace_mono (by simp; tauto) lws,inPlace_mono (by simp; tauto) service⟩

end Plain

/-! ### `ArksDisaggregatedApplication` -/

section Disaggregated
open Applications.Disaggregated
variable {p : Platform} {app app' after : ArksDisaggregatedApplication} {model : ArksModel} {calls : List KubeCall}
  {flow : Flow ArksDisaggregatedApplication} {outcome : Outcome}

theorem generateDisaggregatedLws_namespace {role : Role} {lws : LeaderWorkerSet}
    (generated : Workloads.Disaggregated.generateDisaggregatedLws p app model role = .object lws) :
    lws.namespace_ = app.namespace_ := by
  simp only [Workloads.Disaggregated.generateDisaggregatedLws,generated_bind,generated_pure] at generated
  obtain ⟨_,_,_,_,_,_,_,_,_,_,rfl⟩ := generated
  rfl

theorem startWorkload_next {role : Role} (run : Runs (startWorkload p role app model) calls (.next app')) :
    InPlace .lws app.namespace_ (lwsName role app) calls := by
  obtain ⟨lws,first,rest,rfl,ensured,later⟩ := runs_bind.mp run
  obtain ⟨rfl,next⟩ := runs_ret.mp later
  obtain ⟨⟨b,rfl⟩,_⟩ := afterWorkload_next next.symm
  rw [List.append_nil]
  refine ladder_present ?_ (ensure_runs ensured)
  intro calls o generated
  obtain ⟨_,same⟩ := runs_ret.mp generated
  obtain ⟨lws,made,named⟩ := generated_bind.mp same.symm
  cases generated_pure.mp named
  rw [key,generateDisaggregatedLws_namespace made]

theorem routerDeployment_namespace {account : String} {deploy : Deployment}
    (generated : Workloads.Disaggregated.routerDeployment p app account = .object deploy) :
    deploy.namespace_ = app.namespace_ := by
  simp only [Workloads.Disaggregated.routerDeployment,generated_bind,generated_pure] at generated
  obtain ⟨_,_,_,_,rfl⟩ := generated
  rfl

theorem generateRouterDeployment_namespace {deploy : Deployment}
    (run : Runs (Workloads.Disaggregated.generateRouterDeployment p app) calls (.object deploy)) :
    deploy.namespace_ = app.namespace_ := by
  unfold Workloads.Disaggregated.generateRouterDeployment at run
  split at run
  · obtain ⟨made,first,rest,rfl,_,later⟩ := runs_bind.mp run
    cases made with
    | error => cases later
    | ok account => exact routerDeployment_namespace (runs_ret.mp later).2.symm
  · exact routerDeployment_namespace (runs_ret.mp run).2.symm

private theorem startRouter_next (run : Runs (startRouter p app) calls (.next app')) :
    InPlace .deployment app.namespace_ (routerName app) calls := by
  obtain ⟨deploy,first,rest,rfl,ensured,later⟩ := runs_bind.mp run
  obtain ⟨rfl,next⟩ := runs_ret.mp later
  obtain ⟨⟨b,rfl⟩,_⟩ := afterWorkload_next next.symm
  rw [List.append_nil]
  refine ladder_present ?_ (ensure_runs ensured)
  intro calls o generated
  obtain ⟨made,first,rest,rfl,generates,later⟩ := runs_bind.mp generated
  obtain ⟨deploy,same,named⟩ := generated_bind.mp (runs_ret.mp later).2.symm
  cases generated_pure.mp named
  subst same
  rw [key,generateRouterDeployment_namespace generates]

/-- The children of a pass other than the service. -/
def Placed (app : ArksDisaggregatedApplication) (calls : List KubeCall) : Prop :=
  InPlace .lws app.namespace_ (prefillName app) calls ∧ InPlace .lws app.namespace_ (decodeName app) calls ∧
    InPlace .deployment app.namespace_ (routerName app) calls

private theorem placed_mono {more : List KubeCall} (all : ∀ call ∈ calls, call ∈ more) (placed : Placed app calls) :
    Placed app more :=
  ⟨inPlace_mono all placed.1,inPlace_mono all placed.2.1,inPlace_mono all placed.2.2⟩

theorem startWorkload_aside {role : Role} (run : Runs (startWorkload p role app model) calls flow) :
    ∀ call ∈ calls, kindOf call.1 ≠ .service := by
  intro call is
  rw [(runs_within (startWorkload_within p app model role) run).1 call is]
  simp

private theorem startRouter_aside (run : Runs (startRouter p app) calls flow) : ∀ call ∈ calls, kindOf call.1 ≠ .service := by
  intro call is same
  have kind := (runs_within (startRouter_within p app) run).1 call is
  rw [same] at kind
  exact kind

/-- The service comes last. -/
theorem start_runs (run : Runs (start p app model) calls flow) :
    ((∀ call ∈ calls, kindOf call.1 ≠ .service) ∧ ∃ app' outcome, flow = .stop app' outcome) ∨
      ∃ first last app₁, calls = first ++ last ∧ (∀ call ∈ first, kindOf call.1 ≠ .service) ∧ Placed app first ∧
        app₁.toObjectMeta = app.toObjectMeta ∧ Runs (startService app₁) last flow := by
  obtain ⟨prefill,calls₁,rest,rfl,run₁,later⟩ := runs_bind.mp run
  have meta₁ := (runs_within (startWorkload_within p (sized app) model .prefill) run₁).2
  cases prefill with
  | stop app' outcome =>
    obtain ⟨rfl,rfl⟩ := runs_ret.mp later
    exact .inl ⟨by simpa using startWorkload_aside run₁,_,_,rfl⟩
  | next app₁ =>
    obtain ⟨decode,calls₂,rest,rfl,run₂,later⟩ := runs_bind.mp later
    have meta₂ := (runs_within (startWorkload_within p app₁ model .decode) run₂).2
    have same₁ : app₁.toObjectMeta = app.toObjectMeta := meta₁.2.trans (sized_meta app)
    cases decode with
    | stop app' outcome =>
      obtain ⟨rfl,rfl⟩ := runs_ret.mp later
      refine .inl ⟨fun call is => ?_,_,_,rfl⟩
      rcases List.mem_append.mp is with is | is
      · exact startWorkload_aside run₁ call is
      · exact startWorkload_aside run₂ call (by simpa using is)
    | next app₂ =>
      obtain ⟨router,calls₃,rest,rfl,run₃,later⟩ := runs_bind.mp later
      have meta₃ := (runs_within (startRouter_within p app₂) run₃).2
      have same₂ : app₂.toObjectMeta = app.toObjectMeta := meta₂.2.trans same₁
      have others : ∀ call ∈ calls₁ ++ (calls₂ ++ calls₃), kindOf call.1 ≠ .service := by
        intro call is
        rcases List.mem_append.mp is with is | is
        · exact startWorkload_aside run₁ call is
        · rcases List.mem_append.mp is with is | is
          · exact startWorkload_aside run₂ call is
          · exact startRouter_aside run₃ call is
      cases router with
      | stop app' outcome =>
        obtain ⟨rfl,rfl⟩ := runs_ret.mp later
        exact .inl ⟨by simpa using others,_,_,rfl⟩
      | next app₃ =>
        refine .inr ⟨calls₁ ++ (calls₂ ++ calls₃),rest,app₃,by simp,others,⟨?_,?_,?_⟩,meta₃.2.trans same₂,later⟩
        · have placed := startWorkload_next run₁
          rw [lwsName,prefillName,sized_meta] at placed
          exact inPlace_mono (by simp; tauto) placed
        · have placed := startWorkload_next run₂
          rw [lwsName,decodeName,same₁] at placed
          exact inPlace_mono (by simp; tauto) placed
        · have placed := startRouter_next run₃
          rw [routerName,same₂] at placed
          exact inPlace_mono (by simp; tauto) placed

/-- A read of a service that fails. -/
def unreadAt (namespace_ name : String) (e : ApiErr) : KubeCall := ⟨.get .service namespace_ name,.error e⟩

/-- A read of the router's service that fails. -/
abbrev unreadService (app : ArksDisaggregatedApplication) (e : ApiErr) : KubeCall :=
  unreadAt app.namespace_ (Workloads.Disaggregated.generateApplicationServiceName app) e

/-- The error of a call. -/
def errorOf (call : KubeCall) : Option ApiErr :=
  match call.2 with
  | .error e => some e
  | .ok _ => none

private theorem unreadService_inj {e e' : ApiErr} (same : unreadService app e = unreadService app' e') : e = e' :=
  Option.some.inj (congrArg errorOf same)

/-- The ladder of the service: a failed read leaves it unknown whether the service is there. -/
theorem startService_runs (run : Runs (startService app) calls flow) :
    (InPlace .service app.namespace_ (Workloads.Disaggregated.generateApplicationServiceName app) calls ∧ flow = .next app ∧
        ∀ e, unreadService app e ∈ calls → ∃ message, e = .notFound message) ∨
      (∃ app' outcome message o e, flow = .stop app' outcome ∧
        calls = [unreadService app (.notFound message),⟨.create .service o,.error e⟩]) ∨
      ∃ e, flow = .next app ∧ (∀ message, e ≠ .notFound message) ∧ calls = [unreadService app e] := by
  obtain ⟨service,first,rest,rfl,ensured,later⟩ := runs_bind.mp run
  obtain ⟨rfl,rfl⟩ := runs_ret.mp later
  have ladder := ensure_runs ensured
  rcases ladder_given ladder rfl with ⟨b,rfl,placed⟩ | ⟨e,message,rfl,rfl⟩ | ⟨e,rfl,other,rfl⟩
  · refine .inl ⟨by simpa using placed,rfl,fun e is => ?_⟩
    rw [List.append_nil] at is
    cases ladder with
    | found o => simp [unreadAt] at is
    | created message generated =>
      rw [(runs_ret.mp generated).1] at is
      exact ⟨message,by simpa [unreadAt] using is⟩
    | existed message _ generated =>
      rw [(runs_ret.mp generated).1] at is
      exact ⟨message,by simpa [unreadAt] using is⟩
  · exact .inr (.inl ⟨_,_,message,_,e,rfl,rfl⟩)
  · exact .inr (.inr ⟨e,rfl,other,rfl⟩)

/-! ### Copying the state of the children

A child that is gone takes Ready back. -/

theorem workloadSynced_ready {role : Role} (synced : WorkloadSynced app role calls flow) :
    Progress.check (fields.progress flow.object) .ready = (Progress.check (fields.progress app) .ready && !calls.any lacking) ∧
      ∀ call ∈ calls, kindOf call.1 = .lws := by
  have recorded : ∀ status, fields.progress (Role.record status app role) =
    fields.progress app := by cases role <;> intro _ <;> rfl
  cases synced with
  | gone => simp [Flow.object,missing,lacking,kindOf]
  | @unread e _ other =>
    cases e with
    | notFound message => exact absurd rfl (other message)
    | alreadyExists | other => simp [Flow.object,lacking,kindOf]
  | settled | adjusted => simp [Flow.object,lacking,kindOf,recorded]

private theorem routerSynced_ready (synced : RouterSynced app calls (after,outcome)) :
    Progress.check (fields.progress after) .ready = (Progress.check (fields.progress app) .ready && !calls.any lacking) ∧
      ∀ call ∈ calls, kindOf call.1 = .deployment := by
  have recorded : ∀ status, fields.progress (recordRouter app status) = fields.progress app := fun _ => rfl
  cases synced with
  | gone => simp [missing,lacking,kindOf]
  | @unread e _ other =>
    cases e with
    | notFound message => exact absurd rfl (other message)
    | alreadyExists | other => simp [lacking,kindOf]
  | settled | adjusted | unadjusted => simp [lacking,kindOf,recorded]

theorem sync_ready (run : Runs (sync app) calls (after,outcome)) :
    Progress.check (fields.progress after) .ready = (Progress.check (fields.progress app) .ready && !calls.any lacking) ∧
      ∀ call ∈ calls, kindOf call.1 ≠ .service := by
  rcases sync_runs run with ⟨app₁,prefill,rfl⟩ | ⟨app₁,app₂,first,second,rfl,prefill,decode,rfl⟩ |
    ⟨app₁,app₂,first,second,last,rfl,prefill,decode,router⟩
  · obtain ⟨ready,kinds⟩ := workloadSynced_ready prefill
    exact ⟨ready,fun call is => by rw [kinds call is]; simp⟩
  · obtain ⟨ready₁,kinds₁⟩ := workloadSynced_ready prefill
    obtain ⟨ready₂,kinds₂⟩ := workloadSynced_ready decode
    refine ⟨?_,fun call is => ?_⟩
    · simp only [Flow.object] at ready₁ ready₂
      rw [ready₂,ready₁]
      simp [Bool.and_assoc]
    · rcases List.mem_append.mp is with is | is
      · rw [kinds₁ call is]; simp
      · rw [kinds₂ call is]; simp
  · obtain ⟨ready₁,kinds₁⟩ := workloadSynced_ready prefill
    obtain ⟨ready₂,kinds₂⟩ := workloadSynced_ready decode
    obtain ⟨ready₃,kinds₃⟩ := routerSynced_ready router
    refine ⟨?_,fun call is => ?_⟩
    · simp only [Flow.object] at ready₁ ready₂
      rw [ready₃,ready₂,ready₁]
      simp [Bool.and_assoc]
    · rcases List.mem_append.mp is with is | is
      · rw [kinds₁ call is]; simp
      · rcases List.mem_append.mp is with is | is
        · rw [kinds₂ call is]; simp
        · rw [kinds₃ call is]; simp

/-- No read of the router's service failed otherwise than by not finding it, unless a
    child was gone when its state was copied. -/
def ServiceRead (app : ArksDisaggregatedApplication) (calls : List KubeCall) : Prop :=
  ∀ earlier later e, calls = earlier ++ unreadService app e :: later →
    (∃ message, e = .notFound message) ∨ later.any lacking = true

/-- The one call of its kind is where a list with such a call splits. -/
theorem split_once {P : KubeCall → Prop} {first last earlier later : List KubeCall} {a b : KubeCall}
    (before : ∀ call ∈ first, ¬ P call) (behind : ∀ call ∈ last, ¬ P call) (here : P a)
    (same : first ++ b :: last = earlier ++ a :: later) : a = b ∧ later = last := by
  induction first generalizing earlier with
  | nil =>
    cases earlier with
    | nil => cases same; exact ⟨rfl,rfl⟩
    | cons call earlier =>
      cases same
      exact absurd here (behind a (by simp))
  | cons call first ih =>
    cases earlier with
    | nil =>
      cases same
      exact absurd here (before a (by simp))
    | cons call' earlier =>
      exact ih (fun call is => before call (by simp [is])) (List.cons.inj same).2

/-- A call about the service stands in every list in which the service is in place. -/
theorem inPlace_kind {k : Kind} {namespace_ name : String} (placed : InPlace k namespace_ name calls) :
    ∃ call ∈ calls, kindOf call.1 = k ∧ (∀ e, call ≠ ⟨.get k namespace_ name,.error e⟩) ∧
      ∀ message, errorOf call ≠ some (.other message) := by
  rcases placed with ⟨o,found⟩ | ⟨o,_,created | ⟨text,existed⟩⟩
  · exact ⟨_,found,rfl,by simp,by simp [errorOf]⟩
  · exact ⟨_,created,rfl,by simp,by simp [errorOf]⟩
  · exact ⟨_,existed,rfl,by simp,by simp [errorOf]⟩

theorem serviceRead_of_found (found : ∀ e, unreadService app e ∈ calls → ∃ message, e = .notFound message) :
    ServiceRead app calls :=
  fun _ _ e split => .inl (found e (by simp [split]))

theorem serviceRead_aside (others : ∀ call ∈ calls, kindOf call.1 ≠ .service) : ServiceRead app calls :=
  serviceRead_of_found (fun _ is => absurd rfl (others _ is))

section Unread
variable {first last : List KubeCall} {e : ApiErr} (before : ∀ call ∈ first, kindOf call.1 ≠ .service)
  (behind : ∀ call ∈ last, kindOf call.1 ≠ .service)
include before behind

/-- A service of which only a failed read is known is not in place. -/
theorem unread_absent : ¬ InPlace .service app.namespace_ (Workloads.Disaggregated.generateApplicationServiceName app)
    (first ++ unreadService app e :: last) := by
  intro service
  obtain ⟨call,is,about,differs,_⟩ := inPlace_kind service
  rcases List.mem_append.mp is with is | is
  · exact before _ is about
  · rcases List.mem_cons.mp is with rfl | is
    · exact differs e rfl
    · exact behind _ is about

private theorem serviceRead_unread (other : ∀ message, e ≠ .notFound message) :
    ServiceRead app (first ++ unreadService app e :: last) ↔ last.any lacking = true := by
  constructor
  · intro read
    rcases read first last e rfl with ⟨message,same⟩ | gone
    · exact absurd same (other message)
    · exact gone
  · intro gone earlier later e' split
    obtain ⟨_,rfl⟩ := split_once (P := fun call => kindOf call.1 = .service) before behind rfl split
    exact .inr gone

end Unread

private theorem disaggregated_ready_iff
    (run : Runs ((arksDisaggregatedApplicationReconciler p).reconcile app) calls (after,outcome))
    (kept : StatusKept (arksDisaggregatedApplicationReconciler p) app calls) :
    (SetsReady (arksDisaggregatedApplicationReconciler p) app after → Placed app calls ∧
      InPlace .service app.namespace_ (Workloads.Disaggregated.generateApplicationServiceName app) calls) ↔
    ServiceRead app calls := by
  cases course run kept with
  | ended same kinds =>
    refine iff_of_true (fun sets => ?_) (serviceRead_aside fun call is => ?_)
    · rw [SetsReady,same,sets.1] at sets
      cases sets.2
    · rcases kinds call is with kind | kind <;> rw [kind] <;> simp
  | resynced ready kind synced =>
    refine iff_of_true (fun sets => ?_) (serviceRead_aside ?_)
    · rw [sets.1] at ready
      cases ready
    · exact List.forall_mem_cons.mpr ⟨by rw [kind]; simp,(sync_ready synced).2⟩
  | @halted app₁ _ model _ call during unready kind meta_ unready₁ starts =>
    have left := halted_ready (runs_within (start_within p _ _) starts).2.1 unready₁
    refine iff_of_true (fun sets => absurd (left.symm.trans sets.2) (by simp)) ?_
    rcases start_runs starts with ⟨others,_⟩ | ⟨first,last,app₂,rfl,others,_,_,service⟩
    · exact serviceRead_aside (List.forall_mem_cons.mpr ⟨by rw [kind]; simp,others⟩)
    · rcases startService_runs service with ⟨_,wrong,_⟩ | ⟨_,_,message,o,e,_,rfl⟩ | ⟨_,wrong,_⟩
      · cases wrong
      · refine serviceRead_of_found (fun e' member => ?_)
        simp only [List.mem_cons,List.mem_append,List.not_mem_nil,or_false] at member
        rcases member with rfl | is | is | is
        · cases kind
        · exact absurd rfl (others _ is)
        · exact ⟨message,unreadService_inj is⟩
        · cases is
      · cases wrong
  | @launched app₁ app₂ model call during rest _ unready kind meta_ starts synced =>
    have same : app₁.toObjectMeta = app.toObjectMeta := meta_
    have synced : Runs (sync (announced fields app₂)) rest (after,outcome) := synced
    obtain ⟨ready,kinds⟩ := sync_ready synced
    rcases start_runs starts with ⟨_,_,_,wrong⟩ | ⟨first,last,app₃,rfl,others,placed,meta₃,service⟩
    · cases wrong
    have here : app₃.toObjectMeta = app.toObjectMeta := meta₃.trans same
    have placed : Placed app (call :: ((first ++ last) ++ rest)) := by
      rw [Placed,prefillName,decodeName,routerName,same] at placed
      exact placed_mono (by simp; tauto) placed
    have read : unreadService app₃ = unreadService app := by
      funext e
      rw [unreadService,unreadService,Workloads.Disaggregated.generateApplicationServiceName_eq,
        Workloads.Disaggregated.generateApplicationServiceName_eq,here]
    have outside : ∀ call' ∈ call :: first, kindOf call'.1 ≠ .service :=
      List.forall_mem_cons.mpr ⟨by rw [kind]; simp,others⟩
    rcases startService_runs service with ⟨service,next,found⟩ | ⟨_,_,_,_,_,wrong,_⟩ | ⟨e,next,other,rfl⟩
    · -- the service is in place
      rw [Workloads.Disaggregated.generateApplicationServiceName_eq,here] at service
      refine iff_of_true (fun _ => ⟨placed,inPlace_mono (by simp; tauto) service⟩) (serviceRead_of_found fun e is => ?_)
      have member : unreadService app e ∈ (call :: first) ++ (last ++ rest) := by simpa using is
      rcases List.mem_append.mp member with is | is
      · exact absurd rfl (outside _ is)
      · rcases List.mem_append.mp is with is | is
        · exact found e (read ▸ is)
        · exact absurd rfl (kinds _ is)
    · cases wrong
    · -- the failed read is passed over: it is the only call about the service
      have shape : call :: ((first ++ [unreadService app₃ e]) ++ rest) = (call :: first) ++ unreadService app e :: rest := by
        rw [read]
        simp
      have launched : Progress.check (fields.progress (announced fields app₂)) .ready = true := by simp [announced]
      have sets : SetsReady (arksDisaggregatedApplicationReconciler p) app after ↔ rest.any lacking = false := by
        rw [launched,Bool.true_and] at ready
        exact ⟨fun sets => by simpa using ready.symm.trans sets.2,fun found => ⟨unready,ready.trans (by rw [found]; rfl)⟩⟩
      rw [shape,serviceRead_unread outside kinds other,← Bool.not_eq_false,← sets]
      exact ⟨fun property set => unread_absent outside kinds (property set).2,fun unset set => absurd set unset⟩

end Disaggregated

/-! ### Both kinds of applications -/

/-- A pass that sets Ready has every child of an `ArksApplication` in place, whatever the
    API answers. For a disaggregated application this is so if and only if the read of
    the router's service did not fail. -/
theorem ready_announced_with_children (p : Platform) :
    (∀ (app after : ArksApplication) (calls : List KubeCall) (outcome : Outcome),
      Runs ((arksApplicationReconciler p).reconcile app) calls (after,outcome) →
      StatusKept (arksApplicationReconciler p) app calls → SetsReady (arksApplicationReconciler p) app after →
      InPlace .lws app.namespace_ app.name calls ∧ InPlace .service app.namespace_ (generateApplicationServiceName app) calls) ∧
    ∀ (app after : ArksDisaggregatedApplication) (calls : List KubeCall) (outcome : Outcome),
      Runs ((arksDisaggregatedApplicationReconciler p).reconcile app) calls (after,outcome) →
      StatusKept (arksDisaggregatedApplicationReconciler p) app calls →
      ((SetsReady (arksDisaggregatedApplicationReconciler p) app after → Placed app calls ∧
          InPlace .service app.namespace_ (Workloads.Disaggregated.generateApplicationServiceName app) calls) ↔
        ServiceRead app calls) :=
  ⟨fun _ _ _ _ run kept sets => plain_ready run kept sets,fun _ _ _ _ run kept => disaggregated_ready_iff run kept⟩

/-- Everything is found except that the read of a service fails. -/
def serviceDown : (op : KubeOp) → KubeReply op
  | .get .model _ _ => .ok (chatModel .ready)
  | .get .lws _ name => .ok (lwsNamed name 1)
  | .get .deployment _ name => .ok (deploymentNamed name (some 1))
  | _ => .error (.other "etcdserver: request timed out")

/-- The model is loaded, and nothing has been created yet. -/
def loadedServer : ArksDisaggregatedApplication := llmDisaggregated (progressOf .loading .isTrue .isTrue .isFalse)

/-- The application is announced in a pass that only failed to read its service. -/
theorem announced_without_service :
    ∃ calls after outcome,
      Runs ((arksDisaggregatedApplicationReconciler ⟨fun _ => "",id⟩).reconcile loadedServer) calls (after,outcome) ∧
      StatusKept (arksDisaggregatedApplicationReconciler ⟨fun _ => "",id⟩) loadedServer calls ∧
      SetsReady (arksDisaggregatedApplicationReconciler ⟨fun _ => "",id⟩) loadedServer after ∧
      ¬ InPlace .service "team-a" "arks-application-llm" calls := by
  let run := replay serviceDown ((arksDisaggregatedApplicationReconciler ⟨fun _ => "",id⟩).reconcile loadedServer)
  refine ⟨run.1,run.2.1,run.2.2,runs_replay serviceDown _,fun o stored is => ?_,⟨by decide,by decide⟩,fun placed => ?_⟩
  · have others : run.1.all (fun call => kindOf call.1 ≠ .disaggregated) = true := by decide
    exact absurd (List.all_eq_true.mp others _ is) (by simp [kindOf])
  · have failed : run.1.all (fun call => kindOf call.1 ≠ .service ∨
        errorOf call = some (.other "etcdserver: request timed out")) = true := by decide
    obtain ⟨call,is,about,_,other⟩ := inPlace_kind placed
    have unread := List.all_eq_true.mp failed call is
    simp only [about,decide_eq_true_eq] at unread
    exact unread.elim (fun wrong => wrong rfl) (other _)

end Arks.Readiness
