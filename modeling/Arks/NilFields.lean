import Arks.Models

/-!
Optional fields that are absent. A pointer of a specification is nil when its field is
left out, and a reconciler that reads through it panics. The reconciler of the models
reads the storage without a test, and the generator of the workloads writes through the
pointer to the replicas exactly when it is nil. Here it is said for every object and every
status whether a pass over it can panic.
-/
namespace Arks.NilFields
open Programs Programs.Prog Api Kube Controllers Workloads Applications Passes

/-- The pass goes on, or ends in another way than by a panic. -/
def Unharmed {α : Type} : Flow α → Prop
  | .next _ => True
  | .stop _ outcome => outcome ≠ .panicked

/-! ### The models -/

/-- The pass gets to the storage, and there is none. -/
structure Unstored (model : ArksModel) : Prop where
  alive : model.deletionTimestamp = none
  unfinished : ¬ (model.status.phase = some .ready ∨ model.status.phase = some .failed)
  finalized : Models.arksModelControllerFinalizer ∈ model.finalizers
  absent : model.spec.storage = none

variable {storage : ArksModelStorage} {launch : String}

section Models
open Models
variable {p : Platform} {model : ArksModel}

private theorem prepareStorage_unharmed (given : model.spec.storage = some storage) :
    Issues (fun _ => True) (fun flow => Unharmed flow ∧ flow.object.1.spec = model.spec)
    (prepareStorage model) := by
  unfold prepareStorage
  rw [given]
  simp only
  cases claim : storage.pvc with
  | none => exact ⟨by simp [Unharmed],rfl⟩
  | some pvc =>
    simp only
    split
    · exact ⟨trivial,rfl⟩
    · refine within_bind within_trivial (fun ensured _ => ?_)
      cases ensured <;> exact ⟨by simp [Unharmed,afterStorage],rfl⟩

private theorem loadModel_unharmed {claimName : String} (given : model.spec.storage = some storage) :
    Issues (fun _ => True) Unharmed (loadModel p model claimName) := by
  have path : ∃ text, generateModelPath model = .object text := by
    unfold generateModelPath
    rw [given]
    simp only
    split <;> exact ⟨_,rfl⟩
  obtain ⟨text,path⟩ := path
  unfold loadModel
  split
  · trivial
  split
  · trivial
  split
  · trivial
  · simp only [loadHuggingface,issue_bind,within_call,path]
    refine ⟨trivial,fun read _ => ?_⟩
    rcases read with (message | message | message) | worker
    · simp only [within_call]
      refine ⟨trivial,fun created _ => ?_⟩
      rcases created with (_ | _ | _) | _ <;> simp [afterWorker,Unharmed]
    · simp [Unharmed]
    · simp [Unharmed]
    · simp only [pure_eq,within_ret,observeWorker]
      split <;> simp [Unharmed]

/-- A pass over a model panics exactly when it gets to the storage and there is none. -/
theorem model_unharmed_iff :
    (∀ calls result, Runs (Models.reconcile p model) calls result → result.2 ≠ .panicked) ↔ ¬ Unstored model := by
  constructor
  · intro unharmed unstored
    refine unharmed [] (initializeModelCondition model,.panicked) ?_ rfl
    have has : hasFinalizer model.toObjectMeta arksModelControllerFinalizer = true := (hasFinalizer_iff ..).mpr unstored.finalized
    rw [Models.reconcile,if_neg (by simp [unstored.alive]),if_neg unstored.unfinished,if_neg
      (by simp [has]),provide,prepareStorage,
      initialize_spec,unstored.absent]
    exact .ret
  · intro stored calls result run
    have unharmed : Issues (fun _ => True) (fun result : ArksModel × Outcome => result.2 ≠ .panicked)
        (Models.reconcile p model) := by
      unfold Models.reconcile
      split
      · simp
      rename_i alive
      split
      · simp
      rename_i unfinished
      split
      · simp only [issue_bind,within_call]
        refine ⟨trivial,fun written _ => ?_⟩
        cases written <;> simp
      rename_i carried
      have finalized : arksModelControllerFinalizer ∈ model.finalizers := by simpa using carried
      cases given : model.spec.storage with
      | none => exact absurd ⟨by simpa using alive,unfinished,finalized,given⟩ stored
      | some storage =>
        have given' : (initializeModelCondition model).spec.storage = some storage := by rw [initialize_spec,given]
        refine within_bind (prepareStorage_unharmed given') (fun flow prepared => ?_)
        cases flow with
        | stop stopped outcome => exact prepared.1
        | next goes =>
          have still : goes.1.spec.storage = some storage := by rw [show goes.1.spec = _ from prepared.2,given']
          refine within_bind (loadModel_unharmed still) (fun flow loaded => ?_)
          cases flow with
          | stop model₂ outcome => exact loaded
          | next model₂ => simp
    exact (runs_within unharmed run).2

end Models

/-! ### The skeleton of the applications -/

/-- The reads of a model find this one. -/
def Finds (model : ArksModel) : (op : KubeOp) → KubeReply op → Prop
  | .get .model _ _,.ok found => found = model
  | _,_ => True

section Skeleton
variable {k : Kind} {r : Reconciler k} {app : Object k} {model : ArksModel}

/-- A pass that finds the model gets to the ladders of the children, with this object. -/
structure Starts (r : Reconciler k) (app : Object k) (model : ArksModel) (started : Object k) : Prop where
  alive : (r.meta_ app).deletionTimestamp = none
  unfailed : (r.progress app).phase ≠ some .failed
  finalized : arksApplicationControllerFinalizer ∈ (r.meta_ app).finalizers
  reaches : ∃ checked waited, r.precheck (r.initialized app) = .next checked ∧ r.waitModel checked model = .next waited ∧
    Progress.check (r.progress waited) .ready = false ∧ started = r.revise waited (Progress.setPhase · .creating)

/-- The same, by the conditions of the application and the phase of the model. -/
structure Due (r : Reconciler k) (app : Object k) (model : ArksModel) : Prop where
  alive : (r.meta_ app).deletionTimestamp = none
  unfailed : (r.progress app).phase ≠ some .failed
  finalized : arksApplicationControllerFinalizer ∈ (r.meta_ app).finalizers
  checked : Progress.check (r.progress app) .precheck = true ∨ r.checks (r.initialized app) = none
  loaded : Progress.check (r.progress app) .loaded = true ∨ model.status.phase = some .ready
  unready : Progress.check (r.progress app) .ready = false

theorem starts_iff : (∃ started, Starts r app model started) ↔ Due r app model := by
  have begun : ∀ type, Progress.check (r.progress (r.initialized app)) type = Progress.check (r.progress app) type := by
    intro type
    simp [Reconciler.initialized]
  -- neither stage touches the conditions that the later ones test
  have prechecked : ∀ {checked}, r.precheck (r.initialized app) = .next checked → ∀ type, type ≠ .precheck →
      Progress.check (r.progress checked) type = Progress.check (r.progress app) type := by
    intro checked checks type other
    rw [← begun]
    rcases precheck_next r checks with ⟨_,rfl⟩ | ⟨_,_,rfl⟩
    · rfl
    · simp [other]
  have loaded : ∀ {checked waited}, r.waitModel checked model = .next waited →
      Progress.check (r.progress waited) .ready = Progress.check (r.progress checked) .ready := by
    intro checked waited waits
    rcases waitModel_next r waits with ⟨_,rfl⟩ | ⟨_,_,rfl⟩
    · rfl
    · simp
  constructor
  · rintro ⟨started,starts⟩
    obtain ⟨checked,waited,checks,waits,unready,rfl⟩ := starts.reaches
    refine ⟨starts.alive,starts.unfailed,starts.finalized,?_,?_,?_⟩
    · rcases precheck_next r checks with ⟨passed,_⟩ | ⟨_,fine,_⟩
      · exact .inl ((begun _).symm.trans passed)
      · exact .inr fine
    · rcases waitModel_next r waits with ⟨passed,_⟩ | ⟨_,ready,_⟩
      · exact .inl ((prechecked checks .loaded (by decide)).symm.trans passed)
      · exact .inr ready
    · exact (prechecked checks .ready (by decide)).symm.trans ((loaded waits).symm.trans unready)
  · intro due
    obtain ⟨checked,checks⟩ : ∃ checked, r.precheck (r.initialized app) = .next checked := by
      unfold Reconciler.precheck
      rw [begun]
      rcases due.checked with passed | fine
      · exact ⟨_,by rw [passed]; rfl⟩
      · rw [fine]
        split <;> exact ⟨_,rfl⟩
    obtain ⟨waited,waits⟩ : ∃ waited, r.waitModel checked model = .next waited := by
      unfold Reconciler.waitModel
      rw [prechecked checks .loaded (by decide)]
      rcases due.loaded with passed | ready
      · exact ⟨_,by rw [passed]; rfl⟩
      · rw [ready]
        split <;> exact ⟨_,rfl⟩
    have unready := (loaded waits).trans ((prechecked checks .ready (by decide)).trans due.unready)
    exact ⟨_,due.alive,due.unfailed,due.finalized,checked,waited,checks,waits,unready,rfl⟩

/-- A panic in the ladders is one of the pass. -/
theorem starts_panics {started after : Object k} {calls : List KubeCall} (starts : Starts r app model started)
    (run : Runs (r.start started model) calls (.stop after .panicked)) : ∃ read : KubeCall, Finds model read.1 read.2 ∧
      Runs (r.reconcile app) (read :: calls) (after,.panicked) := by
  obtain ⟨checked,waited,checks,waits,unready,rfl⟩ := starts.reaches
  refine ⟨⟨.get .model (r.meta_ checked).namespace_ (r.modelName checked),.ok model⟩,rfl,?_⟩
  have has : hasFinalizer (r.meta_ app) arksApplicationControllerFinalizer = true := (hasFinalizer_iff ..).mpr starts.finalized
  rw [Reconciler.reconcile,if_neg (by simp [starts.alive]),if_neg starts.unfailed,if_neg (by simp [has]),checks]
  refine runs_call.mpr ⟨_,_,rfl,?_⟩
  have announces : Runs (r.announce waited model) calls (.stop after .panicked) := by
    rw [Reconciler.announce,if_neg (by simp [unready])]
    exact runs_bind.mpr ⟨_,calls,[],(List.append_nil _).symm,run,.ret⟩
  simp only [Prog.bind,waits]
  exact runs_bind.mpr ⟨_,calls,[],(List.append_nil _).symm,announces,.ret⟩

/-- A pass whose ladders and whose last stage do not panic does not. -/
theorem reconcile_unharmed
    (ladders : ∀ started, Starts r app model started → Within (Finds model) (fun _ => True) Unharmed (r.start started model))
    (last : ∀ app, Within (Finds model) (fun _ => True) (fun result => result.2 ≠ .panicked) (r.sync app)) :
    Within (Finds model) (fun _ => True) (fun result => result.2 ≠ .panicked) (r.reconcile app) := by
  unfold Reconciler.reconcile
  split
  · simp
  rename_i alive
  split
  · simp
  rename_i unfailed
  split
  · simp only [issue_bind,within_call]
    refine ⟨trivial,fun written _ => ?_⟩
    cases written <;> simp
  rename_i carried
  cases checks : r.precheck (r.initialized app) with
  | stop app₁ outcome =>
    obtain ⟨_,rfl,_⟩ := precheck_stop r checks
    simp
  | next checked =>
    simp only [Reconciler.serve,issue_bind,within_call]
    refine ⟨trivial,fun read found => ?_⟩
    rcases read with (message | message | message) | served
    · simp
    · simp
    · simp
    obtain rfl : served = model := found
    simp only
    cases waits : r.waitModel checked served with
    | stop app₁ outcome =>
      rcases (waitModel_stop r waits).2 with ⟨_,rfl,_⟩ | ⟨_,_,rfl,_⟩ <;> simp
    | next waited =>
      have announces : Within (Finds served) (fun _ => True) Unharmed (r.announce waited served) := by
        unfold Reconciler.announce
        split
        · trivial
        · rename_i unready
          refine within_bind (ladders _ ⟨by simpa using alive,unfailed,by simpa using carried,checked,waited,checks,waits,
            by simpa using unready,rfl⟩) (fun flow unharmed => ?_)
          cases flow with
          | stop => exact unharmed
          | next => trivial
      refine within_bind announces (fun flow unharmed => ?_)
      cases flow with
      | stop app₁ outcome => exact unharmed
      | next app₁ => exact last app₁

end Skeleton

/-! ### The disaggregated applications -/

section Disaggregated
open Workloads.Disaggregated (Role Role.text Role.workload Role.setWorkload generateDisaggregatedLws settledReplicas launchCommand
  generateDisaggregationLeaderCommand generateDisaggregationWorkerCommand generateRouterDeployment)
open Applications.Disaggregated
variable {p : Platform} {app : ArksDisaggregatedApplication} {model : ArksModel}

/-- The claim of the model and the replicas of both workloads are given. -/
structure Grounded (app : ArksDisaggregatedApplication) (model : ArksModel) : Prop where
  claim : (model.spec.storage.bind ArksModelStorage.pvc).isSome
  replicas : ∀ role : Role, (role.workload app).replicas.isSome

/-- Nothing that the generators read for the application is nil: they read nothing for another runtime. -/
def Sound (app : ArksDisaggregatedApplication) (model : ArksModel) : Prop := app.spec.runtime = "sglang" → Grounded app model

theorem object_bind {α β : Type} (a : α) (f : α → Generated β) : Generated.object a >>= f = f a := rfl

theorem panicked_bind {α β : Type} (f : α → Generated β) : Generated.panicked >>= f = .panicked := rfl

section Generator
variable {role : Role}

/-- The command of another runtime is refused before anything is read. -/
theorem launchCommand_other (other : app.spec.runtime ≠ "sglang") :
    launchCommand app model role launch = .failed "unsupported runtime" := if_neg other

private theorem launchCommand_unstored (runtime : app.spec.runtime = "sglang") (absent : model.spec.storage = none) :
    launchCommand app model role launch = .panicked := by
  rw [launchCommand,if_pos runtime,generateModelPath,absent]
  rfl

theorem launchCommand_stored (runtime : app.spec.runtime = "sglang")
    (given : model.spec.storage = some storage) : ∃ command, launchCommand app model role launch = .object command := by
  rw [launchCommand,if_pos runtime,generateModelPath,given]
  simp only
  split <;> exact ⟨_,rfl⟩

/-- The generator panics exactly when the claim or the replicas are missing. -/
theorem generateLws_panics : generateDisaggregatedLws p app model role = .panicked ↔
    app.spec.runtime = "sglang" ∧ (model.spec.storage.bind ArksModelStorage.pvc = none ∨
      (role.workload app).replicas = none) := by
  by_cases runtime : app.spec.runtime = "sglang"
  · obtain ⟨image,isImage⟩ : ∃ image, Workloads.Disaggregated.getApplicationRuntimeImage p app = .object image := by
      unfold Workloads.Disaggregated.getApplicationRuntimeImage
      rw [if_pos runtime]
      split <;> exact ⟨_,rfl⟩
    cases given : model.spec.storage with
    | none =>
      have leader : generateDisaggregationLeaderCommand app model role = .panicked := launchCommand_unstored runtime given
      simp [generateDisaggregatedLws,isImage,object_bind,leader,panicked_bind,runtime]
    | some storage =>
      obtain ⟨leader,isLeader⟩ : ∃ command, generateDisaggregationLeaderCommand app model role = .object command :=
        launchCommand_stored runtime given
      obtain ⟨worker,isWorker⟩ : ∃ command, generateDisaggregationWorkerCommand app model role = .object command :=
        launchCommand_stored runtime given
      simp only [generateDisaggregatedLws,isImage,isLeader,isWorker,object_bind,runtime,true_and,Option.bind_some]
      cases asked : (role.workload app).replicas with
      | none => simp [settledReplicas,asked,panicked_bind]
      | some n =>
        cases claim : storage.pvc with
        | none =>
          simp only [settledReplicas,asked,modelClaim,given,Option.bind_some,claim,true_or,iff_true]
          rfl
        | some pvc =>
          simp only [settledReplicas,asked,modelClaim,given,Option.bind_some,claim,reduceCtorEq,or_self]
  · have fails : generateDisaggregatedLws p app model role = .failed "unsupported runtime" := by
      have leader : generateDisaggregationLeaderCommand app model role = .failed "unsupported runtime" :=
        launchCommand_other runtime
      unfold generateDisaggregatedLws Workloads.Disaggregated.getApplicationRuntimeImage
      rw [leader]
      split <;> rfl
    simp [fails,runtime]

/-- The generator of a sound application does not panic. -/
theorem sound_generates (sound : Sound app model) : generateDisaggregatedLws p app model role ≠ .panicked := by
  intro panics
  obtain ⟨runtime,absent⟩ := generateLws_panics.mp panics
  have grounded := sound runtime
  rcases absent with absent | absent
  · simpa [absent] using grounded.claim
  · simpa [absent] using grounded.replicas role

end Generator

/-! ### The stages -/

variable {app' : ArksDisaggregatedApplication}

private theorem sound_spec (same : app'.spec = app.spec) (sound : Sound app model) : Sound app' model := by
  intro runtime
  rw [same] at runtime
  refine ⟨(sound runtime).claim,fun role => ?_⟩
  have asked := (sound runtime).replicas role
  cases role <;> simpa [Role.workload,same] using asked

private theorem sound_settle (role : Role) (sound : Sound app model) : Sound (settle role app) model := by
  intro runtime
  have grounded : Grounded app model := sound (by cases role <;> exact runtime)
  refine ⟨grounded.claim,fun other => ?_⟩
  have asked := grounded.replicas other
  cases role <;> cases other <;> simpa [settle,Role.workload,Role.setWorkload] using asked

private theorem sound_sized (sound : Sound app model) : Sound (sized app) model := by
  unfold sized
  split
  · intro runtime
    have grounded := sound runtime
    refine ⟨grounded.claim,fun role => ?_⟩
    have asked := grounded.replicas role
    cases role <;> exact asked
  · exact sound

theorem ensure_unharmed {answers : (op : KubeOp) → KubeReply op → Prop} {k : Kind} {namespace_ name : String}
    {generate : KubeAction (Generated (Object k))}
    (generates : Within answers (fun _ => True) (fun made => made ≠ .panicked) generate) :
    Within answers (fun _ => True) (fun ensured => ensured ≠ .panicked) (ensure k namespace_ name generate) := by
  simp only [ensure,issue_bind,within_call]
  refine ⟨trivial,fun found _ => ?_⟩
  rcases found with (message | message | message) | o
  · refine within_bind generates (fun made unharmed => ?_)
    cases made with
    | object o =>
      simp only [within_call]
      refine ⟨trivial,fun created _ => ?_⟩
      rcases created with (_ | _ | _) | _ <;> simp
    | failed text => simp
    | panicked => exact absurd rfl unharmed
  all_goals simp

theorem afterWorkload_unharmed {what noun : String} {ensured : Ensured} (unharmed : ensured ≠ .panicked) :
    Unharmed (fields.afterWorkload app what noun ensured) := by
  cases ensured with
  | panicked => exact absurd rfl unharmed
  | present => trivial
  | generateFailed | createFailed | checkFailed => simp [Fields.afterWorkload,Unharmed]

private theorem afterWorkload_spec {what noun : String} {ensured : Ensured} :
    (fields.afterWorkload app what noun ensured).object.spec = app.spec := by
  cases ensured <;> rfl

section Stages
variable {answers : (op : KubeOp) → KubeReply op → Prop}

theorem startWorkload_unharmed (role : Role) (sound : Sound app model) :
    Within answers (fun _ => True) (fun flow => Unharmed flow ∧ Sound flow.object model) (startWorkload p role app model) := by
  have generates : generateDisaggregatedLws p app model role >>= (fun lws => pure
    { lws with name := lwsName role app }) ≠ .panicked := by
    have unharmed := @sound_generates p app model role sound
    cases made : generateDisaggregatedLws p app model role with
    | object | failed => exact nofun
    | panicked => exact absurd made unharmed
  refine within_bind (ensure_unharmed generates) (fun ensured unharmed => ?_)
  refine ⟨afterWorkload_unharmed unharmed,sound_spec afterWorkload_spec ?_⟩
  split
  · exact sound_settle role sound
  · exact sound

private theorem router_unharmed : Within answers (fun _ => True) (fun made => made ≠ .panicked)
    (generateRouterDeployment p app) := by
  have made : ∀ account, Workloads.Disaggregated.routerDeployment p app account ≠ .panicked := by
    intro account
    unfold Workloads.Disaggregated.routerDeployment Workloads.Disaggregated.getApplicationRouterImage
      Workloads.Disaggregated.generateDisaggregationRouterCommand
    split
    · split <;> exact nofun
    · split <;> exact nofun
  unfold generateRouterDeployment
  split
  · refine within_bind within_trivial (fun applied _ => ?_)
    cases applied with
    | error text => simp
    | ok account => exact made account
  · exact made _

private theorem start_unharmed (sound : Sound app model) : Within answers (fun _ => True) Unharmed (start p app model) := by
  refine within_bind (startWorkload_unharmed .prefill (sound_sized sound)) (fun flow prefill => ?_)
  cases flow with
  | stop app₁ outcome => exact prefill.1
  | next app₁ =>
    refine within_bind (startWorkload_unharmed .decode prefill.2) (fun flow decode => ?_)
    cases flow with
    | stop app₂ outcome => exact decode.1
    | next app₂ =>
      have router : Within answers (fun _ => True) Unharmed (startRouter p app₂) := by
        refine within_bind (ensure_unharmed (within_bind router_unharmed (fun made unharmed => ?_)))
          (fun ensured unharmed => afterWorkload_unharmed unharmed)
        cases made with
        | panicked => exact absurd rfl unharmed
        | object | failed => exact nofun
      refine within_bind router (fun flow unharmed => ?_)
      cases flow with
      | stop app₃ outcome => exact unharmed
      | next app₃ =>
        refine within_bind within_trivial (fun service _ => ?_)
        cases service <;> simp [Applications.Disaggregated.afterService,Unharmed]

theorem syncWorkload_unharmed (role : Role) : Within answers (fun _ => True) Unharmed (syncWorkload role app) := by
  simp only [syncWorkload,issue_bind,within_call]
  refine ⟨trivial,fun read _ => ?_⟩
  rcases read with (_ | _ | _) | lws
  · trivial
  · simp [Unharmed]
  · simp [Unharmed]
  · simp only
    split
    · exact ⟨trivial,fun _ _ => trivial⟩
    · trivial

private theorem sync_unharmed : Within answers (fun _ => True) (fun result => result.2 ≠ .panicked) (sync app) := by
  refine within_bind (syncWorkload_unharmed .prefill) (fun flow unharmed => ?_)
  cases flow with
  | stop app₁ outcome => exact unharmed
  | next app₁ =>
    refine within_bind (syncWorkload_unharmed .decode) (fun flow unharmed => ?_)
    cases flow with
    | stop app₂ outcome => exact unharmed
    | next app₂ =>
      simp only [syncRouter,issue_bind,within_call]
      refine ⟨trivial,fun read _ => ?_⟩
      rcases read with (_ | _ | _) | deployment
      · simp
      · simp
      · simp
      · simp only
        split
        · refine ⟨trivial,fun written _ => ?_⟩
          cases written <;> simp
        · simp

end Stages

/-! ### The pass -/

/-- The pass gets to the generators of the workloads, and something that they read is missing. -/
structure Ungrounded (p : Platform) (app : ArksDisaggregatedApplication) (model : ArksModel) : Prop
    extends Due (arksDisaggregatedApplicationReconciler p) app model where
  runtime : app.spec.runtime = "" ∨ app.spec.runtime = "sglang"
  absent : ¬ Grounded app model

/-- The application as the generators get it: its conditions may have changed, and the runtime is filled in. -/
structure Begun (app app' : ArksDisaggregatedApplication) : Prop where
  runtime : app'.spec.runtime = (if app.spec.runtime = "" then "sglang" else app.spec.runtime)
  prefill : app'.spec.prefill = app.spec.prefill
  decode : app'.spec.decode = app.spec.decode

theorem begun_spec {app₁ app₂ : ArksDisaggregatedApplication} (begun : Begun app app₁)
    (same : app₂.spec = app₁.spec) : Begun app app₂ :=
  ⟨by rw [same,begun.runtime],by rw [same,begun.prefill],by rw [same,begun.decode]⟩

theorem begun_grounded (begun : Begun app app') : Grounded app' model ↔ Grounded app model := by
  have workload : ∀ role : Role, role.workload app' = role.workload app := by
    intro role
    cases role with
    | prefill => exact begun.prefill
    | decode => exact begun.decode
  constructor
  · exact fun grounded => ⟨grounded.claim,fun role => workload role ▸ grounded.replicas role⟩
  · exact fun grounded => ⟨grounded.claim,fun role => (workload role).symm ▸ grounded.replicas role⟩

theorem begun_sglang (begun : Begun app app') :
    app'.spec.runtime = "sglang" ↔ app.spec.runtime = "" ∨ app.spec.runtime = "sglang" := by
  rw [begun.runtime]
  by_cases empty : app.spec.runtime = ""
  · simp [empty]
  · simp [empty]

theorem starts_begun {started : ArksDisaggregatedApplication}
    (starts : Starts (arksDisaggregatedApplicationReconciler p) app model started) : Begun app started := by
  obtain ⟨checked,waited,checks,waits,_,rfl⟩ := starts.reaches
  have first : Begun app ((arksDisaggregatedApplicationReconciler p).initialized app) := ⟨rfl,rfl,rfl⟩
  have second : Begun app checked := by
    rcases precheck_next _ checks with ⟨_,rfl⟩ | ⟨_,_,rfl⟩ <;> exact begun_spec first rfl
  rcases waitModel_next _ waits with ⟨_,rfl⟩ | ⟨_,_,rfl⟩ <;> exact begun_spec second rfl

/-- The ladder of a workload panics when its generator does. -/
theorem startWorkload_panics {role : Role} (panics : generateDisaggregatedLws p app model role = .panicked) :
    Runs (startWorkload p role app model) [⟨.get .lws app.namespace_ (lwsName role app),.error (.notFound "")⟩]
    (.stop app .panicked) := by
  have generates : Runs (ensure .lws app.namespace_ (lwsName role app) (pure (do
      let lws ← generateDisaggregatedLws p app model role
      pure { lws with name := lwsName role app })))
      [⟨.get .lws app.namespace_ (lwsName role app),.error (.notFound "")⟩] .panicked := by
    refine runs_call.mpr ⟨_,_,rfl,?_⟩
    rw [panics]
    exact .ret
  exact runs_bind.mpr ⟨_,_,[],(List.append_nil _).symm,generates,.ret⟩

/-- A workload that is there is passed over. -/
theorem startWorkload_found (role : Role) (lws : LeaderWorkerSet) :
    Runs (startWorkload p role app model) [⟨.get .lws app.namespace_ (lwsName role app),.ok lws⟩] (.next app) :=
  runs_bind.mpr ⟨.present false,_,[],(List.append_nil _).symm,runs_call.mpr ⟨_,_,rfl,.ret⟩,.ret⟩

private theorem start_panics (runtime : app.spec.runtime = "sglang") (absent : ¬ Grounded app model) :
    ∃ calls after, Runs (start p app model) calls (.stop after .panicked) ∧ ∀ call ∈ calls, Finds model call.1 call.2 := by
  have sizes : ∀ role : Role, (role.workload (sized app)).replicas = (role.workload app).replicas := by
    intro role
    unfold sized
    split <;> cases role <;> rfl
  have runtime' : (sized app).spec.runtime = "sglang" := by
    unfold sized
    split <;> exact runtime
  by_cases prefill : model.spec.storage.bind ArksModelStorage.pvc = none ∨ (Role.prefill.workload app).replicas = none
  · have panics : generateDisaggregatedLws p (sized app) model .prefill = .panicked :=
      generateLws_panics.mpr ⟨runtime',by rwa [sizes]⟩
    exact ⟨_,_,runs_bind.mpr ⟨_,_,[],(List.append_nil _).symm,startWorkload_panics panics,.ret⟩,by simp [Finds]⟩
  · -- only the replicas of the decode workload can be missing
    obtain ⟨claim,asked⟩ := not_or.mp prefill
    have missing : (Role.decode.workload app).replicas = none := by
      by_contra given
      refine absent ⟨Option.isSome_iff_ne_none.mpr claim,fun role => ?_⟩
      cases role with
      | prefill => exact Option.isSome_iff_ne_none.mpr asked
      | decode => exact Option.isSome_iff_ne_none.mpr given
    have panics : generateDisaggregatedLws p (sized app) model .decode = .panicked :=
      generateLws_panics.mpr ⟨runtime',.inr (by rwa [sizes])⟩
    exact ⟨_,_,runs_bind.mpr ⟨_,_,_,rfl,startWorkload_found .prefill (lwsNamed "" 1),
      runs_bind.mpr ⟨_,_,[],(List.append_nil _).symm,startWorkload_panics panics,.ret⟩⟩,by simp [Finds]⟩

/-- A pass over a disaggregated application panics, with some replies, exactly when it gets to the
    generators and the claim of the model or the replicas of a workload are missing. -/
theorem application_unharmed_iff :
    (∀ calls result, Runs ((arksDisaggregatedApplicationReconciler p).reconcile app) calls result →
      (∀ call ∈ calls, Finds model call.1 call.2) → result.2 ≠ .panicked) ↔ ¬ Ungrounded p app model := by
  constructor
  · intro unharmed ungrounded
    obtain ⟨started,starts⟩ := starts_iff.mpr ungrounded.toDue
    have begun := starts_begun starts
    obtain ⟨calls,after,run,finds⟩ := start_panics (p := p) ((begun_sglang begun).mpr ungrounded.runtime)
      (mt (begun_grounded begun).mp ungrounded.absent)
    obtain ⟨read,found,whole⟩ := starts_panics starts run
    refine unharmed _ _ whole (fun call is => ?_) rfl
    rcases List.mem_cons.mp is with rfl | is
    · exact found
    · exact finds call is
  · intro grounded calls result run finds
    refine (runs_within_answers (reconcile_unharmed (fun started starts => ?_) (fun _ => sync_unharmed)) run finds).2
    have begun := starts_begun starts
    refine start_unharmed (fun runtime => ?_)
    by_contra absent
    exact grounded ⟨starts_iff.mp ⟨started,starts⟩,(begun_sglang begun).mp runtime,mt (begun_grounded begun).mpr absent⟩

end Disaggregated

/-- Whether a pass over a model, or over a disaggregated application that finds the model `served`, reads through
    a nil pointer: the first does when it gets to a storage that is not given, and the second when it gets to
    the workloads and the claim of the model or the replicas of a workload are not given. -/
theorem optional_fields_iff (p : Platform) (model served : ArksModel) (app : ArksDisaggregatedApplication) :
    ((∀ calls result, Runs (Models.reconcile p model) calls result → result.2 ≠ .panicked) ↔ ¬ Unstored model) ∧
    ((∀ calls result, Runs ((arksDisaggregatedApplicationReconciler p).reconcile app) calls result →
      (∀ call ∈ calls, Finds served call.1 call.2) → result.2 ≠ .panicked) ↔ ¬ Ungrounded p app served) :=
  ⟨model_unharmed_iff,application_unharmed_iff⟩

/-! ### Objects as users create them -/

/-- A model `chat` with this storage and without a source. -/
def newModel (storage : Option ArksModelStorage) : ArksModel where
  toObjectMeta := { llmMeta with name := .chat,finalizers := [] }
  spec := { (default : ArksModelSpec) with storage := storage }
  status := default

/-- A disaggregated application `llm` that says nothing of its replicas. -/
def newApplication : ArksDisaggregatedApplication :=
  { llmDisaggregated ⟨none,[]⟩ with finalizers := [] }

def host : Platform := ⟨fun _ => "",id⟩

/-- A pass over the model, and one over the application. -/
def modelPass (c : Cluster) : Outcome × Cluster := exec carryOut (Models.reconcileRequest host "team-a" "chat") c

@[inherit_doc modelPass]
def applicationPass (c : Cluster) : Outcome × Cluster :=
  exec carryOut ((arksDisaggregatedApplicationReconciler host).reconcileRequest "team-a" "llm") c

/-- The second pass over a model without a storage panics, and so does the second one over an application
    that leaves out its replicas, once its model is ready. -/
theorem optional_fields_absent :
    (modelPass (modelPass (Cluster.empty.put .model (newModel none))).2).1 = .panicked ∧
    (applicationPass (applicationPass (modelPass (modelPass ((Cluster.empty.put .model (newModel (some ⟨some ⟨"chat",""⟩,
      ""⟩))).put
      .disaggregated newApplication)).2).2).2).1 = .panicked := by
  constructor
  · decide +kernel
  · decide +kernel

end Arks.NilFields
