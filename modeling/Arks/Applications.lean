import Arks.Workloads

/-!
The reconcilers of the applications. Both have one skeleton: a pass initialises
the status, puts the finalizer on, checks the specification, waits for the model,
sees to the children, announces readiness and copies the state of the children
into the status. They differ in their checks and in their children. What they do
to the phase and the conditions is said once, on the part of the status that both
kinds of applications have.
-/
namespace Arks.Applications
open Programs Programs.Prog Api Kube Controllers Workloads

/-! ### Phase and conditions -/

namespace Progress

/-- `checkApplicationCondition`. -/
def check (s : ApplicationProgress) (type : ArksApplicationConditionType) : Bool := checkCondition s.conditions type

/-- `updateApplicationCondition`. -/
def update (s : ApplicationProgress) (type : ArksApplicationConditionType) (status : ConditionStatus) (reason message : String) :
    ApplicationProgress :=
  { s with conditions := updateCondition s.conditions type status reason message }

def setPhase (s : ApplicationProgress) (phase : ArksApplicationPhase) : ApplicationProgress := { s with phase := some phase }

/-- The phase becomes Failed, and a condition false. -/
def fail (s : ApplicationProgress) (type : ArksApplicationConditionType) (reason message : String) : ApplicationProgress :=
  update (setPhase s .failed) type .isFalse reason message

/-- `initializeApplicationCondition`; no conditions are nil conditions. -/
def initializeApplicationCondition (s : ApplicationProgress) : ApplicationProgress :=
  if s.conditions ≠ [] then s
  else { s with conditions :=
    [⟨.precheck,.isFalse,"NewIncomming","Wait the controller to check the application"⟩,
      ⟨.loaded,.isFalse,"NewIncomming","Wait the controller to load the model"⟩,
      ⟨.ready,.isFalse,"NewIncomming","Wait the controller to check the application status"⟩] }

/-- What a pass does first. -/
def initialize_ (s : ApplicationProgress) : ApplicationProgress :=
  initializeApplicationCondition (if s.phase = none then setPhase s .pending else s)

section Reading
variable (s : ApplicationProgress) (type other : ArksApplicationConditionType) (status : ConditionStatus)
  (reason message : String)

@[simp] theorem check_setPhase (phase : ArksApplicationPhase) : check (setPhase s phase) other = check s other := rfl

@[simp] theorem phase_setPhase (phase : ArksApplicationPhase) : (setPhase s phase).phase = some phase := rfl

@[simp] theorem phase_update : (update s type status reason message).phase = s.phase := rfl

@[simp] theorem phase_fail : (fail s type reason message).phase = some .failed := rfl

@[simp] theorem check_update :
    check (update s type status reason message) other = if other = type then decide (status = .isTrue) else check s other := by
  by_cases same : other = type
  · subst same
    simp [check,update]
  · simp [check,update,check_update_other,same]

@[simp] theorem check_fail : check (fail s type reason message) other = if other = type then false else check s other := by
  simp [fail]

/-- What is not there yet is not true. -/
@[simp] theorem check_initialized : check (initialize_ s) other = check s other := by
  have none_true : check (initializeApplicationCondition s) other = check s other := by
    by_cases empty : s.conditions = []
    · cases other <;> simp [initializeApplicationCondition,check,checkCondition,empty]
    · simp [initializeApplicationCondition,empty]
  by_cases fresh : s.phase = none
  · rw [initialize_,if_pos fresh,← none_true]
    unfold initializeApplicationCondition check setPhase
    split <;> rfl
  · rw [initialize_,if_neg fresh,none_true]

@[simp] theorem phase_initialized : (initialize_ s).phase = some (s.phase.getD .pending) := by
  cases fresh : s.phase <;> simp [initialize_,initializeApplicationCondition,fresh,setPhase] <;> split <;> simp_all

end Reading
end Progress

/-! ### The skeleton -/

/-- The parts of an application that the skeleton reads and writes. -/
structure Fields (k : Kind) where
  meta_ : Object k → ObjectMeta
  withMeta : Object k → ObjectMeta → Object k
  progress : Object k → ApplicationProgress
  withProgress : Object k → ApplicationProgress → Object k
  meta_withMeta : ∀ app m, meta_ (withMeta app m) = m
  meta_withProgress : ∀ app s, meta_ (withProgress app s) = meta_ app
  progress_withMeta : ∀ app m, progress (withMeta app m) = progress app
  progress_withProgress : ∀ app s, progress (withProgress app s) = s

namespace Fields
variable {k : Kind} (r : Fields k)

attribute [simp] meta_withMeta meta_withProgress progress_withMeta progress_withProgress

/-- Change the phase or the conditions. -/
def revise (app : Object k) (f : ApplicationProgress → ApplicationProgress) : Object k := r.withProgress app (f (r.progress app))

@[simp] theorem progress_revise (app : Object k) (f : ApplicationProgress → ApplicationProgress) :
    r.progress (r.revise app f) = f (r.progress app) := r.progress_withProgress ..

@[simp] theorem meta_revise (app : Object k) (f : ApplicationProgress → ApplicationProgress) :
    r.meta_ (r.revise app f) = r.meta_ app := r.meta_withProgress ..

/-- What the ladder of a workload does to the application. -/
def afterWorkload (app : Object k) (what noun : String) : Ensured → Flow (Object k)
  | .present _ => .next app
  | .panicked => .stop app .panicked
  | .generateFailed text => .stop
      (r.revise app (Progress.fail · .precheck "UnderlayGenerateFailed"
        ("Failed to generate " ++ what ++ "underlay: " ++ quote text)))
      (.failed ("failed to generate " ++ what ++ "underlying " ++ noun ++ ": " ++ quote text))
  | .createFailed e => .stop
      (r.revise app (Progress.update · .ready .isFalse "UnderlayCreatedFailed"
        ("Failed to create " ++ what ++ "underlay: " ++ quote e.text)))
      (.failed ("failed to create " ++ what ++ "underlying LWS: " ++ quote e.text))
  | .checkFailed e => .stop app (.failed ("failed to check the " ++ what ++ "underlying LWS: " ++ quote e.text))

end Fields

/-- One of the two reconcilers. -/
structure Reconciler (k : Kind) extends Fields k where
  /-- The runtime is filled in. -/
  defaulted : Object k → Object k
  modelName : Object k → String
  /-- The reason and the message of the first check that fails. -/
  checks : Object k → Option (String × String)
  /-- The ladders of the children. -/
  start : Object k → ArksModel → KubeAction (Flow (Object k))
  /-- Copy the state of the children, and adjust them. -/
  sync : Object k → KubeAction (Object k × Outcome)
  /-- The children, by kind, name and what errors call them, in the order in which they are removed. -/
  children : Object k → List (Kind × String × String)
  /-- What becomes of the result of a successful pass. -/
  finish : Result → Result
  progress_defaulted : ∀ app, progress (defaulted app) = progress app
  meta_defaulted : ∀ app, meta_ (defaulted app) = meta_ app

namespace Reconciler
variable {k : Kind} (r : Reconciler k)

attribute [simp] progress_defaulted meta_defaulted

/-- The checks of the specification, made until they pass. -/
def precheck (app : Object k) : Flow (Object k) :=
  if Progress.check (r.progress app) .precheck then .next app
  else
    match r.checks app with
    | some (reason,message) => .stop (r.revise app (Progress.fail · .precheck reason message)) (.done .empty)
    | none => .next (r.revise app (fun s => Progress.update (Progress.setPhase s .checking) .precheck .isTrue "PrecheckPass"
        "The application passed the pre-checking"))

/-- Wait until the model is ready; once it was, it is not looked at again. -/
def waitModel (app : Object k) (model : ArksModel) : Flow (Object k) :=
  if Progress.check (r.progress app) .loaded then .next app
  else
    match model.status.phase with
    | some .failed =>
      .stop (r.revise app (Progress.fail · .loaded "ModelLoadFailed" "Failed to load the referenced model")) (.done .empty)
    | some .ready =>
      .next (r.revise app (fun s => Progress.update (Progress.setPhase s .loading) .loaded .isTrue "ModelLoadSucceeded"
        "The referenced model is loaded"))
    | _ => .stop (r.revise app (Progress.setPhase · .loading)) (.done ⟨false,3⟩)

/-- See to the children, and announce readiness. -/
def announce (app : Object k) (model : ArksModel) : KubeAction (Flow (Object k)) :=
  if Progress.check (r.progress app) .ready then pure (.next app)
  else do
    match ← r.start (r.revise app (Progress.setPhase · .creating)) model with
    | .stop app outcome => pure (.stop app outcome)
    | .next app => pure (.next (r.revise app (fun s => Progress.update (Progress.setPhase s .running) .ready .isTrue "Running"
        "The LLM service is running")))

/-- The pass from the model on. -/
def serve (app : Object k) : KubeAction (Object k × Outcome) := do
  match ← request (.get .model (r.meta_ app).namespace_ (r.modelName app)) with
  | .error (.notFound _) =>
    pure (r.revise app (Progress.fail · .loaded "ModelNotExist" "The referenced model doesn't exist"),.done .empty)
  | .error e => pure (app,.failed e.text)
  | .ok model =>
    match r.waitModel app model with
    | .stop app outcome => pure (app,outcome)
    | .next app =>
      match ← r.announce app model with
      | .stop app outcome => pure (app,outcome)
      | .next app => r.sync app

/-- The object as the pass goes on with it. -/
def initialized (app : Object k) : Object k := r.defaulted (r.revise app Progress.initialize_)

def reconcile (app : Object k) : KubeAction (Object k × Outcome) :=
  if (r.meta_ app).deletionTimestamp.isSome then pure (app,.done ⟨true,0⟩)
  else if (r.progress app).phase = some .failed then pure (app,.done .empty)
  else if !hasFinalizer (r.meta_ app) arksApplicationControllerFinalizer then do
    let app := r.withMeta (r.initialized app) (addFinalizer (r.meta_ app) arksApplicationControllerFinalizer)
    match ← request (.update k app) with
    | .error e => pure (app,.failed ("failed to add application finalizer: " ++ quote e.text))
    -- the client replaces the object by the stored one, status included
    | .ok app => pure (app,.done ⟨true,0⟩)
  else
    match r.precheck (r.initialized app) with
    | .stop app outcome => pure (app,outcome)
    | .next app => r.serve app

/-- Delete the children one after the other; one that is not there counts as deleted. -/
def removeChildren (namespace_ : String) : List (Kind × String × String) → KubeAction (Except String Unit)
  | [] => pure (.ok ())
  | (k,name,what) :: children => do
    match ← request (.delete k namespace_ name) with
    | .ok _ => removeChildren namespace_ children
    | .error (.notFound _) => removeChildren namespace_ children
    | .error e => pure (.error ("failed to delete " ++ what ++ ": " ++ quote e.text))

def remove (app : Object k) : KubeAction Outcome :=
  if (r.meta_ app).deletionTimestamp.isNone then pure (.done ⟨true,0⟩)
  else do
    match ← removeChildren (r.meta_ app).namespace_ (r.children app) with
    | .error text => pure (.failed text)
    | .ok _ =>
      match ← request (.update k (r.withMeta app (removeFinalizer (r.meta_ app) arksApplicationControllerFinalizer))) with
      | .error e => pure (.failed ("failed to remove application finalizer: " ++ quote e.text))
      | .ok _ => pure (.done .empty)

/-- `Reconcile`. -/
def reconcileRequest (namespace_ name : String) : KubeAction Outcome :=
  Controllers.reconcileRequest k r.meta_ "application " r.finish r.remove r.reconcile namespace_ name

end Reconciler

/-- The first of the user's volumes or mounts that is reserved for the model. -/
def reservedVolume (instanceSpec : ArksInstanceSpec) : Option (String × String) :=
  if instanceSpec.volumes.any (fun v => v.name = arksApplicationModelVolumeName) then
    some ("ReservedVolumeName","Volume name 'models' is reserved for ArksModel")
  else if instanceSpec.volumeMounts.any (fun m => m.mountPath = arksApplicationModelVolumeMountPath) then
    some ("ReservedVolumeMountPath","Volume mount path '/models' is reserved for ArksModel")
  else none

/-- The check of the runtime. -/
def unsupported (runtime : String) (supported : List String) : Option (String × String) :=
  if runtime ∈ supported then none
  else some ("RuntimeNotSupport","LWS not support the specified runtime: " ++ runtime)

/-! ### `ArksApplication` -/

section Plain
variable (p : Platform)

def applicationFields : Fields .application where
  meta_ app := app.toObjectMeta
  withMeta app m := { app with toObjectMeta := m }
  progress app := app.status.toApplicationProgress
  withProgress app s := { app with status := { app.status with toApplicationProgress := s } }
  meta_withMeta _ _ := rfl
  meta_withProgress _ _ := rfl
  progress_withMeta _ _ := rfl
  progress_withProgress _ _ := rfl

/-- What the ladder of the service does to the application. -/
def afterService (app : ArksApplication) : Ensured → Flow ArksApplication
  | .createFailed e => .stop app (.failed ("failed to create application service: " ++ quote e.text))
  | .checkFailed e => .stop app (.failed ("failed to check the service: " ++ quote e.text))
  | _ => .next app

def startApplication (app : ArksApplication) (model : ArksModel) : KubeAction (Flow ArksApplication) := do
  let lws ← ensure .lws app.namespace_ app.name (pure (generateLws p app model))
  match applicationFields.afterWorkload app "" "LWS" lws with
  | .stop app outcome => pure (.stop app outcome)
  | .next app => do
    let service ← ensure .service app.namespace_ (generateApplicationServiceName app) (pure (.object (applicationService app)))
    pure (afterService app service)

/-- The replicas of the leader worker set are not touched. -/
def syncApplication (app : ArksApplication) : KubeAction (ArksApplication × Outcome) := do
  match ← request (.get .lws app.namespace_ app.name) with
  | .error (.notFound _) =>
    pure (applicationFields.revise app (fun s => Progress.update (Progress.setPhase s .running) .ready .isFalse "UnderlyingNotExit"
      "The underlying LWS doesn't exist"),.done .empty)
  | .error e => pure (app,.failed ("failed to query the underlying LWS status: " ++ quote e.text))
  | .ok lws => pure ({ app with status := { app.status with toArksComponentStatus := lws.status } },.done .empty)

def arksApplicationReconciler : Reconciler .application where
  toFields := applicationFields
  defaulted app := { app with spec := { app.spec with runtime := if app.spec.runtime = "" then "vllm" else app.spec.runtime } }
  modelName app := app.spec.model
  checks app := (unsupported app.spec.runtime ["vllm","sglang","dynamo"]).or (reservedVolume app.spec.instanceSpec)
  start app model := startApplication p app model
  sync app := syncApplication app
  children app :=
    [(.service,generateApplicationServiceName app,"application service (" ++ generateApplicationServiceName app ++ ")"),
    (.lws,app.name.val,"underlying LWS")]
  finish result := result
  progress_defaulted _ := rfl
  meta_defaulted _ := rfl

end Plain

/-! ### `ArksDisaggregatedApplication` -/

namespace Disaggregated
open Workloads.Disaggregated
variable (p : Platform)

def fields : Fields .disaggregated where
  meta_ app := app.toObjectMeta
  withMeta app m := { app with toObjectMeta := m }
  progress app := app.status.toApplicationProgress
  withProgress app s := { app with status := { app.status with toApplicationProgress := s } }
  meta_withMeta _ _ := rfl
  meta_withProgress _ _ := rfl
  progress_withMeta _ _ := rfl
  progress_withProgress _ _ := rfl

/-- `checkApplicationVolumes`; both of its errors come with one reason. -/
def checkApplicationVolumes (workload : ArksDisaggregatedWorkload) : Option (String × String) :=
  (reservedVolume workload.instanceSpec).map (fun check => ("InvalidVolumeDefinitions",check.2))

def prefillName (app : ArksDisaggregatedApplication) : String := app.name.val ++ "-prefill"
def decodeName (app : ArksDisaggregatedApplication) : String := app.name.val ++ "-decode"
def routerName (app : ArksDisaggregatedApplication) : String := app.name.val ++ "-router"

def lwsName : Role → ArksDisaggregatedApplication → String
  | .prefill,app => prefillName app
  | .decode,app => decodeName app

/-- The generator has written a negative number of replicas over. -/
def settle (role : Role) (app : ArksDisaggregatedApplication) : ArksDisaggregatedApplication :=
  role.setWorkload { role.workload app with
    replicas := (role.workload app).replicas.map (fun n => if n < 0 then 1 else n) } app

/-- The ladder of the leader worker set of a role. -/
def startWorkload (role : Role) (app : ArksDisaggregatedApplication) (model : ArksModel) :
    KubeAction (Flow ArksDisaggregatedApplication) := do
  let name := lwsName role app
  let lws ← ensure .lws app.namespace_ name (pure (do
    let lws ← generateDisaggregatedLws p app model role
    pure { lws with name := name }))
  let app := match lws with
    | .present true => settle role app
    | _ => app
  pure (fields.afterWorkload app (role.text ++ " ") "LWS" lws)

/-- The ladder of the router. -/
def startRouter (app : ArksDisaggregatedApplication) : KubeAction (Flow ArksDisaggregatedApplication) := do
  let deploy ← ensure .deployment app.namespace_ (routerName app) (do
    let deploy ← generateRouterDeployment p app
    pure (do
      let deploy ← deploy
      pure { deploy with name := routerName app }))
  pure (fields.afterWorkload app "router " "deployment" deploy)

/-- What the ladder of the router's service does: a failed read is passed over. -/
def afterService (app : ArksDisaggregatedApplication) : Ensured → Flow ArksDisaggregatedApplication
  | .createFailed e => .stop app (.failed ("failed to create application router service: " ++ quote e.text))
  | _ => .next app

def startService (app : ArksDisaggregatedApplication) : KubeAction (Flow ArksDisaggregatedApplication) := do
  let name := Workloads.Disaggregated.generateApplicationServiceName app
  let service ← ensure .service app.namespace_ name (pure (.object { generateRouterSvc app with name := name }))
  pure (afterService app service)

/-- The size of the prefill workload is settled in place. -/
def sized (app : ArksDisaggregatedApplication) : ArksDisaggregatedApplication :=
  if app.spec.prefill.size < 1 then { app with spec := { app.spec with prefill := { app.spec.prefill with size := 1 } } }
  else app

@[simp] theorem sized_meta (app : ArksDisaggregatedApplication) : (sized app).toObjectMeta = app.toObjectMeta := by
  unfold sized; split <;> rfl

def start (app : ArksDisaggregatedApplication) (model : ArksModel) : KubeAction (Flow ArksDisaggregatedApplication) := do
  match ← startWorkload p .prefill (sized app) model with
  | .stop app outcome => pure (.stop app outcome)
  | .next app =>
    match ← startWorkload p .decode app model with
    | .stop app outcome => pure (.stop app outcome)
    | .next app =>
      match ← startRouter p app with
      | .stop app outcome => pure (.stop app outcome)
      | .next app => startService app

/-- The component's status of a role. -/
def Role.record (status : ArksComponentStatus) (app : ArksDisaggregatedApplication) : Role → ArksDisaggregatedApplication
  | .prefill => { app with status := { app.status with prefill := status } }
  | .decode => { app with status := { app.status with decode := status } }

/-- The replicas that are enforced for a workload. -/
def workloadReplicas (workload : ArksDisaggregatedWorkload) : Int :=
  match workload.replicas with
  | some n => if 0 ≤ n then n else 1
  | none => 1

/-- The replicas that are enforced for the router: zero becomes one. -/
def enforcedRouterReplicas (app : ArksDisaggregatedApplication) : Int :=
  match app.spec.router.replicas with
  | some n => if 0 < n then n else 1
  | none => 1

/-- A child that is gone makes the application fail; the pass goes on. -/
def missing (app : ArksDisaggregatedApplication) (child : String) : ArksDisaggregatedApplication :=
  fields.revise app (Progress.fail · .ready "UnderlyingNotExist" ("The underlying " ++ child ++ " doesn't exist"))

/-- Copy the state of a role's leader worker set and enforce its replicas; a failed update is passed over. -/
def syncWorkload (role : Role) (app : ArksDisaggregatedApplication) : KubeAction (Flow ArksDisaggregatedApplication) := do
  match ← request (.get .lws app.namespace_ (lwsName role app)) with
  | .error (.notFound _) => pure (.next (missing app (role.text ++ " LWS")))
  | .error e => pure (.stop app (.failed ("failed to query the " ++ role.text ++ " underlying LWS status: " ++ quote e.text)))
  | .ok lws =>
    let app := Role.record lws.status app role
    let replicas := workloadReplicas (role.workload app)
    if replicas ≠ lws.replicas then do
      let _ ← request (.update .lws { lws with replicas := replicas })
      pure (.next app)
    else pure (.next app)

/-- Copy the state of the router's deployment and enforce its replicas. -/
def syncRouter (app : ArksDisaggregatedApplication) : KubeAction (ArksDisaggregatedApplication × Outcome) := do
  match ← request (.get .deployment app.namespace_ (routerName app)) with
  | .error (.notFound _) => pure (missing app "router deployment",.done .empty)
  | .error e => pure (app,.failed ("failed to query the underlying router deployment status: " ++ quote e.text))
  | .ok deployment =>
    let app := { app with status := { app.status with router := deployment.status } }
    let replicas := enforcedRouterReplicas app
    if deployment.replicas.isSome ∧ deployment.replicas ≠ some replicas then do
      match ← request (.update .deployment { deployment with replicas := some replicas }) with
      | .error e => pure (app,.failed ("failed to update router deployment: " ++ quote e.text))
      | .ok _ => pure (app,.done .empty)
    else pure (app,.done .empty)

def sync (app : ArksDisaggregatedApplication) : KubeAction (ArksDisaggregatedApplication × Outcome) := do
  match ← syncWorkload .prefill app with
  | .stop app outcome => pure (app,outcome)
  | .next app =>
    match ← syncWorkload .decode app with
    | .stop app outcome => pure (app,outcome)
    | .next app => syncRouter app

end Disaggregated

section
open Disaggregated
variable (p : Platform)

/-- The result of a successful pass is dropped. -/
def arksDisaggregatedApplicationReconciler : Reconciler .disaggregated where
  toFields := fields
  defaulted app := { app with spec := { app.spec with runtime := if app.spec.runtime = "" then "sglang" else app.spec.runtime } }
  modelName app := app.spec.model
  checks app := (unsupported app.spec.runtime ["sglang"]).or
    ((checkApplicationVolumes app.spec.prefill).or (checkApplicationVolumes app.spec.decode))
  start app model := start p app model
  sync app := sync app
  children app :=
    [(.service,Workloads.Disaggregated.generateApplicationServiceName app,
        "application router service (" ++ Workloads.Disaggregated.generateApplicationServiceName app ++ ")"),
      (.lws,prefillName app,"underlying prefill LWS"),(.lws,decodeName app,"underlying decode LWS"),
      (.deployment,routerName app,"underlying router deployment")]
  finish _ := .empty
  progress_defaulted _ := rfl
  meta_defaulted _ := rfl

end
end Arks.Applications
