import Arks.Passes

/-!
The reconciler of the models. A pass sees to the claim that stores the model, runs
a pod that downloads it, and announces the model when it is loaded. The runs of a
pass are laid out exit by exit, as those of the applications are.
-/
namespace Arks.Models
open Programs Programs.Prog Api Kube Controllers Workloads Passes

def arksModelControllerFinalizer : String := "model.arks.ai/controller"

/-! ### Phase and conditions -/

/-- `checkModelCondition`. -/
def checkModelCondition (model : ArksModel) (type : ArksModelConditionType) : Bool :=
  checkCondition model.status.conditions type

/-- `updateModelCondition`. -/
def updateModelCondition (model : ArksModel) (type : ArksModelConditionType) (status : ConditionStatus)
    (reason message : String) : ArksModel :=
  { model with status := { model.status with conditions := updateCondition model.status.conditions type status reason message } }

def setPhase (model : ArksModel) (phase : ArksModelPhase) : ArksModel :=
  { model with status := { model.status with phase := some phase } }

/-- `initializeModelCondition`; no conditions are nil conditions. -/
def initializeModelCondition (model : ArksModel) : ArksModel :=
  if model.status.conditions ≠ [] then model
  else { model with status := { model.status with conditions :=
    [⟨.storageCreated,.isFalse,"NewIncomming","Wait the controller to prepare the storage"⟩,
      ⟨.modelLoaded,.isFalse,"NewIncomming","Wait the controller to load the model"⟩,
      ⟨.ready,.isFalse,"NewIncomming","Wait the controller to check the model status"⟩] } }

section Conditions
variable (model : ArksModel) (type other : ArksModelConditionType) (status : ConditionStatus) (reason message : String)

@[simp] theorem check_update : checkModelCondition (updateModelCondition model type status reason message) other =
    if other = type then decide (status = .isTrue) else checkModelCondition model other := by
  by_cases same : other = type
  · subst same
    simp [checkModelCondition,updateModelCondition]
  · simp [checkModelCondition,updateModelCondition,check_update_other,same]

@[simp] theorem check_setPhase (phase : ArksModelPhase) : checkModelCondition
    (setPhase model phase) other = checkModelCondition model other :=
  rfl

@[simp] theorem check_initialized : checkModelCondition
    (initializeModelCondition model) other = checkModelCondition model other := by
  by_cases empty : model.status.conditions = []
  · cases other <;> simp [initializeModelCondition,checkModelCondition,checkCondition,empty]
  · simp [initializeModelCondition,empty]

@[simp] theorem initialize_spec : (initializeModelCondition model).spec = model.spec := by
  unfold initializeModelCondition
  split <;> rfl

@[simp] theorem initialize_meta : (initializeModelCondition model).toObjectMeta = model.toObjectMeta := by
  unfold initializeModelCondition
  split <;> rfl

end Conditions

/-! ### The storage -/

/-- The name of the claim: the one that is given, or that of the model. -/
def storagePvcName (model : ArksModel) (pvc : ArksModelStoragePVC) : String :=
  if pvc.name = "" then model.name.val else pvc.name

/-- The claim that `reconcile` creates. -/
def storagePvc (model : ArksModel) (pvc : ArksModelStoragePVC) : PersistentVolumeClaim where
  namespace_ := model.namespace_
  name := storagePvcName model pvc
  labels := [(arksControllerKeyModel,model.name.val)]
  spec := pvc.spec

/-- What errors call the claim: by the name that is given, which may be empty. -/
def volumeText (model : ArksModel) (pvc : ArksModelStoragePVC) : String :=
  "(" ++ model.namespace_.val ++ "/" ++ pvc.name ++ ")"

/-- What the ladder of the claim does to the model. -/
def afterStorage (model : ArksModel) (pvc : ArksModelStoragePVC) : Ensured → Flow (ArksModel × String)
  | .createFailed e => .stop (updateModelCondition model .storageCreated .isFalse "BoundFailed"
        ("Failed to create storage volume " ++ volumeText model pvc ++ ": " ++ quote e.text),"")
      (.failed ("failed to create storage volume " ++ volumeText model pvc ++ ": " ++ quote e.text))
  | .checkFailed e =>
    .stop (model,"") (.failed ("failed to check storage volume " ++ volumeText model pvc ++ " : " ++ quote e.text))
  | _ => .next (updateModelCondition model .storageCreated .isTrue "CreateSucceeded"
      ("Create model storage successfully(" ++ pvc.name ++ ")"),storagePvcName model pvc)

/-- See to the claim. The variable for its name stays empty when the storage was there before the pass. -/
def prepareStorage (model : ArksModel) : KubeAction (Flow (ArksModel × String)) :=
  match model.spec.storage with
  | none => pure (.stop (model,"") .panicked)
  | some storage =>
    match storage.pvc with
    | none => pure (.stop (updateModelCondition (setPhase model .failed) .storageCreated .isFalse "CreateFailed"
        "Failed to create model storage: no storage PVC specified","") (.done .empty))
    | some pvc =>
      if checkModelCondition model .storageCreated then pure (.next (model,""))
      else do
        let model := setPhase model .storageCreating
        let ensured ← ensure .pvc model.namespace_ (storagePvcName model pvc) (pure (.object (storagePvc model pvc)))
        pure (afterStorage model pvc ensured)

/-! ### The worker pod -/

section Worker
variable (p : Platform)

def getScriptsImage : String := p.image "ARKS_SCRIPTS_IMAGE" "scitixai/arks-scripts:latest"

def generateWorkerPodName (model : ArksModel) : String := "arks-worker-" ++ model.name.val

theorem generateWorkerPodName_eq (model : ArksModel) : generateWorkerPodName model = "arks-worker-" ++ model.name.val := rfl

/-- The message of the first container that waits or has ended. -/
def failureMessage : List ContainerState → String
  | [] => "Unknown failure reason"
  | .waiting message :: _ => message
  | .terminated message :: _ => message
  | .running :: states => failureMessage states

def getJobFailureMessage (workerPod : Pod) : String := failureMessage workerPod.containerStatuses

def workerEnv (model : ArksModel) (source : ArksModelSourceHuggingFace) (path : String) : List EnvVar :=
  [⟨"MODEL_NAME",model.spec.model,none⟩,⟨"MODEL_PATH",path,none⟩] ++
    match source.tokenSecretRef with
    | none => []
    | some name => [⟨"HF_TOKEN","",some (.secretKeyRef name "HF_TOKEN")⟩]

/-- The pod that `reconcile` creates. -/
def workerPod (model : ArksModel) (source : ArksModelSourceHuggingFace) (path claimName : String) : Pod where
  namespace_ := model.namespace_
  name := generateWorkerPodName model
  labels := [(arksControllerKeyModel,model.name.val)]
  template :=
    { labels := []
      serviceAccountName := model.spec.instanceSpec.serviceAccountName
      container := "worker"
      image := getScriptsImage p
      command := ["/bin/bash","-c","python3 /scripts/download.py"]
      env := workerEnv model source path
      ports := []
      volumeMounts := [⟨arksApplicationModelVolumeName,arksApplicationModelVolumeMountPath,false⟩]
      volumes := [⟨arksApplicationModelVolumeName,.persistentVolumeClaim claimName⟩] }
  phase := .pending
  containerStatuses := []

/-- The pod exists now, or could not be created. -/
def afterWorker (model : ArksModel) : Except ApiErr Unit → Flow ArksModel
  | .ok _ | .error (.alreadyExists _) =>
    .stop (updateModelCondition (setPhase model .modelLoading) .modelLoaded .isFalse "ModelLoading" "The model is loading now")
      (.done .empty)
  | .error e =>
    .stop (updateModelCondition (setPhase model .modelLoading) .modelLoaded .isFalse "CreateWorkerPodFailed"
        ("Failed to create worker pod to load model: " ++ quote e.text))
      (.failed ("failed to create worker pod to load model: " ++ quote e.text))

/-- The model, once its worker pod is known. -/
def observeWorker (model : ArksModel) (worker : Pod) : Flow ArksModel :=
  match worker.phase with
  | .failed => .stop (updateModelCondition (setPhase model .failed) .modelLoaded .isFalse "ModelLoadFailed"
      ("Failed to load the model: " ++ getJobFailureMessage worker)) (.done .empty)
  | .succeeded => .next (updateModelCondition model .modelLoaded .isTrue "ModelLoadSucceeded" "Load the model successfully")
  | _ => .stop model (.done .empty)

/-- Load the model from its source. The path of the model is computed before it is known
    that the pod is missing. -/
def loadHuggingface (model : ArksModel) (source : ArksModelSourceHuggingFace) (claimName : String) : KubeAction
    (Flow ArksModel) := do
  match ← request (.get .pod model.namespace_ (generateWorkerPodName model)) with
  | .ok worker => pure (observeWorker model worker)
  | .error e =>
    match generateModelPath model,e with
    | .object path,.notFound _ => do
      let created ← request (.create .pod (workerPod p model source path claimName))
      pure (afterWorker model created)
    | .object _,e => pure (.stop model (.failed ("failed to query worker pod for loading model: " ++ quote e.text)))
    | _,_ => pure (.stop model .panicked)

/-- A source that names no registry loads nothing, and the pass goes on. -/
def loadModel (model : ArksModel) (claimName : String) : KubeAction (Flow ArksModel) :=
  if checkModelCondition model .modelLoaded then pure (.next model)
  else
    match model.spec.source with
    | none =>
      pure (.next (updateModelCondition model .modelLoaded .isTrue "ModelLoadSucceeded" "The model is in existing storage"))
    | some source =>
      match source.huggingface with
      | none => pure (.next model)
      | some source => loadHuggingface p model source claimName

/-- Announce the model. -/
def announceModel (model : ArksModel) : ArksModel :=
  if checkModelCondition model .ready then model
  else updateModelCondition (setPhase model .ready) .ready .isTrue "Ready" "The model is ready now"

/-! ### The pass -/

/-- The model with the finalizer. -/
def finalizing (model : ArksModel) : ArksModel :=
  { model with toObjectMeta := addFinalizer model.toObjectMeta arksModelControllerFinalizer }

/-- The pass from the storage on. -/
def provide (model : ArksModel) : KubeAction (ArksModel × Outcome) := do
  match ← prepareStorage model with
  | .stop (model,_) outcome => pure (model,outcome)
  | .next (model,claimName) =>
    match ← loadModel p model claimName with
    | .stop model outcome => pure (model,outcome)
    | .next model => pure (announceModel model,.done .empty)

def reconcile (model : ArksModel) : KubeAction (ArksModel × Outcome) :=
  if model.deletionTimestamp.isSome then pure (model,.done ⟨true,0⟩)
  else if model.status.phase = some .ready ∨ model.status.phase = some .failed then pure (model,.done .empty)
  else if !hasFinalizer model.toObjectMeta arksModelControllerFinalizer then do
    match ← request (.update .model (finalizing model)) with
    | .error e => pure (finalizing model,.failed ("failed to add model finalizer: " ++ quote e.text))
    -- the client replaces the object by the stored one
    | .ok stored => pure (stored,.done ⟨true,0⟩)
  else provide p (initializeModelCondition model)

/-- Remove the finalizer. -/
def release (model : ArksModel) : KubeAction Outcome := do
  match ← request (.update .model { model with toObjectMeta := removeFinalizer model.toObjectMeta arksModelControllerFinalizer }) with
  | .error e => pure (.failed ("failed to remove model finalizer: " ++ quote e.text))
  | .ok _ => pure (.done .empty)

/-- A worker pod that cannot be deleted ends the pass without an error. -/
def remove (model : ArksModel) : KubeAction Outcome :=
  if model.deletionTimestamp.isNone then pure (.done ⟨true,0⟩)
  else
    match model.spec.source.bind ArksModelSource.huggingface with
    | none => release model
    | some _ => do
      match ← request (.delete .pod model.namespace_ (generateWorkerPodName model)) with
      | .ok _ => release model
      | .error (.notFound _) => release model
      | .error _ => pure (.done .empty)

/-- `Reconcile`; the result of a successful pass is dropped. -/
def reconcileRequest (namespace_ name : String) : KubeAction Outcome :=
  Controllers.reconcileRequest .model ArksModel.toObjectMeta "" (fun _ => .empty) remove (reconcile p) namespace_ name

end Worker

/-! ### The runs of a pass -/

section Runs
variable {p : Platform} {model : ArksModel} {calls : List KubeCall} {outcome : Outcome}

variable (model) in
/-- The runs of `prepareStorage`. -/
inductive Prepared : List KubeCall → Flow (ArksModel × String) → Prop
  | unspecified : model.spec.storage = none → Prepared [] (.stop (model,"") .panicked)
  | claimless {storage : ArksModelStorage} : model.spec.storage = some storage → storage.pvc = none →
      Prepared [] (.stop (updateModelCondition (setPhase model .failed) .storageCreated .isFalse "CreateFailed"
        "Failed to create model storage: no storage PVC specified","") (.done .empty))
  | already {storage : ArksModelStorage} {pvc : ArksModelStoragePVC} : model.spec.storage = some storage →
      storage.pvc = some pvc → checkModelCondition model .storageCreated = true → Prepared [] (.next (model,""))
  | ensured {storage : ArksModelStorage} {pvc : ArksModelStoragePVC} {calls : List KubeCall} {ensured : Ensured} :
      model.spec.storage = some storage → storage.pvc = some pvc → checkModelCondition model .storageCreated = false →
      Ladder .pvc model.namespace_ (storagePvcName model pvc) (pure (.object (storagePvc model pvc))) calls ensured →
      Prepared calls (afterStorage (setPhase model .storageCreating) pvc ensured)

theorem prepareStorage_runs {flow : Flow (ArksModel × String)} (run : Runs (prepareStorage model) calls flow) :
    Prepared model calls flow := by
  unfold prepareStorage at run
  cases storage : model.spec.storage with
  | none =>
    rw [storage] at run
    obtain ⟨rfl,rfl⟩ := runs_ret.mp run
    exact .unspecified storage
  | some storage' =>
    rw [storage] at run
    simp only at run
    cases claim : storage'.pvc with
    | none =>
      rw [claim] at run
      obtain ⟨rfl,rfl⟩ := runs_ret.mp run
      exact .claimless storage claim
    | some pvc =>
      rw [claim] at run
      simp only at run
      split at run
      · obtain ⟨rfl,rfl⟩ := runs_ret.mp run
        exact .already storage claim ‹_›
      · rename_i uncreated
        obtain ⟨ensured,first,rest,rfl,ladder,later⟩ := runs_bind.mp run
        obtain ⟨rfl,rfl⟩ := runs_ret.mp later
        rw [List.append_nil]
        exact .ensured storage claim (by simpa using uncreated) (ensure_runs ladder)

variable (p model) in
/-- The runs of `loadModel`, which is told the name of the claim. -/
inductive Loaded (claimName : String) : List KubeCall → Flow ArksModel → Prop
  | already : checkModelCondition model .modelLoaded = true → Loaded claimName [] (.next model)
  | stored : checkModelCondition model .modelLoaded = false → model.spec.source = none → Loaded claimName []
      (.next (updateModelCondition model .modelLoaded .isTrue "ModelLoadSucceeded" "The model is in existing storage"))
  | sourceless {source : ArksModelSource} : checkModelCondition model .modelLoaded = false → model.spec.source = some source →
      source.huggingface = none → Loaded claimName [] (.next model)
  | observed {source : ArksModelSource} {hub : ArksModelSourceHuggingFace} (worker : Pod) :
      checkModelCondition model .modelLoaded = false → model.spec.source = some source → source.huggingface = some hub →
      Loaded claimName [⟨.get .pod model.namespace_ (generateWorkerPodName model),.ok worker⟩] (observeWorker model worker)
  | created {source : ArksModelSource} {hub : ArksModelSourceHuggingFace} {path : String} (message : String)
      (reply : Except ApiErr Unit) : checkModelCondition model .modelLoaded = false → model.spec.source = some source →
      source.huggingface = some hub → generateModelPath model = .object path →
      Loaded claimName [⟨.get .pod model.namespace_ (generateWorkerPodName model),.error (.notFound message)⟩,
        ⟨.create .pod (workerPod p model hub path claimName),reply⟩] (afterWorker model reply)
  | unread {source : ArksModelSource} {hub : ArksModelSourceHuggingFace} (e : ApiErr) :
      checkModelCondition model .modelLoaded = false → model.spec.source = some source → source.huggingface = some hub →
      (outcome : Outcome) → (outcome = .panicked ∨ ∃ text, outcome = .failed text) →
      Loaded claimName [⟨.get .pod model.namespace_ (generateWorkerPodName model),.error e⟩] (.stop model outcome)

private theorem loadModel_runs {claimName : String} {flow : Flow ArksModel}
    (run : Runs (loadModel p model claimName) calls flow) :
    Loaded p model claimName calls flow := by
  unfold loadModel at run
  split at run
  · obtain ⟨rfl,rfl⟩ := runs_ret.mp run
    exact .already ‹_›
  rename_i loading
  have loading : checkModelCondition model .modelLoaded = false := by simpa using loading
  cases from_ : model.spec.source with
  | none =>
    rw [from_] at run
    obtain ⟨rfl,rfl⟩ := runs_ret.mp run
    exact .stored loading from_
  | some source =>
    rw [from_] at run
    simp only at run
    cases registry : source.huggingface with
    | none =>
      rw [registry] at run
      obtain ⟨rfl,rfl⟩ := runs_ret.mp run
      exact .sourceless loading from_ registry
    | some hub =>
      rw [registry] at run
      simp only [loadHuggingface,issue_bind,runs_call] at run
      obtain ⟨read,rest,rfl,later⟩ := run
      cases read with
      | ok worker =>
        obtain ⟨rfl,rfl⟩ := runs_ret.mp later
        exact .observed worker loading from_ registry
      | error e =>
        cases path : generateModelPath model with
        | object text =>
          cases e with
          | notFound message =>
            simp only [path,runs_call] at later
            obtain ⟨reply,last,rfl,ended⟩ := later
            obtain ⟨rfl,rfl⟩ := runs_ret.mp ended
            exact .created message reply loading from_ registry path
          | alreadyExists | other =>
            simp only [path] at later
            obtain ⟨rfl,rfl⟩ := runs_ret.mp later
            exact .unread _ loading from_ registry _ (.inr ⟨_,rfl⟩)
        | failed | panicked =>
          simp only [path] at later
          obtain ⟨rfl,rfl⟩ := runs_ret.mp later
          exact .unread _ loading from_ registry _ (.inl rfl)

variable (p model) in
/-- The runs of `provide`. -/
inductive Provided : List KubeCall → ArksModel × Outcome → Prop
  | unprepared {calls : List KubeCall} {model' : ArksModel} {claimName : String} {outcome : Outcome} :
      Prepared model calls (.stop (model',claimName) outcome) → Provided calls (model',outcome)
  | stopped {first rest : List KubeCall} {model₁ model₂ : ArksModel} {claimName : String} {outcome : Outcome} :
      Prepared model first (.next (model₁,claimName)) → Loaded p model₁ claimName rest (.stop model₂ outcome) →
      Provided (first ++ rest) (model₂,outcome)
  | announced {first rest : List KubeCall} {model₁ model₂ : ArksModel} {claimName : String} :
      Prepared model first (.next (model₁,claimName)) → Loaded p model₁ claimName rest (.next model₂) →
      Provided (first ++ rest) (announceModel model₂,.done .empty)

theorem provide_runs {result : ArksModel × Outcome}
    (run : Runs (provide p model) calls result) : Provided p model calls result := by
  obtain ⟨prepared,first,rest,rfl,run₁,later⟩ := runs_bind.mp run
  have prepares := prepareStorage_runs run₁
  cases prepared with
  | stop stopped outcome =>
    obtain ⟨rfl,rfl⟩ := runs_ret.mp later
    rw [List.append_nil]
    exact .unprepared prepares
  | next goes =>
    obtain ⟨model₁,claimName⟩ := goes
    obtain ⟨loaded,second,rest,rfl,run₂,last⟩ := runs_bind.mp later
    have loads := loadModel_runs run₂
    cases loaded with
    | stop model₂ outcome =>
      obtain ⟨rfl,rfl⟩ := runs_ret.mp last
      rw [List.append_nil]
      exact .stopped prepares loads
    | next model₂ =>
      obtain ⟨rfl,rfl⟩ := runs_ret.mp last
      rw [List.append_nil]
      exact .announced prepares loads

variable (p model) in
/-- The runs of `reconcile`. -/
inductive Reconciled : List KubeCall → ArksModel × Outcome → Prop
  | deleting : model.deletionTimestamp.isSome → Reconciled [] (model,.done ⟨true,0⟩)
  | settled : (model.status.phase = some .ready ∨ model.status.phase = some .failed) → Reconciled [] (model,.done .empty)
  | unfinalized (e : ApiErr) : Reconciled [⟨.update .model (finalizing model),.error e⟩]
      (finalizing model,.failed ("failed to add model finalizer: " ++ quote e.text))
  | finalized (stored : ArksModel) : Reconciled [⟨.update .model (finalizing model),.ok stored⟩] (stored,.done ⟨true,0⟩)
  | provided {calls : List KubeCall} {result : ArksModel × Outcome} :
      ¬ (model.status.phase = some .ready ∨ model.status.phase = some .failed) →
      arksModelControllerFinalizer ∈ model.finalizers → Provided p (initializeModelCondition model) calls result →
      Reconciled calls result

theorem reconcile_runs {result : ArksModel × Outcome}
    (run : Runs (reconcile p model) calls result) : Reconciled p model calls result := by
  unfold reconcile at run
  split at run
  · obtain ⟨rfl,rfl⟩ := runs_ret.mp run
    exact .deleting ‹_›
  split at run
  · obtain ⟨rfl,rfl⟩ := runs_ret.mp run
    exact .settled ‹_›
  split at run
  · obtain ⟨written,rest,rfl,ended⟩ := runs_call.mp run
    cases written with
    | error e =>
      obtain ⟨rfl,rfl⟩ := runs_ret.mp ended
      exact .unfinalized e
    | ok stored =>
      obtain ⟨rfl,rfl⟩ := runs_ret.mp ended
      exact .finalized stored
  · rename_i carried
    exact .provided ‹_› (by simpa using carried) (provide_runs run)

end Runs

/-! ### What a pass calls -/

section Calls
variable {p : Platform} {answers : (op : KubeOp) → KubeReply op → Prop} {P : KubeOp → Prop} {A B : ArksModel → Prop}
  {model : ArksModel}

/-- What the stages call when a pass goes on with models in `A`, whatever their status, and leaves such as are in `B`. -/
structure Stays (p : Platform) (answers : (op : KubeOp) → KubeReply op → Prop) (P : KubeOp → Prop) (A B : ArksModel → Prop) :
    Prop where
  rests : ∀ model, A model → B model
  revised : ∀ model status, A model → A { model with status := status }
  added : ∀ model finalizer, A model → A { model with toObjectMeta := addFinalizer model.toObjectMeta finalizer }
  removed : ∀ model finalizer, A model → A { model with toObjectMeta := removeFinalizer model.toObjectMeta finalizer }
  update : ∀ model, A model → P (.update .model model)
  updated : ∀ model stored, A model → answers (.update .model model) (.ok stored) → B stored
  status : ∀ model, B model → P (.updateStatus .model model)
  claim : ∀ model pvc, A model → P (.get .pvc model.namespace_ (storagePvcName model pvc)) ∧
    P (.create .pvc (storagePvc model pvc))
  worker : ∀ model, A model → P (.get .pod model.namespace_ (generateWorkerPodName model)) ∧
    P (.delete .pod model.namespace_ (generateWorkerPodName model)) ∧
    ∀ hub path claimName, P (.create .pod (workerPod p model hub path claimName))

private theorem afterStorage_stays (stays : Stays p answers P A B) (goes : A model) (pvc : ArksModelStoragePVC)
    (ensured : Ensured) :
    A (afterStorage model pvc ensured).object.1 := by
  cases ensured with
  | checkFailed => exact goes
  | createFailed | present | panicked | generateFailed => exact stays.revised model _ goes

private theorem prepareStorage_stays (stays : Stays p answers P A B) (goes : A model) :
    Within answers P (fun flow => A flow.object.1) (prepareStorage model) := by
  unfold prepareStorage
  cases model.spec.storage with
  | none => exact goes
  | some storage =>
    simp only
    cases storage.pvc with
    | none => exact stays.revised model _ goes
    | some pvc =>
      simp only
      split
      · exact goes
      · have creating : A (setPhase model .storageCreating) := stays.revised model _ goes
        refine within_bind (ensure_within (stays.claim _ pvc creating).1 (fun o generated => ?_))
          (fun ensured _ => afterStorage_stays stays creating pvc ensured)
        cases generated
        exact (stays.claim _ pvc creating).2

private theorem observeWorker_stays (stays : Stays p answers P A B) (goes : A model) (worker : Pod) :
    A (observeWorker model worker).object := by
  unfold observeWorker
  split
  · exact stays.revised model _ goes
  · exact stays.revised model _ goes
  · exact goes

private theorem afterWorker_stays (stays : Stays p answers P A B) (goes : A model) (created : Except ApiErr Unit) :
    A (afterWorker model created).object := by
  unfold afterWorker
  split <;> exact stays.revised model _ goes

private theorem loadModel_stays (stays : Stays p answers P A B) (goes : A model) (claimName : String) :
    Within answers P (fun flow => A flow.object) (loadModel p model claimName) := by
  unfold loadModel
  split
  · exact goes
  cases model.spec.source with
  | none => exact stays.revised model _ goes
  | some source =>
    simp only
    cases source.huggingface with
    | none => exact goes
    | some hub =>
      simp only [loadHuggingface,issue_bind,within_call]
      refine ⟨(stays.worker model goes).1,fun read _ => ?_⟩
      cases read with
      | ok worker => exact observeWorker_stays stays goes worker
      | error e =>
        cases generateModelPath model with
        | failed | panicked => cases e <;> exact goes
        | object path =>
          cases e with
          | notFound =>
            exact ⟨(stays.worker model goes).2.2 hub path claimName,fun created _ => afterWorker_stays stays goes created⟩
          | alreadyExists | other => exact goes

private theorem provide_stays (stays : Stays p answers P A B) (goes : A model) :
    Within answers P (fun result => B result.1) (provide p model) := by
  refine within_bind (prepareStorage_stays stays goes) (fun flow kept => ?_)
  cases flow with
  | stop stopped => exact stays.rests stopped.1 kept
  | next goes =>
    refine within_bind (loadModel_stays stays kept goes.2) (fun flow kept => ?_)
    cases flow with
    | stop stopped => exact stays.rests stopped kept
    | next loaded =>
      refine stays.rests _ (?_ : A (announceModel loaded))
      unfold announceModel
      split
      · exact kept
      · exact stays.revised loaded _ kept

theorem reconcile_stays (stays : Stays p answers P A B) (goes : A model) :
    Within answers P (fun result => P (.updateStatus .model result.1)) (reconcile p model) := by
  have unchanged : P (.updateStatus .model model) := stays.status model (stays.rests model goes)
  unfold reconcile
  split
  · exact unchanged
  split
  · exact unchanged
  split
  · have sent : A (finalizing model) := stays.added model _ goes
    refine ⟨stays.update _ sent,fun reply told => ?_⟩
    cases reply with
    | error => exact stays.status _ (stays.rests _ sent)
    | ok stored => exact stays.status stored (stays.updated _ stored sent told)
  · have initialized : A (initializeModelCondition model) := by
      unfold initializeModelCondition
      split
      · exact goes
      · exact stays.revised model _ goes
    exact within_mono (provide_stays stays initialized) (fun _ is => is) (fun result is => stays.status _ is)

theorem remove_stays (stays : Stays p answers P A B) (goes : A model) : Within answers P (fun _ => True) (remove model) := by
  have release : Within answers P (fun _ => True) (release model) :=
    ⟨stays.update _ (stays.removed model _ goes),fun reply _ => by cases reply <;> trivial⟩
  unfold remove
  split
  · trivial
  cases model.spec.source.bind ArksModelSource.huggingface with
  | none => exact release
  | some =>
    refine ⟨(stays.worker model goes).2.1,fun reply _ => ?_⟩
    rcases reply with (_ | _ | _) | _
    · exact release
    · trivial
    · trivial
    · exact release

/-- What the pass over a request calls. -/
theorem request_stays (stays : Stays p answers P A B) {namespace_ name : String} (get : P (.get .model namespace_ name))
    (read : ∀ model, answers (.get .model namespace_ name) (.ok model) → A model) :
    Within answers P (fun _ => True) (reconcileRequest p namespace_ name) :=
  request_within get (fun model told => remove_stays stays (read model told))
    (fun model told => reconcile_stays stays (read model told))

end Calls

/-! ### A sample -/

/-- A model `chat` that is downloaded into a claim of its own name. -/
def hubModel (deletionTimestamp : Option Int) (status : ArksModelStatus) : ArksModel where
  namespace_ := .teamA
  name := .chat
  uid := "1"
  resourceVersion := 1
  finalizers := [arksModelControllerFinalizer]
  deletionTimestamp := deletionTimestamp
  spec := { (default : ArksModelSpec) with source := some ⟨some ⟨none⟩⟩,storage := some ⟨some ⟨"",""⟩,""⟩ }
  status := status

end Arks.Models
