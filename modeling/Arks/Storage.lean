import Arks.DownloadPods

/-!
Where a model is stored, as its own reconciler sees it and as the applications do. The
reconciler of the models looks up or creates a claim, which is called after the model
when no name is given, and tells the download pod a path. The generators of the
applications derive the claim and the path again. The paths agree, and so do the claims
when a name is given.
-/
namespace Arks.Storage
open Programs Programs.Prog Api Kube Controllers Workloads Passes Models DownloadPods

/-! ### The reconciler of the models -/

/-- A version of the model: its status and the rest of its metadata may differ. -/
structure Version (model version : ArksModel) : Prop where
  spec : version.spec = model.spec
  namespace_ : version.namespace_ = model.namespace_
  name : version.name = model.name

/-- A pass over a version of the model makes the call. -/
def Calls (p : Platform) (model : ArksModel) (op : KubeOp) : Prop :=
  ∃ version calls result reply, Version model version ∧ Runs (reconcile p version) calls result ∧ (⟨op,reply⟩ : KubeCall) ∈ calls

/-- The claims that the reconciler looks up or creates for the model. -/
def Claims (p : Platform) (model : ArksModel) (claim : String) : Prop :=
  Calls p model (.get .pvc model.namespace_ claim) ∨
    ∃ pvc : PersistentVolumeClaim, pvc.name = claim ∧ Calls p model (.create .pvc pvc)

/-- The path that a pod is told. -/
def modelPath (pod : Pod) : Option String := (pod.template.env.find? (fun var => var.name = "MODEL_PATH")).map EnvVar.value

/-- What the calls of a pass say about the storage. -/
def Stores (model : ArksModel) : KubeOp → Prop
  | .get .pvc _ claim => ∀ pvc, HasClaim model pvc → claim = storagePvcName model pvc
  | .create .pvc made => ∀ pvc, HasClaim model pvc → made.name = storagePvcName model pvc
  | .create .pod pod => ∃ path, generateModelPath model = .object path ∧ modelPath pod = some path
  | _ => True

section Passes
variable {p : Platform} {model version : ArksModel} {pvc : ArksModelStoragePVC}

private theorem hasClaim_unique {other : ArksModelStoragePVC} (claim : HasClaim model pvc)
    (again : HasClaim model other) : pvc = other := by
  obtain ⟨storage,stored,given⟩ := claim
  obtain ⟨_,stored',given'⟩ := again
  cases stored.symm.trans stored'
  cases given.symm.trans given'
  rfl

private theorem prepareStorage_stores : Issues (Stores model) (fun flow => ∀ m claim, flow = .next (m,claim) →
    Version model m) (prepareStorage model) := by
  unfold prepareStorage
  split
  · exact fun _ _ wrong => by cases wrong
  rename_i storage stored
  split
  · exact fun _ _ wrong => by cases wrong
  rename_i pvc given
  have only : ∀ other, HasClaim model other → storagePvcName model pvc = storagePvcName model other :=
    fun other again => by rw [hasClaim_unique ⟨storage,stored,given⟩ again]
  split
  · rintro m claim same
    cases same
    exact ⟨rfl,rfl,rfl⟩
  · refine within_bind (ensure_within only (fun made generated => ?_)) (fun ensured _ m claim same => ?_)
    · cases generated
      exact only
    · cases ensured with
      | present | panicked | generateFailed =>
        cases same
        exact ⟨rfl,rfl,rfl⟩
      | createFailed | checkFailed => cases same

theorem stores_version {op : KubeOp} (is : Version model version) (stores : Stores version op) : Stores model op := by
  have path : generateModelPath version = generateModelPath model := by
    simp only [generateModelPath,is.spec,is.namespace_,is.name]
  unfold Stores at stores ⊢
  split
  · simpa only [HasClaim,storagePvcName,is.spec,is.name] using stores
  · simpa only [HasClaim,storagePvcName,is.spec,is.name] using stores
  · simpa only [path] using stores
  · trivial

private theorem loadModel_stores (claimName : String) :
    Issues (Stores model) (fun _ => True) (loadModel p model claimName) := by
  unfold loadModel
  split
  · trivial
  split
  · trivial
  split
  · trivial
  refine ⟨trivial,fun read _ => ?_⟩
  cases read with
  | ok worker => trivial
  | error e =>
    simp only [Prog.bind]
    cases path : generateModelPath model with
    | object text =>
      cases e with
      | notFound message => exact ⟨⟨text,path,rfl⟩,fun reply _ => trivial⟩
      | alreadyExists | other => trivial
    | failed | panicked => trivial

private theorem provide_stores : Issues (Stores model) (fun _ => True) (provide p model) := by
  refine within_bind prepareStorage_stores (fun prepared goes => ?_)
  cases prepared with
  | stop => trivial
  | next made =>
    obtain ⟨after,claimName⟩ := made
    refine within_bind (within_mono (loadModel_stores claimName)
      (fun _ => stores_version (goes after claimName rfl)) (fun _ _ => trivial)) (fun loaded _ => ?_)
    cases loaded <;> trivial

/-- The claim and the path in the calls of a pass are those of the model. -/
theorem reconcile_stores : Issues (Stores model) (fun _ => True) (reconcile p model) := by
  unfold reconcile
  split
  · trivial
  split
  · trivial
  split
  · refine ⟨trivial,fun reply _ => ?_⟩
    cases reply <;> trivial
  · have same : Version model (initializeModelCondition model) := ⟨by simp,by simp,by simp⟩
    exact within_mono provide_stores (fun _ => stores_version same) (fun _ _ => trivial)

theorem calls_stores {op : KubeOp} (makes : Calls p model op) : Stores model op := by
  obtain ⟨version,calls,result,reply,is,run,made⟩ := makes
  exact stores_version is ((runs_within reconcile_stores run).1 _ made)

/-- The first pass over a model with a claim looks the claim up. -/
theorem reconcile_claims (p : Platform) (claim : HasClaim model pvc) :
    Calls p model (.get .pvc model.namespace_ (storagePvcName model pvc)) := by
  obtain ⟨storage,stored,given⟩ := claim
  let fresh : ArksModel :=
    { model with deletionTimestamp := none,finalizers := [arksModelControllerFinalizer],status := ⟨none,[]⟩ }
  refine ⟨fresh,_,_,.error (.other ""),⟨rfl,rfl,rfl⟩,runs_replay (fun _ => .error (.other "")) (reconcile p fresh),?_⟩
  simp [reconcile,fresh,provide,prepareStorage,initializeModelCondition,hasFinalizer,stored,given,checkModelCondition,
    checkCondition,ensure]
  exact .head _

theorem claims_iff (claim : HasClaim model pvc) (name : String) : Claims p model name ↔ name = storagePvcName model pvc := by
  constructor
  · rintro (makes | ⟨made,rfl,makes⟩)
    · exact calls_stores makes pvc claim
    · exact calls_stores makes pvc claim
  · rintro rfl
    exact .inl (reconcile_claims p claim)

end Passes

/-! ### The generators of the applications -/

def templateOf (lws : LeaderWorkerSet) : WorkLoadRole → PodTemplate
  | .leader => lws.leaderTemplate
  | .worker => lws.workerTemplate

/-- The claim of the volume `models`. -/
def modelVolume (template : PodTemplate) : Option String :=
  (template.volumes.find? (fun volume => volume.name = arksApplicationModelVolumeName)).bind (fun volume =>
    match volume.source with
    | .persistentVolumeClaim claimName => some claimName
    | .other _ => none)

/-- The flag in front of the path of the model in a generated command, and the flag behind it. There is no
    path in the other commands. -/
def pathFlags (runtime : String) : WorkLoadRole → Option (String × String)
  | .leader =>
    if runtime = "vllm" then some ("--model","--served-model-name")
    else if runtime = "sglang" then some ("--model-path","--served-model-name")
    else none
  | .worker =>
    if runtime = "sglang" then some ("--model-path","--served-model-name")
    else if runtime = "dynamo" then some ("out=vllm","--model-name")
    else none

/-- The command has the path between the first of its flags and the second. -/
def NamesPath (flags : String × String) (path command : String) : Prop :=
  ∃ launch rest, contains launch (" " ++ flags.1 ++ " ") = false ∧
    command = launch ++ " " ++ flags.1 ++ " " ++ path ++ " " ++ flags.2 ++ " " ++ rest

/-- The generated command of a pod. An overridden one is in the environment. -/
def generatedCommand (override : List String) (template : PodTemplate) : Option String :=
  if override = [] then template.command.getLast? else template.env.getLast?.map EnvVar.value

/-- The leader worker sets that are generated for a model, with the runtime and the commands of the user. -/
inductive Made (p : Platform) (model : ArksModel) : LeaderWorkerSet → String → (WorkLoadRole → List String) → Prop
  | plain {app : ArksApplication} {lws : LeaderWorkerSet} : generateLws p app model = .object lws →
      Made p model lws app.spec.runtime (fun _ => [])
  | disaggregated {app : ArksDisaggregatedApplication} {role : Disaggregated.Role} {lws : LeaderWorkerSet} :
      Disaggregated.generateDisaggregatedLws p app model role = .object lws →
      Made p model lws app.spec.runtime (fun
        | .leader => (role.workload app).leaderCommandOverride
        | .worker => (role.workload app).workerCommandOverride)

section Generators
variable {p : Platform} {model : ArksModel} {pvc : ArksModelStoragePVC} {lws : LeaderWorkerSet} {runtime : String}
  {overrides : WorkLoadRole → List String} {part : WorkLoadRole} {path : String}

theorem modelClaim_given {claimName : String}
    (claim : HasClaim model pvc) : modelClaim model = .object claimName ↔ claimName = pvc.name := by
  obtain ⟨storage,stored,given⟩ := claim
  simp [modelClaim,stored,given,eq_comm]

/-- The applications take the name of the claim as it is given. -/
theorem made_volume (claim : HasClaim model pvc) (made : Made p model lws runtime overrides) :
    modelVolume (templateOf lws part) = some pvc.name := by
  cases made with
  | plain generated =>
    simp only [generateLws,generated_bind,generated_pure] at generated
    obtain ⟨_,_,_,_,_,_,claimName,given,rfl⟩ := generated
    cases (modelClaim_given claim).mp given
    cases part <;> rfl
  | disaggregated generated =>
    simp only [Disaggregated.generateDisaggregatedLws,generated_bind,generated_pure] at generated
    obtain ⟨_,_,_,_,_,_,_,_,claimName,given,rfl⟩ := generated
    cases (modelClaim_given claim).mp given
    cases part <;> rfl

/-! What is appended to a command comes behind the path. -/

variable {flags : String × String} {app : ArksApplication}

theorem namesPath_more {command : String} (names : NamesPath flags path command) (more : String) :
    NamesPath flags path (command ++ more) := by
  obtain ⟨launch,rest,without,rfl⟩ := names
  exact ⟨launch,rest ++ more,without,by simp only [String.append_assoc]⟩

theorem namesPath_appendArgs {command : String} (names : NamesPath flags path command) (more : List String) :
    NamesPath flags path (appendArgs command more) := by
  induction more generalizing command with
  | nil => exact names
  | cons arg more ih =>
    exact ih (namesPath_more (namesPath_more names " ") arg)

theorem namesPath_enableMetrics {command : String} (names : NamesPath flags path command) :
    NamesPath flags path (enableMetrics command) := by
  unfold enableMetrics
  split
  · exact names
  · exact namesPath_more names _

theorem namesPath_modelArgs {launch flag sought : String} (parallelFlag : String)
    (spaced : " " ++ flag ++ " " = sought) (without : contains launch sought = false) :
    NamesPath (flag,"--served-model-name") path (modelArgs app launch path flag parallelFlag) := by
  subst spaced
  have names : NamesPath (flag,"--served-model-name") path
      (launch ++ " " ++ flag ++ " " ++ path ++ " --served-model-name " ++ getServedModelName app) :=
    ⟨launch,getServedModelName app,without,by simp only [String.append_assoc]; rfl⟩
  unfold modelArgs
  split
  · exact namesPath_more (namesPath_more (namesPath_more (namesPath_more names _) _) _) _
  · exact names

private theorem spaced_model : " " ++ "--model" ++ " " = " --model " := rfl
theorem spaced_modelPath : " " ++ "--model-path" ++ " " = " --model-path " := rfl

private theorem leaderCommand_names {command : List String}
    (told : generateModelPath model = .object path) (generated : generateLeaderCommand app model = .object command)
    (has : pathFlags app.spec.runtime .leader = some flags) :
    ∃ text, command.getLast? = some text ∧ NamesPath flags path text := by
  unfold generateLeaderCommand at generated
  unfold pathFlags at has
  split at generated
  · rename_i vllm
    simp only [vllm,if_true,Option.some.injEq] at has
    subst has
    simp only [told,generated_bind,generated_pure,Generated.object.injEq,exists_eq_left'] at generated
    subst generated
    exact ⟨_,rfl,namesPath_appendArgs (namesPath_modelArgs _ spaced_model
      (by exact (contains_ofList_two _ _ _).trans (by decide +kernel))) _⟩
  split at generated
  · rename_i sglang
    simp only [sglang,String.reduceEq,if_false,if_true,Option.some.injEq] at has
    subst has
    simp only [told,generated_bind,generated_pure,Generated.object.injEq,exists_eq_left'] at generated
    subst generated
    exact ⟨_,rfl,namesPath_enableMetrics (namesPath_appendArgs (namesPath_modelArgs _ spaced_modelPath
      (by exact (contains_ofList_two _ _ _).trans (by decide +kernel))) _)⟩
  · simp_all

private theorem workerCommand_names {command : List String}
    (told : generateModelPath model = .object path) (generated : generateWorkerCommand app model = .object command)
    (has : pathFlags app.spec.runtime .worker = some flags) :
    ∃ text, command.getLast? = some text ∧ NamesPath flags path text := by
  unfold generateWorkerCommand at generated
  unfold pathFlags at has
  split at generated
  · simp_all
  split at generated
  · rename_i sglang
    simp only [sglang,if_true,Option.some.injEq] at has
    subst has
    simp only [told,generated_bind,generated_pure,Generated.object.injEq,exists_eq_left'] at generated
    subst generated
    exact ⟨_,rfl,namesPath_enableMetrics (namesPath_appendArgs (namesPath_modelArgs _ spaced_modelPath
      (by exact (contains_ofList_two _ _ _).trans (by decide +kernel))) _)⟩
  split at generated
  · rename_i dynamo
    simp only [dynamo,String.reduceEq,if_false,if_true,Option.some.injEq] at has
    subst has
    simp only [told,generated_bind,generated_pure,Generated.object.injEq,exists_eq_left'] at generated
    subst generated
    refine ⟨_,rfl,namesPath_appendArgs ⟨"dynamo run in=dyn://$(LWS_LEADER_ADDRESS)",getServedModelName app,by decide +kernel,
      ?_⟩ _⟩
    simp only [String.append_assoc]
    rfl
  · cases generated

theorem launchCommand_names {app : ArksDisaggregatedApplication} {role : Disaggregated.Role} {launch command : String}
    (without : contains launch " --model-path " = false) (told : generateModelPath model = .object path)
    (generated : Disaggregated.launchCommand app model role launch = .object command) :
    app.spec.runtime = "sglang" ∧ NamesPath ("--model-path","--served-model-name") path command := by
  unfold Disaggregated.launchCommand at generated
  split at generated
  · rename_i sglang
    simp only [told,generated_bind,generated_pure,Generated.object.injEq,exists_eq_left'] at generated
    subst generated
    refine ⟨sglang,namesPath_enableMetrics (namesPath_appendArgs (namesPath_more (namesPath_more ?_ _) _) _)⟩
    exact ⟨launch,Disaggregated.getServedModelName app,without,by simp only [String.append_assoc]; rfl⟩
  · cases generated

theorem overridden_generated (command : String) (override : List String) (variable_ : String) (env : List EnvVar)
    (template : PodTemplate) (runs : template.command = (Disaggregated.overridden command override variable_ env).1)
    (sees : template.env = (Disaggregated.overridden command override variable_ env).2) :
    generatedCommand override template = some command := by
  unfold generatedCommand
  cases override with
  | nil => simp [runs,Disaggregated.overridden]
  | cons first rest => simp [sees,Disaggregated.overridden]

/-- A generated command with a path in it has the one that the model's reconciler tells the download pod. -/
theorem made_path (told : generateModelPath model = .object path)
    (made : Made p model lws runtime overrides) (has : pathFlags runtime part = some flags) :
    ∃ command, generatedCommand (overrides part) (templateOf lws part) = some command ∧ NamesPath flags path command := by
  cases made with
  | plain generated =>
    simp only [generateLws,generated_bind,generated_pure] at generated
    obtain ⟨_,_,leader,leads,worker,works,_,_,rfl⟩ := generated
    cases part with
    | leader => exact leaderCommand_names told leads has
    | worker => exact workerCommand_names told works has
  | @disaggregated app role _ generated =>
    simp only [Disaggregated.generateDisaggregatedLws,generated_bind,generated_pure] at generated
    obtain ⟨_,_,leader,leads,worker,works,_,_,_,_,rfl⟩ := generated
    obtain ⟨sglang,leader_names⟩ := launchCommand_names
      (by exact (contains_ofList_three _ _ _ _).trans (by decide +kernel)) told leads
    obtain ⟨_,worker_names⟩ := launchCommand_names (by exact (contains_ofList_two _ _ _).trans (by decide +kernel)) told works
    cases part with
    | leader =>
      cases (show some _ = some flags by simpa [pathFlags,sglang] using has)
      exact ⟨leader,overridden_generated _ _ _ _ _ rfl rfl,leader_names⟩
    | worker =>
      cases (show some _ = some flags by simpa [pathFlags,sglang] using has)
      exact ⟨worker,overridden_generated _ _ _ _ _ rfl rfl,worker_names⟩

end Generators

/-! ### Agreement -/

/-- The volumes of a leader worker set are the claims of the model, and its commands have the path of the download pod. -/
structure Agrees (p : Platform) (model : ArksModel) (lws : LeaderWorkerSet) (runtime : String)
    (overrides : WorkLoadRole → List String) :
    Prop where
  volume : ∀ claim, Claims p model claim → ∀ part, modelVolume (templateOf lws part) = some claim
  path : ∀ pod, Calls p model (.create .pod pod) → ∀ part flags, pathFlags runtime part = some flags →
    ∃ path command, modelPath pod = some path ∧ generatedCommand (overrides part) (templateOf lws part) = some command ∧
      NamesPath flags path command

/-- The reconcilers agree on the storage of a model exactly when its claim is given a name. -/
theorem storage_agrees_iff (p : Platform) (model : ArksModel) (pvc : ArksModelStoragePVC) (claim : HasClaim model pvc)
    (lws : LeaderWorkerSet) (runtime : String) (overrides : WorkLoadRole → List String)
    (made : Made p model lws runtime overrides) : Agrees p model lws runtime overrides ↔ pvc.name ≠ "" := by
  constructor
  · rintro agrees empty
    have named := agrees.volume (storagePvcName model pvc) ((claims_iff claim _).mpr rfl) .leader
    rw [made_volume claim made,empty,Option.some.injEq] at named
    exact storagePvcName_ne model pvc named.symm
  · intro named
    refine ⟨fun name is part => ?_,fun pod requested part flags has => ?_⟩
    · rw [(claims_iff claim name).mp is,made_volume claim made,storagePvcName,if_neg named]
    · obtain ⟨path,told,sees⟩ := calls_stores requested
      obtain ⟨command,is,names⟩ := made_path told made has
      exact ⟨path,command,sees,is,names⟩

/-- The model `chat` of the hub, in the claim `weights`. -/
def hubWeights : ArksModel :=
  { hubModel none ⟨none,[]⟩ with
    spec := { (hubModel none ⟨none,[]⟩).spec with storage := some ⟨some ⟨"weights",""⟩,""⟩ } }

/-- The reconciler of the models creates a pod for `chat`, and `llm` agrees with it on the claim and the path. -/
theorem storage_agrees_hub :
    (∃ pod, Calls ⟨fun _ => "",id⟩ hubWeights (.create .pod pod) ∧ modelPath pod = some "/models/models/team-a/chat") ∧
      ∃ lws, generateLws ⟨fun _ => "",id⟩ (llmPlain ⟨none,[]⟩) hubWeights = .object lws ∧
        Agrees ⟨fun _ => "",id⟩ hubWeights lws "vllm" (fun _ => []) := by
  constructor
  · have run := runs_replay (firstReplies (.error (.notFound ""))) (reconcile ⟨fun _ => "",id⟩ hubWeights)
    exact ⟨_,⟨hubWeights,_,_,_,⟨rfl,rfl,rfl⟩,run,.tail _ (.tail _ (.tail _ (.head _)))⟩,rfl⟩
  · have generated : ∃ lws, generateLws ⟨fun _ => "",id⟩ (llmPlain ⟨none,[]⟩) hubWeights = .object lws := ⟨_,rfl⟩
    obtain ⟨lws,generated⟩ := generated
    exact ⟨lws,generated,(storage_agrees_iff _ hubWeights ⟨"weights",""⟩ ⟨_,rfl,rfl⟩ lws _ _ (.plain generated)).mpr (by decide)⟩

/-- When no name is given, the model is downloaded into the claim `chat`, and `llm` mounts a claim without a name. -/
theorem unnamed_claim_unmounted :
    ∃ lws, generateLws ⟨fun _ => "",id⟩ (llmPlain ⟨none,[]⟩) (hubModel none ⟨some .ready,[]⟩) = .object lws ∧
      Claims ⟨fun _ => "",id⟩ (hubModel none ⟨some .ready,[]⟩) "chat" ∧ modelVolume (templateOf lws .leader) = some "" ∧
      ¬ Agrees ⟨fun _ => "",id⟩ (hubModel none ⟨some .ready,[]⟩) lws "vllm" (fun _ => []) := by
  have claim : HasClaim (hubModel none ⟨some .ready,[]⟩) ⟨"",""⟩ := ⟨_,rfl,rfl⟩
  have claims : Claims ⟨fun _ => "",id⟩ (hubModel none ⟨some .ready,[]⟩) "chat" := (claims_iff claim "chat").mpr (by decide)
  refine ⟨_,rfl,claims,rfl,fun agrees => ?_⟩
  have wrong := agrees.volume "chat" claims .leader
  exact absurd wrong (by decide)

end Arks.Storage
