import Arks.Controllers

/-!
The objects that the reconcilers of the applications create: leader worker sets,
the deployment of a router and the services. A generator fails on a runtime that
it does not know, and panics on a nil dereference.
-/
namespace Arks.Workloads
open Programs Programs.Prog Api Kube Controllers

/-- What the process finds around it: the environment variables, empty when unset,
    and the order in which it ranges over a map. -/
structure Platform where
  getenv : String → String
  range : Labels → Labels

def arksApplicationControllerFinalizer : String := "application.arks.ai/controller"
def arksApplicationModelVolumeName : String := "models"
def arksApplicationModelVolumeMountPath : String := "/models"

def arksControllerKeyApplication : String := "arks.ai/application"
def arksControllerKeyModel : String := "arks.ai/model"
def arksControllerKeyWorkLoadRole : String := "arks.ai/work-load-role"
def arksControllerKeyDisaggregationRole : String := "arks.ai/disaggregation-role"

/-- The part of a leader worker set that a pod belongs to. -/
inductive WorkLoadRole
  | leader | worker
deriving DecidableEq,Repr

def WorkLoadRole.text : WorkLoadRole → String
  | .leader => "leader"
  | .worker => "worker"

/-- The conversion to `int32`. -/
def int32 (n : Int) : Int := n.bmod (2 ^ 32)

theorem int32_of_fits {n : Int} (low : -2 ^ 31 ≤ n) (high : n < 2 ^ 31) : int32 n = n :=
  Int.bmod_eq_of_le (by omega) (by omega)

/-- Assign to a key of a map. -/
def setLabel (labels : Labels) (key value : String) : Labels := labels.filter (fun l => l.1 ≠ key) ++ [(key,value)]

/-- `strings.Contains`. -/
def contains (text part : String) : Bool := decide (part.toList <:+: text.toList)

/-- Literals are searched as lists of characters. -/
theorem contains_ofList (text part : List Char) :
    contains (String.ofList text) (String.ofList part) = decide (part <:+: text) := by
  rw [contains,String.toList_ofList,String.toList_ofList]

@[inherit_doc contains_ofList]
theorem contains_ofList_two (first second part : List Char) :
    contains (String.ofList first ++ String.ofList second) (String.ofList part) = decide (part <:+: first ++ second) := by
  rw [← String.ofList_append,contains_ofList]

@[inherit_doc contains_ofList]
theorem contains_ofList_three (first second third part : List Char) :
    contains (String.ofList first ++ String.ofList second ++ String.ofList third) (String.ofList part) =
      decide (part <:+: first ++ second ++ third) := by
  rw [← String.ofList_append,contains_ofList_two]

/-- The loops that append arguments to a command. -/
def appendArgs (args : String) (more : List String) : String := more.foldl (fun args arg => args ++ " " ++ arg) args

/-- The variable's value, or the default when it is empty. -/
def Platform.image (p : Platform) (variable_ default_ : String) : String :=
  if p.getenv variable_ ≠ "" then p.getenv variable_ else default_

/-! ### The model -/

/-- Nil storage is dereferenced. -/
def generateModelPath (model : ArksModel) : Generated String :=
  match model.spec.storage with
  | none => .panicked
  | some storage =>
    if storage.subPath ≠ "" then pure ("/models/" ++ storage.subPath)
    else pure ("/models/models/" ++ model.namespace_.val ++ "/" ++ model.name.val)

/-- `model.Spec.Storage.PVC.Name`. -/
def modelClaim (model : ArksModel) : Generated String :=
  match model.spec.storage.bind ArksModelStorage.pvc with
  | none => .panicked
  | some pvc => pure pvc.name

/-- Both reconcilers of applications have their own `getServedModelName`. -/
def servedModelName (model servedModelName : String) : String := if servedModelName ≠ "" then servedModelName else model

/-- The volumes of a pod: that of the model in front of the user's. -/
def podVolumes (claimName : String) (instanceSpec : ArksInstanceSpec) : List Volume :=
  ⟨arksApplicationModelVolumeName,.persistentVolumeClaim claimName⟩ :: instanceSpec.volumes

def podVolumeMounts (instanceSpec : ArksInstanceSpec) : List VolumeMount :=
  ⟨arksApplicationModelVolumeName,arksApplicationModelVolumeMountPath,true⟩ :: instanceSpec.volumeMounts

/-- The environment of a pod; SGLang is told the index of the worker. -/
def podEnv (runtime : String) (instanceSpec : ArksInstanceSpec) : List EnvVar :=
  if runtime = "sglang" then
    instanceSpec.env ++
      [⟨"LWS_WORKER_INDEX","",some (.fieldRef "metadata.labels['leaderworkerset.sigs.k8s.io/worker-index']")⟩]
  else instanceSpec.env

def enableMetrics (args : String) : String := if contains args "enable-metrics" then args else args ++ " --enable-metrics"

/-! ### `ArksApplication` -/

section Application
variable (p : Platform) (app : ArksApplication) (model : ArksModel)

def getServedModelName : String := servedModelName app.spec.model app.spec.servedModelName

def getApplicationRuntimeImage : Generated String :=
  if app.spec.runtimeImage ≠ "" then pure app.spec.runtimeImage
  else if app.spec.runtime = "vllm" then pure (p.image "ARKS_RUNTIME_DEFAULT_VLLM_IMAGE" "vllm/vllm-openai:v0.8.2")
  else if app.spec.runtime = "sglang" then
    pure (p.image "ARKS_RUNTIME_DEFAULT_SGLANG_IMAGE" "lmsysorg/sglang:v0.4.5-cu124")
  else if app.spec.runtime = "dynamo" then pure (p.image "ARKS_RUNTIME_DEFAULT_DYNAMO_IMAGE" "scitixai/k8s/dynamo:vllm")
  else .failed "runtime not support"

/-- The part of a command that names the model and the degree of parallelism. -/
def modelArgs (args path modelFlag parallelFlag : String) : String :=
  let args := args ++ " " ++ modelFlag ++ " " ++ path ++ " --served-model-name " ++ getServedModelName app
  if 0 < app.spec.tensorParallelSize then args ++ " " ++ parallelFlag ++ " " ++ toString app.spec.tensorParallelSize else args

def generateLeaderCommand : Generated (List String) :=
  if app.spec.runtime = "vllm" then do
    let path ← generateModelPath model
    let args := modelArgs app ("/bin/bash /vllm-workspace/examples/online_serving/multi-node-serving.sh leader " ++
      "--ray_cluster_size=$(LWS_GROUP_SIZE); python3 -m vllm.entrypoints.openai.api_server --port 8080")
      path "--model" "--tensor-parallel-size"
    pure ["/bin/bash","-c",appendArgs args app.spec.runtimeCommonArgs]
  else if app.spec.runtime = "sglang" then do
    let path ← generateModelPath model
    let args := modelArgs app ("python3 -m sglang.launch_server --dist-init-addr $(LWS_LEADER_ADDRESS):20000 " ++
      "--nnodes $(LWS_GROUP_SIZE) --node-rank $(LWS_WORKER_INDEX) --trust-remote-code --host 0.0.0.0 --port 8080")
      path "--model-path" "--tp"
    pure ["/bin/bash","-c",enableMetrics (appendArgs args app.spec.runtimeCommonArgs)]
  else if app.spec.runtime = "dynamo" then
    pure ["/bin/bash","-c",appendArgs "dynamo run in=http out=dyn://$(LWS_LEADER_ADDRESS)" app.spec.runtimeCommonArgs]
  else .failed "runtime not support"

def generateWorkerCommand : Generated (List String) :=
  if app.spec.runtime = "vllm" then
    pure ["/bin/bash","-c","/bin/bash /vllm-workspace/examples/online_serving/multi-node-serving.sh worker " ++
      "--ray_address=$(LWS_LEADER_ADDRESS)"]
  else if app.spec.runtime = "sglang" then do
    let path ← generateModelPath model
    let args := modelArgs app ("python3 -m sglang.launch_server --dist-init-addr $(LWS_LEADER_ADDRESS):20000 " ++
      "--nnodes $(LWS_GROUP_SIZE) --node-rank $(LWS_WORKER_INDEX) --trust-remote-code") path "--model-path" "--tp"
    pure ["/bin/bash","-c",enableMetrics (appendArgs args app.spec.runtimeCommonArgs)]
  else if app.spec.runtime = "dynamo" then do
    let path ← generateModelPath model
    let args := "dynamo run in=dyn://$(LWS_LEADER_ADDRESS) out=vllm " ++ path ++ " --model-name " ++ getServedModelName app
    pure ["/bin/bash","-c",appendArgs args app.spec.runtimeCommonArgs]
  else .failed "runtime not support"

def generateLwsLabels (role : WorkLoadRole) : Labels :=
  setLabel (setLabel (setLabel app.spec.instanceSpec.labels arksControllerKeyApplication app.name)
    arksControllerKeyModel app.spec.model) arksControllerKeyWorkLoadRole role.text

/-- The replicas that are asked for, as the generator reads them. -/
def lwsReplicas : Int := if app.spec.replicas < 0 then 0 else app.spec.replicas

def generateLws : Generated LeaderWorkerSet := do
  let image ← getApplicationRuntimeImage p app
  let leaderCommand ← generateLeaderCommand app model
  let workerCommand ← generateWorkerCommand app model
  let claimName ← modelClaim model
  let template (role : WorkLoadRole) (command : List String) (ports : List Int) : PodTemplate :=
    { labels := generateLwsLabels app role
      serviceAccountName := app.spec.instanceSpec.serviceAccountName
      container := role.text
      image := image
      command := command
      env := podEnv app.spec.runtime app.spec.instanceSpec
      ports := ports
      volumeMounts := podVolumeMounts app.spec.instanceSpec
      volumes := podVolumes claimName app.spec.instanceSpec }
  pure
    { namespace_ := app.namespace_
      name := app.name
      labels := [(arksControllerKeyApplication,app.name.val)]
      replicas := int32 (lwsReplicas app)
      size := int32 (if app.spec.size < 1 then 1 else app.spec.size)
      leaderTemplate := template .leader leaderCommand [8080]
      workerTemplate := template .worker workerCommand []
      status := ⟨0,0,0⟩ }

def generateApplicationServiceName : String := "arks-application-" ++ app.name.val

theorem generateApplicationServiceName_eq : generateApplicationServiceName app = "arks-application-" ++ app.name.val := rfl

/-- The service that `reconcile` creates. -/
def applicationService : Service where
  namespace_ := app.namespace_
  name := generateApplicationServiceName app
  labels := [("prometheus-discovery","true"),("managed-by","arks")]
  selector := [(arksControllerKeyApplication,app.name.val),(arksControllerKeyWorkLoadRole,WorkLoadRole.leader.text)]
  ports := [⟨"http",some "TCP",8080⟩]

end Application

/-! ### `ArksDisaggregatedApplication` -/

namespace Disaggregated

/-- `disaggregatedRole`. -/
inductive Role
  | prefill | decode
deriving DecidableEq,Repr

def Role.text : Role → String
  | .prefill => "prefill"
  | .decode => "decode"

def Role.workload : Role → ArksDisaggregatedApplication → ArksDisaggregatedWorkload
  | .prefill,app => app.spec.prefill
  | .decode,app => app.spec.decode

def Role.setWorkload (workload : ArksDisaggregatedWorkload) :
    Role → ArksDisaggregatedApplication → ArksDisaggregatedApplication
  | .prefill,app => { app with spec := { app.spec with prefill := workload } }
  | .decode,app => { app with spec := { app.spec with decode := workload } }

section Generators
variable (p : Platform) (app : ArksDisaggregatedApplication) (model : ArksModel) (role : Role)

def getServedModelName : String := servedModelName app.spec.model app.spec.servedModelName

def getApplicationRuntimeImage : Generated String :=
  if app.spec.runtimeImage ≠ "" then pure app.spec.runtimeImage
  else if app.spec.runtime = "sglang" then pure (p.image "ARKS_DEFAULT_SGLANG_IMAGE" "lmsysorg/sglang:v0.5.1.post1-cu126")
  else .failed "unsupported runtime"

def getApplicationRouterImage : Generated String :=
  if app.spec.routerImage ≠ "" then pure app.spec.routerImage
  else if app.spec.runtime = "sglang" then
    pure (p.image "ARKS_DEFAULT_SGLANG_ROUTER_IMAGE"
      (p.image "ARKS_DEFAULT_SGLANG_IMAGE" "lmsysorg/sglang:v0.5.1.post1-cu126"))
  else .failed "unsupported runtime"

/-- The commands of the leader and of the workers differ in how they begin. -/
def launchCommand (launch : String) : Generated String :=
  if app.spec.runtime = "sglang" then do
    let path ← generateModelPath model
    let args := launch ++ " --model-path " ++ path ++ " --served-model-name " ++ getServedModelName app ++
      " --disaggregation-mode " ++ role.text
    pure (enableMetrics (appendArgs args (role.workload app).runtimeCommonArgs))
  else .failed "unsupported runtime"

/-- The mode of the leader is given twice, first as prefill. -/
def generateDisaggregationLeaderCommand : Generated String :=
  launchCommand app model role ("python3 -m sglang.launch_server --dist-init-addr $(LWS_LEADER_ADDRESS):20000 " ++
    "--nnodes $(LWS_GROUP_SIZE) --node-rank $(LWS_WORKER_INDEX) --trust-remote-code --host 0.0.0.0 --port 8080 " ++
    "--disaggregation-mode prefill")

def generateDisaggregationWorkerCommand : Generated String :=
  launchCommand app model role ("python3 -m sglang.launch_server --dist-init-addr $(LWS_LEADER_ADDRESS):20000 " ++
    "--nnodes $(LWS_GROUP_SIZE) --node-rank $(LWS_WORKER_INDEX) --trust-remote-code")

def generateWorkloadLabels (labels : Labels) (disaggregatedRole : String) : Labels :=
  setLabel labels arksControllerKeyDisaggregationRole disaggregatedRole

def generateRouterLabels : Labels :=
  setLabel (setLabel (generateWorkloadLabels app.spec.router.instanceSpec.labels "router")
    arksControllerKeyApplication app.name) arksControllerKeyModel app.spec.model

/-- `generatePrefillWorkloadLwsLabels` and `generateDecodeWorkloadLwsLabels`. -/
def generateWorkloadLwsLabels (part : WorkLoadRole) : Labels :=
  setLabel (setLabel (setLabel (generateWorkloadLabels (role.workload app).instanceSpec.labels role.text)
    arksControllerKeyApplication app.name) arksControllerKeyModel app.spec.model) arksControllerKeyWorkLoadRole part.text

/-- The command of a pod and its environment; an overridden command finds the generated one there. -/
def overridden (command : String) (override : List String) (variable_ : String) (env : List EnvVar) :
    List String × List EnvVar :=
  if 0 < override.length then (override,env ++ [⟨variable_,command,none⟩]) else (["/bin/bash","-c",command],env)

/-- The replicas that are asked for. A nil pointer is written through, and so is one
    to a negative number, which changes the specification in place. -/
def settledReplicas (workload : ArksDisaggregatedWorkload) : Generated Int :=
  match workload.replicas with
  | none => .panicked
  | some n => pure (if n < 0 then 1 else n)

def generateDisaggregatedLws : Generated LeaderWorkerSet := do
  let image ← getApplicationRuntimeImage p app
  let leaderCommand ← generateDisaggregationLeaderCommand app model role
  let workerCommand ← generateDisaggregationWorkerCommand app model role
  let workload := role.workload app
  let replicas ← settledReplicas workload
  let claimName ← modelClaim model
  let env := podEnv app.spec.runtime workload.instanceSpec
  let leader := overridden leaderCommand workload.leaderCommandOverride "ARKS_LEADER_COMMAND" env
  let worker := overridden workerCommand workload.workerCommandOverride "ARKS_WORKER_COMMAND" env
  let template (part : WorkLoadRole) (command : List String × List EnvVar) (ports : List Int) : PodTemplate :=
    { labels := generateWorkloadLwsLabels app role part
      serviceAccountName := workload.instanceSpec.serviceAccountName
      container := "main"
      image := image
      command := command.1
      env := command.2
      ports := ports
      volumeMounts := podVolumeMounts workload.instanceSpec
      volumes := podVolumes claimName workload.instanceSpec }
  pure
    { namespace_ := app.namespace_
      name := app.name.val ++ "-" ++ role.text
      labels := [(arksControllerKeyApplication,app.name.val)]
      replicas := replicas
      size := int32 (if workload.size < 1 then 1 else workload.size)
      leaderTemplate := template .leader leader [8080]
      workerTemplate := template .worker worker []
      status := ⟨0,0,0⟩ }

/-! ### The router -/

/-- A port of the router, with its default. -/
def portOf (port default_ : Int) : Int := if port = 0 then default_ else port

/-- A map as the router's command writes a selector. -/
def selectorArgs (args : String) (labels : Labels) : String := appendArgs args (labels.map (fun l => l.1 ++ "=" ++ l.2))

def generateDisaggregationRouterCommand (port metricPort : Int) : Generated String :=
  if app.spec.runtime = "sglang" then
    let args := "python3 -m sglang_router.launch_router --pd-disaggregation --service-discovery " ++
      "--service-discovery-port 8080 --host 0.0.0.0 --port " ++ toString port ++
      " --service-discovery-namespace " ++ app.namespace_.val
    let args := selectorArgs (args ++ " --prefill-selector") (p.range (generateWorkloadLwsLabels app .prefill .leader))
    let args := selectorArgs (args ++ " --decode-selector") (p.range (generateWorkloadLwsLabels app .decode .leader))
    let args := appendArgs args app.spec.router.routerArgs
    let args := if contains args "-policy" then args else args ++ " --policy cache_aware"
    let args := if contains args "prometheus-port" then args
      else args ++ " --prometheus-host 0.0.0.0 --prometheus-port " ++ toString metricPort
    pure args
  else .failed "unsupported runtime"

/-- Create an object of the router's permissions; one that exists will do. -/
def createRBAC (k : Kind) (object : Object k) (text : String) : KubeAction (Except String Unit) := do
  match ← request (.create k object) with
  | .ok _ => pure (.ok ())
  | .error (.alreadyExists _) => pure (.ok ())
  | .error e => pure (.error ("failed to create sglang router " ++ text ++ ": " ++ quote e.text))

def applyRouterRBAC : KubeAction (Except String String) := do
  let object : RouterRBAC := ⟨app.namespace_,"sglang-router"⟩
  match ← request (.get .roleBinding app.namespace_ "sglang-router") with
  | .ok _ => pure (.ok "sglang-router")
  | .error (.notFound _) =>
    match ← createRBAC .role object "role" with
    | .error text => pure (.error text)
    | .ok _ =>
      match ← createRBAC .serviceAccount object "service account" with
      | .error text => pure (.error text)
      | .ok _ =>
        match ← createRBAC .roleBinding object "role binding" with
        | .error text => pure (.error text)
        | .ok _ => pure (.ok "sglang-router")
  | .error e => pure (.error ("failed to check sglang router role binding: " ++ quote e.text))

/-- The replicas of a new router: zero is kept. -/
def routerReplicas : Int :=
  match app.spec.router.replicas with
  | some n => if 0 ≤ n then n else 1
  | none => 1

/-- The deployment of the router, once its service account is known. -/
def routerDeployment (serviceAccountName : String) : Generated Deployment := do
  let router := app.spec.router
  let port := portOf router.port 8080
  let image ← getApplicationRouterImage p app
  let command ← generateDisaggregationRouterCommand p app port (portOf router.metricPort 9090)
  let (commands,env) := overridden command router.commandOverride "ARKS_ROUTER_COMMAND" router.instanceSpec.env
  pure
    { namespace_ := app.namespace_
      name := app.name
      labels := [(arksControllerKeyApplication,app.name.val)]
      replicas := some (routerReplicas app)
      selector := [(arksControllerKeyApplication,app.name.val)]
      template :=
        { labels := generateRouterLabels app
          serviceAccountName := serviceAccountName
          container := "main"
          image := image
          command := commands
          env := env
          ports := [port]
          volumeMounts := router.instanceSpec.volumeMounts
          volumes := router.instanceSpec.volumes }
      status := ⟨0,0,0⟩ }

def generateRouterDeployment : KubeAction (Generated Deployment) :=
  if app.spec.router.instanceSpec.serviceAccountName = "" then do
    match ← applyRouterRBAC app with
    | .error text => pure (.failed ("failed to apply sglang router rbac: " ++ quote text))
    | .ok serviceAccount => pure (routerDeployment p app serviceAccount)
  else pure (routerDeployment p app app.spec.router.instanceSpec.serviceAccountName)

def generateRouterSvc : Service where
  namespace_ := app.namespace_
  name := app.name.val ++ "-router-svc"
  labels := [(arksControllerKeyApplication,app.name.val),(arksControllerKeyModel,app.spec.model)]
  selector := [(arksControllerKeyApplication,app.name.val),(arksControllerKeyModel,app.spec.model),
    (arksControllerKeyDisaggregationRole,"router")]
  ports := [⟨"http",none,portOf app.spec.router.port 8080⟩]

def generateApplicationServiceName : String := "arks-application-" ++ app.name.val

theorem generateApplicationServiceName_eq : generateApplicationServiceName app = "arks-application-" ++ app.name.val := rfl

end Generators
end Disaggregated
end Arks.Workloads
