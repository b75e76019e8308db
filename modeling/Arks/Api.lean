import Arks.Texts

/-!
The custom resources, as far as the gateway and the controllers read and write
them. Object and namespace names are Kubernetes names, so they hold neither an
equals sign nor a colon; free text fields stay plain strings, and an `int64` or
`int32` field is an integer.
-/
namespace Arks.Api
open Texts (Lacks)

/-- The characters of a DNS subdomain. -/
def nameChar (c : Char) : Bool := c.isLower || c.isDigit || c == '-' || c == '.'

/-- A name the API server accepts for an object or a namespace. -/
structure KubeName where
  val : String
  nonempty : val ≠ ""
  chars : val.toList.all nameChar = true
deriving DecidableEq

instance : Coe KubeName String := ⟨KubeName.val⟩

theorem KubeName.ext {a b : KubeName} (same : a.val = b.val) : a = b := by
  cases a; cases b; cases same; rfl
theorem KubeName.inj (a b : KubeName) : a.val = b.val ↔ a = b := ⟨KubeName.ext,fun same => same ▸ rfl⟩

theorem KubeName.lacks (n : KubeName) {c : Char} (other : nameChar c = false) : Lacks c n.val := by
  intro member
  have := List.all_eq_true.mp n.chars c member
  rw [other] at this
  cases this
theorem KubeName.lacks_equals (n : KubeName) : Lacks '=' n.val := n.lacks (by decide)
theorem KubeName.lacks_colon (n : KubeName) : Lacks ':' n.val := n.lacks (by decide)

/-! Names for the objects of the samples. -/

def KubeName.team : KubeName := ⟨"team",by decide,by decide⟩
def KubeName.teamA : KubeName := ⟨"team-a",by decide,by decide⟩
def KubeName.alice : KubeName := ⟨"alice",by decide,by decide⟩
def KubeName.chat : KubeName := ⟨"chat",by decide,by decide⟩
def KubeName.llm : KubeName := ⟨"llm",by decide,by decide⟩
def KubeName.basic : KubeName := ⟨"basic",by decide,by decide⟩

/-! ### Tokens -/

/-- `RateLimitType`; the schema admits no other text. -/
inductive RateLimitType
  | rpm | rpd | tpm | tpd
deriving DecidableEq,Repr

def RateLimitType.text : RateLimitType → String
  | rpm => "rpm"
  | rpd => "rpd"
  | tpm => "tpm"
  | tpd => "tpd"

structure TokenRateLimit where
  type : RateLimitType
  value : Int
deriving DecidableEq

/-- `ArksQos`; the endpoint and the quota are references by name. -/
structure ArksQos where
  arksEndpoint : String
  rateLimits : List TokenRateLimit
  quota : String
deriving DecidableEq

structure ArksToken where
  namespace_ : KubeName
  name : KubeName
  token : String
  qos : List ArksQos
deriving DecidableEq

/-! ### Quotas -/

structure QuotaItem where
  type : String
  value : Int
deriving DecidableEq,Repr

/-- `QuotaStatus`; the time is the moment of the last update, when there was one. -/
structure QuotaStatus where
  type : String
  used : Int
  lastUpdateTime : Option Int
deriving DecidableEq,Repr

/-- An `ArksQuota` as the API server keeps it: `resourceVersion` grows with every
    accepted write. -/
structure ArksQuota where
  namespace_ : KubeName
  name : KubeName
  resourceVersion : Nat
  quotas : List QuotaItem
  quotaStatus : List QuotaStatus
deriving DecidableEq

/-! ### Endpoints and routes -/

/-- `HTTPBackendRef` of the Gateway API; the filters are only carried along. -/
structure HTTPBackendRef where
  group : Option String
  kind : Option String
  name : String
  namespace_ : Option String
  port : Option Int
  weight : Option Int
  filters : List String
deriving DecidableEq,Repr

inductive HeaderMatchType
  | exact | regularExpression
deriving DecidableEq,Repr

/-- `HTTPHeaderMatch`; an absent type stands for `Exact`. -/
structure HTTPHeaderMatch where
  type : Option HeaderMatchType
  name : String
  value : String
deriving DecidableEq,Repr

inductive PathMatchType
  | exact | pathPrefix | regularExpression
deriving DecidableEq,Repr

structure HTTPPathMatch where
  type : Option PathMatchType
  value : Option String
deriving DecidableEq,Repr

structure HTTPQueryParamMatch where
  type : Option HeaderMatchType
  name : String
  value : String
deriving DecidableEq,Repr

structure HTTPRouteMatch where
  path : Option HTTPPathMatch
  headers : List HTTPHeaderMatch
  queryParams : List HTTPQueryParamMatch
  method : Option String
deriving DecidableEq,Repr

structure ParentReference where
  group : Option String
  kind : Option String
  namespace_ : Option String
  name : String
  sectionName : Option String
  port : Option Int
deriving DecidableEq,Repr

/-- `ArksEndpointSpec`. `matchConfigs` tells an absent list from an empty one, as
    the Go slice does. -/
structure ArksEndpointSpec where
  defaultWeight : Int
  gatewayRef : ParentReference
  matchConfigs : Option (List HTTPRouteMatch)
  routeConfigs : List HTTPBackendRef
deriving DecidableEq,Repr

/-- The metadata of a custom resource. -/
structure ObjectMeta where
  namespace_ : KubeName
  name : KubeName
  uid : String
  resourceVersion : Nat
  finalizers : List String
  deletionTimestamp : Option Int
deriving DecidableEq

/-- `ArksEndpoint`; `routes` is its status. -/
structure ArksEndpoint extends ObjectMeta where
  spec : ArksEndpointSpec
  routes : List HTTPBackendRef
deriving DecidableEq

/-- The endpoint `chat` of a namespace, for the samples. -/
def chatEndpoint (namespace_ : KubeName) : ArksEndpoint where
  namespace_ := namespace_
  name := .chat
  uid := "1"
  resourceVersion := 1
  finalizers := []
  deletionTimestamp := none
  spec := ⟨1,⟨none,none,none,"gateway",none,none⟩,none,[]⟩
  routes := []

structure HTTPRouteRule where
  ruleMatches : List HTTPRouteMatch
  backendRefs : List HTTPBackendRef
deriving DecidableEq,Repr

structure HTTPRouteSpec where
  parentRefs : List ParentReference
  rules : List HTTPRouteRule
deriving DecidableEq,Repr

structure HTTPRoute where
  namespace_ : KubeName
  name : KubeName
  spec : HTTPRouteSpec
deriving DecidableEq

/-! ### Conditions -/

/-- `corev1.ConditionStatus`. -/
inductive ConditionStatus
  | isTrue | isFalse | unknown
deriving DecidableEq,Repr

/-- A condition of an application or a model. -/
structure Condition (T : Type) where
  type : T
  status : ConditionStatus
  reason : String
  message : String
deriving DecidableEq,Repr

/-! ### Pods -/

/-- A map of labels; the order of the list has no meaning. -/
abbrev Labels := List (String × String)

inductive EnvVarSource
  | fieldRef (fieldPath : String)
  | secretKeyRef (name key : String)
deriving DecidableEq,Repr

structure EnvVar where
  name : String
  value : String
  valueFrom : Option EnvVarSource
deriving DecidableEq,Repr

/-- The source of a volume: a claim, or any other that the user writes. -/
inductive VolumeSource
  | persistentVolumeClaim (claimName : String)
  | other (source : String)
deriving DecidableEq,Repr

structure Volume where
  name : String
  source : VolumeSource
deriving DecidableEq,Repr

structure VolumeMount where
  name : String
  mountPath : String
  readOnly : Bool
deriving DecidableEq,Repr

/-- `ArksInstanceSpec`. -/
structure ArksInstanceSpec where
  labels : Labels
  env : List EnvVar
  volumeMounts : List VolumeMount
  volumes : List Volume
  serviceAccountName : String
deriving DecidableEq,Repr,Inhabited

/-- The template of a pod with one container. -/
structure PodTemplate where
  labels : Labels
  serviceAccountName : String
  container : String
  image : String
  command : List String
  env : List EnvVar
  ports : List Int
  volumeMounts : List VolumeMount
  volumes : List Volume
deriving DecidableEq,Repr,Inhabited

/-- `PodPhase`. -/
inductive PodPhase
  | pending | running | succeeded | failed | unknown
deriving DecidableEq,Repr

/-- The state of a container, with its message. -/
inductive ContainerState
  | waiting (message : String)
  | running
  | terminated (message : String)
deriving DecidableEq,Repr

structure Pod where
  namespace_ : KubeName
  name : String
  labels : Labels
  template : PodTemplate
  phase : PodPhase
  containerStatuses : List ContainerState
deriving DecidableEq

/-- A claim; its specification is passed on as it is. -/
structure PersistentVolumeClaim where
  namespace_ : KubeName
  name : String
  labels : Labels
  spec : String
deriving DecidableEq

/-! ### Models -/

/-- `ArksModelPhase`; the empty text is no phase. -/
inductive ArksModelPhase
  | pending | storageCreating | modelLoading | ready | failed
deriving DecidableEq,Repr

/-- `ArksModelConditionType`. -/
inductive ArksModelConditionType
  | storageCreated | modelLoaded | ready
deriving DecidableEq,Repr

/-- `ArksModelSourceHuggingFace`. -/
structure ArksModelSourceHuggingFace where
  tokenSecretRef : Option String
deriving DecidableEq,Repr

/-- `ArksModelSource`. -/
structure ArksModelSource where
  huggingface : Option ArksModelSourceHuggingFace
deriving DecidableEq,Repr

/-- `ArksModelStoragePVC`. -/
structure ArksModelStoragePVC where
  name : String
  spec : String
deriving DecidableEq,Repr

/-- `ArksModelStorage`. -/
structure ArksModelStorage where
  pvc : Option ArksModelStoragePVC
  subPath : String
deriving DecidableEq,Repr

/-- `ArksModelSpec`. -/
structure ArksModelSpec where
  model : String
  source : Option ArksModelSource
  storage : Option ArksModelStorage
  instanceSpec : ArksInstanceSpec
deriving DecidableEq,Repr,Inhabited

/-- `ArksModelStatus`. -/
structure ArksModelStatus where
  phase : Option ArksModelPhase
  conditions : List (Condition ArksModelConditionType)
deriving DecidableEq,Repr,Inhabited

/-- `ArksModel`. -/
structure ArksModel extends ObjectMeta where
  spec : ArksModelSpec
  status : ArksModelStatus
deriving DecidableEq

/-! ### Applications -/

/-- `ArksApplicationPhase`; the empty text is no phase. -/
inductive ArksApplicationPhase
  | pending | checking | loading | creating | running | failed
deriving DecidableEq,Repr

/-- `ArksApplicationConditionType`. -/
inductive ArksApplicationConditionType
  | precheck | loaded | ready
deriving DecidableEq,Repr

/-- `ArksApplicationSpec`; `model` is the name of the referenced model. -/
structure ArksApplicationSpec where
  replicas : Int
  size : Int
  runtime : String
  runtimeImage : String
  model : String
  servedModelName : String
  tensorParallelSize : Int
  runtimeCommonArgs : List String
  instanceSpec : ArksInstanceSpec
deriving DecidableEq,Repr,Inhabited

/-- `ArksComponentStatus`. -/
structure ArksComponentStatus where
  replicas : Int
  readyReplicas : Int
  updatedReplicas : Int
deriving DecidableEq,Repr,Inhabited

/-- The phase and the conditions, in the status of both kinds of applications. -/
structure ApplicationProgress where
  phase : Option ArksApplicationPhase
  conditions : List (Condition ArksApplicationConditionType)
deriving DecidableEq,Repr,Inhabited

/-- `ArksApplicationStatus`. -/
structure ArksApplicationStatus extends ArksComponentStatus,ApplicationProgress where
deriving DecidableEq,Repr,Inhabited

/-- `ArksApplication`. -/
structure ArksApplication extends ObjectMeta where
  spec : ArksApplicationSpec
  status : ArksApplicationStatus
deriving DecidableEq

/-- `ArksDisaggregatedRouter`. -/
structure ArksDisaggregatedRouter where
  replicas : Option Int
  commandOverride : List String
  port : Int
  metricPort : Int
  routerArgs : List String
  instanceSpec : ArksInstanceSpec
deriving DecidableEq,Repr,Inhabited

/-- `ArksDisaggregatedWorkload`. -/
structure ArksDisaggregatedWorkload where
  replicas : Option Int
  size : Int
  leaderCommandOverride : List String
  workerCommandOverride : List String
  runtimeCommonArgs : List String
  instanceSpec : ArksInstanceSpec
deriving DecidableEq,Repr,Inhabited

/-- `ArksDisaggregatedApplicationSpec`. -/
structure ArksDisaggregatedApplicationSpec where
  runtime : String
  routerImage : String
  runtimeImage : String
  model : String
  servedModelName : String
  router : ArksDisaggregatedRouter
  prefill : ArksDisaggregatedWorkload
  decode : ArksDisaggregatedWorkload
deriving DecidableEq,Repr,Inhabited

/-- `ArksDisaggregatedApplicationStatus`. -/
structure ArksDisaggregatedApplicationStatus extends ApplicationProgress where
  router : ArksComponentStatus
  prefill : ArksComponentStatus
  decode : ArksComponentStatus
deriving DecidableEq,Repr,Inhabited

/-- `ArksDisaggregatedApplication`. -/
structure ArksDisaggregatedApplication extends ObjectMeta where
  spec : ArksDisaggregatedApplicationSpec
  status : ArksDisaggregatedApplicationStatus
deriving DecidableEq

/-- `client.Object` where it is an application of either kind. -/
inductive Application
  | plain (app : ArksApplication)
  | disaggregated (app : ArksDisaggregatedApplication)
deriving DecidableEq

def Application.toObjectMeta : Application → ObjectMeta
  | .plain app => app.toObjectMeta
  | .disaggregated app => app.toObjectMeta

abbrev Application.namespace_ (app : Application) : KubeName := app.toObjectMeta.namespace_

abbrev Application.name (app : Application) : KubeName := app.toObjectMeta.name

/-! ### The children of the applications -/

/-- `ServicePort`; an absent protocol stands for TCP. -/
structure ServicePort where
  name : String
  protocol : Option String
  port : Int
deriving DecidableEq,Repr

structure Service where
  namespace_ : KubeName
  name : String
  labels : Labels
  selector : Labels
  ports : List ServicePort
deriving DecidableEq

/-- A `LeaderWorkerSet`; the API server fills in `replicas` when it is absent. -/
structure LeaderWorkerSet where
  namespace_ : KubeName
  name : String
  labels : Labels
  replicas : Int
  size : Int
  leaderTemplate : PodTemplate
  workerTemplate : PodTemplate
  status : ArksComponentStatus
deriving DecidableEq

structure Deployment where
  namespace_ : KubeName
  name : String
  labels : Labels
  replicas : Option Int
  selector : Labels
  template : PodTemplate
  status : ArksComponentStatus
deriving DecidableEq

/-- A role, service account or role binding of the router, by its name. -/
structure RouterRBAC where
  namespace_ : KubeName
  name : String
deriving DecidableEq

end Arks.Api
