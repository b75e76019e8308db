import Arks.Controllers

/-!
The controller of the endpoints: it discovers the applications that serve an
endpoint's model, writes the `HTTPRoute` that sends the endpoint's requests to
them, and reconciles again when an event of an application may change the route.
-/
namespace Arks.Endpoints
open Programs Api Kube Controllers

/-! ### Discovery -/

/-- `ArksAppIndexFunc`, registered for both kinds of applications. -/
def arksAppIndexFunc : Application → List String
  | .plain app => if app.spec.servedModelName = "" then [app.spec.model] else [app.spec.servedModelName]
  | .disaggregated _ => []

/-- The registered indexes. -/
def indexes : Index
  | .application,app => arksAppIndexFunc (.plain app)
  | .disaggregated,app => arksAppIndexFunc (.disaggregated app)
  | _,_ => []

/-- A list of the `ArksApplication`s of an endpoint. -/
abbrev ListedFor (c : Cluster) (ep : ArksEndpoint) (apps : List ArksApplication) : Prop :=
  Listed indexes c .application ep.namespace_ ep.name apps

def getApplicationServiceName (appName : String) : String := "arks-application-" ++ appName

/-- The service of a disaggregated application, as `reconcile` names it. -/
def routerServiceName (appName : String) : String := appName ++ "-router-svc"

/-- `reconcile`'s test for an `ArksApplication`. -/
def applicationReady (app : ArksApplication) : Bool := decide (app.spec.replicas = app.status.readyReplicas)

/-- `reconcile`'s test for an `ArksDisaggregatedApplication`. -/
def disaggregatedReady (app : ArksDisaggregatedApplication) : Bool :=
  decide (0 < app.status.router.readyReplicas ∧ app.status.prefill.readyReplicas = app.status.prefill.replicas ∧
    app.status.decode.readyReplicas = app.status.decode.replicas)

/-- The service is a key of `staticRouteMap`. -/
def inStaticRoutes (ep : ArksEndpoint) (svcName : String) : Bool :=
  ep.spec.routeConfigs.any (fun static => static.name = svcName)

/-- The backend that `reconcile` adds for a service. -/
def backendRef (ep : ArksEndpoint) (svcName : String) : HTTPBackendRef where
  group := none
  kind := none
  name := svcName
  namespace_ := none
  port := some 8080
  weight := some ep.spec.defaultWeight
  filters := []

/-- One of the two loops of `reconcile` over listed applications. -/
def addBackends {α : Type} (ep : ArksEndpoint) (svcName : α → String) (ready : α → Bool) : List α → List HTTPBackendRef
  | [] => []
  | app :: apps =>
    if inStaticRoutes ep (svcName app) then addBackends ep svcName ready apps
    else if ready app then backendRef ep (svcName app) :: addBackends ep svcName ready apps
    else addBackends ep svcName ready apps

def addApplications (ep : ArksEndpoint) : List ArksApplication → List HTTPBackendRef :=
  addBackends ep (fun app => getApplicationServiceName app.name) applicationReady

def addDisaggregatedApplications (ep : ArksEndpoint) : List ArksDisaggregatedApplication → List HTTPBackendRef :=
  addBackends ep (fun app => routerServiceName app.name) disaggregatedReady

def backendRefs (ep : ArksEndpoint) (apps : List ArksApplication) (disApps : List ArksDisaggregatedApplication) :
    List HTTPBackendRef :=
  ep.spec.routeConfigs ++ addApplications ep apps ++ addDisaggregatedApplications ep disApps

/-! ### The route -/

def headerMatch (ep : ArksEndpoint) : List HTTPHeaderMatch :=
  [⟨none,"namespace",ep.namespace_⟩,⟨none,"model",ep.name⟩]

/-- The matches of the rule. An empty list of matches is not nil, and leaves the rule without any. -/
def ruleMatch (ep : ArksEndpoint) : List HTTPRouteMatch :=
  match ep.spec.matchConfigs with
  | some configs => configs.map (fun m => { m with headers := m.headers ++ headerMatch ep })
  | none => [⟨none,headerMatch ep,[],none⟩]

def routeSpec (ep : ArksEndpoint) (backends : List HTTPBackendRef) : HTTPRouteSpec :=
  ⟨[ep.spec.gatewayRef],[⟨ruleMatch ep,backends⟩]⟩

/-- Create the route, or patch the one that is there. -/
def writeRoute (ep : ArksEndpoint) (spec : HTTPRouteSpec) : KubeAction (Except String Unit) := do
  match ← request (.get .httpRoute ep.namespace_ ep.name) with
  | .error (.notFound _) =>
    match ← request (.create .httpRoute ⟨ep.namespace_,ep.name,spec⟩) with
    | .error e => pure (.error ("failed to create HTTPRoute: " ++ e.text))
    | .ok _ => pure (.ok ())
  | .error e => pure (.error e.text)
  | .ok route =>
    match ← request (.patch .httpRoute { route with spec := spec }) with
    | .error e => pure (.error ("failed to patch HTTPRoute: " ++ e.text))
    | .ok _ => pure (.ok ())

/-- The second half of `reconcile`, once the backends are known. -/
def recordBackends (ep : ArksEndpoint) (backends : List HTTPBackendRef) : KubeAction (Except String Unit) := do
  match ← writeRoute ep (routeSpec ep backends) with
  | .error e => pure (.error e)
  | .ok _ =>
    match ← request (.updateStatus .endpoint { ep with routes := backends }) with
    | .error e => pure (.error ("failed to update ArksEndpoint status: " ++ e.text))
    | .ok _ => pure (.ok ())

def reconcile (ep : ArksEndpoint) : KubeAction (Except String Unit) := do
  match ← request (.list .application ep.namespace_ ep.name) with
  | .error e => pure (.error ("failed to list ArksApplication: " ++ e.text))
  | .ok apps =>
    match ← request (.list .disaggregated ep.namespace_ ep.name) with
    | .error e => pure (.error ("failed to list ArksDisaggregatedApplication: " ++ e.text))
    | .ok disApps => recordBackends ep (backendRefs ep apps disApps)

/-! ### The pass over a request -/

def arksEndpointControllerFinalizer : String := "endpoint.arks.ai/controller"

def handleDelete (ep : ArksEndpoint) : KubeAction Outcome := do
  let text := "HTTPRoute for ArksEndpoint " ++ ep.namespace_.val ++ "/" ++ ep.name.val ++ ": "
  let finish : KubeAction Outcome := do
    match ← request (.update .endpoint { ep with
      toObjectMeta := removeFinalizer ep.toObjectMeta arksEndpointControllerFinalizer }) with
    | .error e => pure (.failed ("failed to remove arksendpoint finalizer: " ++ e.text))
    | .ok _ => pure (.done .empty)
  match ← request (.get .httpRoute ep.namespace_ ep.name) with
  | .error (.notFound _) => finish
  | .error e => pure (.failed ("failed to get " ++ text ++ e.text))
  | .ok route =>
    match ← request (.delete .httpRoute route.namespace_ route.name) with
    | .error e => pure (.failed ("failed to delete " ++ text ++ e.text))
    | .ok _ => finish

/-- `Reconcile`. -/
def reconcileRequest (namespace_ name : String) : KubeAction Outcome := do
  match ← request (.get .endpoint namespace_ name) with
  | .error (.notFound _) => pure (.done .empty)
  | .error e => pure (.failed e.text)
  | .ok ep =>
    if ep.deletionTimestamp.isSome then handleDelete ep
    else if !hasFinalizer ep.toObjectMeta arksEndpointControllerFinalizer then do
      match ← request (.update .endpoint { ep with
        toObjectMeta := addFinalizer ep.toObjectMeta arksEndpointControllerFinalizer }) with
      | .error e => pure (.failed ("failed to add arksendpoint finalizer: " ++ quote e.text))
      | .ok _ => pure (.done ⟨true,0⟩)
    else do
      match ← reconcile ep with
      | .error e => pure (.failed e)
      | .ok _ => pure (.done .empty)

/-! ### What a pass calls -/

section Calls
variable {answers : (op : KubeOp) → KubeReply op → Prop} {P : KubeOp → Prop} {A : ArksEndpoint → Prop} {ep : ArksEndpoint}

/-- What a pass calls when the endpoint that it reads is in `A`. -/
structure Stays (answers : (op : KubeOp) → KubeReply op → Prop) (P : KubeOp → Prop) (A : ArksEndpoint → Prop) : Prop where
  added : ∀ ep finalizer, A ep → P (.update .endpoint { ep with toObjectMeta := addFinalizer ep.toObjectMeta finalizer })
  removed : ∀ ep finalizer, A ep → P (.update .endpoint { ep with toObjectMeta := removeFinalizer ep.toObjectMeta finalizer })
  status : ∀ ep routes, A ep → P (.updateStatus .endpoint { ep with routes := routes })
  list : ∀ ep, A ep → P (.list .application ep.namespace_ ep.name) ∧ P (.list .disaggregated ep.namespace_ ep.name)
  route : ∀ ep, A ep → P (.get .httpRoute ep.namespace_ ep.name) ∧
    ∀ apps disApps, P (.create .httpRoute ⟨ep.namespace_,ep.name,routeSpec ep (backendRefs ep apps disApps)⟩)
  written : ∀ ep route, A ep → answers (.get .httpRoute ep.namespace_ ep.name) (.ok route) →
    P (.delete .httpRoute route.namespace_ route.name) ∧
      ∀ apps disApps, P (.patch .httpRoute { route with spec := routeSpec ep (backendRefs ep apps disApps) })

theorem recordBackends_within {backends : List HTTPBackendRef} (get : P (.get .httpRoute ep.namespace_ ep.name))
    (create : P (.create .httpRoute ⟨ep.namespace_,ep.name,routeSpec ep backends⟩))
    (patch : ∀ route, answers (.get .httpRoute ep.namespace_ ep.name) (.ok route) →
      P (.patch .httpRoute { route with spec := routeSpec ep backends }))
    (status : P (.updateStatus .endpoint { ep with routes := backends })) :
    Within answers P (fun _ => True) (recordBackends ep backends) := by
  have routed : Within answers P (fun _ => True) (writeRoute ep (routeSpec ep backends)) := by
    refine ⟨get,fun read told => ?_⟩
    rcases read with (_ | _ | _) | route
    · exact ⟨create,fun reply _ => by cases reply <;> trivial⟩
    · trivial
    · trivial
    · exact ⟨patch route told,fun reply _ => by cases reply <;> trivial⟩
  refine within_bind routed (fun written _ => ?_)
  cases written with
  | error => trivial
  | ok => exact ⟨status,fun reply _ => by cases reply <;> trivial⟩

/-- What `reconcile` calls, by the applications that the lists can name. -/
theorem reconcile_within (list : P (.list .application ep.namespace_ ep.name) ∧ P (.list .disaggregated ep.namespace_ ep.name))
    (get : P (.get .httpRoute ep.namespace_ ep.name)) (status : ∀ routes, P (.updateStatus .endpoint { ep with routes := routes }))
    (route : ∀ apps disApps, answers (.list .application ep.namespace_ ep.name) (.ok apps) →
      answers (.list .disaggregated ep.namespace_ ep.name) (.ok disApps) →
      P (.create .httpRoute ⟨ep.namespace_,ep.name,routeSpec ep (backendRefs ep apps disApps)⟩) ∧
      ∀ route, answers (.get .httpRoute ep.namespace_ ep.name) (.ok route) →
        P (.patch .httpRoute { route with spec := routeSpec ep (backendRefs ep apps disApps) })) :
    Within answers P (fun _ => True) (reconcile ep) := by
  simp only [reconcile,Prog.issue_bind,within_call]
  refine ⟨list.1,fun apps told => ?_⟩
  cases apps with
  | error => trivial
  | ok apps =>
    refine ⟨list.2,fun disApps told' => ?_⟩
    cases disApps with
    | error => trivial
    | ok disApps =>
      obtain ⟨create,patch⟩ := route apps disApps told told'
      exact recordBackends_within get create patch (status _)

theorem reconcile_stays (stays : Stays answers P A) (goes : A ep) : Within answers P (fun _ => True) (reconcile ep) :=
  reconcile_within (stays.list ep goes) (stays.route ep goes).1 (fun routes => stays.status ep routes goes)
    (fun apps disApps _ _ => ⟨(stays.route ep goes).2 apps disApps,
      fun route told => (stays.written ep route goes told).2 apps disApps⟩)

private theorem handleDelete_stays (stays : Stays answers P A) (goes : A ep) : Within answers P (fun _ => True)
    (handleDelete ep) := by
  have finish := stays.removed ep arksEndpointControllerFinalizer goes
  refine ⟨(stays.route ep goes).1,fun read told => ?_⟩
  rcases read with (_ | _ | _) | route
  · exact ⟨finish,fun reply _ => by cases reply <;> trivial⟩
  · trivial
  · trivial
  · refine ⟨(stays.written ep route goes told).1,fun reply _ => ?_⟩
    cases reply with
    | error => trivial
    | ok => exact ⟨finish,fun reply _ => by cases reply <;> trivial⟩

theorem request_stays (stays : Stays answers P A) {namespace_ name : String} (get : P (.get .endpoint namespace_ name))
    (read : ∀ ep, answers (.get .endpoint namespace_ name) (.ok ep) → A ep) :
    Within answers P (fun _ => True) (reconcileRequest namespace_ name) := by
  simp only [reconcileRequest,Prog.issue_bind,within_call]
  refine ⟨get,fun reply told => ?_⟩
  rcases reply with (_ | _ | _) | ep <;> try trivial
  have goes := read ep told
  simp only
  split
  · exact handleDelete_stays stays goes
  split
  · exact ⟨stays.added ep _ goes,fun reply _ => by cases reply <;> trivial⟩
  · exact within_bind (reconcile_stays stays goes) (fun written _ => by cases written <;> trivial)

end Calls

/-! ### Events of the applications -/

/-- Empty for a disaggregated application. -/
def getArksEndpointNameFromApplication : Application → String
  | .plain app => if app.spec.servedModelName = "" then app.spec.model else app.spec.servedModelName
  | .disaggregated _ => ""

def isArksApplicationReady : Application → Bool
  | .plain app => decide (app.spec.replicas = app.status.readyReplicas)
  | .disaggregated app => decide (0 < app.status.router.readyReplicas)

def arksEndpointIncludesAppService (ep : ArksEndpoint) (appName : String) : Bool :=
  ep.routes.any (fun r => r.name = getApplicationServiceName appName)

/-- The three branches of `filterApp` look up the endpoint that one of the objects
    serves, and decide when it exists. -/
def withEndpoint (obj : Application) (verdict : ArksEndpoint → Bool) : KubeAction Bool :=
  if getArksEndpointNameFromApplication obj ≠ "" then do
    match ← request (.get .endpoint obj.namespace_ (getArksEndpointNameFromApplication obj)) with
    | .error _ => pure false
    | .ok ep => pure (verdict ep)
  else pure false

/-- An event of an application, as the watch delivers it. -/
inductive Event
  | create (obj : Application)
  | update (old new : Application)
  | delete (obj : Application)

def filterApp : Event → KubeAction Bool
  | .create obj => withEndpoint obj (fun ep =>
      if isArksApplicationReady obj then !arksEndpointIncludesAppService ep obj.name
      else arksEndpointIncludesAppService ep obj.name)
  | .delete obj => withEndpoint obj (fun ep => arksEndpointIncludesAppService ep obj.name)
  | .update old new => withEndpoint new (fun _ => isArksApplicationReady old != isArksApplicationReady new)

def enqueueFromApp (obj : Application) : List (String × String) :=
  if getArksEndpointNameFromApplication obj ≠ "" then [(obj.namespace_.val,getArksEndpointNameFromApplication obj)] else []

/-- The requests of an event that passed: the handler maps both objects of an update. -/
def requestsOf : Event → List (String × String)
  | .create obj => enqueueFromApp obj
  | .update old new => enqueueFromApp old ++ enqueueFromApp new
  | .delete obj => enqueueFromApp obj

end Arks.Endpoints
