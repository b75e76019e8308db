import Arks.Endpoints

/-!
What a pass over an endpoint leaves behind. A successful pass stores a route whose
backends are the static ones followed by those it discovered, and records the same
backends in the status. It discovers exactly the ready `ArksApplication`s; the
index function knows no disaggregated application, so none of them is ever listed.
-/
namespace Arks.Discovery
open Programs Programs.Prog Api Kube Endpoints

/-! ### The backends to be discovered -/

/-- The name under which an application serves its model. -/
def servedName : Application → String
  | .plain app => if app.spec.servedModelName = "" then app.spec.model else app.spec.servedModelName
  | .disaggregated app => if app.spec.servedModelName = "" then app.spec.model else app.spec.servedModelName

/-- The application serves the endpoint from its namespace. -/
def Serving (ep : ArksEndpoint) (app : Application) : Prop := app.namespace_ = ep.namespace_ ∧ servedName app = ep.name.val

/-- `reconcile`'s own tests of readiness. -/
def ready : Application → Bool
  | .plain app => applicationReady app
  | .disaggregated app => disaggregatedReady app

/-- The service that `reconcile` routes to for an application. -/
def serviceName : Application → String
  | .plain app => getApplicationServiceName app.name
  | .disaggregated app => routerServiceName app.name

/-- The application is to be a backend of the endpoint. -/
def Routed (ep : ArksEndpoint) (app : Application) : Prop :=
  Serving ep app ∧ ready app = true ∧ inStaticRoutes ep (serviceName app) = false

/-- The application is in the cluster. -/
def Stored (c : Cluster) : Application → Prop
  | .plain app => c.stored .application app = some app
  | .disaggregated app => c.stored .disaggregated app = some app

/-- The route and the status have the static backends, verbatim and in order,
    followed by one for every application that is to be a backend. -/
def Exact (c : Cluster) (ep : ArksEndpoint) (c' : Cluster) : Prop :=
  ∃ (apps : List Application) (route : HTTPRoute) (stored : ArksEndpoint),
    apps.Nodup ∧ (∀ app, app ∈ apps ↔ Stored c app ∧ Routed ep app) ∧
    c'.objects .httpRoute ep.namespace_ ep.name = some route ∧
    route.spec.rules.map HTTPRouteRule.backendRefs =
      [ep.spec.routeConfigs ++ apps.map (fun app => backendRef ep (serviceName app))] ∧
    c'.objects .endpoint ep.namespace_ ep.name = some stored ∧
    stored.routes = ep.spec.routeConfigs ++ apps.map (fun app => backendRef ep (serviceName app))

/-! ### The backends that are discovered -/

theorem addBackends_eq {α : Type} (ep : ArksEndpoint) (svcName : α → String) (ready : α → Bool) (apps : List α) :
    addBackends ep svcName ready apps =
      (apps.filter (fun app => !inStaticRoutes ep (svcName app) && ready app)).map (fun app => backendRef ep (svcName app)) := by
  induction apps with
  | nil => rfl
  | cons app apps ih =>
    rw [addBackends,ih]
    cases static : inStaticRoutes ep (svcName app) <;> cases able : ready app <;> simp [static,able]

/-- No disaggregated application is listed. -/
theorem listed_disaggregated {c : Cluster} {ns selected : String} {items : List ArksDisaggregatedApplication}
    (listed : Listed indexes c .disaggregated ns selected items) : items = [] := by
  refine List.eq_nil_iff_forall_not_mem.mpr (fun app member => ?_)
  have indexed := ((listed.2 app).mp member).2.2
  simp [indexes,arksAppIndexFunc] at indexed

private theorem indexed_iff (app : ArksApplication) (name : String) :
    name ∈ indexes .application app ↔ servedName (.plain app) = name := by
  simp only [indexes,arksAppIndexFunc,servedName]
  split <;> simp only [List.mem_singleton] <;> exact eq_comm

/-- The listed applications that become backends. -/
def discovered (ep : ArksEndpoint) (apps : List ArksApplication) : List Application :=
  (apps.filter (fun app => !inStaticRoutes ep (getApplicationServiceName app.name) && applicationReady app)).map .plain

theorem addApplications_eq (ep : ArksEndpoint) (apps : List ArksApplication) :
    addApplications ep apps = (discovered ep apps).map (fun app => backendRef ep (serviceName app)) := by
  rw [addApplications,addBackends_eq,discovered,List.map_map]
  rfl

section Listed
variable {c : Cluster} {ep : ArksEndpoint} {apps : List ArksApplication}

theorem discovered_nodup (listed : ListedFor c ep apps) : (discovered ep apps).Nodup :=
  (listed.1.filter _).map (fun a b same => by cases same; rfl)

/-- The `ArksApplication`s that are to be backends are discovered. -/
theorem mem_discovered (listed : ListedFor c ep apps) (app : ArksApplication) :
    .plain app ∈ discovered ep apps ↔ Stored c (.plain app) ∧ Routed ep (.plain app) := by
  have member := listed.2 app
  rw [indexed_iff] at member
  simp only [key,KubeName.inj] at member
  simp only [discovered,List.mem_map,List.mem_filter,Application.plain.injEq,exists_eq_right,Bool.and_eq_true,Bool.not_eq_true',
    Stored,Routed,Serving,ready,serviceName,Application.namespace_,Application.toObjectMeta]
  tauto

theorem disaggregated_not_discovered (app : ArksDisaggregatedApplication) : .disaggregated app ∉ discovered ep apps := by
  simp [discovered]

end Listed

/-! ### A successful pass -/

section Passes
variable {fails : KubeOp → Prop} {c c' : Cluster} {ep : ArksEndpoint}

/-- A route that was written is stored; the endpoints are as they were. -/
theorem writeRoute_stored {spec : HTTPRouteSpec} (run : Alone (Serves indexes fails) (writeRoute ep spec) c (.ok ()) c') :
    c'.objects .endpoint = c.objects .endpoint ∧
      ∃ route, c'.objects .httpRoute ep.namespace_ ep.name = some route ∧ route.spec = spec := by
  simp only [writeRoute,issue_bind,alone_call] at run
  obtain ⟨found,c₁,got,run⟩ := run
  obtain ⟨rfl,stored⟩ := serves_get got
  rcases found with (message | message | message) | route
  · -- the route is created
    simp only [alone_call] at run
    obtain ⟨created,c₂,served,run⟩ := run
    rcases created with e | _
    · simp at run
    simp only [pure_eq,alone_ret] at run
    obtain ⟨_,rfl⟩ := run
    rw [serves_create served]
    exact ⟨Cluster.put_other _ (by decide),_,Cluster.put_stored (k := .httpRoute) ⟨ep.namespace_,ep.name,spec⟩,rfl⟩
  · simp at run
  · simp at run
  · -- the route is patched, and it has the name of the endpoint
    simp only [alone_call] at run
    obtain ⟨patched,c₂,served,run⟩ := run
    rcases patched with e | _
    · simp at run
    simp only [pure_eq,alone_ret] at run
    obtain ⟨_,rfl⟩ := run
    obtain ⟨old,rfl⟩ := serves_patch served
    refine ⟨Cluster.put_other _ (by decide),{ route with spec := spec },?_,rfl⟩
    have named := c₁.keyed (stored route rfl)
    simp only [key,Prod.mk.injEq] at named
    rw [Cluster.put_objects]
    exact if_pos ⟨named.1.symm,named.2.symm⟩

/-- The pass reads the endpoint in the version that is stored. -/
def UpToDate (c : Cluster) (ep : ArksEndpoint) : Prop :=
  ∃ stored, c.stored .endpoint ep = some stored ∧ Current .endpoint stored ep

/-- A successful pass leaves the discovered backends in the route and in the status. -/
theorem reconcile_leaves (run : Alone (Serves indexes fails) (reconcile ep) c (.ok ()) c') :
    UpToDate c ep ∧ ∃ apps route stored, ListedFor c ep apps ∧
      c'.objects .httpRoute ep.namespace_ ep.name = some route ∧
      route.spec = routeSpec ep (backendRefs ep apps []) ∧
      c'.objects .endpoint ep.namespace_ ep.name = some stored ∧ stored.routes = backendRefs ep apps [] := by
  simp only [reconcile,recordBackends,issue_bind,alone_call] at run
  obtain ⟨listed,c₁,served,run⟩ := run
  obtain ⟨rfl,apps⟩ := serves_list served
  rcases listed with e | items
  · simp at run
  simp only [alone_call] at run
  obtain ⟨listed',c₂,served',run⟩ := run
  obtain ⟨rfl,disApps⟩ := serves_list served'
  rcases listed' with e | disItems
  · simp at run
  have none_ := listed_disaggregated (disApps disItems rfl)
  subst none_
  obtain ⟨written,c₃,wrote,run⟩ := alone_bind.mp run
  rcases written with e | _
  · simp at run
  obtain ⟨kept,route,present,spec⟩ := writeRoute_stored wrote
  simp only [alone_call] at run
  obtain ⟨recorded,c₄,update,run⟩ := run
  rcases recorded with e | _
  · simp at run
  simp only [pure_eq,alone_ret] at run
  obtain ⟨_,rfl⟩ := run
  obtain ⟨old,is,current,rfl⟩ := serves_updateStatus update
  refine ⟨⟨old,?_,current⟩,items,route,statusUpdated (c₃.revision + 1) .endpoint old
    { ep with routes := backendRefs ep items [] },
    apps items rfl,?_,spec,?_,rfl⟩
  · rw [Cluster.stored,kept] at is
    exact is
  · rw [Cluster.put_other _ (by decide)]
    exact present
  · have named := c₃.keyed is
    rw [Cluster.put_objects]
    simp only [key_statusUpdated,named]
    exact if_pos ⟨rfl,rfl⟩

private theorem exists_writeRoute (fails : KubeOp → Prop) (c : Cluster) (ep : ArksEndpoint) (spec : HTTPRouteSpec) :
    ∃ c', Alone (Serves indexes fails) (writeRoute ep spec) c (.ok ()) c' := by
  simp only [writeRoute,issue_bind,alone_call]
  cases present : c.objects .httpRoute ep.namespace_ ep.name with
  | none =>
    refine ⟨c.put .httpRoute ⟨ep.namespace_,ep.name,spec⟩,.error (.notFound ""),c,.handled ⟨rfl,?_⟩,?_⟩
    · rw [present]
      exact ⟨"",rfl⟩
    · simp only [alone_call]
      refine ⟨.ok (),_,.handled ?_,alone_ret.mpr ⟨rfl,rfl⟩⟩
      rw [Handles,show c.stored .httpRoute ⟨ep.namespace_,ep.name,spec⟩ = none from present]
      exact ⟨rfl,rfl⟩
  | some route =>
    refine ⟨c.put .httpRoute { route with spec := spec },.ok route,c,.handled ⟨rfl,?_⟩,?_⟩
    · rw [present]
      rfl
    · simp only [alone_call]
      refine ⟨.ok (),_,.handled ?_,alone_ret.mpr ⟨rfl,rfl⟩⟩
      have named := c.keyed present
      rw [Handles,show c.stored .httpRoute { route with spec := spec } = some route from ?_]
      · exact ⟨rfl,rfl⟩
      · simp only [key,Prod.mk.injEq] at named
        rw [Cluster.stored,key,named.1,named.2]
        exact present

/-- A pass over an up-to-date endpoint can succeed. -/
theorem exists_reconcile (fails : KubeOp → Prop) (current : UpToDate c ep) :
    ∃ c', Alone (Serves indexes fails) (reconcile ep) c (.ok ()) c' := by
  obtain ⟨apps,listed⟩ := exists_listed indexes c .application ep.namespace_ ep.name
  obtain ⟨disApps,listed'⟩ := exists_listed indexes c .disaggregated ep.namespace_ ep.name
  obtain ⟨c₁,wrote⟩ := exists_writeRoute fails c ep (routeSpec ep (backendRefs ep apps disApps))
  obtain ⟨stored,present,version⟩ := current
  have kept : c₁.stored .endpoint { ep with routes := backendRefs ep apps disApps } = some stored := by
    rw [Cluster.stored,(writeRoute_stored wrote).1]
    exact present
  simp only [reconcile,recordBackends,issue_bind,alone_call]
  refine ⟨c₁.put .endpoint (statusUpdated (c₁.revision + 1) .endpoint stored { ep with routes := backendRefs ep apps disApps }),
    .ok apps,c,.handled ⟨rfl,apps,rfl,listed⟩,?_⟩
  simp only [alone_call]
  refine ⟨.ok disApps,c,.handled ⟨rfl,disApps,rfl,listed'⟩,alone_bind.mpr ⟨.ok (),c₁,wrote,?_⟩⟩
  simp only [alone_call]
  refine ⟨.ok (),_,.handled ?_,alone_ret.mpr ⟨rfl,rfl⟩⟩
  rw [Handles,kept]
  exact (if_pos version).mpr ⟨rfl,rfl⟩

end Passes

section Exact
variable {fails : KubeOp → Prop} {c c' : Cluster} {ep : ArksEndpoint}

theorem backendRefs_discovered (ep : ArksEndpoint) (apps : List ArksApplication) :
    backendRefs ep apps [] = ep.spec.routeConfigs ++ (discovered ep apps).map (fun app => backendRef ep (serviceName app)) := by
  rw [backendRefs,addApplications_eq]
  simp [addDisaggregatedApplications,addBackends]

/-- What is discovered is exact as long as no disaggregated application is to be a backend. -/
theorem exact_of_plain (run : Alone (Serves indexes fails) (reconcile ep) c (.ok ()) c')
    (plain : ∀ app, Stored c (.disaggregated app) → ¬ Routed ep (.disaggregated app)) : Exact c ep c' := by
  obtain ⟨_,apps,route,stored,listed,isRoute,spec,isStored,routes⟩ := reconcile_leaves run
  refine ⟨discovered ep apps,route,stored,discovered_nodup listed,?_,isRoute,?_,isStored,?_⟩
  · intro app
    cases app with
    | plain app => exact mem_discovered listed app
    | disaggregated app =>
      refine ⟨fun member => absurd member (disaggregated_not_discovered app),fun is => absurd is.2 (plain app is.1)⟩
  · rw [spec,← backendRefs_discovered]
    rfl
  · rw [routes,backendRefs_discovered]

/-- A disaggregated application that is to be a backend is missing, for there are too few backends. -/
theorem not_exact (run : Alone (Serves indexes fails) (reconcile ep) c (.ok ()) c') {app : ArksDisaggregatedApplication}
    (present : Stored c (.disaggregated app)) (routed : Routed ep (.disaggregated app)) : ¬ Exact c ep c' := by
  rintro ⟨apps',_,stored',_,members,_,_,isStored',routes'⟩
  obtain ⟨_,apps,_,stored,listed,_,_,isStored,routes⟩ := reconcile_leaves run
  cases isStored.symm.trans isStored'
  rw [routes,backendRefs_discovered] at routes'
  have few := congrArg List.length (List.append_cancel_left routes')
  rw [List.length_map,List.length_map] at few
  have nodup : (Application.disaggregated app :: discovered ep apps).Nodup :=
    List.nodup_cons.mpr ⟨disaggregated_not_discovered app,discovered_nodup listed⟩
  have within : Application.disaggregated app :: discovered ep apps ⊆ apps' := by
    intro app' member
    rcases List.mem_cons.mp member with rfl | member
    · exact (members _).mpr ⟨present,routed⟩
    · cases app' with
      | plain app' => exact (members _).mpr ((mem_discovered listed app').mp member)
      | disaggregated app' => exact absurd member (disaggregated_not_discovered app')
  have many := (nodup.subperm within).length_le
  rw [List.length_cons] at many
  omega

end Exact

/-- Every successful pass over an endpoint is exact if and only if no disaggregated
    application is to be a backend, or the pass cannot succeed. -/
theorem reconcile_exact_iff (fails : KubeOp → Prop) (c : Cluster) (ep : ArksEndpoint) :
    (∀ c', Alone (Serves indexes fails) (reconcile ep) c (.ok ()) c' → Exact c ep c') ↔
      (UpToDate c ep → ∀ app, Stored c (.disaggregated app) → ¬ Routed ep (.disaggregated app)) := by
  constructor
  · intro exact_ current app present routed
    obtain ⟨c',run⟩ := exists_reconcile fails current
    exact not_exact run present routed (exact_ c' run)
  · intro plain c' run
    exact exact_of_plain run (plain (reconcile_leaves run).1)

/-- An endpoint without static routes. -/
def chat : ArksEndpoint where
  namespace_ := .teamA
  name := .chat
  uid := "1"
  resourceVersion := 1
  finalizers := [arksEndpointControllerFinalizer]
  deletionTimestamp := none
  spec :=
    { defaultWeight := 1
      gatewayRef := ⟨none,none,none,"gateway",none,none⟩
      matchConfigs := none
      routeConfigs := [] }
  routes := []

/-- A disaggregated application that serves it, with one replica of each role ready. -/
def chatServer : ArksDisaggregatedApplication where
  namespace_ := .teamA
  name := .llm
  uid := "2"
  resourceVersion := 2
  finalizers := []
  deletionTimestamp := none
  spec := { (default : ArksDisaggregatedApplicationSpec) with model := "chat" }
  status := { (default : ArksDisaggregatedApplicationStatus) with
    router := ⟨1,1,1⟩
    prefill := ⟨1,1,1⟩
    decode := ⟨1,1,1⟩ }

/-- Both in one cluster. -/
def chatCluster : Cluster := (Cluster.empty.put .endpoint chat).put .disaggregated chatServer

/-- A pass that succeeds leaves the ready application out of the route. -/
theorem disaggregated_missing :
    ¬ ∀ c', Alone (Serves indexes (fun _ => False)) (reconcile chat) chatCluster (.ok ()) c' → Exact chatCluster chat c' := by
  intro exact_
  have upToDate : UpToDate chatCluster chat := ⟨chat,by simp [chatCluster,Cluster.stored,Cluster.put_other],rfl⟩
  obtain ⟨c',run⟩ := exists_reconcile (fun _ => False) upToDate
  have present : Stored chatCluster (.disaggregated chatServer) := Cluster.put_stored _
  exact not_exact run present ⟨⟨rfl,rfl⟩,rfl,rfl⟩ (exact_ c' run)

end Arks.Discovery
