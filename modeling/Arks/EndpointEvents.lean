import Arks.Discovery

/-!
Which events of applications reach the endpoints. The filter compares the old and
the new object of an update only by their readiness, and looks only at the
endpoint of the new one. So an update that makes an application serve another
endpoint is lost unless the new endpoint exists and readiness changes with it;
every other event that changes a route is passed on.
-/
namespace Arks.EndpointEvents
open Programs Programs.Prog Api Kube Endpoints Discovery

/-! ### Events and the backends they change -/

/-- Store an application. -/
def store (c : Cluster) : Application → Cluster
  | .plain app => c.put .application app
  | .disaggregated app => c.put .disaggregated app

/-- Remove an application. -/
def erase (c : Cluster) : Application → Cluster
  | .plain app => c.remove .application app.namespace_ app.name
  | .disaggregated app => c.remove .disaggregated app.namespace_ app.name

/-- Nothing is stored under the name of the application. -/
def Absent (c : Cluster) : Application → Prop
  | .plain app => c.stored .application app = none
  | .disaggregated app => c.stored .disaggregated app = none

/-- Two versions of one application. -/
def SameObject : Application → Application → Prop
  | .plain old,.plain new => key .application old = key .application new
  | .disaggregated old,.disaggregated new => key .disaggregated old = key .disaggregated new
  | _,_ => False

/-- What an event says about the cluster before and after it. -/
def Happens (c c' : Cluster) : Event → Prop
  | .create obj => Absent c obj ∧ c' = store c obj
  | .update old new => Stored c old ∧ SameObject old new ∧ c' = store c new
  | .delete obj => Stored c obj ∧ c' = erase c obj

/-- The dynamic backends that `reconcile` computes for the endpoint. -/
def Computes (c : Cluster) (ep : ArksEndpoint) (backend : HTTPBackendRef) : Prop :=
  ∃ apps disApps, ListedFor c ep apps ∧
    Listed indexes c .disaggregated ep.namespace_ ep.name disApps ∧
    backend ∈ addApplications ep apps ++ addDisaggregatedApplications ep disApps

/-- The status has the backends of a `reconcile` in this state. -/
def Recorded (c : Cluster) (ep : ArksEndpoint) : Prop :=
  ∃ apps disApps, ListedFor c ep apps ∧
    Listed indexes c .disaggregated ep.namespace_ ep.name disApps ∧ ep.routes = backendRefs ep apps disApps

/-- The filter lets the event pass. -/
def Passes (c : Cluster) (event : Event) : Prop :=
  Alone (Serves indexes (fun _ => False)) (filterApp event) c true c

/-- An existing endpoint whose backends the event changes is reconciled. -/
def Notified (c c' : Cluster) (event : Event) : Prop :=
  ∀ ep, c.stored .endpoint ep = some ep → (∃ backend, ¬ (Computes c ep backend ↔ Computes c' ep backend)) →
    Passes c' event ∧ (ep.namespace_.val,ep.name.val) ∈ requestsOf event

/-- An update does not move the application to another endpoint, or it changes its
    readiness and the new endpoint exists, or no endpoint has or gets it as a backend. -/
def Tame (c : Cluster) : Event → Prop
  | .update (.plain old) (.plain new) =>
    servedName (.plain old) = servedName (.plain new) ∨
    (applicationReady old ≠ applicationReady new ∧
      (c.objects .endpoint new.namespace_ (servedName (.plain new))).isSome) ∨
    ∀ ep, c.stored .endpoint ep = some ep → ¬ Routed ep (.plain old) ∧ ¬ Routed ep (.plain new)
  | _ => True

/-! ### The computed backends, by the name of the application -/

/-- The application of this name is a backend of the endpoint. -/
def RoutedAt (c : Cluster) (ep : ArksEndpoint) (name : String) : Prop :=
  ∃ app, c.objects .application ep.namespace_ name = some app ∧ Routed ep (.plain app)

section Computes
variable {c c' : Cluster} {ep : ArksEndpoint}

theorem serviceName_inj {a b : String} : getApplicationServiceName a = getApplicationServiceName b ↔ a = b :=
  String.append_right_inj _

/-- Which backends the listed applications add. -/
theorem mem_dynamic {apps : List ArksApplication} {disApps : List ArksDisaggregatedApplication}
    (listed : ListedFor c ep apps)
    (listed' : Listed indexes c .disaggregated ep.namespace_ ep.name disApps) (backend : HTTPBackendRef) :
    backend ∈ addApplications ep apps ++ addDisaggregatedApplications ep disApps ↔
      ∃ name, RoutedAt c ep name ∧ backend = backendRef ep (getApplicationServiceName name) := by
  rw [listed_disaggregated listed',addApplications_eq]
  simp only [addDisaggregatedApplications,addBackends,List.append_nil,List.mem_map]
  constructor
  · rintro ⟨app,member,rfl⟩
    cases app with
    | plain app =>
      obtain ⟨stored,routed⟩ := (mem_discovered listed app).mp member
      refine ⟨app.name,⟨app,?_,routed⟩,rfl⟩
      rw [← routed.1.1]
      exact stored
    | disaggregated app => exact absurd member (disaggregated_not_discovered app)
  · rintro ⟨name,⟨app,stored,routed⟩,rfl⟩
    have named := c.keyed stored
    simp only [key,Prod.mk.injEq] at named
    refine ⟨.plain app,(mem_discovered listed app).mpr ⟨?_,routed⟩,?_⟩
    · rw [Stored,Cluster.stored,key,named.1,named.2]
      exact stored
    · rw [serviceName,named.2]

private theorem computes_iff (backend : HTTPBackendRef) :
    Computes c ep backend ↔ ∃ name, RoutedAt c ep name ∧ backend = backendRef ep (getApplicationServiceName name) := by
  constructor
  · rintro ⟨apps,disApps,listed,listed',member⟩
    exact (mem_dynamic listed listed' backend).mp member
  · intro routed
    obtain ⟨apps,listed⟩ := exists_listed indexes c .application ep.namespace_ ep.name
    obtain ⟨disApps,listed'⟩ := exists_listed indexes c .disaggregated ep.namespace_ ep.name
    exact ⟨apps,disApps,listed,listed',(mem_dynamic listed listed' backend).mpr routed⟩

/-- The backends change when an application becomes one or ceases to be one. -/
theorem differs_iff : (∃ backend, ¬ (Computes c ep backend ↔ Computes c' ep backend)) ↔
    ∃ name, ¬ (RoutedAt c ep name ↔ RoutedAt c' ep name) := by
  simp only [computes_iff]
  constructor
  · rintro ⟨backend,differ⟩
    by_contra none_
    push Not at none_
    exact differ (by simp only [none_])
  · rintro ⟨name,differ⟩
    have own : ∀ d : Cluster, (∃ n, RoutedAt d ep n ∧
        backendRef ep (getApplicationServiceName name) = backendRef ep (getApplicationServiceName n)) ↔ RoutedAt d ep name := by
      intro d
      constructor
      · rintro ⟨n,routed,same⟩
        rw [serviceName_inj.mp (congrArg HTTPBackendRef.name same)]
        exact routed
      · exact fun routed => ⟨name,routed,rfl⟩
    exact ⟨backendRef ep (getApplicationServiceName name),by rw [own c,own c']; exact differ⟩

/-- The status names the service of an application that is not static exactly when it is a backend. -/
theorem includes_iff (recorded : Recorded c ep) {name : String}
    (dynamic : inStaticRoutes ep (getApplicationServiceName name) = false) :
    arksEndpointIncludesAppService ep name = true ↔ RoutedAt c ep name := by
  obtain ⟨apps,disApps,listed,listed',routes⟩ := recorded
  simp only [arksEndpointIncludesAppService,List.any_eq_true,decide_eq_true_eq,routes,backendRefs,List.append_assoc]
  constructor
  · rintro ⟨backend,member,named⟩
    rcases List.mem_append.mp member with static | member
    · have free : ∀ r ∈ ep.spec.routeConfigs, r.name ≠ getApplicationServiceName name := by
        simpa [inStaticRoutes] using dynamic
      exact absurd named (free backend static)
    · obtain ⟨n,routed,rfl⟩ := (mem_dynamic listed listed' backend).mp member
      rw [← serviceName_inj.mp named]
      exact routed
  · intro routed
    exact ⟨_,List.mem_append_right _ ((mem_dynamic listed listed' _).mpr ⟨name,routed,rfl⟩),rfl⟩

end Computes

/-! ### What the events do -/

section Events
variable {c c' : Cluster} {ep : ArksEndpoint} {event : Event}

/-- An event leaves the endpoints alone. -/
theorem happens_endpoint (happens : Happens c c' event) : c'.objects .endpoint = c.objects .endpoint := by
  have kept : ∀ obj, (store c obj).objects .endpoint = c.objects .endpoint ∧
    (erase c obj).objects .endpoint = c.objects .endpoint := by
    intro obj
    cases obj <;> exact ⟨Cluster.put_other _ (by decide),Cluster.remove_other _ _ (by decide)⟩
  cases event with
  | create obj => rw [happens.2]; exact (kept obj).1
  | update old new => rw [happens.2.2]; exact (kept new).1
  | delete obj => rw [happens.2]; exact (kept obj).2

/-- An event of a disaggregated application changes no backends. -/
theorem routedAt_disaggregated (name : String) (app : ArksDisaggregatedApplication) :
    (RoutedAt (store c (.disaggregated app)) ep name ↔ RoutedAt c ep name) ∧
      (RoutedAt (erase c (.disaggregated app)) ep name ↔ RoutedAt c ep name) := by
  simp only [RoutedAt,store,erase,Cluster.put_other (k := .disaggregated) (j := .application) app (by decide),
    Cluster.remove_other (k := .disaggregated) (j := .application) _ _ (by decide),and_self]

theorem routedAt_store (name : String) (app : ArksApplication) :
    RoutedAt (store c (.plain app)) ep name ↔
      if ep.namespace_ = app.namespace_ ∧ name = app.name.val then Routed ep (.plain app) else RoutedAt c ep name := by
  simp only [RoutedAt,store,Cluster.put_objects,key,KubeName.inj]
  split <;> simp

private theorem routedAt_erase (name : String) (app : ArksApplication) :
    RoutedAt (erase c (.plain app)) ep name ↔
      ¬ (ep.namespace_ = app.namespace_ ∧ name = app.name.val) ∧ RoutedAt c ep name := by
  simp only [RoutedAt,erase,Cluster.remove_objects,KubeName.inj]
  split <;> simp [*]

variable {app old new : ArksApplication}

/-- The backend of a stored application. -/
theorem routedAt_stored (stored : c.stored .application app = some app)
    (here : ep.namespace_ = app.namespace_) : RoutedAt c ep app.name ↔ Routed ep (.plain app) := by
  have present : c.objects .application ep.namespace_ app.name = some app := by rw [here]; exact stored
  simp [RoutedAt,present]

private theorem not_routedAt_absent (absent : c.stored .application app = none)
    (here : ep.namespace_ = app.namespace_) : ¬ RoutedAt c ep app.name := by
  have present : c.objects .application ep.namespace_ app.name = none := by rw [here]; exact absent
  simp [RoutedAt,present]

/-! ### The filter -/

/-- The filter looks up the endpoint of an object. -/
theorem withEndpoint_passes (obj : Application) (verdict : ArksEndpoint → Bool) :
    Alone (Serves indexes (fun _ => False)) (withEndpoint obj verdict) c true c ↔
      ∃ ep, c.objects .endpoint obj.namespace_ (getArksEndpointNameFromApplication obj) = some ep ∧ verdict ep = true := by
  unfold withEndpoint
  split
  · simp only [issue_bind,alone_call]
    constructor
    · rintro ⟨found,c₁,got,run⟩
      obtain ⟨rfl,stored⟩ := serves_get got
      rcases found with e | ep
      · simp at run
      · exact ⟨ep,stored ep rfl,(alone_ret.mp run).1.symm⟩
    · rintro ⟨ep,stored,verdict_⟩
      exact ⟨.ok ep,c,.handled ⟨rfl,found_ok.mpr stored⟩,by simp [verdict_]⟩
  · rename_i unnamed
    rw [not_not] at unnamed
    simp only [pure_eq,alone_ret,Bool.true_eq_false,false_and,false_iff,not_exists,not_and]
    -- an endpoint has a name
    intro ep stored
    have named := c.keyed stored
    simp only [key,Prod.mk.injEq,unnamed] at named
    exact absurd named.2 ep.name.nonempty

/-- An application that serves a stored endpoint finds it. -/
theorem endpoint_of (stored : c.stored .endpoint ep = some ep) (serving : Serving ep (.plain app)) :
    c.objects .endpoint app.namespace_ (getArksEndpointNameFromApplication (.plain app)) = some ep := by
  rw [show app.namespace_ = ep.namespace_ from serving.1,
    show getArksEndpointNameFromApplication (.plain app) = ep.name.val from serving.2]
  exact stored

theorem enqueued (serving : Serving ep (.plain app)) :
    (ep.namespace_.val,ep.name.val) ∈ enqueueFromApp (.plain app) := by
  have name : getArksEndpointNameFromApplication (.plain app) = ep.name.val := serving.2
  have here : (Application.plain app).namespace_ = ep.namespace_ := serving.1
  rw [enqueueFromApp,name,here,if_pos ep.name.nonempty]
  exact List.mem_singleton_self _

private theorem create_notified (recorded : ∀ ep, c.stored .endpoint ep = some ep → Recorded c ep)
    (happens : Happens c c' (.create (.plain app))) : Notified c c' (.create (.plain app)) := by
  intro ep stored differs
  have kept := happens_endpoint happens
  obtain ⟨absent,rfl⟩ := happens
  obtain ⟨name,differ⟩ := differs_iff.mp differs
  rw [routedAt_store] at differ
  split at differ
  · rename_i here
    obtain ⟨here,rfl⟩ := here
    have before := not_routedAt_absent absent here
    have routed : Routed ep (.plain app) := by tauto
    refine ⟨(withEndpoint_passes _ _).mpr ⟨ep,?_,?_⟩,enqueued routed.1⟩
    · rw [kept]
      exact endpoint_of stored routed.1
    · have ready_ : isArksApplicationReady (.plain app) = true := routed.2.1
      have excluded : arksEndpointIncludesAppService ep app.name = false := by
        simpa using (not_congr (includes_iff (recorded ep stored) routed.2.2)).mpr before
      rw [if_pos ready_]
      exact congrArg Bool.not excluded
  · exact absurd Iff.rfl differ

private theorem delete_notified (recorded : ∀ ep, c.stored .endpoint ep = some ep → Recorded c ep)
    (happens : Happens c c' (.delete (.plain app))) : Notified c c' (.delete (.plain app)) := by
  intro ep stored differs
  have kept := happens_endpoint happens
  obtain ⟨present,rfl⟩ := happens
  obtain ⟨name,differ⟩ := differs_iff.mp differs
  rw [routedAt_erase] at differ
  by_cases here : ep.namespace_ = app.namespace_ ∧ name = app.name.val
  · obtain ⟨here,rfl⟩ := here
    have before : RoutedAt c ep app.name := by tauto
    have routed := (routedAt_stored present here).mp before
    refine ⟨(withEndpoint_passes _ _).mpr ⟨ep,?_,?_⟩,enqueued routed.1⟩
    · rw [kept]
      exact endpoint_of stored routed.1
    · exact (includes_iff (recorded ep stored) routed.2.2).mpr before
  · exact absurd (by tauto) differ

/-- An update changes the backends of the endpoints for which only one of its objects is to be a backend. -/
theorem update_differs (happens : Happens c c' (.update (.plain old) (.plain new))) :
    (∃ backend, ¬ (Computes c ep backend ↔ Computes c' ep backend)) ↔ ¬ (Routed ep (.plain old) ↔ Routed ep (.plain new)) := by
  obtain ⟨present,same,rfl⟩ := happens
  simp only [SameObject,key,Prod.mk.injEq,KubeName.inj] at same
  have elsewhere : ep.namespace_ ≠ new.namespace_ → ¬ Routed ep (.plain old) ∧ ¬ Routed ep (.plain new) := by
    intro away
    refine ⟨fun routed => away ?_,fun routed => away routed.1.1.symm⟩
    rw [← same.1]
    exact routed.1.1.symm
  rw [differs_iff]
  simp only [routedAt_store]
  constructor
  · rintro ⟨name,differ⟩
    split at differ
    · rename_i here
      obtain ⟨here,rfl⟩ := here
      rw [← same.2,routedAt_stored present (here.trans same.1.symm)] at differ
      exact differ
    · exact absurd Iff.rfl differ
  · intro differ
    by_cases here : ep.namespace_ = new.namespace_
    · refine ⟨new.name,?_⟩
      rw [if_pos ⟨here,rfl⟩,← same.2,routedAt_stored present (here.trans same.1.symm)]
      exact differ
    · exact absurd (iff_of_false (elsewhere here).1 (elsewhere here).2) differ

theorem update_passes :
    Passes c' (.update (.plain old) (.plain new)) ↔
      (c'.objects .endpoint new.namespace_ (servedName (.plain new))).isSome ∧ applicationReady old ≠ applicationReady new := by
  refine (withEndpoint_passes _ _).trans ?_
  rw [Option.isSome_iff_exists]
  simp only [isArksApplicationReady,bne_iff_ne]
  exact ⟨fun ⟨ep,stored,differ⟩ => ⟨⟨ep,stored⟩,differ⟩,fun ⟨⟨ep,stored⟩,differ⟩ => ⟨ep,stored,differ⟩⟩

/-- For an update the tests of readiness differ when it neither moves the application nor leaves the backends. -/
theorem ready_differs (same : SameObject (.plain old) (.plain new)) (served : servedName (.plain old) = servedName (.plain new))
    (differ : ¬ (Routed ep (.plain old) ↔ Routed ep (.plain new))) :
    applicationReady old ≠ applicationReady new ∧ Serving ep (.plain new) := by
  simp only [SameObject,key,Prod.mk.injEq,KubeName.inj] at same
  have serving : Serving ep (.plain old) ↔ Serving ep (.plain new) := by
    simp only [Serving,served,Application.namespace_,Application.toObjectMeta,same.1]
  have static : inStaticRoutes ep (serviceName (.plain old)) = inStaticRoutes ep (serviceName (.plain new)) := by
    simp only [serviceName,same.2]
  simp only [Routed,serving,static,ready] at differ
  refine ⟨fun equal => differ (by rw [equal]),?_⟩
  by_contra none_
  exact differ (iff_of_false (fun is => none_ is.1) (fun is => none_ is.1))

theorem update_notified_iff (happens : Happens c c' (.update (.plain old) (.plain new))) :
    Notified c c' (.update (.plain old) (.plain new)) ↔ Tame c (.update (.plain old) (.plain new)) := by
  have kept := happens_endpoint happens
  constructor
  · intro notified
    by_cases served : servedName (.plain old) = servedName (.plain new)
    · exact .inl served
    by_cases quiet : ∀ ep, c.stored .endpoint ep = some ep → ¬ Routed ep (.plain old) ∧ ¬ Routed ep (.plain new)
    · exact .inr (.inr quiet)
    · push Not at quiet
      obtain ⟨ep,stored,routed⟩ := quiet
      have differ : ¬ (Routed ep (.plain old) ↔ Routed ep (.plain new)) := by
        intro both
        by_cases first : Routed ep (.plain old)
        · exact served (first.1.2.trans (both.mp first).1.2.symm)
        · exact absurd (both.mpr (routed first)) first
      obtain ⟨exists_,flips⟩ := update_passes.mp (notified ep stored ((update_differs happens).mpr differ)).1
      rw [kept] at exists_
      exact .inr (.inl ⟨flips,exists_⟩)
  · intro tame ep stored differs
    have differ := (update_differs happens).mp differs
    have either : Serving ep (.plain old) ∨ Serving ep (.plain new) := by
      by_contra none_
      push Not at none_
      exact differ (iff_of_false (fun is => none_.1 is.1) (fun is => none_.2 is.1))
    refine ⟨update_passes.mpr ?_,?_⟩
    · rw [kept]
      rcases tame with served | ⟨flips,exists_⟩ | quiet
      · obtain ⟨flips,serving⟩ := ready_differs happens.2.1 served differ
        exact ⟨Option.isSome_iff_exists.mpr ⟨ep,endpoint_of stored serving⟩,flips⟩
      · exact ⟨exists_,flips⟩
      · exact absurd (iff_of_false (quiet ep stored).1 (quiet ep stored).2) differ
    · rcases either with serving | serving
      · exact List.mem_append_left _ (enqueued serving)
      · exact List.mem_append_right _ (enqueued serving)

/-- When the endpoints have recorded their backends, an event that changes backends
    reaches the endpoints if and only if it is tame. -/
theorem notified_iff {c c' : Cluster} {event : Event} (recorded : ∀ ep, c.stored .endpoint ep = some ep → Recorded c ep)
    (happens : Happens c c' event) : Notified c c' event ↔ Tame c event := by
  have unchanged (same : ∀ ep name, RoutedAt c' ep name ↔ RoutedAt c ep name) : Notified c c' event := by
    intro ep _ differs
    obtain ⟨name,differ⟩ := differs_iff.mp differs
    exact absurd (same ep name).symm differ
  cases event with
  | create obj =>
    refine iff_of_true ?_ trivial
    cases obj with
    | plain app => exact create_notified recorded happens
    | disaggregated app => exact unchanged (fun ep name => by rw [happens.2]; exact (routedAt_disaggregated name app).1)
  | delete obj =>
    refine iff_of_true ?_ trivial
    cases obj with
    | plain app => exact delete_notified recorded happens
    | disaggregated app => exact unchanged (fun ep name => by rw [happens.2]; exact (routedAt_disaggregated name app).2)
  | update old new =>
    cases old with
    | plain old =>
      cases new with
      | plain new => exact update_notified_iff happens
      | disaggregated new => exact absurd happens.2.1 (by simp [SameObject])
    | disaggregated old =>
      cases new with
      | plain new => exact absurd happens.2.1 (by simp [SameObject])
      | disaggregated new =>
        refine iff_of_true (unchanged (fun ep name => ?_)) trivial
        rw [happens.2.2]
        exact (routedAt_disaggregated name new).1

end Events

/-! ### A lost update -/

/-- An application that serves the endpoint `chat`. -/
def chatApp : ArksApplication where
  namespace_ := .teamA
  name := .llm
  uid := "2"
  resourceVersion := 2
  finalizers := []
  deletionTimestamp := none
  spec := { (default : ArksApplicationSpec) with replicas := 1,model := "chat" }
  status := { (default : ArksApplicationStatus) with readyReplicas := 1 }

/-- The same application after it was given another name to serve. -/
def movedApp : ArksApplication := { chatApp with resourceVersion := 3,spec := { chatApp.spec with servedModelName := "other" } }

/-- The endpoint has recorded the application. -/
def recordedChat : ArksEndpoint := { chat with routes := addApplications chat [chatApp] }

def chatAppCluster : Cluster := (Cluster.empty.put .endpoint recordedChat).put .application chatApp

private theorem chatAppCluster_endpoint {ep : ArksEndpoint}
    (stored : chatAppCluster.stored .endpoint ep = some ep) : ep = recordedChat := by
  simp only [chatAppCluster,Cluster.stored,Cluster.put_other (k := .application) (j := .endpoint) chatApp (by decide),
    Cluster.put_objects] at stored
  split at stored
  · cases stored; rfl
  · cases stored

private theorem chatAppCluster_application {app : ArksApplication} (stored : chatAppCluster.stored .application app = some app) :
    app = chatApp := by
  simp only [chatAppCluster,Cluster.stored,Cluster.put_objects,
    Cluster.put_other (k := .endpoint) (j := .application) recordedChat (by decide)] at stored
  split at stored
  · cases stored; rfl
  · cases stored

private theorem chatAppCluster_recorded (ep : ArksEndpoint) (stored : chatAppCluster.stored .endpoint ep = some ep) :
    Recorded chatAppCluster ep := by
  cases chatAppCluster_endpoint stored
  refine ⟨[chatApp],[],⟨List.nodup_singleton _,fun app => ?_⟩,⟨List.nodup_nil,fun app => ?_⟩,rfl⟩
  · rw [List.mem_singleton]
    constructor
    · rintro rfl
      exact ⟨Cluster.put_stored _,rfl,List.mem_singleton_self _⟩
    · exact fun is => chatAppCluster_application is.1
  · simp [indexes,arksAppIndexFunc]

/-- The application leaves the endpoint `chat` while it stays ready. -/
def moved : Event := .update (.plain chatApp) (.plain movedApp)

private theorem moved_happens : Happens chatAppCluster (store chatAppCluster (.plain movedApp)) moved :=
  ⟨Cluster.put_stored _,rfl,rfl⟩

/-- The filter drops the event, and the endpoint keeps a route to the application. -/
theorem moved_lost : ¬ Notified chatAppCluster (store chatAppCluster (.plain movedApp)) moved := by
  intro notified
  rcases (update_notified_iff moved_happens).mp notified with served | ⟨flips,_⟩ | quiet
  · exact absurd served (by decide)
  · exact flips rfl
  · have present : chatAppCluster.stored .endpoint recordedChat = some recordedChat := by
      simp [chatAppCluster,Cluster.stored,Cluster.put_other]
    exact (quiet recordedChat present).1 ⟨⟨rfl,rfl⟩,rfl,rfl⟩

/-- The application as it stops being ready. -/
def stoppedApp : ArksApplication :=
  { chatApp with resourceVersion := 3,status := { chatApp.status with readyReplicas := 0 } }

def stopped : Event := .update (.plain chatApp) (.plain stoppedApp)

private theorem stopped_happens : Happens chatAppCluster (store chatAppCluster (.plain stoppedApp)) stopped :=
  ⟨Cluster.put_stored _,rfl,rfl⟩

/-- An update of the readiness is passed on. -/
theorem stopped_notified : Notified chatAppCluster (store chatAppCluster (.plain stoppedApp)) stopped :=
  (notified_iff chatAppCluster_recorded stopped_happens).mpr (.inl rfl)

end Arks.EndpointEvents
