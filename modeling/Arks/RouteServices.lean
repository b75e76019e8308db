import Arks.Applications
import Arks.Discovery

/-!
The service that the route of an endpoint names for an application, and the
service that the reconciler of the application creates. For an `ArksApplication`
they are the same; for a disaggregated application the reconciler overwrites the
name that the route relies on.
-/
namespace Arks.RouteServices
open Programs Programs.Prog Api Kube Controllers Endpoints Discovery Workloads
  Applications Applications.Disaggregated

/-- The service is where the backend points, as seen from the application's namespace. -/
def Serves (backend : HTTPBackendRef) (app : Application) (svc : Service) : Prop :=
  svc.namespace_ = app.namespace_ ∧ svc.name = backend.name ∧ svc.ports.map (fun port => some port.port) = [backend.port]

/-- Every service that is created is where the backend points. -/
def Names (backend : HTTPBackendRef) (app : Application) (op : KubeOp) : Prop :=
  ∀ svc, op = .create .service svc → Serves backend app svc

/-- Whatever the API answers, the part of the application's reconciler that sees to
    the children creates no other service than the one that the backend points at. -/
def Backs (p : Platform) (backend : HTTPBackendRef) : Application → Prop
  | .plain app => ∀ model, Issues (Names backend (.plain app)) (fun _ => True)
      ((arksApplicationReconciler p).start app model)
  | .disaggregated app => ∀ model, Issues (Names backend (.disaggregated app)) (fun _ => True)
      ((arksDisaggregatedApplicationReconciler p).start app model)

/-- Any answers of the API, except that its lists name no application but this one. -/
def Finds (app : Application) : (op : KubeOp) → KubeReply op → Prop
  | .list .application _ _,r => ∀ apps, r = .ok apps → ∀ a ∈ apps, app = .plain a
  | .list .disaggregated _ _,r => ∀ apps, r = .ok apps → ∀ a ∈ apps, app = .disaggregated a
  | _,_ => True

/-- The backends of the route are static or point at the service of the application. -/
def PointsAt (p : Platform) (ep : ArksEndpoint) (app : Application) (op : KubeOp) : Prop :=
  ∀ route, op = .create .httpRoute route ∨ op = .patch .httpRoute route →
    ∀ rule ∈ route.spec.rules, ∀ backend ∈ rule.backendRefs, backend ∈ ep.spec.routeConfigs ∨ Backs p backend app

/-- What `reconcile` puts into the route for an application is the service that the
    reconciler of the application creates. -/
def Agrees (p : Platform) (ep : ArksEndpoint) (app : Application) : Prop :=
  Within (Finds app) (PointsAt p ep app) (fun _ => True) (reconcile ep)

theorem mem_addBackends {α : Type} {ep : ArksEndpoint} {svcName : α → String} {ready : α → Bool} {apps : List α}
    {backend : HTTPBackendRef} : backend ∈ addBackends ep svcName ready apps ↔
      ∃ app ∈ apps, inStaticRoutes ep (svcName app) = false ∧ ready app = true ∧ backendRef ep (svcName app) = backend := by
  simp [addBackends_eq,and_assoc]

private theorem applicationService_serves (ep : ArksEndpoint) (app : ArksApplication) :
    Serves (backendRef ep (getApplicationServiceName app.name)) (.plain app) (applicationService app) := ⟨rfl,rfl,rfl⟩

private theorem plain_backs (p : Platform) (ep : ArksEndpoint) (app : ArksApplication) :
    Backs p (backendRef ep (getApplicationServiceName app.name)) (.plain app) := by
  intro model
  refine within_bind (ensure_within (by simp [Names]) (by simp [Names])) (fun lws _ => ?_)
  cases lws with
  | present =>
    refine within_bind (ensure_within (by simp [Names]) ?_) (fun _ _ => trivial)
    intro svc same svc' same'
    cases same
    cases same'
    exact applicationService_serves ep app
  | panicked | generateFailed | createFailed | checkFailed => trivial

/-- The two names have different lengths. -/
theorem routerServiceName_ne (name : String) : "arks-application-" ++ name ≠ routerServiceName name := by
  intro same
  have lengths := congrArg String.length same
  simp only [routerServiceName,String.length_append] at lengths
  have left : "arks-application-".length = 17 := by decide
  have right : "-router-svc".length = 11 := by decide
  omega

/-- A disaggregated application whose other children are there gets a service of another name. -/
theorem not_disaggregated_backs (p : Platform) (ep : ArksEndpoint) (app : ArksDisaggregatedApplication) :
    ¬ Backs p (backendRef ep (routerServiceName app.name)) (.disaggregated app) := by
  intro backs
  let model : ArksModel := ⟨app.toObjectMeta,default,default⟩
  let lws : LeaderWorkerSet := ⟨app.namespace_,"",[],1,1,default,default,default⟩
  let deployment : Deployment := ⟨app.namespace_,"",[],some 1,[],default,default⟩
  have created := ((((backs model).2 (.ok lws) trivial).2 (.ok lws) trivial).2 (.ok deployment) trivial).2
    (.error (.notFound "")) trivial
  have named : Workloads.Disaggregated.generateApplicationServiceName (sized app) = routerServiceName app.name :=
    (created.1 _ rfl).2.1
  rw [Workloads.Disaggregated.generateApplicationServiceName_eq,sized_meta] at named
  exact routerServiceName_ne app.name named

/-- The pass that finds a ready disaggregated application routes to a service that is not created. -/
theorem disaggregated_disagrees (p : Platform) {ep : ArksEndpoint} {app : ArksDisaggregatedApplication}
    (able : disaggregatedReady app = true) (fresh : inStaticRoutes ep (routerServiceName app.name) = false) :
    ¬ Agrees p ep (.disaggregated app) := by
  intro agrees
  have others : Finds (.disaggregated app) (.list .application ep.namespace_ ep.name) (.ok []) := by
    rintro _ ⟨⟩ a member
    cases member
  have listed : Finds (.disaggregated app) (.list .disaggregated ep.namespace_ ep.name) (.ok [app]) := by
    rintro _ ⟨⟩ a member
    rw [List.mem_singleton.mp member]
  have created := (((agrees.2 (.ok []) others).2 (.ok [app]) listed).2 (.error (.notFound "")) trivial).1
  have put : backendRef ep (routerServiceName app.name) ∈ backendRefs ep [] [app] :=
    List.mem_append_right _ (mem_addBackends.mpr ⟨app,List.mem_singleton_self _,fresh,able,rfl⟩)
  rcases created _ (.inl rfl) _ (List.mem_singleton_self _) _ put with static | backs
  · have named : inStaticRoutes ep (routerServiceName app.name) = true := List.any_eq_true.mpr ⟨_,static,by simp [backendRef]⟩
    rw [fresh] at named
    cases named
  · exact not_disaggregated_backs p ep app backs

/-- The route names the service that exists if and only if the application is an
    `ArksApplication`, or `reconcile` puts nothing into the route for it. -/
theorem agrees_iff (p : Platform) (ep : ArksEndpoint) (app : Application) :
    Agrees p ep app ↔ (ready app = true → inStaticRoutes ep (serviceName app) = false → ∃ plain, app = .plain plain) := by
  constructor
  · intro agrees able fresh
    cases app with
    | plain app => exact ⟨app,rfl⟩
    | disaggregated app => exact absurd agrees (disaggregated_disagrees p able fresh)
  · intro plain
    have points : ∀ apps disApps, Finds app (.list .application ep.namespace_ ep.name) (.ok apps) →
        Finds app (.list .disaggregated ep.namespace_ ep.name) (.ok disApps) → ∀ backend ∈ backendRefs ep apps disApps,
        backend ∈ ep.spec.routeConfigs ∨ Backs p backend app := by
      intro apps disApps found found' backend member
      rcases List.mem_append.mp member with member | added
      · rcases List.mem_append.mp member with static | added
        · exact .inl static
        · obtain ⟨a,listed,_,_,rfl⟩ := mem_addBackends.mp added
          rw [found apps rfl a listed]
          exact .inr (plain_backs p ep a)
      · obtain ⟨a,listed,fresh,able,_⟩ := mem_addBackends.mp added
        obtain rfl := found' disApps rfl a listed
        obtain ⟨_,⟨⟩⟩ := plain able fresh
    refine reconcile_within ⟨by simp [PointsAt],by simp [PointsAt]⟩ (by simp [PointsAt]) (by simp [PointsAt]) ?_
    intro apps disApps found found'
    have here := points apps disApps found found'
    exact ⟨by simpa [PointsAt,routeSpec] using here,fun route _ => by simpa [PointsAt,routeSpec] using here⟩

/-- The route of the endpoint `chat` and the reconciler of `chatServer` speak of different services. -/
theorem chatServer_disagrees : ¬ Agrees ⟨fun _ => "",id⟩ chat (.disaggregated chatServer) :=
  disaggregated_disagrees _ rfl rfl

end Arks.RouteServices
