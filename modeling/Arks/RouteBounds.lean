import Arks.EndpointEvents

/-!
The size of the generated routes. The schemas of `ArksEndpoint` and `HTTPRoute` bound the
backends of a rule and the header matchers of a match by sixteen. `reconcile` adds the
discovered backends to the static ones and two matchers for the tenant to those of the user,
and checks no bound.
-/
namespace Arks.RouteBounds
open Programs Programs.Prog Api Kube Endpoints Discovery EndpointEvents

/-! ### What a pass writes -/

/-- A call writes no other route than this, and no other backends to the status. -/
def Writes (ep : ArksEndpoint) (backends : List HTTPBackendRef) : KubeOp → Prop
  | .create .httpRoute route => route.spec = routeSpec ep backends
  | .patch .httpRoute route => route.spec = routeSpec ep backends
  | .updateStatus .endpoint sent => sent.routes = backends
  | _ => True

section Passes
variable {fails : KubeOp → Prop} {c c' : Cluster} {ep : ArksEndpoint} {calls : List KubeCall} {r : Except String Unit}

/-- A pass writes the backends that it makes of the listed applications, and no others. -/
theorem reconcile_writes (run : Runs (reconcile ep) calls r) (played : Plays (Serves indexes fails) calls c c') :
    ∃ apps, ListedFor c ep apps ∧ ∀ call ∈ calls, Writes ep (backendRefs ep apps []) call.1 := by
  obtain ⟨listed,rest,rfl,later⟩ := runs_call.mp run
  obtain ⟨c₁,served,played₁⟩ := plays_cons.mp played
  obtain ⟨rfl,found⟩ := serves_list served
  cases listed with
  | error e =>
    obtain ⟨apps,listed⟩ := exists_listed indexes c₁ .application ep.namespace_ ep.name
    obtain ⟨rfl,rfl⟩ := runs_ret.mp later
    exact ⟨apps,listed,by simp [Writes]⟩
  | ok apps =>
    refine ⟨apps,found apps rfl,List.forall_mem_cons.mpr ⟨trivial,?_⟩⟩
    obtain ⟨listed',rest',rfl,later'⟩ := runs_call.mp later
    obtain ⟨c₂,served',played₂⟩ := plays_cons.mp played₁
    obtain ⟨rfl,found'⟩ := serves_list served'
    refine List.forall_mem_cons.mpr ⟨trivial,?_⟩
    cases listed' with
    | error e =>
      obtain ⟨rfl,rfl⟩ := runs_ret.mp later'
      simp
    | ok disApps =>
      cases listed_disaggregated (found' disApps rfl)
      have stays : Issues (Writes ep (backendRefs ep apps [])) (fun _ => True)
          (recordBackends ep (backendRefs ep apps [])) := recordBackends_within trivial rfl (fun _ _ => rfl) rfl
      exact (runs_within stays later').1

/-- Some pass gets to write the route, even if the API refuses it then. -/
theorem exists_write {apps : List ArksApplication} (listed : ListedFor c ep apps) :
    ∃ calls r c' route, Runs (reconcile ep) calls r ∧ Plays (Serves indexes (fun _ => True)) calls c c' ∧
      route.spec = routeSpec ep (backendRefs ep apps []) ∧
      ∃ call ∈ calls, call.1 = .create .httpRoute route ∨ call.1 = .patch .httpRoute route := by
  obtain ⟨disApps,listed'⟩ := exists_listed indexes c .disaggregated ep.namespace_ ep.name
  cases listed_disaggregated listed'
  have lists : ∀ {rest r}, Runs (recordBackends ep (backendRefs ep apps [])) rest r →
    Plays (Serves indexes (fun _ => True)) rest c c →
      ∃ calls, (∀ call ∈ rest, call ∈ calls) ∧ Runs (reconcile ep) calls r ∧
        Plays (Serves indexes (fun _ => True)) calls c c := by
    intro rest r run played
    refine ⟨⟨.list .application ep.namespace_ ep.name,.ok apps⟩ :: ⟨.list .disaggregated ep.namespace_ ep.name,.ok []⟩ :: rest,
      fun call is => by simp [is],runs_call.mpr ⟨.ok apps,_,rfl,runs_call.mpr ⟨.ok [],_,rfl,run⟩⟩,?_⟩
    exact plays_cons.mpr ⟨c,.handled ⟨rfl,apps,rfl,listed⟩,plays_cons.mpr ⟨c,.handled ⟨rfl,[],rfl,listed'⟩,played⟩⟩
  cases present : c.objects .httpRoute ep.namespace_ ep.name with
  | none =>
    let spec := routeSpec ep (backendRefs ep apps [])
    have run : Runs (recordBackends ep (backendRefs ep apps [])) [⟨.get .httpRoute ep.namespace_ ep.name,.error (.notFound "")⟩,
        ⟨.create .httpRoute ⟨ep.namespace_,ep.name,spec⟩,.error (.other "")⟩] (.error ("failed to create HTTPRoute: " ++ "")) :=
      runs_call.mpr ⟨_,_,rfl,runs_call.mpr ⟨_,_,rfl,runs_ret.mpr ⟨rfl,rfl⟩⟩⟩
    have read : Handles indexes c (.get .httpRoute ep.namespace_ ep.name) (.error (.notFound "")) c :=
      ⟨rfl,by rw [present]; exact ⟨"",rfl⟩⟩
    obtain ⟨calls,all,run,played⟩ := lists run (plays_cons.mpr ⟨c,.handled read,plays_cons.mpr ⟨c,.failed trivial,.nil⟩⟩)
    exact ⟨calls,_,c,_,run,played,rfl,_,all _ (.tail _ (List.mem_singleton_self _)),.inl rfl⟩
  | some route =>
    let spec := routeSpec ep (backendRefs ep apps [])
    have run : Runs (recordBackends ep (backendRefs ep apps [])) [⟨.get .httpRoute ep.namespace_ ep.name,.ok route⟩,
        ⟨.patch .httpRoute { route with spec := spec },.error (.other "")⟩] (.error ("failed to patch HTTPRoute: " ++ "")) :=
      runs_call.mpr ⟨_,_,rfl,runs_call.mpr ⟨_,_,rfl,runs_ret.mpr ⟨rfl,rfl⟩⟩⟩
    have read : Handles indexes c (.get .httpRoute ep.namespace_ ep.name) (.ok route) c := ⟨rfl,by rw [present]; rfl⟩
    obtain ⟨calls,all,run,played⟩ := lists run (plays_cons.mpr ⟨c,.handled read,plays_cons.mpr ⟨c,.failed trivial,.nil⟩⟩)
    exact ⟨calls,_,c,_,run,played,rfl,_,all _ (.tail _ (List.mem_singleton_self _)),.inr rfl⟩

end Passes

/-! ### The bounds -/

/-- At most sixteen matchers with different names. -/
def HeadersFit (headers : List HTTPHeaderMatch) : Prop := headers.length ≤ 16 ∧ (headers.map HTTPHeaderMatch.name).Nodup

def SpecFits (spec : HTTPRouteSpec) : Prop :=
  ∀ rule ∈ spec.rules, rule.backendRefs.length ≤ 16 ∧ ∀ m ∈ rule.ruleMatches, HeadersFit m.headers

/-- What a call writes is within the bounds of the schemas. -/
def Fits : KubeOp → Prop
  | .create .httpRoute route => SpecFits route.spec
  | .patch .httpRoute route => SpecFits route.spec
  | .updateStatus .endpoint sent => sent.routes.length ≤ 16
  | _ => True

/-- An endpoint within the bounds of its own schema. -/
structure AdmittedEndpoint extends ArksEndpoint where
  routes_fit : spec.routeConfigs.length ≤ 16
  matches_fit : ∀ configs, spec.matchConfigs = some configs → configs.length ≤ 16
  headers_fit : ∀ configs, spec.matchConfigs = some configs → ∀ m ∈ configs, HeadersFit m.headers

/-- Every pass over the endpoint stays within the bounds. -/
def WritesFit (c : Cluster) (ep : ArksEndpoint) : Prop :=
  ∀ calls r c', Runs (reconcile ep) calls r → Plays (Serves indexes (fun _ => True)) calls c c' → ∀ call ∈ calls, Fits call.1

/-- The applications that become backends of the endpoint. -/
def routed (c : Cluster) (ep : ArksEndpoint) : Set ArksApplication := { app | Stored c (.plain app) ∧ Routed ep (.plain app) }

/-- There is room for the discovered backends, and in every match for the two matchers of the tenant. -/
structure Roomy (c : Cluster) (ep : ArksEndpoint) : Prop where
  backends : ep.spec.routeConfigs.length + (routed c ep).ncard ≤ 16
  headers : ∀ configs, ep.spec.matchConfigs = some configs → ∀ m ∈ configs,
    m.headers.length ≤ 14 ∧ ∀ h ∈ m.headers, h.name ≠ "namespace" ∧ h.name ≠ "model"

section Bounds
variable {c : Cluster} {ep : ArksEndpoint} {apps : List ArksApplication}

private theorem backendRefs_length (listed : ListedFor c ep apps) :
    (backendRefs ep apps []).length = ep.spec.routeConfigs.length + (routed c ep).ncard := by
  classical
  have same : routed c ep = { app | app ∈ apps.filter (fun app => !inStaticRoutes ep (getApplicationServiceName app.name) &&
      applicationReady app) } := by
    ext app
    show Stored c (.plain app) ∧ Routed ep (.plain app) ↔ app ∈ List.filter _ apps
    rw [← mem_discovered listed app]
    simp [discovered]
  rw [backendRefs_discovered,List.length_append,List.length_map,discovered,List.length_map,same,← List.coe_toFinset,
    Set.ncard_coe_finset,List.toFinset_card_of_nodup (listed.1.filter _)]

/-- The tenant's matchers behind those of the user. -/
theorem tenant_fit {headers : List HTTPHeaderMatch} (fits : HeadersFit headers) : HeadersFit (headers ++ headerMatch ep) ↔
    headers.length ≤ 14 ∧ ∀ h ∈ headers, h.name ≠ "namespace" ∧ h.name ≠ "model" := by
  have names : (headerMatch ep).map HTTPHeaderMatch.name = ["namespace","model"] := rfl
  rw [HeadersFit,List.length_append,List.map_append,names,List.nodup_append]
  constructor
  · rintro ⟨few,_,_,apart⟩
    refine ⟨by simpa [headerMatch] using few,fun h is => ⟨?_,?_⟩⟩
    · exact apart _ (List.mem_map_of_mem is) _ (by simp)
    · exact apart _ (List.mem_map_of_mem is) _ (by simp)
  · rintro ⟨few,apart⟩
    refine ⟨by simpa [headerMatch] using few,fits.2,by decide,?_⟩
    rintro _ named _ tenant
    obtain ⟨h,is,rfl⟩ := List.mem_map.mp named
    rcases List.mem_cons.mp tenant with rfl | tenant
    · exact (apart h is).1
    · rw [List.mem_singleton.mp tenant]
      exact (apart h is).2

theorem routeSpec_fits (backends : List HTTPBackendRef) : SpecFits (routeSpec ep backends) ↔
    backends.length ≤ 16 ∧ ∀ m ∈ ruleMatch ep, HeadersFit m.headers := by
  simp [SpecFits,routeSpec]

/-- The passes fit exactly when the route that the listed applications make does. -/
theorem writesFit_iff : WritesFit c ep ↔
    ∀ apps, ListedFor c ep apps → SpecFits (routeSpec ep (backendRefs ep apps [])) := by
  constructor
  · intro fit apps listed
    obtain ⟨calls,r,c',route,run,played,spec,⟨op,reply⟩,is,same⟩ := exists_write listed
    have here := fit calls r c' run played _ is
    rw [← spec]
    rcases same with rfl | rfl <;> exact here
  · intro fit calls r c' run played call is
    obtain ⟨apps,listed,writes⟩ := reconcile_writes run played
    have spec := fit apps listed
    have here := writes call is
    rcases call with ⟨op,reply⟩
    cases op with
    | create k o | patch k o =>
      cases k with
      | httpRoute =>
        have same : o.spec = _ := here
        simpa only [Fits,same] using spec
      | _ => trivial
    | updateStatus k o =>
      cases k with
      | endpoint =>
        have same : o.routes = _ := here
        simpa only [Fits,same] using ((routeSpec_fits _).mp spec).1
      | _ => trivial
    | _ => trivial

end Bounds

/-- The route of the listed applications fits exactly when there is room. -/
theorem specFits_iff {c : Cluster} (ep : AdmittedEndpoint) {apps : List ArksApplication}
    (listed : ListedFor c ep.toArksEndpoint apps) :
    SpecFits (routeSpec ep.toArksEndpoint (backendRefs ep.toArksEndpoint apps [])) ↔ Roomy c ep.toArksEndpoint := by
  have dressed : (∀ m ∈ ruleMatch ep.toArksEndpoint, HeadersFit m.headers) ↔
      ∀ configs, ep.spec.matchConfigs = some configs → ∀ m ∈ configs,
        m.headers.length ≤ 14 ∧ ∀ h ∈ m.headers, h.name ≠ "namespace" ∧ h.name ≠ "model" := by
    unfold ruleMatch
    cases given : ep.spec.matchConfigs with
    | none => simp [headerMatch,HeadersFit]
    | some configs =>
      simp only [List.forall_mem_map,Option.some.injEq,forall_eq']
      exact forall₂_congr (fun m is => tenant_fit (ep.headers_fit configs given m is))
  rw [routeSpec_fits,backendRefs_length listed,dressed]
  exact ⟨fun ⟨backends,headers⟩ => ⟨backends,headers⟩,fun roomy => ⟨roomy.backends,roomy.headers⟩⟩

/-- The passes over an endpoint stay within the bounds of the schemas exactly when the static and the discovered
    backends are at most sixteen together, and no match of the user has more than fourteen matchers or one for a
    header of the tenant. -/
theorem writes_fit_iff (c : Cluster) (ep : AdmittedEndpoint) : WritesFit c ep.toArksEndpoint ↔ Roomy c ep.toArksEndpoint := by
  rw [writesFit_iff]
  constructor
  · intro fit
    obtain ⟨apps,listed⟩ := exists_listed indexes c .application ep.namespace_ ep.name
    exact (specFits_iff ep listed).mp (fit apps listed)
  · exact fun roomy apps listed => (specFits_iff ep listed).mpr roomy

/-! ### Endpoints that grow too large -/

/-- The endpoint `chat` with a matcher of its own for the header `model`. -/
def matching : ArksEndpoint :=
  { chat with spec := { chat.spec with matchConfigs := some [⟨none,[⟨none,"model",chat.name⟩],[],none⟩] } }

/-- The endpoint `chat` with sixteen static backends. -/
def crowded : ArksEndpoint :=
  { chat with spec := { chat.spec with routeConfigs := List.replicate 16 (backendRef chat "static") } }

def matchingAdmitted : AdmittedEndpoint where
  toArksEndpoint := matching
  routes_fit := by decide
  matches_fit := by rintro _ ⟨⟩; decide
  headers_fit := by
    rintro _ ⟨⟩ m is
    cases List.mem_singleton.mp is
    exact ⟨by decide,by decide⟩

def crowdedAdmitted : AdmittedEndpoint where
  toArksEndpoint := crowded
  routes_fit := by decide
  matches_fit := nofun
  headers_fit := nofun

/-- A user's matcher for a header of the tenant is repeated, and one ready application is too many. -/
theorem bounds_exceeded : ¬ WritesFit Cluster.empty matchingAdmitted.toArksEndpoint ∧
    ¬ WritesFit chatAppCluster crowdedAdmitted.toArksEndpoint := by
  constructor
  · intro fit
    obtain ⟨apps,listed⟩ := exists_listed indexes Cluster.empty .application matching.namespace_ matching.name
    have headers := ((routeSpec_fits _).mp (writesFit_iff.mp fit apps listed)).2
    exact absurd (headers _ (List.mem_singleton_self _)).2 (by decide)
  · intro fit
    obtain ⟨apps,listed⟩ := exists_listed indexes chatAppCluster .application crowded.namespace_ crowded.name
    have few := ((routeSpec_fits _).mp (writesFit_iff.mp fit apps listed)).1
    have routes : Routed crowded (.plain chatApp) := ⟨⟨rfl,rfl⟩,rfl,by decide⟩
    have found : .plain chatApp ∈ discovered crowded apps := (mem_discovered listed chatApp).mpr ⟨Cluster.put_stored _,routes⟩
    have some_ := List.length_pos_of_mem found
    rw [show crowdedAdmitted.toArksEndpoint = crowded from rfl,backendRefs_discovered,List.length_append,List.length_map,
      show crowded.spec.routeConfigs.length = 16 from by decide] at few
    omega

end Arks.RouteBounds
