import Arks.Endpoints

/-!
Which requests the route of an endpoint takes. In the Gateway API a rule without matches
takes every request, several matches are alternatives, the matchers of one match hold
together, and of matchers for one header, whose names are compared without regard to case,
only the first counts. The tenant's own matchers stand behind those of the user. So an
endpoint takes the requests of its tenant only as long as no matcher of the user speaks of
the same header and says otherwise.
-/
namespace Arks.RouteIsolation
open Programs Programs.Prog Api Kube Endpoints

/-! ### The matching of the Gateway API -/

/-- A request; `header` goes by the name in lower case. -/
structure Request where
  method : String
  path : String
  query : List (String × String)
  header : String → Option String

/-- What the implementation of the gateway decides: the matching of paths and of
    query parameters, and its regular expressions. -/
structure Dialect where
  path : HTTPPathMatch → String → Prop
  query : List HTTPQueryParamMatch → List (String × String) → Prop
  regex : String → String → Prop

def lower (name : String) : String := String.ofList (name.toList.map Char.toLower)

variable (d : Dialect)

/-- The value of the header meets the matcher. -/
def Accepts (h : HTTPHeaderMatch) (v : String) : Prop :=
  match h.type with
  | some .regularExpression => d.regex h.value v
  | _ => v = h.value

/-- The matcher that counts for a header. -/
def firstMatcher (headers : List HTTPHeaderMatch) (name : String) : Option HTTPHeaderMatch :=
  headers.find? (fun h => lower h.name = name)

def HeadersMatch (headers : List HTTPHeaderMatch) (req : Request) : Prop :=
  ∀ name h, firstMatcher headers name = some h → ∃ v, req.header name = some v ∧ Accepts d h v

structure MatchHolds (m : HTTPRouteMatch) (req : Request) : Prop where
  path : ∀ p, m.path = some p → d.path p req.path
  headers : HeadersMatch d m.headers req
  query : d.query m.queryParams req.query
  method : ∀ method, m.method = some method → req.method = method

def RuleMatches (rule : HTTPRouteRule) (req : Request) : Prop :=
  rule.ruleMatches = [] ∨ ∃ m ∈ rule.ruleMatches, MatchHolds d m req

/-! ### Isolation -/

/-- The request is one of the endpoint's tenant, for its model. -/
def Tenant (ep : ArksEndpoint) (req : Request) : Prop :=
  req.header "namespace" = some ep.namespace_.val ∧ req.header "model" = some ep.name.val

/-- The rules of the route take only requests of the tenant. -/
def TakesTenant (ep : ArksEndpoint) (spec : HTTPRouteSpec) : Prop :=
  ∀ rule ∈ spec.rules, ∀ req, RuleMatches d rule req → Tenant ep req

/-- Every route that a run of `reconcile` writes, whatever the API answers, takes
    only requests of the tenant. -/
def Isolated (ep : ArksEndpoint) : Prop :=
  Issues (fun op => ∀ route, op = .create .httpRoute route ∨ op = .patch .httpRoute route →
    TakesTenant d ep route.spec)
    (fun _ => True) (reconcile ep)

/-- The user's first matcher for the header, if there is one, admits no other value. -/
def Pins (m : HTTPRouteMatch) (name value : String) : Prop :=
  ∀ h, firstMatcher m.headers name = some h → ∀ v, Accepts d h v → v = value

/-- The user's matches leave the tenant's headers alone: there is one, and those that
    some request meets pin both headers. -/
structure Guarded (ep : ArksEndpoint) : Prop where
  present : ep.spec.matchConfigs ≠ some []
  pinned : ∀ configs, ep.spec.matchConfigs = some configs → ∀ m ∈ configs, (∃ req, MatchHolds d m req) →
    Pins d m "namespace" ep.namespace_ ∧ Pins d m "model" ep.name

variable {d} {ep : ArksEndpoint}

/-- The tenant's matchers behind those of a match. -/
def dressed (ep : ArksEndpoint) (m : HTTPRouteMatch) : HTTPRouteMatch := { m with headers := m.headers ++ headerMatch ep }

theorem firstMatcher_append (a b : List HTTPHeaderMatch) (name : String) :
    firstMatcher (a ++ b) name = (firstMatcher a name).or (firstMatcher b name) := List.find?_append

theorem lower_namespace : lower "namespace" = "namespace" := by decide
theorem lower_model : lower "model" = "model" := by decide

theorem tenant_namespace (ep : ArksEndpoint) :
    firstMatcher (headerMatch ep) "namespace" = some ⟨none,"namespace",ep.namespace_⟩ := by
  simp [firstMatcher,headerMatch,lower_namespace]

theorem tenant_model (ep : ArksEndpoint) : firstMatcher (headerMatch ep) "model" = some ⟨none,"model",ep.name⟩ := by
  simp [firstMatcher,headerMatch,lower_namespace,lower_model]

/-- The tenant's matchers ask for fixed values. -/
theorem tenant_exact {name : String} {h : HTTPHeaderMatch} (found : firstMatcher (headerMatch ep) name = some h) :
    Accepts d h h.value := by
  have member := List.mem_of_find?_eq_some found
  simp only [headerMatch,List.mem_cons,List.not_mem_nil,or_false] at member
  rcases member with rfl | rfl <;> rfl

variable {m : HTTPRouteMatch}

private theorem undressed {req : Request} (holds : MatchHolds d (dressed ep m) req) : MatchHolds d m req := by
  refine ⟨holds.path,fun name h found => holds.headers name h ?_,holds.query,holds.method⟩
  rw [dressed,firstMatcher_append,found]
  rfl

/-- A request that meets a match meets it with the tenant's matchers, once it
    carries the headers that the match does not speak of. -/
theorem dressed_holds (ep : ArksEndpoint) {req : Request} (holds : MatchHolds d m req) :
    ∃ req', MatchHolds d (dressed ep m) req' := by
  let header : String → Option String := fun name =>
    if (firstMatcher m.headers name).isSome then req.header name
    else (firstMatcher (headerMatch ep) name).map HTTPHeaderMatch.value
  refine ⟨⟨req.method,req.path,req.query,header⟩,holds.path,?_,holds.query,holds.method⟩
  intro name h found
  rw [dressed,firstMatcher_append] at found
  cases own : firstMatcher m.headers name with
  | some h' =>
    rw [own] at found
    cases found
    obtain ⟨v,present,accepted⟩ := holds.headers name h own
    exact ⟨v,by simp [header,own,present],accepted⟩
  | none =>
    rw [own,Option.none_or] at found
    exact ⟨h.value,by simp [header,own,found],tenant_exact found⟩

/-- Headers are independent: any value that the matcher of a header accepts will do. -/
theorem holds_replaced {req : Request} (holds : MatchHolds d m req) {name v : String} {h : HTTPHeaderMatch}
    (found : firstMatcher m.headers name = some h) (accepted : Accepts d h v) :
    MatchHolds d m { req with header := Function.update req.header name (some v) } := by
  refine ⟨holds.path,?_,holds.query,holds.method⟩
  intro other h' found'
  by_cases same : other = name
  · subst same
    cases found.symm.trans found'
    exact ⟨v,Function.update_self ..,accepted⟩
  · obtain ⟨v',present,accepted'⟩ := holds.headers other h' found'
    exact ⟨v',(Function.update_of_ne same _ _).trans present,accepted'⟩

/-- A header that is pinned has the tenant's value in every request that is taken. -/
theorem pinned_value {req : Request} (holds : MatchHolds d (dressed ep m) req) {name value : String}
    (own : firstMatcher (headerMatch ep) name = some ⟨none,name,value⟩) (pins : Pins d m name value) :
    req.header name = some value := by
  have whole := firstMatcher_append m.headers (headerMatch ep) name
  cases user : firstMatcher m.headers name with
  | some h =>
    rw [user] at whole
    obtain ⟨v,present,accepted⟩ := holds.headers name h whole
    rw [present,pins h user v accepted]
  | none =>
    rw [user,own] at whole
    obtain ⟨v,present,accepted⟩ := holds.headers name _ whole
    rw [present]
    exact congrArg some accepted

/-- When the requests taken are the tenant's, the user's matchers pin the headers. -/
theorem pins_of_taken {name value : String} (satisfiable : ∃ req, MatchHolds d m req)
    (taken : ∀ req, MatchHolds d (dressed ep m) req → req.header name = some value) : Pins d m name value := by
  intro h user v accepted
  obtain ⟨req,holds⟩ := satisfiable
  obtain ⟨req',holds'⟩ := dressed_holds ep holds
  have first : firstMatcher (dressed ep m).headers name = some h := by
    rw [dressed,firstMatcher_append,user]
    rfl
  have value_ := taken _ (holds_replaced holds' first accepted)
  simp only [Function.update_self,Option.some.injEq] at value_
  exact value_

/-- Whatever the backends, the route takes only the tenant's requests exactly when the user's matches are guarded. -/
theorem takesTenant_iff (d : Dialect) (ep : ArksEndpoint) (backends : List HTTPBackendRef) :
    TakesTenant d ep (routeSpec ep backends) ↔ Guarded d ep := by
  simp only [TakesTenant,routeSpec,List.mem_singleton,forall_eq]
  cases configs : ep.spec.matchConfigs with
  | none =>
    have alone : ruleMatch ep = [dressed ep ⟨none,[],[],none⟩] := by simp [ruleMatch,configs,dressed]
    refine ⟨fun _ => ⟨by simp [configs],by simp [configs]⟩,?_⟩
    rintro _ req (empty | ⟨m,member,holds⟩)
    · simp [alone] at empty
    · rw [alone,List.mem_singleton] at member
      subst member
      exact ⟨pinned_value holds (tenant_namespace ep) (fun _ found => by cases found),
        pinned_value holds (tenant_model ep) (fun _ found => by cases found)⟩
  | some ms =>
    have all : ruleMatch ep = ms.map (dressed ep) := by simp [ruleMatch,configs,dressed]
    rw [all]
    constructor
    · intro taken
      refine ⟨?_,?_⟩
      · rintro empty
        cases configs.symm.trans empty
        have wrong := (taken ⟨"","",[],fun _ => none⟩ (.inl rfl)).1
        cases wrong
      · intro ms' same m member satisfiable
        cases configs.symm.trans same
        have each : ∀ req, MatchHolds d (dressed ep m) req → Tenant ep req :=
          fun req holds => taken req (.inr ⟨_,List.mem_map_of_mem member,holds⟩)
        exact ⟨pins_of_taken satisfiable (fun req holds => (each req holds).1),
          pins_of_taken satisfiable (fun req holds => (each req holds).2)⟩
    · rintro guarded req (empty | ⟨_,member,holds⟩)
      · have nothing : ms = [] := List.map_eq_nil_iff.mp empty
        exact absurd (configs.trans (by rw [nothing])) guarded.present
      · obtain ⟨m,listed,rfl⟩ := List.mem_map.mp member
        obtain ⟨ns,model⟩ := guarded.pinned ms configs m listed ⟨req,undressed holds⟩
        exact ⟨pinned_value holds (tenant_namespace ep) ns,pinned_value holds (tenant_model ep) model⟩

/-! ### What `reconcile` writes -/

/-- `reconcile` writes no other route than the one it computes. -/
theorem reconcile_writes {P : HTTPRouteSpec → Prop} {ep : ArksEndpoint} (holds : ∀ backends, P (routeSpec ep backends)) :
    Issues (fun op => ∀ route, op = .create .httpRoute route ∨ op = .patch .httpRoute route → P route.spec)
      (fun _ => True) (reconcile ep) := by
  exact reconcile_within ⟨by simp,by simp⟩ (by simp) (by simp) (by simp [holds])

/-- The routes of an endpoint take only its tenant's requests if and only if the
    user's matches are guarded. -/
theorem isolated_iff (d : Dialect) (ep : ArksEndpoint) : Isolated d ep ↔ Guarded d ep := by
  constructor
  · intro isolated
    -- a first pass over an endpoint without applications creates the route
    have created := ((((isolated.2 (.ok []) trivial).2 (.ok []) trivial).2 (.error (.notFound "")) trivial).1 _ (.inl rfl))
    exact (takesTenant_iff d ep _).mp created
  · exact fun guarded => reconcile_writes (fun backends => (takesTenant_iff d ep backends).mpr guarded)

/-- Paths by prefix or in full, and no regular expressions. -/
def plainDialect : Dialect where
  path p s := match p.type with
    | some .exact => s = p.value.getD "/"
    | some .regularExpression => False
    | _ => (p.value.getD "/").toList <+: s.toList
  query params _ := params = []
  regex _ _ := False

/-- An endpoint of team-a with matchers for the headers of team-b. -/
def capturing : ArksEndpoint where
  namespace_ := .teamA
  name := ⟨"chat-a",by decide,by decide⟩
  uid := "1"
  resourceVersion := 1
  finalizers := [arksEndpointControllerFinalizer]
  deletionTimestamp := none
  spec :=
    { defaultWeight := 1
      gatewayRef := ⟨none,none,none,"gateway",none,none⟩
      matchConfigs := some [⟨some ⟨some .pathPrefix,some "/"⟩,
        [⟨some .exact,"Namespace","team-b"⟩,⟨some .exact,"Model","chat-b"⟩],[],none⟩]
      routeConfigs := [] }
  routes := []

/-- A request of team-b. -/
def foreign : Request where
  method := "POST"
  path := "/v1/chat/completions"
  query := []
  header name := if name = "namespace" then some "team-b" else if name = "model" then some "chat-b" else none

/-- The route of team-a takes the request of team-b. -/
theorem foreign_taken : ¬ Isolated plainDialect capturing := by
  intro isolated
  have created := ((((isolated.2 (.ok []) trivial).2 (.ok []) trivial).2 (.error (.notFound "")) trivial).1 _ (.inl rfl))
  have taken : RuleMatches plainDialect ⟨ruleMatch capturing,backendRefs capturing [] []⟩ foreign := by
    refine .inr ⟨_,.head _,?_,?_,rfl,?_⟩
    · intro p same
      cases same
      exact ⟨"v1/chat/completions".toList,by decide⟩
    · intro name h found
      have member := List.mem_of_find?_eq_some found
      have named : lower h.name = name := by simpa using List.find?_some found
      subst named
      simp only [headerMatch,List.cons_append,List.nil_append,List.mem_cons,List.not_mem_nil,or_false] at member
      rcases member with rfl | rfl | rfl | rfl
      · exact ⟨"team-b",by decide,rfl⟩
      · exact ⟨"chat-b",by decide,rfl⟩
      · simp [firstMatcher,headerMatch,lower_namespace,show lower "Namespace" = "namespace" by decide] at found
      · simp [firstMatcher,headerMatch,lower_model,show lower "Namespace" = "namespace" by decide,
          show lower "Model" = "model" by decide] at found
    · intro method same
      cases same
  have wrong := (created _ (.head _) foreign taken).1
  simp [foreign,capturing,KubeName.teamA] at wrong

end Arks.RouteIsolation
