import Arks.Passes

/-!
The selectors of the services, of the router's deployment and of the router's command,
against the labels of all pods of a namespace. Each selector reads some of the reserved
labels only: which pods it takes depends on who else sets those.
-/
namespace Arks.Selectors
open Api Controllers Workloads Passes
open Workloads.Disaggregated (Role generateRouterLabels generateWorkloadLwsLabels generateRouterSvc generateDisaggregatedLws
  routerDeployment generateDisaggregationRouterCommand selectorArgs)

/-! ### Maps of labels -/

/-- The labels as a map: no key stands twice. -/
def Distinct (labels : Labels) : Prop := (labels.map Prod.fst).Nodup

/-- The selector asks for nothing that the labels do not have. -/
def Selects (selector labels : Labels) : Prop := ∀ pair ∈ selector, labels.lookup pair.1 = some pair.2

instance (selector labels : Labels) : Decidable (Selects selector labels) := inferInstanceAs (Decidable (∀ _ ∈ selector,_))

section Maps
variable {labels selector : Labels} {key value : String}

theorem lookup_entry (other : String) :
    ((key,value) :: labels).lookup other = if other = key then some value else labels.lookup other := by
  by_cases here : other = key
  · simp [here]
  · simp [List.lookup,beq_false_of_ne here,here]

theorem lookup_setLabel (other : String) :
    (setLabel labels key value).lookup other = if other = key then some value else labels.lookup other := by
  unfold setLabel
  induction labels with
  | nil => exact lookup_entry other
  | cons pair labels ih =>
    obtain ⟨name,held⟩ := pair
    by_cases replaced : name = key
    · rw [List.filter_cons_of_neg (by simpa using replaced),ih,lookup_entry,replaced]
      by_cases here : other = key <;> simp [here]
    · rw [List.filter_cons_of_pos (by simpa using replaced),List.cons_append,lookup_entry,ih,lookup_entry]
      by_cases here : other = name
      · simp [here,replaced]
      · simp [here]

theorem distinct_setLabel (distinct : Distinct labels) : Distinct (setLabel labels key value) := by
  unfold Distinct setLabel
  rw [List.map_append,List.nodup_append]
  refine ⟨(List.filter_sublist.map _).nodup distinct,by simp,?_⟩
  simp only [List.mem_map,List.mem_filter,decide_eq_true_eq]
  rintro _ ⟨pair,⟨_,other⟩,rfl⟩ _ ⟨_,is,rfl⟩
  simp_all

/-- In a map the entries are what a lookup finds. -/
theorem mem_iff_lookup (distinct : Distinct labels) : (key,value) ∈ labels ↔ labels.lookup key = some value := by
  induction labels with
  | nil => simp
  | cons pair labels ih =>
    obtain ⟨name,held⟩ := pair
    obtain ⟨fresh,distinct⟩ := List.nodup_cons.mp distinct
    rw [lookup_entry]
    by_cases here : key = name
    · subst here
      have absent : (key,value) ∉ labels := fun is => fresh (List.mem_map.mpr ⟨_,is,rfl⟩)
      simp [absent,eq_comm]
    · simp [here,ih distinct]

private theorem selects_iff (distinct : Distinct selector) :
    Selects selector labels ↔ ∀ key value, selector.lookup key = some value → labels.lookup key = some value := by
  constructor
  · intro selects key value asked
    exact selects (key,value) ((mem_iff_lookup distinct).mpr asked)
  · intro each pair is
    exact each pair.1 pair.2 ((mem_iff_lookup distinct).mp is)

end Maps

/-! ### The applications of a namespace -/

/-- All applications of a namespace: a name stands once for each kind, and the labels of
    the instances are maps. -/
structure Neighbours where
  namespace_ : KubeName
  plain : Set ArksApplication
  disaggregated : Set ArksDisaggregatedApplication
  plain_here : ∀ a ∈ plain, a.namespace_ = namespace_
  disaggregated_here : ∀ a ∈ disaggregated, a.namespace_ = namespace_
  plain_unique : ∀ a ∈ plain, ∀ b ∈ plain, a.name = b.name → a = b
  disaggregated_unique : ∀ a ∈ disaggregated, ∀ b ∈ disaggregated, a.name = b.name → a = b
  plain_distinct : ∀ a ∈ plain, Distinct a.spec.instanceSpec.labels
  workload_distinct : ∀ a ∈ disaggregated, ∀ role : Role, Distinct (role.workload a).instanceSpec.labels
  router_distinct : ∀ a ∈ disaggregated, Distinct a.spec.router.instanceSpec.labels

/-- The pods of one template. -/
inductive Pods
  | plain (app : ArksApplication) (part : WorkLoadRole)
  | workload (app : ArksDisaggregatedApplication) (role : Role) (part : WorkLoadRole)
  | router (app : ArksDisaggregatedApplication)
deriving DecidableEq

namespace Pods

def labels : Pods → Labels
  | plain app part => generateLwsLabels app part
  | workload app role part => generateWorkloadLwsLabels app role part
  | router app => generateRouterLabels app

/-- They are of an application of the namespace. -/
def Of (n : Neighbours) : Pods → Prop
  | plain app _ => app ∈ n.plain
  | workload app _ _ => app ∈ n.disaggregated
  | router app => app ∈ n.disaggregated

end Pods

inductive Selector
  | service (app : Application)
  | router (app : ArksDisaggregatedApplication)
  | workload (app : ArksDisaggregatedApplication) (role : Role)

namespace Selector

/-- The selectors of the services and of the router's deployment, and the ones that the
    router's command spells out. -/
def labels (p : Platform) : Selector → Labels
  | service (.plain app) => (applicationService app).selector
  | service (.disaggregated app) => (generateRouterSvc app).selector
  | router app => [(arksControllerKeyApplication,app.name.val)]
  | workload app role => p.range (generateWorkloadLwsLabels app role .leader)

/-- The pods that the selector is there for. -/
def own : Selector → Pods
  | service (.plain app) => .plain app .leader
  | service (.disaggregated app) => .router app
  | router app => .router app
  | workload app role => .workload app role .leader

end Selector

/-- The selector is of an application of the namespace. -/
def Selector.Of (n : Neighbours) : Selector → Prop
  | service (.plain app) => app ∈ n.plain
  | service (.disaggregated app) => app ∈ n.disaggregated
  | router app => app ∈ n.disaggregated
  | workload app _ => app ∈ n.disaggregated

section Generated
variable {p : Platform} {model : ArksModel}

theorem generateLws_labels {app : ArksApplication} {lws : LeaderWorkerSet} (generated : generateLws p app model = .object lws) :
    lws.leaderTemplate.labels = (Pods.plain app .leader).labels ∧ lws.workerTemplate.labels =
    (Pods.plain app .worker).labels := by
  simp only [generateLws,generated_bind,generated_pure] at generated
  obtain ⟨_,_,_,_,_,_,_,_,rfl⟩ := generated
  exact ⟨rfl,rfl⟩

variable {app : ArksDisaggregatedApplication}

theorem generateDisaggregatedLws_labels {role : Role} {lws : LeaderWorkerSet}
    (generated : generateDisaggregatedLws p app model role = .object lws) :
    lws.leaderTemplate.labels = (Pods.workload app role .leader).labels ∧
      lws.workerTemplate.labels = (Pods.workload app role .worker).labels := by
  simp only [generateDisaggregatedLws,generated_bind,generated_pure] at generated
  obtain ⟨_,_,_,_,_,_,_,_,_,_,rfl⟩ := generated
  exact ⟨rfl,rfl⟩

theorem routerDeployment_labels {account : String} {deploy : Deployment}
    (generated : routerDeployment p app account = .object deploy) :
    deploy.template.labels = (Pods.router app).labels ∧ deploy.selector = (Selector.router app).labels p := by
  simp only [routerDeployment,generated_bind,generated_pure] at generated
  obtain ⟨_,_,_,_,rfl⟩ := generated
  exact ⟨rfl,rfl⟩

private theorem appendArgs_extends (args : String) (more : List String) : ∃ rest, appendArgs args more = args ++ rest := by
  induction more generalizing args with
  | nil => exact ⟨"",by simp [appendArgs]⟩
  | cons arg more ih =>
    obtain ⟨rest,extends_⟩ := ih (args ++ " " ++ arg)
    exact ⟨" " ++ arg ++ rest,by rw [appendArgs,List.foldl_cons,← appendArgs,extends_]; simp [String.append_assoc]⟩

/-- The arguments behind the selectors only add to the command. -/
theorem routerArgs_extends (args : String) (more : List String) (metricPort : Int) :
    let user := appendArgs args more
    let policy := if contains user "-policy" then user else user ++ " --policy cache_aware"
    ∃ rest, (if contains policy "prometheus-port" then policy
      else policy ++ " --prometheus-host 0.0.0.0 --prometheus-port " ++ toString metricPort) = args ++ rest := by
  intro user policy
  obtain ⟨first,user_eq⟩ : ∃ rest, user = args ++ rest := appendArgs_extends args more
  obtain ⟨second,policy_eq⟩ : ∃ rest, policy = args ++ rest := by
    by_cases given : contains user "-policy"
    · exact ⟨first,by rw [← user_eq]; exact if_pos given⟩
    · exact ⟨first ++ " --policy cache_aware",by rw [← String.append_assoc,← user_eq]; exact if_neg given⟩
  split
  · exact ⟨second,policy_eq⟩
  · exact ⟨_,by rw [policy_eq,String.append_assoc,String.append_assoc]⟩

/-- The router's command spells both selectors out. -/
theorem routerCommand_selectors {port metricPort : Int} {command : String}
    (generated : generateDisaggregationRouterCommand p app port metricPort = .object command) :
    ∃ start rest, command = selectorArgs
      (selectorArgs (start ++ " --prefill-selector") ((Selector.workload app .prefill).labels p) ++ " --decode-selector")
      ((Selector.workload app .decode).labels p) ++ rest := by
  unfold generateDisaggregationRouterCommand at generated
  split at generated
  · obtain ⟨rest,same⟩ := routerArgs_extends _ app.spec.router.routerArgs metricPort
    exact ⟨_,rest,(generated_pure.mp generated).symm.trans same⟩
  · cases generated

end Generated

/-- Of all pods of the namespace the selector takes its own and no others. -/
def Exact (p : Platform) (n : Neighbours) (selector : Selector) : Prop :=
  ∀ pods : Pods, pods.Of n → (Selects (selector.labels p) pods.labels ↔ pods = selector.own)

def reserved : List String :=
  [arksControllerKeyApplication,arksControllerKeyModel,arksControllerKeyWorkLoadRole,arksControllerKeyDisaggregationRole]

/-- An application that passes for the given role of a disaggregated one: it has the name and
    the model, and its user labels it so. -/
structure Poses (b : ArksApplication) (a : ArksDisaggregatedApplication) (role : String) : Prop where
  name : b.name = a.name
  model : b.spec.model = a.spec.model
  label : b.spec.instanceSpec.labels.lookup arksControllerKeyDisaggregationRole = some role

/-- When a selector is exact. -/
def Separate (n : Neighbours) : Selector → Prop
  | .service (.plain a) => ∀ b ∈ n.disaggregated, b.name ≠ a.name
  | .service (.disaggregated a) => ∀ b ∈ n.plain, ¬ Poses b a "router"
  | .router _ => False
  | .workload a role => ∀ b ∈ n.plain, Poses b a role.text →
    ∃ key value, key ∉ reserved ∧ (role.workload a).instanceSpec.labels.lookup key = some value ∧
      b.spec.instanceSpec.labels.lookup key ≠ some value

section Labels
variable {selector labels : Labels} {key value : String} {a : ArksDisaggregatedApplication} {b : ArksApplication}

@[simp] theorem selects_nil : Selects [] labels := by simp [Selects]

@[simp] theorem selects_cons : Selects ((key,value) :: selector) labels ↔ labels.lookup key = some value ∧
    Selects selector labels := by
  simp [Selects]

theorem lookup_plain (part : WorkLoadRole) : (Pods.plain b part).labels.lookup key =
    if key = arksControllerKeyWorkLoadRole then some part.text else if key = arksControllerKeyModel then some b.spec.model
    else if key = arksControllerKeyApplication then some b.name.val else b.spec.instanceSpec.labels.lookup key := by
  simp only [Pods.labels,generateLwsLabels,lookup_setLabel]

theorem lookup_workload (role : Role) (part : WorkLoadRole) : (Pods.workload a role part).labels.lookup key =
    if key = arksControllerKeyWorkLoadRole then some part.text else if key = arksControllerKeyModel then some a.spec.model
    else if key = arksControllerKeyApplication then some a.name.val
    else if key = arksControllerKeyDisaggregationRole then some role.text
    else (role.workload a).instanceSpec.labels.lookup key := by
  simp only [Pods.labels,generateWorkloadLwsLabels,Disaggregated.generateWorkloadLabels,lookup_setLabel]

theorem lookup_router : (Pods.router a).labels.lookup key =
    if key = arksControllerKeyModel then some a.spec.model else if key = arksControllerKeyApplication then some a.name.val
    else if key = arksControllerKeyDisaggregationRole then some "router"
    else a.spec.router.instanceSpec.labels.lookup key := by
  simp only [Pods.labels,generateRouterLabels,Disaggregated.generateWorkloadLabels,lookup_setLabel]

/-- The name of the application that the pods are of. -/
def Pods.name : Pods → KubeName
  | .plain app _ => app.name
  | .workload app _ _ => app.name
  | .router app => app.name

theorem lookup_name (pods : Pods) : pods.labels.lookup arksControllerKeyApplication = some pods.name.val := by
  cases pods with
  | plain => rw [lookup_plain]; rfl
  | workload => rw [lookup_workload]; rfl
  | router => rw [lookup_router]; rfl

/-- The model that they serve. -/
def Pods.model : Pods → String
  | .plain app _ => app.spec.model
  | .workload app _ _ => app.spec.model
  | .router app => app.spec.model

theorem lookup_model (pods : Pods) : pods.labels.lookup arksControllerKeyModel = some pods.model := by
  cases pods with
  | plain => rw [lookup_plain]; rfl
  | workload => rw [lookup_workload]; rfl
  | router => rw [lookup_router]; rfl

@[simp] theorem plain_part (part : WorkLoadRole) :
    (Pods.plain b part).labels.lookup arksControllerKeyWorkLoadRole = some part.text := by
  rw [lookup_plain,if_pos rfl]

@[simp] theorem workload_part (role : Role) (part : WorkLoadRole) :
    (Pods.workload a role part).labels.lookup arksControllerKeyWorkLoadRole = some part.text := by
  rw [lookup_workload,if_pos rfl]

/-- Only the user gives an application's pods a role. -/
@[simp] theorem plain_role (part : WorkLoadRole) : (Pods.plain b part).labels.lookup arksControllerKeyDisaggregationRole =
    b.spec.instanceSpec.labels.lookup arksControllerKeyDisaggregationRole := by
  rw [lookup_plain]
  rfl

@[simp] theorem workload_role (role : Role) (part : WorkLoadRole) :
    (Pods.workload a role part).labels.lookup arksControllerKeyDisaggregationRole = some role.text := by
  rw [lookup_workload]
  rfl

@[simp] theorem router_role : (Pods.router a).labels.lookup arksControllerKeyDisaggregationRole = some "router" := by
  rw [lookup_router]
  rfl

theorem plain_free (free : key ∉ reserved) (part : WorkLoadRole) :
    (Pods.plain b part).labels.lookup key = b.spec.instanceSpec.labels.lookup key := by
  simp only [reserved,List.mem_cons,List.not_mem_nil,or_false,not_or] at free
  rw [lookup_plain,if_neg free.2.2.1,if_neg free.2.1,if_neg free.1]

theorem workload_free (free : key ∉ reserved) (role : Role) (part : WorkLoadRole) :
    (Pods.workload a role part).labels.lookup key = (role.workload a).instanceSpec.labels.lookup key := by
  simp only [reserved,List.mem_cons,List.not_mem_nil,or_false,not_or] at free
  rw [lookup_workload,if_neg free.2.2.1,if_neg free.2.1,if_neg free.1,if_neg free.2.2.2]

private theorem text_role {role role' : Role} : role'.text = role.text ↔ role' = role := by
  cases role <;> cases role' <;> decide

theorem text_router (role : Role) : role.text ≠ "router" := by
  cases role <;> decide

theorem text_leader {part : WorkLoadRole} : part.text = WorkLoadRole.leader.text ↔ part = .leader := by
  cases part <;> decide

end Labels

section Exactness
variable {p : Platform} {n : Neighbours}

theorem plain_service_exact {a : ArksApplication} (member : a ∈ n.plain) :
    Exact p n (.service (.plain a)) ↔ Separate n (.service (.plain a)) := by
  have selects (pods : Pods) : Selects (applicationService a).selector pods.labels ↔
      pods.name = a.name ∧ pods.labels.lookup arksControllerKeyWorkLoadRole = some WorkLoadRole.leader.text := by
    simp only [applicationService,selects_cons,selects_nil,lookup_name,Option.some.injEq,and_true]
    exact and_congr_left (fun _ => ⟨KubeName.ext,congrArg _⟩)
  constructor
  · intro exact b other same
    have taken := (exact (.workload b .prefill .leader) other).mp ((selects _).mpr ⟨same,workload_part ..⟩)
    cases taken
  · intro separate pods present
    rw [Selector.labels,selects]
    constructor
    · rintro ⟨same,leads⟩
      cases pods with
      | plain b part =>
        cases n.plain_unique b present a member same
        rw [plain_part,Option.some.injEq,text_leader] at leads
        rw [leads]
        rfl
      | workload b role part => exact absurd same (separate b present)
      | router b => exact absurd same (separate b present)
    · rintro rfl
      exact ⟨rfl,plain_part _⟩

variable {a : ArksDisaggregatedApplication}

private theorem router_service_exact (member : a ∈ n.disaggregated) :
    Exact p n (.service (.disaggregated a)) ↔ Separate n (.service (.disaggregated a)) := by
  have selects (pods : Pods) : Selects (generateRouterSvc a).selector pods.labels ↔ pods.name = a.name ∧
      pods.model = a.spec.model ∧ pods.labels.lookup arksControllerKeyDisaggregationRole = some "router" := by
    simp only [generateRouterSvc,selects_cons,selects_nil,lookup_name,lookup_model,Option.some.injEq,and_true]
    exact and_congr_left (fun _ => ⟨KubeName.ext,congrArg _⟩)
  constructor
  · intro exact b other poses
    have taken := (exact (.plain b .leader) other).mp ((selects _).mpr ⟨poses.name,poses.model,(plain_role _).trans poses.label⟩)
    cases taken
  · intro separate pods present
    rw [Selector.labels,selects]
    constructor
    · rintro ⟨same,model,routes⟩
      cases pods with
      | plain b part =>
        exact absurd ⟨same,model,(plain_role part).symm.trans routes⟩ (separate b present)
      | workload b role part =>
        rw [workload_role,Option.some.injEq] at routes
        exact absurd routes (text_router role)
      | router b =>
        cases n.disaggregated_unique b present a member same
        rfl
    · rintro rfl
      exact ⟨rfl,rfl,router_role⟩

/-- The deployment of the router counts the workloads of its own application in. -/
theorem router_inexact (member : a ∈ n.disaggregated) : ¬ Exact p n (.router a) := by
  intro exact
  have taken := (exact (.workload a .prefill .leader) member).mp (selects_cons.mpr ⟨lookup_name _,selects_nil⟩)
  cases taken

/-- What the selector of a role asks for. -/
theorem workload_selects (ranges : ∀ labels, (p.range labels).Perm labels)
    (member : a ∈ n.disaggregated) (role : Role) (pods : Pods) :
    Selects ((Selector.workload a role).labels p) pods.labels ↔ pods.name = a.name ∧ pods.model = a.spec.model ∧
      pods.labels.lookup arksControllerKeyWorkLoadRole = some WorkLoadRole.leader.text ∧
      pods.labels.lookup arksControllerKeyDisaggregationRole = some role.text ∧
      ∀ key value, key ∉ reserved → (role.workload a).instanceSpec.labels.lookup key = some value →
        pods.labels.lookup key = some value := by
  have distinct : Distinct (Pods.workload a role .leader).labels :=
    distinct_setLabel (distinct_setLabel (distinct_setLabel (distinct_setLabel (n.workload_distinct a member role))))
  have written : Selects ((Selector.workload a role).labels p) pods.labels ↔
      Selects (Pods.workload a role .leader).labels pods.labels :=
    ⟨fun each pair is => each pair ((ranges _).mem_iff.mpr is),fun each pair is => each pair ((ranges _).mem_iff.mp is)⟩
  rw [written,selects_iff distinct]
  constructor
  · intro each
    refine ⟨?_,?_,?_,?_,?_⟩
    · have named := each arksControllerKeyApplication a.name (lookup_name _)
      rw [lookup_name,Option.some.injEq] at named
      exact KubeName.ext named
    · have served := each arksControllerKeyModel a.spec.model (lookup_model _)
      rw [lookup_model,Option.some.injEq] at served
      exact served
    · exact each _ _ (workload_part ..)
    · exact each _ _ (workload_role ..)
    · exact fun key value free held => each key value ((workload_free free ..).trans held)
  · rintro ⟨same,model,leads,labelled,others⟩ key value held
    rw [lookup_workload] at held
    split at held
    · rename_i here
      rw [here,leads,held]
    split at held
    · rename_i here
      rw [here,lookup_model,model,held]
    split at held
    · rename_i here
      rw [here,lookup_name,same,held]
    split at held
    · rename_i here
      rw [here,labelled,held]
    · exact others key value (by simp_all [reserved]) held

private theorem workload_exact (ranges : ∀ labels, (p.range labels).Perm labels)
    (member : a ∈ n.disaggregated) (role : Role) : Exact p n (.workload a role) ↔ Separate n (.workload a role) := by
  constructor
  · intro exact b other poses
    by_contra hidden
    push Not at hidden
    have others : ∀ key value, key ∉ reserved → (role.workload a).instanceSpec.labels.lookup key = some value →
        (Pods.plain b .leader).labels.lookup key = some value :=
      fun key value free held => (plain_free free _).trans (hidden key value free held)
    have taken := (exact (.plain b .leader) other).mp ((workload_selects ranges member role _).mpr
      ⟨poses.name,poses.model,plain_part _,(plain_role _).trans poses.label,others⟩)
    cases taken
  · intro separate pods present
    rw [workload_selects ranges member]
    constructor
    · rintro ⟨same,model,leads,labelled,others⟩
      cases pods with
      | plain b part =>
        obtain ⟨key,value,free,held,lacks⟩ := separate b present ⟨same,model,(plain_role part).symm.trans labelled⟩
        exact absurd ((plain_free free part).symm.trans (others key value free held)) lacks
      | workload b role' part =>
        cases n.disaggregated_unique b present a member same
        rw [workload_part,Option.some.injEq,text_leader] at leads
        rw [workload_role,Option.some.injEq,text_role] at labelled
        rw [leads,labelled]
        rfl
      | router b =>
        rw [router_role,Option.some.injEq] at labelled
        exact absurd labelled.symm (text_router role)
    · rintro rfl
      exact ⟨rfl,rfl,workload_part ..,workload_role ..,fun key value free held => (workload_free free ..).trans held⟩

end Exactness

/-- A selector takes its own pods and no others exactly when no other pods of the namespace are
    labelled as its own. The order in which the process ranges over a map does not matter. -/
theorem selector_exact_iff (p : Platform) (ranges : ∀ labels, (p.range labels).Perm labels) (n : Neighbours)
    (selector : Selector) (present : selector.Of n) : Exact p n selector ↔ Separate n selector := by
  rcases selector with ⟨app | app⟩ | app | ⟨app,role⟩
  · exact plain_service_exact present
  · exact router_service_exact present
  · exact iff_of_false (router_inexact present) (fun separate => separate)
  · exact workload_exact ranges present role

/-- Applications like `llm` under other names. -/
def plainNamed (name : KubeName) : ArksApplication := { llmPlain ⟨none,[]⟩ with name := name }
def disaggregatedNamed (name : KubeName) : ArksDisaggregatedApplication := { llmDisaggregated ⟨none,[]⟩ with name := name }

/-- A namespace with such applications. -/
def among (plain disaggregated : List KubeName) : Neighbours where
  namespace_ := llmMeta.namespace_
  plain := plainNamed '' { name | name ∈ plain }
  disaggregated := disaggregatedNamed '' { name | name ∈ disaggregated }
  plain_here := by rintro _ ⟨_,_,rfl⟩; rfl
  disaggregated_here := by rintro _ ⟨_,_,rfl⟩; rfl
  plain_unique := by rintro _ ⟨_,_,rfl⟩ _ ⟨_,_,rfl⟩ same; exact congrArg plainNamed same
  disaggregated_unique := by rintro _ ⟨_,_,rfl⟩ _ ⟨_,_,rfl⟩ same; exact congrArg disaggregatedNamed same
  plain_distinct := by rintro _ ⟨_,_,rfl⟩; exact List.nodup_nil
  workload_distinct := by rintro _ ⟨_,_,rfl⟩ role; cases role <;> exact List.nodup_nil
  router_distinct := by rintro _ ⟨_,_,rfl⟩; exact List.nodup_nil

/-- The service of `llm` beside `chat` and a disaggregated application of another name, and the service of that one. -/
theorem services_exact_among :
    Exact ⟨fun _ => "",id⟩ (among [.llm,.chat] [.basic]) (.service (.plain (plainNamed .llm))) ∧
      Exact ⟨fun _ => "",id⟩ (among [.llm,.chat] [.basic]) (.service (.disaggregated (disaggregatedNamed .basic))) := by
  constructor
  · refine (selector_exact_iff _ (fun _ => .refl _) _ _ (by exact ⟨_,.head _,rfl⟩)).mpr ?_
    rintro _ ⟨_,is,rfl⟩
    cases List.mem_singleton.mp is
    decide
  · refine (selector_exact_iff _ (fun _ => .refl _) _ _ (by exact ⟨_,.head _,rfl⟩)).mpr ?_
    rintro _ ⟨name,is,rfl⟩ poses
    have distinct : ∀ name ∈ [KubeName.llm,.chat], name ≠ .basic := by decide
    exact distinct name is poses.name

/-- The deployment of the router takes the prefill pods, and the service of an application takes
    those of a disaggregated one of its name. -/
theorem llm_selectors_inexact :
    ¬ Exact ⟨fun _ => "",id⟩ (among [] [.llm]) (.router (disaggregatedNamed .llm)) ∧
      ¬ Exact ⟨fun _ => "",id⟩ (among [.llm] [.llm]) (.service (.plain (plainNamed .llm))) := by
  refine ⟨router_inexact ⟨_,.head _,rfl⟩,fun exact => ?_⟩
  exact (plain_service_exact (n := among [.llm] [.llm]) ⟨_,.head _,rfl⟩).mp exact _ ⟨_,.head _,rfl⟩ rfl

end Arks.Selectors
