import Arks.Lifecycles

/-!
Namespaces are apart. A pass for a request of one namespace reads and writes objects of
this namespace only. So whatever the controllers do for other namespaces, and whatever users
do there, what happens in a namespace could have happened had the controllers worked for it
alone: to leave out everything else from a run leaves a run. Only the revision of the
API server tells that there are others.
-/
namespace Arks.Namespaces
open Programs Programs.Prog Api Kube Controllers Workloads Applications
open Passes Finalizers Families Versions Lifecycles

/-! ### Calls of one namespace -/

def namespaceOf : KubeOp → String
  | .get _ ns _ | .list _ ns _ | .delete _ ns _ => ns
  | .create k o | .update k o | .updateStatus k o | .patch k o => (key k o).1

abbrev Confined (ns : String) (op : KubeOp) : Prop := namespaceOf op = ns

/-- A reply is about the object that was asked for. -/
def Honest : (op : KubeOp) → KubeReply op → Prop
  | .get k ns name,.ok v => key k v = (ns,name)
  | .update k sent,.ok v => key k v = key k sent
  | _,_ => True

section Passes
variable {p : Platform} {ns : String}

abbrev Keeps (ns : String) {α : Type} (Q : α → Prop) (p : KubeAction α) : Prop := Within Honest (Confined ns) Q p

theorem ensure_keeps {k : Kind} {home name : String} {generate : KubeAction (Generated (Object k))} (here : home = ns)
    (generated : Keeps ns (fun g => ∀ o, g = .object o → (key k o).1 = ns) generate) :
    Keeps ns (fun _ => True) (ensure k home name generate) := ensure_within here generated

section Plain
variable {app : ArksApplication} {model : ArksModel}

private theorem startApplication_keeps (here : app.namespace_.val = ns) :
    Keeps ns (fun _ => True) (startApplication p app model) := by
  subst here
  refine within_bind (ensure_keeps rfl (fun lws generated => by rw [Readiness.generateLws_key generated])) (fun lws _ => ?_)
  cases goes : applicationFields.afterWorkload app "" "LWS" lws with
  | stop => trivial
  | next app₁ =>
    obtain ⟨_,rfl⟩ := Readiness.afterWorkload_next goes
    refine within_bind (ensure_keeps rfl (fun o generated => ?_)) (fun _ _ => trivial)
    cases generated
    rfl

private theorem syncApplication_keeps (here : app.namespace_.val = ns) : Keeps ns (fun _ => True) (syncApplication app) := by
  simp only [syncApplication,issue_bind,within_call]
  refine ⟨here,fun r _ => ?_⟩
  rcases r with (_ | _ | _) | _ <;> trivial

end Plain

section Disaggregated
open Workloads.Disaggregated (Role generateRouterDeployment)
open Applications.Disaggregated
variable {app : ArksDisaggregatedApplication} {model : ArksModel}

/-- A stage of a pass, which keeps the metadata. -/
theorem stage_keeps {P : KubeOp → Prop} {stage : KubeAction (Flow ArksDisaggregatedApplication)} (here : app.namespace_.val = ns)
    (calls : Keeps ns (fun _ => True) stage) (keeps : Issues P (Passes.Keeps fields app) stage) :
    Keeps ns (fun flow => flow.object.namespace_.val = ns) stage :=
  within_mono (within_and calls (within_any keeps)) (fun _ is => is.1) (fun _ is => by rw [keeps_meta is.2,here])

private theorem startWorkload_keeps (role : Role) (here : app.namespace_.val = ns) :
    Keeps ns (fun flow => flow.object.namespace_.val = ns) (startWorkload p role app model) := by
  refine stage_keeps here (within_bind (ensure_keeps here (fun lws generated => ?_)) (fun _ _ => trivial))
    (startWorkload_within p app model role)
  obtain ⟨made,built,named⟩ := generated_bind.mp generated
  cases generated_pure.mp named
  rw [key,Readiness.generateDisaggregatedLws_namespace built,here]

theorem createRBAC_keeps {k : Kind} {object : Object k} {text : String} (here : (key k object).1 = ns) :
    Keeps ns (fun _ => True) (Workloads.Disaggregated.createRBAC k object text) := within_any (createRBAC_within here)

private theorem applyRouterRBAC_keeps (here : app.namespace_.val = ns) :
    Keeps ns (fun _ => True) (Workloads.Disaggregated.applyRouterRBAC app) := by
  simp only [Workloads.Disaggregated.applyRouterRBAC,issue_bind,within_call]
  refine ⟨here,fun read _ => ?_⟩
  rcases read with (_ | _ | _) | _ <;> try trivial
  refine within_bind (createRBAC_keeps ?_) (fun made _ => ?_)
  · exact here
  cases made with
  | error => trivial
  | ok =>
    refine within_bind (createRBAC_keeps ?_) (fun made _ => ?_)
    · exact here
    cases made with
    | error => trivial
    | ok =>
      refine within_bind (createRBAC_keeps ?_) (fun made _ => by cases made <;> trivial)
      exact here

private theorem generateRouterDeployment_keeps (here : app.namespace_.val = ns) :
    Keeps ns (fun _ => True) (generateRouterDeployment p app) := by
  unfold generateRouterDeployment
  split
  · exact within_bind (applyRouterRBAC_keeps here) (fun made _ => by cases made <;> trivial)
  · trivial

private theorem startRouter_keeps (here : app.namespace_.val = ns) :
    Keeps ns (fun flow => flow.object.namespace_.val = ns) (startRouter p app) := by
  refine stage_keeps here (within_bind (ensure_keeps here ?_) (fun _ _ => trivial)) (startRouter_within p app)
  have named : Issues (fun _ => True) (fun made => ∀ deploy, made = .object deploy →
      deploy.namespace_ = app.namespace_) (generateRouterDeployment p app) :=
    within_of_runs (fun _ made run deploy same => Readiness.generateRouterDeployment_namespace (same ▸ run))
  refine within_bind (within_mono (within_and (generateRouterDeployment_keeps here) (within_any named)) (fun _ is => is.1)
    (fun _ is => is.2)) (fun made has o generated => ?_)
  obtain ⟨deploy,built,same⟩ := generated_bind.mp generated
  cases generated_pure.mp same
  rw [key,has deploy built,here]

private theorem startService_keeps (here : app.namespace_.val = ns) :
    Keeps ns (fun flow => flow.object.namespace_.val = ns) (startService app) := by
  refine stage_keeps here (within_bind (ensure_keeps here (fun o generated => ?_)) (fun _ _ => trivial)) (startService_within app)
  cases generated
  exact here

private theorem start_keeps (here : app.namespace_.val = ns) :
    Keeps ns (fun flow => flow.object.namespace_.val = ns) (start p app model) :=
  start_stages (Q := fun flow => flow.object.namespace_.val = ns) (by rw [Flow.object,sized_meta,here])
    (fun role _ here => startWorkload_keeps role here) (fun _ here => startRouter_keeps here)
    (fun _ here => startService_keeps here)

private theorem syncWorkload_keeps (role : Role) (here : app.namespace_.val = ns) :
    Keeps ns (fun flow => flow.object.namespace_.val = ns) (syncWorkload role app) := by
  have recorded : ∀ status, (Role.record status app role).namespace_.val = ns := by cases role <;> exact fun _ => here
  simp only [syncWorkload,issue_bind,within_call]
  refine ⟨here,fun read told => ?_⟩
  rcases read with (_ | _ | _) | lws
  · exact here
  · exact here
  · exact here
  simp only
  split
  · refine ⟨?_,fun _ _ => recorded lws.status⟩
    have place : (lws.namespace_.val,lws.name) = (app.namespace_.val,lwsName role app) := told
    exact (Prod.mk.inj place).1.trans here
  · exact recorded lws.status

private theorem sync_keeps (here : app.namespace_.val = ns) : Keeps ns (fun _ => True) (sync app) := by
  refine sync_stages (Q := fun flow => flow.object.namespace_.val = ns) here (fun _ _ _ => trivial)
    (fun role _ here => syncWorkload_keeps role here) (fun app here => ?_)
  simp only [syncRouter,issue_bind,within_call]
  refine ⟨here,fun read told => ?_⟩
  rcases read with (_ | _ | _) | deploy <;> try trivial
  simp only
  split
  · refine ⟨?_,fun reply _ => by cases reply <;> trivial⟩
    have place : (deploy.namespace_.val,deploy.name) = (app.namespace_.val,routerName app) := told
    exact (Prod.mk.inj place).1.trans here
  · trivial

end Disaggregated

/-! #### Whole passes -/

section Applications
variable {k : Kind} {r : Reconciler k} {σ τ : Type} {spec : Object k → σ} {status : Object k → τ}

theorem application_stays (apart : Apart r spec status)
    (starts : ∀ app model, (r.meta_ app).namespace_.val = ns → Keeps ns (fun _ => True) (r.start app model))
    (syncs : ∀ app, (r.meta_ app).namespace_.val = ns → Keeps ns (fun _ => True) (r.sync app)) :
    Passes.Stays r Honest (Confined ns) (fun app => (r.meta_ app).namespace_.val = ns)
      (fun app => (r.meta_ app).namespace_.val = ns) := by
  have place : ∀ app, (key k app).1 = (r.meta_ app).namespace_.val := fun app => by rw [apart.keyed]
  exact {
    rests := fun _ here => here
    revised := fun app f here => by rwa [r.meta_revise]
    defaulted := fun app here => by rwa [r.meta_defaulted]
    added := fun app finalizer here => by rwa [r.meta_withMeta,(sameVersion_add _ finalizer).namespace_]
    removed := fun app finalizer here => by rwa [r.meta_withMeta]
    read := fun _ here => here
    update := fun app here => (place app).trans here
    updated := fun app stored here told => by
      rw [← place,show key k stored = key k app from told,place,here]
    status := fun app here => (place app).trans here
    start := fun app model here => by
      refine within_mono (within_and (starts app model here) (within_any (apart.tame.start app model))) (fun _ is => is.1)
        (fun flow is => ?_)
      have keeps := is.2
      cases flow <;> rw [Flow.object,keeps.2,here]
    sync := fun app here => by
      refine within_mono (within_and (syncs app here) (within_any (within_of_runs (fun _ _ run => (apart.synced run).1))))
        (fun _ is => is.1) (fun _ is => ?_)
      rw [is.2,here]
    children := fun _ here _ _ => here }

end Applications

theorem model_stays (p : Platform) : Models.Stays p Honest (Confined ns) (fun model => model.namespace_.val = ns)
    (fun model => model.namespace_.val = ns) where
  rests _ here := here
  revised _ _ here := here
  added model finalizer here := (congrArg KubeName.val (sameVersion_add model.toObjectMeta finalizer).namespace_).trans here
  removed _ _ here := here
  update _ here := here
  updated _ _ here told := (congrArg Prod.fst told).trans here
  status _ here := here
  claim _ _ here := ⟨here,here⟩
  worker _ here := ⟨here,here,fun _ _ _ => here⟩

theorem endpoint_stays : Endpoints.Stays Honest (Confined ns) (fun ep => ep.namespace_.val = ns) where
  added ep finalizer here := (congrArg KubeName.val (sameVersion_add ep.toObjectMeta finalizer).namespace_).trans here
  removed _ _ here := here
  status _ _ here := here
  list _ here := ⟨here,here⟩
  route _ here := ⟨here,fun _ _ => here⟩
  written _ route here told := by
    have place := (congrArg Prod.fst told).trans here
    exact ⟨place,fun _ _ => place⟩

end Passes

/-- A pass for a request of a namespace. -/
inductive PassIn (p : Platform) (ns : String) : KubeAction Outcome → Prop
  | application (name : String) : PassIn p ns ((arksApplicationReconciler p).reconcileRequest ns name)
  | disaggregated (name : String) : PassIn p ns ((arksDisaggregatedApplicationReconciler p).reconcileRequest ns name)
  | model (name : String) : PassIn p ns (Models.reconcileRequest p ns name)
  | endpoint (name : String) : PassIn p ns (Endpoints.reconcileRequest ns name)

theorem pass_in {p : Platform} {pass : KubeAction Outcome} : Pass p pass ↔ ∃ ns, PassIn p ns pass := by
  constructor
  · intro is
    cases is with
    | application ns name => exact ⟨ns,.application name⟩
    | disaggregated ns name => exact ⟨ns,.disaggregated name⟩
    | model ns name => exact ⟨ns,.model name⟩
    | endpoint ns name => exact ⟨ns,.endpoint name⟩
  · rintro ⟨ns,is⟩
    cases is with
    | application name => exact .application ns name
    | disaggregated name => exact .disaggregated ns name
    | model name => exact .model ns name
    | endpoint name => exact .endpoint ns name

theorem pass_keeps {p : Platform} {ns : String} {pass : KubeAction Outcome} (is : PassIn p ns pass) :
    Keeps ns (fun _ => True) pass := by
  cases is with
  | application =>
    exact Passes.request_stays
      (application_stays (plain_apart p) (fun _ _ => startApplication_keeps) (fun _ => syncApplication_keeps)) rfl
      (fun _ told => congrArg Prod.fst told)
  | disaggregated =>
    exact Passes.request_stays (application_stays (disaggregated_apart p)
      (fun _ _ here => within_mono (start_keeps here) (fun _ is => is) (fun _ _ => trivial)) (fun _ => sync_keeps)) rfl
      (fun _ told => congrArg Prod.fst told)
  | model => exact Models.request_stays (model_stays p) rfl (fun _ told => congrArg Prod.fst told)
  | endpoint => exact Endpoints.request_stays endpoint_stays rfl (fun _ told => congrArg Prod.fst told)

/-! ### The objects of one namespace -/

section Views
variable {index : Index} {ns : String} {c c' : Cluster} {a a' : Archive} {op : KubeOp}
  {r : KubeReply op} {k : Kind}

/-- The API server as a namespace sees it. -/
def only (ns : String) (c : Cluster) : Cluster where
  objects k n name := if n = ns then c.objects k n name else none
  revision := c.revision
  keyed is := by
    split at is
    · exact c.keyed is
    · cases is
  finite k := by
    refine (c.finite k).subset ?_
    rintro o ⟨n,name,is⟩
    split at is
    · exact ⟨n,name,is⟩
    · cases is

@[inherit_doc only]
def alone (ns : String) (a : Archive) : Archive where
  server := only ns a.server
  past ref := if ref.namespace_ = ns then a.past ref else [none]
  current ref := by
    by_cases here : ref.namespace_ = ns
    · simp only [objectAt,only,if_pos here]
      exact a.current ref
    · simp only [objectAt,only,if_neg here,List.head?_cons]
  keyed is := by
    split at is
    · exact a.keyed is
    · cases List.mem_singleton.mp is

theorem cluster_ext (objects : c'.objects = c.objects) (revision : c'.revision = c.revision) : c' = c := by
  cases c
  cases c'
  cases objects
  cases revision
  rfl

theorem archive_ext (server : a'.server = a.server) (past : a'.past = a.past) : a' = a := by
  cases a
  cases a'
  cases server
  cases past
  rfl

theorem only_objects (c : Cluster) (k : Kind) (name : String) : (only ns c).objects k ns name = c.objects k ns name := if_pos rfl

theorem alone_past {ref : Ref} (here : ref.namespace_ = ns) : (alone ns a).past ref = a.past ref := if_pos here

theorem alone_other {ref : Ref} (other : ref.namespace_ ≠ ns) : (alone ns a).past ref = [none] := if_neg other

theorem alone_object {ref : Ref} (here : ref.namespace_ = ns) :
    objectAt (alone ns a).server ref = objectAt a.server ref := if_pos here

theorem alone_alone (ns : String) (a : Archive) : alone ns (alone ns a) = alone ns a := by
  refine archive_ext (cluster_ext ?_ rfl) ?_
  · funext k n name
    by_cases here : n = ns
    · exact if_pos here
    · exact (if_neg here).trans (if_neg here).symm
  · funext ref
    by_cases here : ref.namespace_ = ns
    · exact if_pos here
    · exact (if_neg here).trans (if_neg here).symm

private theorem alone_fresh (ns : String) : alone ns .fresh = .fresh :=
  archive_ext (cluster_ext (by funext k n name; exact ite_self _) rfl) (by funext ref; exact ite_self _)

/-! #### Calls in the namespace -/

theorem only_stored {o : Object k} (here : (key k o).1 = ns) : (only ns c).stored k o = c.stored k o := if_pos here

theorem only_put {o : Object k} (here : (key k o).1 = ns) : only ns (c.put k o) = (only ns c).put k o := by
  refine cluster_ext ?_ rfl
  funext j n name
  by_cases same : j = k
  · subst same
    rw [Cluster.put_objects]
    simp only [only,Cluster.put_objects]
    by_cases put : n = (key j o).1 ∧ name = (key j o).2
    · rw [if_pos put,if_pos put,if_pos (put.1.trans here)]
    · rw [if_neg put,if_neg put]
  · simp only [only,Cluster.put_other o same]

theorem only_remove (k : Kind) (name : String) : only ns (c.remove k ns name) = (only ns c).remove k ns name := by
  refine cluster_ext ?_ rfl
  funext j n m
  by_cases same : j = k
  · subst same
    rw [Cluster.remove_objects]
    simp only [only,Cluster.remove_objects]
    split <;> simp
  · simp only [only,Cluster.remove_other _ _ same]

/-- A call in a namespace is the same call where there is nothing else. -/
theorem handles_only (here : namespaceOf op = ns) (handled : Handles index c op r c') :
    Handles index (only ns c) op r (only ns c') := by
  cases op with
  | get k n name =>
    obtain rfl : n = ns := here
    obtain ⟨rfl,found⟩ := handled
    exact ⟨rfl,by rwa [only_objects]⟩
  | list k n selected =>
    obtain rfl : n = ns := here
    obtain ⟨rfl,items,told,nodup,listed⟩ := handled
    refine ⟨rfl,items,told,nodup,fun o => (listed o).trans ?_⟩
    by_cases place : (key k o).1 = n
    · rw [only_stored place]
    · simp only [place,false_and,and_false]
  | create k o =>
    simp only [Handles,only_stored here] at handled ⊢
    split at handled
    · obtain ⟨rfl,refused⟩ := handled
      exact ⟨rfl,refused⟩
    · obtain ⟨told,rfl⟩ := handled
      exact ⟨told,only_put here⟩
  | update k o =>
    simp only [Handles,only_stored here] at handled ⊢
    split at handled
    · obtain ⟨rfl,refused⟩ := handled
      exact ⟨rfl,refused⟩
    · rename_i stored present
      by_cases current : Current k stored o
      · rw [if_pos current] at handled ⊢
        obtain ⟨told,rfl⟩ := handled
        refine ⟨told,?_⟩
        simp only [show (only ns c).revision = c.revision from rfl]
        split
        · rw [show (key k o).1 = ns from here,only_remove]
        · exact only_put (by rw [key_updated]; exact here)
      · rw [if_neg current] at handled ⊢
        obtain ⟨rfl,refused⟩ := handled
        exact ⟨rfl,refused⟩
  | updateStatus k o =>
    simp only [Handles,only_stored here] at handled ⊢
    split at handled
    · obtain ⟨rfl,refused⟩ := handled
      exact ⟨rfl,refused⟩
    · rename_i stored present
      by_cases current : Current k stored o
      · rw [if_pos current] at handled ⊢
        obtain ⟨told,rfl⟩ := handled
        exact ⟨told,only_put (by rw [key_statusUpdated,c.keyed present]; exact here)⟩
      · rw [if_neg current] at handled ⊢
        obtain ⟨rfl,refused⟩ := handled
        exact ⟨rfl,refused⟩
  | patch k o =>
    simp only [Handles,only_stored here] at handled ⊢
    split at handled
    · obtain ⟨rfl,refused⟩ := handled
      exact ⟨rfl,refused⟩
    · obtain ⟨told,rfl⟩ := handled
      exact ⟨told,only_put (by rw [key_updated]; exact here)⟩
  | delete k n name =>
    obtain rfl : n = ns := here
    simp only [Handles,only_objects] at handled ⊢
    split at handled
    · obtain ⟨rfl,refused⟩ := handled
      exact ⟨rfl,refused⟩
    · obtain ⟨told,rfl⟩ := handled
      exact ⟨told,only_remove k name⟩

theorem recorded_alone (recorded : Recorded a a') : Recorded (alone ns a) (alone ns a') := by
  intro ref
  by_cases here : ref.namespace_ = ns
  · rw [alone_past here,alone_past here,alone_object here]
    exact recorded ref
  · exact .inl ((alone_other here).trans (alone_other here).symm)

private theorem acts_alone (here : namespaceOf op = ns) (acts : Acts index op a r a') : Acts index op (alone ns a) r
    (alone ns a') := by
  cases acts with
  | cached old is found => exact .cached old (by rwa [alone_past here]) found
  | failed message => exact .failed message
  | unheard message handled recorded => exact .unheard message (handles_only here handled) (recorded_alone recorded)
  | served handled recorded => exact .served (handles_only here handled) (recorded_alone recorded)

theorem acts_honest (acts : Acts index op a r a') : Honest op r := by
  cases op with
  | get k n name =>
    cases r with
    | error => trivial
    | ok v => exact past_key (read_version acts v rfl)
  | update k sent =>
    cases r with
    | error => trivial
    | ok v =>
      obtain ⟨_,⟨stored,rfl⟩,_⟩ := update_version acts v rfl
      exact key_updated ..
  | list | create | updateStatus | patch | delete => trivial

/-! #### Calls elsewhere -/

/-- Nothing is written; an object may be announced again. -/
def Quiet (a a' : Archive) : Prop := ∀ ref, a'.past ref = a.past ref ∨ a'.past ref = objectAt a.server ref :: a.past ref

theorem handles_aside (other : namespaceOf op ≠ ns) (handled : Handles index c op r c') {ref : Ref}
    (here : ref.namespace_ = ns) : objectAt c' ref = objectAt c ref := by
  have apart : ∀ {k : Kind} {n name : String}, n ≠ ns → ref ≠ ⟨k,n,name⟩ := by
    rintro k n name elsewhere rfl
    exact elsewhere here
  cases handles_cases handled with
  | got | listed | refused => rfl
  | created => exact put_at_other (apart other)
  | updated => exact put_at_other (apart (by rw [key_updated]; exact other))
  | released => exact remove_at_other (apart other)
  | statusUpdated present => exact put_at_other (apart (by rw [key_statusUpdated,c.keyed present]; exact other))
  | patched => exact put_at_other (apart (by rw [key_updated]; exact other))
  | deleted => exact remove_at_other (apart other)

theorem acts_aside (other : namespaceOf op ≠ ns) (acts : Acts index op a r a') :
    Quiet (alone ns a) (alone ns a') ∧ a.server.revision ≤ a'.server.revision := by
  have quiet : ∀ {r'}, Handles index a.server op r' a'.server → Recorded a a' → Quiet (alone ns a) (alone ns a') := by
    intro r' handled recorded ref
    have kept : Recorded (alone ns a) (alone ns a') := recorded_alone recorded
    refine (kept ref).imp id (fun announced => announced.trans ?_)
    by_cases here : ref.namespace_ = ns
    · rw [alone_object here,alone_object here,handles_aside other handled here]
    · simp only [objectAt,alone,only,if_neg here]
  cases acts with
  | cached | failed => exact ⟨fun _ => .inl rfl,le_rfl⟩
  | unheard _ handled recorded => exact ⟨quiet handled recorded,handles_revision handled⟩
  | served handled recorded => exact ⟨quiet handled recorded,handles_revision handled⟩

end Views

/-! ### Runs -/

/-- What users and other controllers do, which in each namespace depends on what is there. -/
structure Turns (E : String → Archive → Archive → Prop) (a a' : Archive) : Prop where
  revision : a.server.revision ≤ a'.server.revision
  each : ∀ ns, Quiet (alone ns a) (alone ns a') ∨ E ns (alone ns a) (alone ns a')

/-- Any number of replicas of the controllers, with users and other controllers. -/
def crowd (ι : Type) (index : Index) (pass : KubeAction Outcome → Prop)
    (E : String → Archive → Archive → Prop) : System KubeOp KubeReply ι Archive Outcome where
  act _ := Acts index
  env := Turns E
  start _ _ := pass

/-- What may have become of a namespace. -/
def Possible (ι : Type) [DecidableEq ι] (index : Index) (pass : KubeAction Outcome → Prop)
    (E : String → Archive → Archive → Prop) (ns : String) (a : Archive) : Prop :=
  ∃ c d, c.shared = Archive.fresh ∧ (∀ i, ∃ outcome, c.prog i = .ret outcome) ∧
    Reach (crowd ι index pass E) (fun _ => True) c d ∧ alone ns d.shared = a

/-- What is done in one namespace only. -/
def Inside (ns : String) (E : String → Archive → Archive → Prop) (n : String) (a a' : Archive) : Prop := n = ns ∧ E n a a'

section Runs
variable {ι : Type} [DecidableEq ι] {p : Platform} {index : Index} {ns : String}
  {E : String → Archive → Archive → Prop} {a a' : Archive}

theorem turns_quiet (quiet : Quiet (alone ns a) (alone ns a')) (revision : a.server.revision ≤ a'.server.revision) :
    Turns (Inside ns E) (alone ns a) (alone ns a') := by
  refine ⟨revision,fun n => .inl (fun ref => ?_)⟩
  by_cases here : ref.namespace_ = n
  · rw [alone_past here,alone_past here,alone_object here]
    exact quiet ref
  · exact .inl ((alone_other here).trans (alone_other here).symm)

private theorem turns_alone (turns : Turns E a a') : Turns (Inside ns E) (alone ns a) (alone ns a') := by
  rcases turns.each ns with quiet | changed
  · exact turns_quiet quiet turns.revision
  refine ⟨turns.revision,fun n => ?_⟩
  by_cases here : n = ns
  · subst here
    rw [alone_alone,alone_alone]
    exact .inr ⟨rfl,changed⟩
  · refine .inl (fun ref => .inl ?_)
    by_cases inside : ref.namespace_ = n
    · rw [alone_past inside,alone_past inside,alone_other (inside ▸ here),alone_other (inside ▸ here)]
    · rw [alone_other inside,alone_other inside]

/-- A party that works for the namespace is where it would be; one that works for another would be at rest. -/
def Follows (ns : String) (real mine : KubeAction Outcome) : Prop :=
  (mine = real ∧ Keeps ns (fun _ => True) real) ∨ ((∃ outcome, mine = .ret outcome) ∧ ∃ n, n ≠ ns ∧ Keeps n (fun _ => True) real)

/-- What is left of a state when everything outside the namespace is left out. -/
structure Leaves (ns : String) (d d' : Config KubeOp KubeReply ι Archive Outcome) : Prop where
  shared : d'.shared = alone ns d.shared
  parties : ∀ i, Follows ns (d.prog i) (d'.prog i)

theorem follows_update {real mine : ι → KubeAction Outcome} {i : ι} {next next' : KubeAction Outcome}
    (follows : ∀ i, Follows ns (real i) (mine i)) (new : Follows ns next next') :
    ∀ j, Follows ns (Function.update real i next j) (Function.update mine i next' j) := by
  intro j
  by_cases here : j = i
  · subst here
    rwa [Function.update_self,Function.update_self]
  · rw [Function.update_of_ne here,Function.update_of_ne here]
    exact follows j

/-- A step is a step of the namespace alone, or of users there, or none. -/
theorem step_leaves {d d' e : Config KubeOp KubeReply ι Archive Outcome} (leaves : Leaves ns d d')
    (step : Step (crowd ι index (Pass p) E) d e) :
    ∃ e', Reach (crowd ι index (PassIn p ns) (Inside ns E)) (fun _ => True) d' e' ∧ Leaves ns e e' := by
  obtain ⟨shared',mine⟩ := d'
  obtain ⟨rfl,parties⟩ := leaves
  cases step with
  | @act i op next r s at_i acts =>
    have follows := parties i
    rw [at_i] at follows
    rcases follows with ⟨same,confined,later⟩ | ⟨⟨outcome,rests⟩,n,other,confined,later⟩
    · refine ⟨_,.step (.refl trivial) (.act same (acts_alone confined acts)) trivial,rfl,?_⟩
      exact follows_update parties (.inl ⟨rfl,later r (acts_honest acts)⟩)
    · obtain ⟨quiet,revision⟩ := acts_aside (by rw [confined]; exact other) acts
      refine ⟨⟨alone ns s,mine⟩,.step (.refl trivial) (.env (turns_quiet quiet revision)) trivial,rfl,?_⟩
      have new : Follows ns (next r) (mine i) := .inr ⟨⟨outcome,rests⟩,n,other,later r (acts_honest acts)⟩
      have moved := follows_update (i := i) parties new
      rwa [Function.update_eq_self] at moved
  | @start i l pass at_i begins =>
    have rests : ∃ outcome, mine i = .ret outcome := by
      rcases parties i with ⟨same,_⟩ | ⟨rests,_⟩
      · exact ⟨l,same.trans at_i⟩
      · exact rests
    obtain ⟨n,is⟩ := pass_in.mp begins
    by_cases here : n = ns
    · subst here
      obtain ⟨outcome,rests⟩ := rests
      refine ⟨_,.step (.refl trivial) (.start rests is) trivial,rfl,?_⟩
      exact follows_update parties (.inl ⟨rfl,pass_keeps is⟩)
    · refine ⟨⟨alone ns d.shared,mine⟩,.refl trivial,rfl,?_⟩
      have new : Follows ns pass (mine i) := .inr ⟨rests,n,here,pass_keeps is⟩
      have moved := follows_update (i := i) parties new
      rwa [Function.update_eq_self] at moved
  | @env s turns => exact ⟨⟨alone ns s,mine⟩,.step (.refl trivial) (.env (turns_alone turns)) trivial,rfl,parties⟩

/-- Namespaces are apart: what may become of a namespace while the controllers see to all of them, and whatever users and
    others do in the others, is what may become of it when they see to this one only and nothing is done elsewhere. -/
theorem namespaces_are_apart (p : Platform) (index : Index) (E : String → Archive → Archive → Prop)
    (ns : String) (a : Archive) :
    Possible ι index (Pass p) E ns a ↔ Possible ι index (PassIn p ns) (Inside ns E) ns a := by
  constructor
  · rintro ⟨c,d,initial,resting,run,rfl⟩
    have first : Leaves ns c c := by
      refine ⟨by rw [initial,alone_fresh],fun i => .inl ⟨rfl,?_⟩⟩
      obtain ⟨outcome,rests⟩ := resting i
      rw [rests]
      trivial
    obtain ⟨d',run',leaves⟩ := reach_simulated (S := Leaves ns) trivial first (fun _ _ _ => step_leaves) run
    exact ⟨c,d',initial,resting,run',by rw [leaves.shared,alone_alone]⟩
  · rintro ⟨c,d,initial,resting,run,rfl⟩
    refine ⟨c,d,initial,resting,reach_more ?_ ?_ ?_ run,rfl⟩
    · exact fun _ _ _ _ _ acts => acts
    · exact fun _ _ turns => ⟨turns.revision,fun n => (turns.each n).imp id And.right⟩
    · exact fun _ _ _ begins => pass_in.mpr ⟨ns,begins⟩

end Runs

end Arks.Namespaces
