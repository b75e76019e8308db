import Arks.Lifecycles
import Arks.Records

/-!
The permissions of the routers. The routers of a namespace share a role, a service account
and a role binding. A pass looks only at the role binding, and creates the three when it is
not there. Passes over several applications do this at the same time, each may stop or fail
in between, and an object that exists already will do. Still a router that runs under the
service account has all three: the role binding is created last, after the others are there.
-/
namespace Arks.Permissions
open Programs Programs.Prog Api Kube Controllers Workloads Applications
open Passes Finalizers Families Versions Records Lifecycles

/-- The name of the three objects. -/
def routerName : String := "sglang-router"

abbrev Site := World Unit

/-- An object of the permissions has been there. -/
def Had (w : Site) (k : Kind) (ns : String) : Prop := ∃ o, some o ∈ w.archive.past ⟨k,ns,routerName⟩

/-- What is true of the objects: a role binding has its role and its service account, and a router that runs
    under the service account has its role binding. -/
def Good (w : Site) : (k : Kind) → Object k → Prop
  | .disaggregated,o => o.spec.router.instanceSpec.serviceAccountName ≠ routerName
  | .deployment,o => o.template.serviceAccountName = routerName → Had w .roleBinding o.namespace_
  | .roleBinding,o => o.name = routerName → Had w .role o.namespace_ ∧ Had w .serviceAccount o.namespace_
  | _,_ => True

/-- What users and other controllers write: nobody names the service account of the routers in an application, and nobody
    else creates a role binding of its name or a deployment that runs under it. -/
def Asks : (k : Kind) → Option (Object k) → Object k → Prop
  | .disaggregated,_,o => o.spec.router.instanceSpec.serviceAccountName ≠ routerName
  | .deployment,old,o => o.template.serviceAccountName = routerName →
      ∃ v, old = some v ∧ v.namespace_ = o.namespace_ ∧ v.template.serviceAccountName = routerName
  | .roleBinding,old,o => o.name = routerName → ∃ v, old = some v ∧ v.namespace_ = o.namespace_ ∧ v.name = routerName
  | _,_,_ => True

/-- Users and other controllers write and delete objects, but not the permissions of the routers. -/
def Others (w w' : Site) : Prop :=
  ∀ ref, w'.archive.past ref = w.archive.past ref ∨ ∃ new, w'.archive.past ref = new :: w.archive.past ref ∧
    (rbacKind ref.kind → ref.name = routerName → new ≠ none) ∧
    ∀ o, new = some o → Asks ref.kind (objectAt w.archive.server ref) o

section Facts
variable {w w' : Site}

abbrev Later (w w' : Site) : Prop := Grows (fun _ _ => True) w w'

theorem had_later {k : Kind} {ns : String} (later : Later w w') (had : Had w k ns) : Had w' k ns := by
  obtain ⟨o,is⟩ := had
  exact ⟨o,later.past _ _ is⟩

theorem good_later (k : Kind) (o : Object k) (later : Later w w') (good : Good w k o) : Good w' k o := by
  cases k with
  | disaggregated => exact good
  | deployment => exact fun runs => had_later later (good runs)
  | roleBinding => exact fun named => (good named).imp (had_later later) (had_later later)
  | _ => trivial

theorem edit_good {k : Kind} {old : Option (Object k)} {o : Object k} (good : ∀ v, old = some v → Good w k v)
    (asks : Asks k old o) : Good w k o := by
  cases k with
  | disaggregated => exact asks
  | deployment =>
    intro runs
    obtain ⟨v,rfl,same,ran⟩ := asks runs
    exact same ▸ good v rfl ran
  | roleBinding =>
    intro named
    obtain ⟨v,rfl,same,was⟩ := asks named
    exact same ▸ good v rfl was
  | _ => trivial

theorem others_good (holds : Holds (Good w) w.archive) (moved : Others w w') : Later w w' ∧ Holds (Good w') w'.archive := by
  have later : Later w w' := by
    refine ⟨fun ref o is => ?_,trivial⟩
    rcases moved ref with kept | ⟨new,more,_⟩
    · rwa [kept]
    · rw [more]
      exact .tail _ is
  refine ⟨later,fun ref o is => good_later _ _ later ?_⟩
  rcases moved ref with kept | ⟨new,more,_,asks⟩
  · exact holds ref o (kept ▸ is)
  rw [more] at is
  rcases List.mem_cons.mp is with rfl | old
  · exact edit_good (fun v there => holds ref v (there ▸ current_mem w.archive ref)) (asks o rfl)
  · exact holds ref o old

end Facts

/-! ### The passes -/

section Passes
variable {w : Site} {p : Platform}

abbrev Sees (w : Site) {α : Type} (Q : α → Prop) (p : KubeAction α) : Prop := Within (Tells w.archive) (Writes (Good w)) Q p

/-- The kinds whose objects stand for nothing. -/
def Plain (k : Kind) : Prop := k ≠ .disaggregated ∧ k ≠ .deployment ∧ k ≠ .roleBinding

theorem good_plain {k : Kind} (plain : Plain k) (o : Object k) : Good w k o := by
  obtain ⟨disaggregated,deployment,roleBinding⟩ := plain
  cases k <;> trivial

theorem writes_plain {op : KubeOp} (plain : Plain (kindOf op)) : Writes (Good w) op := by
  cases op with
  | get | list | delete => trivial
  | create => exact good_plain plain _
  | update | patch | updateStatus => exact fun _ _ _ _ => good_plain plain _

theorem model_stays : Models.Stays p (Tells w.archive) (Writes (Good w)) (fun _ => True) (fun _ => True) where
  rests _ _ := trivial
  revised _ _ _ := trivial
  added _ _ _ := trivial
  removed _ _ _ := trivial
  update _ _ _ _ _ _ := trivial
  updated _ _ _ _ := trivial
  status _ _ _ _ _ _ := trivial
  claim _ _ _ := ⟨trivial,trivial⟩
  worker _ _ := ⟨trivial,trivial,fun _ _ _ => trivial⟩

theorem endpoint_stays : Endpoints.Stays (Tells w.archive) (Writes (Good w)) (fun _ => True) where
  added _ _ _ _ _ _ _ := trivial
  removed _ _ _ _ _ _ _ := trivial
  status _ _ _ _ _ _ _ := trivial
  list _ _ := ⟨trivial,trivial⟩
  route _ _ := ⟨trivial,fun _ _ => trivial⟩
  written _ _ _ _ := ⟨trivial,fun _ _ _ _ _ _ => trivial⟩

theorem plain_stays : Passes.Stays (arksApplicationReconciler p) (Tells w.archive) (Writes (Good w)) (fun _ => True)
    (fun _ => True) where
  rests _ _ := trivial
  revised _ _ _ := trivial
  defaulted _ _ := trivial
  added _ _ _ := trivial
  removed _ _ _ := trivial
  read _ _ := trivial
  update _ _ _ _ _ _ := trivial
  updated _ _ _ _ := trivial
  status _ _ _ _ _ _ := trivial
  start app model _ := by
    refine within_mono (within_any (startApplication_within p app model)) (fun op kind => writes_plain ?_) (fun _ _ => trivial)
    rcases kind with kind | kind <;> rw [kind] <;> exact ⟨by decide,by decide,by decide⟩
  sync app _ := by
    refine within_mono (within_any (syncApplication_within app)) (fun op kind => writes_plain ?_) (fun _ _ => trivial)
    rw [kind]
    exact ⟨by decide,by decide,by decide⟩
  children _ _ _ _ := trivial

section Disaggregated
open Workloads.Disaggregated (Role applyRouterRBAC createRBAC generateRouterDeployment routerDeployment)
open Applications.Disaggregated
variable {app : ArksDisaggregatedApplication} {model : ArksModel}

/-- The application does not name the service account of the routers itself. -/
def Unnamed (app : ArksDisaggregatedApplication) : Prop := app.spec.router.instanceSpec.serviceAccountName ≠ routerName

theorem startWorkload_sees (role : Role) (unnamed : Unnamed app) :
    Sees w (fun flow => Unnamed flow.object) (startWorkload p role app model) := by
  have settled : Unnamed (settle role app) := by cases role <;> exact unnamed
  refine within_bind (ensure_within trivial (fun _ _ => trivial)) (fun lws _ => ?_)
  cases lws with
  | present b =>
    cases b with
    | true => exact settled
    | false => exact unnamed
  | panicked | generateFailed | createFailed | checkFailed => exact unnamed

/-- An object of the permissions that is created or exists already has been there. -/
theorem createRBAC_sees {k : Kind} {object : Object k} {text : String} (kind : Good w k object) :
    Sees w (fun made => made = .ok () → ∃ o, some o ∈ w.archive.past (refOf k object)) (createRBAC k object text) := by
  refine ⟨kind,fun reply told => ?_⟩
  rcases reply with (_ | _ | _) | _
  · exact fun wrong => by cases wrong
  · exact fun _ => told
  · exact fun wrong => by cases wrong
  · exact fun _ => ⟨object,told⟩

private theorem applyRouterRBAC_sees :
    Sees w (fun made => ∀ account, made = .ok account → Had w .roleBinding app.namespace_) (applyRouterRBAC app) := by
  simp only [applyRouterRBAC,issue_bind,within_call]
  refine ⟨trivial,fun read told => ?_⟩
  rcases read with (_ | _ | _) | binding
  · refine within_bind (createRBAC_sees (k := .role) trivial) (fun made role => ?_)
    cases made with
    | error => exact fun _ wrong => by cases wrong
    | ok =>
      refine within_bind (createRBAC_sees (k := .serviceAccount) trivial) (fun made account => ?_)
      cases made with
      | error => exact fun _ wrong => by cases wrong
      | ok =>
        refine within_bind (createRBAC_sees (k := .roleBinding) (fun _ => ⟨role rfl,account rfl⟩)) (fun made binding => ?_)
        cases made with
        | error => exact fun _ wrong => by cases wrong
        | ok => exact fun _ _ => binding rfl
  · exact fun _ wrong => by cases wrong
  · exact fun _ wrong => by cases wrong
  · exact fun _ _ => ⟨binding,told⟩

theorem routerDeployment_account {account : String} {deploy : Deployment}
    (made : routerDeployment p app account = .object deploy) :
    deploy.template.serviceAccountName = account ∧ deploy.namespace_ = app.namespace_ := by
  simp only [routerDeployment,generated_bind,generated_pure] at made
  obtain ⟨_,_,_,_,rfl⟩ := made
  exact ⟨rfl,rfl⟩

private theorem generateRouterDeployment_sees (unnamed : Unnamed app) :
    Sees w (fun made => ∀ deploy, made = .object deploy → Good w .deployment deploy) (generateRouterDeployment p app) := by
  unfold generateRouterDeployment
  split
  · refine within_bind applyRouterRBAC_sees (fun applied bound => ?_)
    cases applied with
    | error => exact fun _ wrong => by cases wrong
    | ok account =>
      intro deploy made _
      rw [(routerDeployment_account made).2]
      exact bound account rfl
  · intro deploy made runs
    rw [(routerDeployment_account made).1] at runs
    exact absurd runs unnamed

private theorem startRouter_sees (unnamed : Unnamed app) : Sees w (fun flow => Unnamed flow.object) (startRouter p app) := by
  refine within_bind
    (ensure_within trivial (within_bind (generateRouterDeployment_sees unnamed) (fun made good o generated => ?_)))
    (fun deploy _ => ?_)
  · obtain ⟨deploy,built,same⟩ := generated_bind.mp generated
    cases generated_pure.mp same
    exact good deploy built
  · cases deploy <;> exact unnamed

private theorem startService_sees (unnamed : Unnamed app) : Sees w (fun flow => Unnamed flow.object) (startService app) := by
  refine within_bind (ensure_within trivial (fun _ _ => trivial)) (fun service _ => ?_)
  cases service <;> exact unnamed

theorem start_sees (unnamed : Unnamed app) : Sees w (fun flow => Unnamed flow.object) (start p app model) := by
  have sized_unnamed : Unnamed (sized app) := by
    unfold sized
    split <;> exact unnamed
  exact start_stages (Q := fun flow => Unnamed flow.object) sized_unnamed (fun role _ kept => startWorkload_sees role kept)
    (fun _ kept => startRouter_sees kept) (fun _ kept => startService_sees kept)

theorem sync_sees (holds : Holds (Good w) w.archive) : Sees w (fun _ => True) (sync app) := by
  have workload : ∀ role app, Sees w (fun _ => True) (syncWorkload role app) := by
    refine fun role app => within_mono (within_any (syncWorkload_within role app)) (fun op kind => writes_plain ?_)
      (fun _ _ => trivial)
    rw [kind]
    exact ⟨by decide,by decide,by decide⟩
  refine sync_stages (Q := fun _ => True) trivial (fun _ _ _ => trivial) (fun role app _ => workload role app) (fun app _ => ?_)
  simp only [syncRouter,issue_bind,within_call]
  refine ⟨trivial,fun read told => ?_⟩
  rcases read with (_ | _ | _) | deploy <;> try trivial
  simp only
  split
  · refine ⟨fun _ _ _ _ => holds ⟨.deployment,_,_⟩ deploy told,fun reply _ => ?_⟩
    cases reply <;> trivial
  · trivial

theorem disaggregated_stays (holds : Holds (Good w) w.archive) :
    Passes.Stays (arksDisaggregatedApplicationReconciler p) (Tells w.archive) (Writes (Good w)) Unnamed (fun _ => True) where
  rests _ _ := trivial
  revised _ _ unnamed := unnamed
  defaulted _ unnamed := unnamed
  added _ _ unnamed := unnamed
  removed _ _ unnamed := unnamed
  read _ _ := trivial
  update _ unnamed _ _ _ _ := unnamed
  updated _ _ _ _ := trivial
  status _ _ _ _ _ good := good
  start _ _ unnamed := start_sees unnamed
  sync _ _ := sync_sees holds
  children _ _ _ _ := trivial

end Disaggregated

theorem pass_sees {pass : KubeAction Outcome} (is : Pass p pass) (holds : Holds (Good w) w.archive) :
    Sees w (fun _ => True) pass := by
  cases is with
  | application => exact Passes.request_stays plain_stays trivial (fun _ _ => trivial)
  | disaggregated ns name =>
    exact Passes.request_stays (disaggregated_stays holds) trivial (fun app told => holds ⟨.disaggregated,ns,name⟩ app told)
  | model => exact Models.request_stays model_stays trivial (fun _ _ => trivial)
  | endpoint => exact Endpoints.request_stays endpoint_stays trivial (fun _ _ => trivial)

/-! ### Nobody takes permissions back -/

/-- A call that deletes no permissions. -/
def Spares : KubeOp → Prop
  | .delete k _ _ => ¬ rbacKind k
  | _ => True

theorem tends_spares {i : Ref} {op : KubeOp} (tends : Tends i op) : Spares op := by
  cases op with
  | delete => cases tends
  | get | list | create | update | updateStatus | patch => trivial

theorem orderly_stays {k : Kind} {r : Reconciler k} (orderly : Orderly r) :
    Passes.Stays r (fun _ _ => True) Spares (fun _ => True) (fun _ => True) where
  rests _ _ := trivial
  revised _ _ _ := trivial
  defaulted _ _ := trivial
  added _ _ _ := trivial
  removed _ _ _ := trivial
  read _ _ := trivial
  update _ _ := trivial
  updated _ _ _ _ := trivial
  status _ _ := trivial
  start app model _ := within_mono (orderly.start app model) (fun _ => tends_spares) (fun _ _ => trivial)
  sync app _ := within_mono (orderly.sync app) (fun _ => tends_spares) (fun _ _ => trivial)
  children app _ child is := by
    have member : (⟨child.1,(r.meta_ app).namespace_,child.2.1⟩ : Ref) ∈ family (refOf k app) :=
      orderly.children app ▸ List.mem_map_of_mem is
    rcases family_child member with kind | kind | kind <;> dsimp only at kind <;> rw [Spares,kind] <;> exact id

private theorem pass_spares {pass : KubeAction Outcome} (is : Pass p pass) :
    Issues Spares (fun _ => True) pass := by
  cases is with
  | application => exact Passes.request_stays (orderly_stays (orderly_plain p)) trivial (fun _ _ => trivial)
  | disaggregated => exact Passes.request_stays (orderly_stays (orderly_disaggregated p)) trivial (fun _ _ => trivial)
  | model =>
    refine Models.request_stays (A := fun _ => True) (B := fun _ => True) ?_ trivial (fun _ _ => trivial)
    exact ⟨fun _ _ => trivial,fun _ _ _ => trivial,fun _ _ _ => trivial,fun _ _ _ => trivial,fun _ _ => trivial,
      fun _ _ _ _ => trivial,fun _ _ => trivial,fun _ _ _ => ⟨trivial,trivial⟩,fun _ _ => ⟨trivial,id,fun _ _ _ => trivial⟩⟩
  | endpoint =>
    refine Endpoints.request_stays (A := fun _ => True) ?_ trivial (fun _ _ => trivial)
    exact ⟨fun _ _ _ => trivial,fun _ _ _ => trivial,fun _ _ _ => trivial,fun _ _ => ⟨trivial,trivial⟩,
      fun _ _ => ⟨trivial,fun _ _ => trivial⟩,fun _ _ _ _ => ⟨id,fun _ _ => trivial⟩⟩

end Passes

section Lasting
variable {index : Index} {op : KubeOp} {r : KubeReply op} {w w' : Site}

/-- Permissions that have been there are there. -/
def Lasting (w : Site) : Prop :=
  ∀ k ns, rbacKind k → Had w k ns → (objectAt w.archive.server ⟨k,ns,routerName⟩).isSome

theorem handles_present {c c' : Cluster} {ref : Ref} (rbac : rbacKind ref.kind) (spares : Spares op)
    (handled : Handles index c op r c') (present : (objectAt c ref).isSome) : (objectAt c' ref).isSome := by
  have put : ∀ {k : Kind} (o : Object k), (objectAt (c.put k o) ref).isSome := by
    intro k o
    by_cases here : ref = refOf k o
    · subst here
      rw [put_at rfl]
      rfl
    · rwa [put_at_other here]
  have removed : ∀ {k : Kind} {ns name : String}, ¬ rbacKind k → (objectAt (c.remove k ns name) ref).isSome := by
    intro k ns name other
    rwa [remove_at_other]
    rintro rfl
    exact other rbac
  cases handles_cases handled with
  | got | listed | refused => exact present
  | created | updated | statusUpdated | patched => exact put _
  | deleted => exact removed spares
  | @released k o stored _ _ gone =>
    refine removed (fun kind => ?_)
    cases k <;> first | cases gone | cases kind

private theorem acts_lasting (lasting : Lasting w) (spares : Spares op) (acts : Acts index op w.archive r w'.archive) :
    Lasting w' := by
  have recorded : ∀ {r' : KubeReply op}, Handles index w.archive.server op r' w'.archive.server →
      Recorded w.archive w'.archive → Lasting w' := by
    rintro r' handled recorded k ns rbac ⟨o,is⟩
    have still : Had w k ns → (objectAt w'.archive.server ⟨k,ns,routerName⟩).isSome :=
      fun had => @handles_present index op r' _ _ ⟨k,ns,routerName⟩ rbac spares handled (lasting k ns rbac had)
    rcases recorded ⟨k,ns,routerName⟩ with same | same
    · exact still ⟨o,same ▸ is⟩
    · rw [same] at is
      rcases List.mem_cons.mp is with new | old
      · rw [← new]
        rfl
      · exact still ⟨o,old⟩
  obtain ⟨archive',_⟩ := w'
  cases acts with
  | cached | failed => exact lasting
  | unheard _ handled kept => exact recorded handled kept
  | served handled kept => exact recorded handled kept

private theorem others_lasting (lasting : Lasting w) (moved : Others w w') : Lasting w' := by
  rintro k ns rbac ⟨o,is⟩
  have head := w'.archive.current ⟨k,ns,routerName⟩
  rcases moved ⟨k,ns,routerName⟩ with same | ⟨new,same,kept,_⟩
  · rw [same,w.archive.current] at head
    rw [← Option.some.inj head]
    exact lasting k ns rbac ⟨o,same ▸ is⟩
  · rw [same,List.head?_cons] at head
    rw [← Option.some.inj head]
    exact Option.isSome_iff_ne_none.mpr (kept rbac rfl)

end Lasting

/-! ### Runs -/

section Runs
variable {ι : Type} [DecidableEq ι] {p : Platform} {index : Index}

/-- Any number of replicas of the controllers, users and other controllers. -/
def site (ι : Type) (p : Platform) (index : Index) : System KubeOp KubeReply ι Site Outcome :=
  Records.system index Others (fun _ => Pass p)

def Site.fresh : Site := ⟨.fresh,()⟩

variable {c d : Config KubeOp KubeReply ι Site Outcome} (initial : c.shared = Site.fresh)
  (resting : ∀ i, ∃ outcome, c.prog i = .ret outcome) (run : Reach (site ι p index) (fun _ => True) c d)
include initial resting run

theorem site_good : Holds (Good d.shared) d.shared.archive := by
  refine reach_holds (fun _ _ => True) (fun _ => trivial) (fun _ _ _ _ _ => trivial)
    (fun _ _ k o later good => good_later k o later good) (fun _ _ holds moved => others_good holds moved)
    (fun _ pass is w holds => pass_sees is holds) ?_ resting run
  rw [initial]
  intro ref o is
  cases List.mem_singleton.mp is

private theorem site_lasting : Lasting d.shared := by
  refine reach_within (I := Lasting) (P := fun _ => Spares)
    (fun _ _ lasting moved => others_lasting lasting moved) ?_ (fun _ _ _ is => pass_spares is) ?_ (fun i => ?_) run
  · exact fun i op w r w' lasting spares acts => ⟨acts_lasting lasting spares acts.1,trivial⟩
  · rw [initial]
    rintro k ns _ ⟨o,is⟩
    cases List.mem_singleton.mp is
  · obtain ⟨outcome,rest⟩ := resting i
    rw [rest]
    trivial

end Runs

/-- Every router that runs under the shared service account has its permissions: where such a deployment is stored,
    the role, the service account and the role binding are stored beside it. -/
theorem router_has_permissions {ι : Type} [DecidableEq ι] (p : Platform) (index : Index)
    (c d : Config KubeOp KubeReply ι Site Outcome) (initial : c.shared = Site.fresh)
    (resting : ∀ i, ∃ outcome, c.prog i = .ret outcome) (run : Reach (site ι p index) (fun _ => True) c d)
    (ns name : String) (deploy : Deployment)
    (stored : objectAt d.shared.archive.server ⟨.deployment,ns,name⟩ = some deploy)
    (runs : deploy.template.serviceAccountName = routerName) (k : Kind) (rbac : rbacKind k) :
    (objectAt d.shared.archive.server ⟨k,ns,routerName⟩).isSome := by
  have good := site_good initial resting run
  have place : deploy.namespace_.val = ns := (Prod.mk.inj (d.shared.archive.server.keyed stored)).1
  have bound : Had d.shared .roleBinding ns :=
    place ▸ good ⟨.deployment,ns,name⟩ deploy (stored ▸ current_mem d.shared.archive _) runs
  obtain ⟨binding,is⟩ := bound
  have bound_place : (binding.namespace_.val,binding.name) = (ns,routerName) := past_key (k := .roleBinding) is
  have granted := good ⟨.roleBinding,ns,routerName⟩ binding is (Prod.mk.inj bound_place).2
  rw [(Prod.mk.inj bound_place).1] at granted
  refine site_lasting initial resting run k ns rbac ?_
  cases k with
  | role => exact granted.1
  | serviceAccount => exact granted.2
  | roleBinding => exact ⟨binding,is⟩
  | _ => cases rbac

/-! #### A router for the application `llm` -/

section Sample

/-- One replica runs the controllers. -/
abbrev Crew (w : Site) : Prop :=
  Settles (site Unit host (fun _ _ => [])) (fun _ => True) ⟨.fresh,fun _ => .ret (.done .empty)⟩ w

theorem crew_write {a : Archive} {k : Kind} {o : Object k} (crew : Crew ⟨a,()⟩)
    (asks : Asks k (objectAt a.server (refOf k o)) o) : Crew ⟨a.write k o,()⟩ := by
  refine settles_env crew (fun ref => ?_) (fun _ _ => trivial)
  by_cases here : refOf k o = ref
  · subst here
    have new : objectAt (a.server.put k o) (refOf k o) = some o := put_at rfl
    refine .inr ⟨some o,(if_pos rfl).trans (congrArg (· :: a.past (refOf k o)) new),(fun _ _ wrong => by cases wrong),?_⟩
    rintro _ ⟨⟩
    exact asks
  · exact .inl (if_neg (by simpa using here))

private theorem crew_ran {a : Archive} {pass : KubeAction Outcome} (crew : Crew ⟨a,()⟩) (is : Pass host pass) : Crew
    ⟨ran pass a,()⟩ :=
  settles_pass (i := ()) crew is

/-- The model is ready, and a pass starts the application. -/
def llmStarted : Archive :=
  ran ((arksDisaggregatedApplicationReconciler host).reconcileRequest "team-a" "llm")
    ((Archive.fresh.write .model claimedModel).write .disaggregated { newDisaggregated with finalizers := llmMeta.finalizers })

private theorem llm_unnamed : Unnamed newDisaggregated := by
  unfold Unnamed
  decide

private theorem crew_started : Crew ⟨llmStarted,()⟩ :=
  crew_ran (crew_write (crew_write ⟨_,fun _ => ⟨_,rfl⟩,.refl trivial⟩ trivial) llm_unnamed) (.disaggregated _ _)

/-- Its router has a role binding. -/
theorem router_has_permissions_llm : (∃ deploy : Deployment, objectAt llmStarted.server ⟨.deployment,"team-a","llm-router"⟩ =
      some deploy ∧ deploy.template.serviceAccountName = routerName) ∧
    (objectAt llmStarted.server ⟨.roleBinding,"team-a",routerName⟩).isSome := by
  have there : (objectAt llmStarted.server ⟨.deployment,"team-a","llm-router"⟩).map
      (fun deploy : Deployment => deploy.template.serviceAccountName) = some routerName := by decide +kernel
  obtain ⟨deploy,stored,runs⟩ := Option.map_eq_some_iff.mp there
  obtain ⟨prog,_,run⟩ := crew_started
  exact ⟨⟨deploy,stored,runs⟩,router_has_permissions host _ _ ⟨_,prog⟩ rfl (fun _ => ⟨_,rfl⟩) run "team-a" "llm-router" deploy
    stored runs .roleBinding trivial⟩

end Sample

end Arks.Permissions
