import Arks.Orphans
import Arks.RouteBounds

/-!
Which applications are routed. `reconcile` takes an application for ready when it has as
many ready replicas as its specification asks for. The leader worker set counts them, and
the reconciler of the application copies the count to the status. In every state that is
reached no count is negative, so a routed application has a ready replica unless it asks for
none. One that asks for none, which is what an omitted number means, is routed while it has
none.
-/
namespace Arks.ServingRoutes
open Programs Programs.Prog Api Kube Controllers Workloads Applications
open Passes Finalizers
  Endpoints Discovery EndpointEvents RouteBounds

/-! ### Counts -/

/-- The ready replicas that an object reports are not negative. -/
def Counted : (k : Kind) → Object k → Prop
  | .application,app => 0 ≤ app.status.readyReplicas
  | .lws,lws => 0 ≤ lws.status.readyReplicas
  | _,_ => True

/-- Every object of the cluster is counted. -/
def AllCounted (c : Cluster) : Prop := ∀ ref o, objectAt c ref = some o → Counted ref.kind o

/-- Every version of every object is counted, those that the caches still have to see included. -/
def VersionsCounted (w : World) : Prop := ∀ ref o, some o ∈ w.feed ref → Counted ref.kind o

/-- What a call sends is counted where the server takes the status over. -/
def Sends : KubeOp → Prop
  | .create k o => Counted k o
  | .updateStatus k o => Counted k o
  | _ => True

/-- What a call gets is counted. -/
def Answers : (op : KubeOp) → KubeReply op → Prop
  | .get k _ _,.ok o => Counted k o
  | .update k _,.ok o => Counted k o
  | _,_ => True

section Server
variable {index : Index} {c c' : Cluster} {k : Kind} {n : Nat} {stored sent : Object k}

theorem counted_updated (counted : Counted k stored) : Counted k (updated n k stored sent) := by
  cases k <;> exact counted

private theorem counted_statusUpdated (counted : Counted k stored) (counted' : Counted k sent) :
    Counted k (statusUpdated n k stored sent) := by
  cases k <;> first | exact counted' | exact counted

theorem put_counted (all : AllCounted c) (counted : Counted k sent) : AllCounted (c.put k sent) := by
  intro ref o is
  by_cases here : ref = refOf k sent
  · subst here
    rw [put_at rfl] at is
    cases is
    exact counted
  · rw [put_at_other here] at is
    exact all ref o is

theorem remove_counted {ns name : String} (all : AllCounted c) : AllCounted (c.remove k ns name) := by
  intro ref o is
  by_cases here : ref = ⟨k,ns,name⟩
  · subst here
    rw [remove_at] at is
    cases is
  · rw [remove_at_other here] at is
    exact all ref o is

/-- The server keeps its objects counted, and hands out counted ones. -/
theorem handles_counted {op : KubeOp} {r : KubeReply op} (all : AllCounted c) (sends : Sends op)
    (handled : Handles index c op r c') :
    AllCounted c' ∧ Answers op r := by
  cases handles_cases handled with
  | @got k ns name r found =>
    refine ⟨all,?_⟩
    cases r with
    | error e => trivial
    | ok o => exact all ⟨k,ns,name⟩ o (found_ok.mp found)
  | listed => exact ⟨all,trivial⟩
  | @refused op => cases op <;> exact ⟨all,trivial⟩
  | created => exact ⟨put_counted all sends,trivial⟩
  | @updated k o stored present =>
    have counted : Counted k (updated (c.revision + 1) k stored o) := counted_updated (all (refOf k o) stored present)
    exact ⟨put_counted all counted,counted⟩
  | @released k o stored present => exact ⟨remove_counted all,counted_updated (all (refOf k o) stored present)⟩
  | @statusUpdated k o stored present =>
    exact ⟨put_counted all (counted_statusUpdated (all (refOf k o) stored present) sends),trivial⟩
  | @patched k o stored present => exact ⟨put_counted all (counted_updated (all (refOf k o) stored present)),trivial⟩
  | deleted => exact ⟨remove_counted all,trivial⟩

end Server

/-! ### The world of the reconcilers -/

/-- Models are read as they come: they have no counts. -/
def guesses (op : KubeOp) : Prop := ∃ ns name, op = .get .model ns name

/-- What caches, users and the controller of the leader worker sets do. Only the reconcilers write the status
    of an application, so that others leave it as it was, or empty in one that is new; and nobody counts below zero. -/
inductive Moves : World → World → Prop
  | caught {w w' : World} : w'.server = w.server → (∀ ref, w'.feed ref <:+ w.feed ref) → Moves w w'
  | written {w w' : World} : Logged w w' →
      (∀ ns name app, w'.server.objects .application ns name = some app →
        app.status = default ∨ ∃ before, w.server.objects .application ns name = some before ∧ app.status = before.status) →
      (∀ ns name lws, w'.server.objects .lws ns name = some lws → 0 ≤ lws.status.readyReplicas) → Moves w w'

/-- The controllers of both kinds of applications, behind their caches. -/
def controllers (p : Platform) : System KubeOp KubeReply Ref World Outcome where
  act i := Acts indexes Orphans.lags guesses i
  env := Moves
  start i _ pass := Orphans.Pass p i pass

section World
variable {w w' : World}

theorem versionsCounted_logged (all : VersionsCounted w) (logged : Logged w w') (counted : AllCounted w'.server) :
    VersionsCounted w' := by
  intro ref o is
  rcases logged_mem logged is with old | new
  · exact all ref o old
  · exact counted ref o new

theorem allCounted (all : VersionsCounted w) : AllCounted w.server := by
  intro ref o is
  exact all ref o (is ▸ w.current_mem ref)

private theorem moves_counted (all : VersionsCounted w) (moved : Moves w w') : VersionsCounted w' := by
  cases moved with
  | caught _ feed => exact fun ref o is => all ref o ((feed ref).mem is)
  | written logged applications workloads =>
    refine versionsCounted_logged all logged (fun ref o is => ?_)
    obtain ⟨kind,ns,name⟩ := ref
    cases kind with
    | application =>
      rcases applications ns name o is with empty | ⟨before,stored,same⟩
      · exact le_of_eq (by rw [empty]; rfl)
      · have counted : 0 ≤ before.status.readyReplicas := allCounted all ⟨.application,ns,name⟩ before stored
        rwa [← same] at counted
    | lws => exact workloads ns name o is
    | _ => trivial

private theorem acts_counted {i : Ref} {op : KubeOp} {r : KubeReply op} (all : VersionsCounted w) (sends : Sends op)
    (acts : Acts indexes Orphans.lags guesses i op w r w') : VersionsCounted w' ∧ Answers op r := by
  cases acts with
  | @cached k ns name _ r _ found =>
    refine ⟨all,?_⟩
    cases r with
    | error e => trivial
    | ok o => exact all ⟨k,ns,name⟩ o (Watched.seen_mem (found_ok.mp found))
  | guessed r guessed =>
    obtain ⟨ns,name,rfl⟩ := guessed
    refine ⟨all,?_⟩
    cases r <;> trivial
  | failed message =>
    refine ⟨all,?_⟩
    cases op <;> trivial
  | served _ handled logged _ =>
    obtain ⟨counted,answers⟩ := handles_counted (allCounted all) sends handled
    exact ⟨versionsCounted_logged all logged counted,answers⟩

end World

/-! ### The passes make up no count -/

section Plain
variable {p : Platform} {app : ArksApplication} {model : ArksModel}

private theorem afterWorkload_counted {what noun : String} {ensured : Ensured} (counted : Counted .application app) :
    Counted .application (applicationFields.afterWorkload app what noun ensured).object := by
  cases ensured <;> exact counted

private theorem startApplication_counted (counted : Counted .application app) :
    Within Answers Sends (fun flow => Counted .application flow.object) (startApplication p app model) := by
  refine within_bind (ensure_within trivial (fun lws generated => ?_)) (fun ensured _ => ?_)
  · simp only [generateLws,generated_bind,generated_pure] at generated
    obtain ⟨_,_,_,_,_,_,_,_,rfl⟩ := generated
    exact le_refl _
  · have after := @afterWorkload_counted app "" "LWS" ensured counted
    cases goes : applicationFields.afterWorkload app "" "LWS" ensured with
    | stop app₁ outcome =>
      rw [goes] at after
      exact after
    | next app₁ =>
      rw [goes] at after
      refine within_bind (ensure_within trivial (fun _ _ => trivial)) (fun service _ => ?_)
      cases service <;> exact after

/-- The count of the leader worker set becomes that of the application. -/
theorem syncApplication_counted (counted : Counted .application app) :
    Within Answers Sends (fun result => Counted .application result.1) (syncApplication app) := by
  simp only [syncApplication,issue_bind,within_call]
  refine ⟨trivial,fun read answers => ?_⟩
  rcases read with (message | message | message) | lws
  · exact counted
  · exact counted
  · exact counted
  · exact answers

theorem plain_stays (p : Platform) : Stays (arksApplicationReconciler p) Answers Sends (Counted .application)
    (Counted .application) where
  rests _ counted := counted
  revised _ _ counted := counted
  defaulted _ counted := counted
  added _ _ counted := counted
  removed _ _ counted := counted
  read _ _ := trivial
  update _ _ := trivial
  updated _ _ _ answers := answers
  status _ counted := counted
  start _ _ counted := startApplication_counted counted
  sync _ counted := syncApplication_counted counted
  children _ _ _ _ := trivial

end Plain

section Disaggregated
open Workloads.Disaggregated (Role generateDisaggregatedLws)
open Applications.Disaggregated
variable {p : Platform} {app : ArksDisaggregatedApplication} {model : ArksModel}

private theorem startWorkload_counted (role : Role) : Within Answers Sends (fun _ => True) (startWorkload p role app model) := by
  refine within_bind (ensure_within trivial (fun lws generated => ?_)) (fun _ _ => trivial)
  obtain ⟨made,built,named⟩ := generated_bind.mp generated
  cases generated_pure.mp named
  simp only [generateDisaggregatedLws,generated_bind,generated_pure] at built
  obtain ⟨_,_,_,_,_,_,_,_,_,_,rfl⟩ := built
  exact le_refl _

private theorem startRouter_counted : Within Answers Sends (fun _ => True) (startRouter p app) := by
  refine within_bind (ensure_within trivial ?_) (fun _ _ => trivial)
  have permits : Within Answers Sends (fun _ => True) (Workloads.Disaggregated.generateRouterDeployment p app) := by
    refine within_any (generateRouterDeployment_within p app (fun _ _ _ _ => trivial) (fun k o rbac => ?_))
    cases k <;> first | cases rbac; done | trivial
  exact within_bind permits (fun _ _ _ _ => trivial)

private theorem start_counted : Within Answers Sends (fun _ => True) (start p app model) :=
  start_stages (Q := fun _ => True) trivial (fun role _ _ => startWorkload_counted role) (fun _ _ => startRouter_counted)
    (fun _ _ => within_bind (ensure_within trivial (fun _ _ => trivial)) (fun _ _ => trivial))

/-- Replicas are written over by `update`, which keeps the stored counts. -/
theorem sync_counted : Within Answers Sends (fun _ => True) (sync app) := by
  refine sync_stages (Q := fun _ => True) trivial (fun _ _ _ => trivial) (fun role app _ => ?_) (fun app _ => ?_)
  · simp only [syncWorkload,issue_bind,within_call]
    refine ⟨trivial,fun read _ => ?_⟩
    rcases read with (_ | _ | _) | lws <;> try trivial
    simp only
    split
    · exact ⟨trivial,fun _ _ => trivial⟩
    · trivial
  · simp only [syncRouter,issue_bind,within_call]
    refine ⟨trivial,fun read _ => ?_⟩
    rcases read with (_ | _ | _) | deployment <;> try trivial
    simp only
    split
    · exact ⟨trivial,fun written _ => by cases written <;> trivial⟩
    · trivial

theorem disaggregated_stays (p : Platform) : Stays (arksDisaggregatedApplicationReconciler p) Answers Sends (fun _ => True)
    (fun _ => True) where
  rests _ _ := trivial
  revised _ _ _ := trivial
  defaulted _ _ := trivial
  added _ _ _ := trivial
  removed _ _ _ := trivial
  read _ _ := trivial
  update _ _ := trivial
  updated _ _ _ _ := trivial
  status _ _ := trivial
  start _ _ _ := start_counted
  sync _ _ := sync_counted
  children _ _ _ _ := trivial

end Disaggregated

/-- In every state that is reached no count is negative. -/
theorem reach_counted {p : Platform} {c d : Config KubeOp KubeReply Ref World Outcome} (initial : c.shared = World.fresh)
    (resting : ∀ i, ∃ outcome, c.prog i = .ret outcome) (run : Reach (controllers p) (fun _ => True) c d) :
    VersionsCounted d.shared := by
  refine reach_within (I := VersionsCounted) (P := fun _ => Sends) (fun w w' => moves_counted)
    (fun i op w r w' all sends acts => acts_counted all sends acts) ?_ ?_ ?_ run
  · intro i l pass begins
    cases begins with
    | plain => exact Passes.request_stays (plain_stays p) trivial (fun _ answers => answers)
    | disaggregated => exact Passes.request_stays (disaggregated_stays p) trivial (fun _ _ => trivial)
  · rw [initial]
    intro ref o is
    simp [World.fresh] at is
  · intro i
    obtain ⟨outcome,rests⟩ := resting i
    rw [rests]
    trivial

/-! ### The routes -/

/-- The application has a ready replica of every part. -/
def HasReady : Application → Prop
  | .plain app => 1 ≤ app.status.readyReplicas
  | .disaggregated app =>
    1 ≤ app.status.router.readyReplicas ∧ 1 ≤ app.status.prefill.readyReplicas ∧ 1 ≤ app.status.decode.readyReplicas

/-- A pass over the endpoint lists the application. -/
def Lists (c : Cluster) (ep : ArksEndpoint) : Application → Prop
  | .plain app => ∃ apps, ListedFor c ep apps ∧ app ∈ apps
  | .disaggregated app => ∃ apps, Listed indexes c .disaggregated ep.namespace_ ep.name apps ∧ app ∈ apps

/-- The backends that a call writes. -/
def Backends (backends : List HTTPBackendRef) : KubeOp → Prop
  | .create .httpRoute route => ∃ rule ∈ route.spec.rules, rule.backendRefs = backends
  | .patch .httpRoute route => ∃ rule ∈ route.spec.rules, rule.backendRefs = backends
  | .updateStatus .endpoint sent => sent.routes = backends
  | _ => False

/-- Every backend that the passes over the endpoint write behind the static ones is the service of a listed
    application that has ready replicas. -/
def OnlyServing (c : Cluster) (ep : ArksEndpoint) : Prop :=
  ∀ calls r c', Runs (reconcile ep) calls r → Plays (Serves indexes (fun _ => True)) calls c c' →
    ∀ call ∈ calls, ∀ backends, Backends backends call.1 → ∃ dynamic, backends = ep.spec.routeConfigs ++ dynamic ∧
      ∀ backend ∈ dynamic, ∃ app, Lists c ep app ∧ backend = backendRef ep (serviceName app) ∧ HasReady app

/-- The application serves the endpoint, asks for no replicas and has none that is ready. -/
structure Idle (c : Cluster) (ep : ArksEndpoint) (app : ArksApplication) : Prop where
  stored : Stored c (.plain app)
  serving : Serving ep (.plain app)
  dynamic : inStaticRoutes ep (getApplicationServiceName app.name) = false
  unasked : app.spec.replicas = 0
  unready : app.status.readyReplicas = 0

section Routes
variable {c : Cluster} {ep : ArksEndpoint} {apps : List ArksApplication}

private theorem backends_written {backends written : List HTTPBackendRef} {op : KubeOp} (writes : Writes ep written op)
    (carries : Backends backends op) : backends = written := by
  cases op with
  | create k o | patch k o =>
    cases k with
    | httpRoute =>
      obtain ⟨rule,is,rfl⟩ := carries
      have spec : o.spec = routeSpec ep written := writes
      rw [spec] at is
      cases List.mem_singleton.mp is
      rfl
    | _ => exact carries.elim
  | updateStatus k o =>
    cases k with
    | endpoint =>
      have sent : o.routes = written := writes
      exact carries.symm.trans sent
    | _ => exact carries.elim
  | _ => exact carries.elim

private theorem listed_unique {apps' : List ArksApplication} (listed : ListedFor c ep apps)
    (listed' : ListedFor c ep apps') (app : ArksApplication) : app ∈ apps' ↔ app ∈ apps :=
  (listed'.2 app).trans (listed.2 app).symm

theorem lists_plain (listed : ListedFor c ep apps) (app : Application) :
    Lists c ep app ↔ ∃ app' ∈ apps, app = .plain app' := by
  cases app with
  | plain app =>
    constructor
    · rintro ⟨apps',listed',is⟩
      exact ⟨app,(listed_unique listed listed' app).mp is,rfl⟩
    · rintro ⟨app',is,same⟩
      cases same
      exact ⟨apps,listed,is⟩
  | disaggregated app =>
    constructor
    · rintro ⟨apps',listed',is⟩
      rw [listed_disaggregated listed'] at is
      simp at is
    · rintro ⟨app',_,same⟩
      cases same

/-- Listed applications of one service are the same. -/
theorem listed_service (listed : ListedFor c ep apps) {a b : ArksApplication} (is : a ∈ apps)
    (is' : b ∈ apps) (same : getApplicationServiceName a.name = getApplicationServiceName b.name) : a = b := by
  have stored := ((listed.2 a).mp is).1
  have stored' := ((listed.2 b).mp is').1
  have spaces := ((listed.2 a).mp is).2.1
  have spaces' := ((listed.2 b).mp is').2.1
  have place : key .application a = key .application b := Prod.ext (spaces.trans spaces'.symm) (serviceName_inj.mp same)
  rw [Cluster.stored,place,← Cluster.stored,stored'] at stored
  exact (Option.some.inj stored).symm

/-- The passes route only applications with ready replicas exactly when those that the lists discover have some. -/
theorem onlyServing_iff : OnlyServing c ep ↔
    ∀ apps, ListedFor c ep apps → ∀ app ∈ discovered ep apps, HasReady app := by
  constructor
  · intro only apps listed app is
    obtain ⟨calls,r,c',route,run,played,spec,⟨op,reply⟩,member,same⟩ := exists_write listed
    have carries : Backends (backendRefs ep apps []) op := by
      rcases same with rfl | rfl <;> exact ⟨⟨ruleMatch ep,backendRefs ep apps []⟩,by rw [spec]; exact List.mem_singleton_self _,
        rfl⟩
    obtain ⟨dynamic,split,serving⟩ := only calls r c' run played _ member _ carries
    rw [backendRefs_discovered] at split
    cases List.append_cancel_left split
    obtain ⟨app',lists,service,ready⟩ := serving _ (List.mem_map_of_mem is)
    obtain ⟨b,is_b,rfl⟩ := (lists_plain listed app').mp lists
    obtain ⟨a,is_a,rfl⟩ := List.mem_map.mp is
    have name : getApplicationServiceName a.name = getApplicationServiceName b.name := congrArg HTTPBackendRef.name service
    cases listed_service listed (List.mem_of_mem_filter is_a) is_b name
    exact ready
  · intro ready calls r c' run played call is backends carries
    obtain ⟨apps,listed,writes⟩ := reconcile_writes run played
    refine ⟨(discovered ep apps).map (fun app => backendRef ep (serviceName app)),?_,fun backend member => ?_⟩
    · rw [← backendRefs_discovered]
      exact backends_written (writes call is) carries
    · obtain ⟨app,found,rfl⟩ := List.mem_map.mp member
      refine ⟨app,(lists_plain listed app).mpr ?_,rfl,ready apps listed app found⟩
      obtain ⟨a,is_a,rfl⟩ := List.mem_map.mp found
      exact ⟨a,List.mem_of_mem_filter is_a,rfl⟩

/-- Where the counts are not negative, only an idle application is routed without a ready replica. -/
theorem onlyServing_counted (counted : AllCounted c) : OnlyServing c ep ↔ ∀ app, ¬ Idle c ep app := by
  rw [onlyServing_iff]
  constructor
  · intro ready app idle
    obtain ⟨apps,listed⟩ := exists_listed indexes c .application ep.namespace_ ep.name
    have tested : applicationReady app = true := by simp [applicationReady,idle.unasked,idle.unready]
    have has : 1 ≤ app.status.readyReplicas :=
      ready apps listed _ ((mem_discovered listed app).mpr ⟨idle.stored,idle.serving,tested,idle.dynamic⟩)
    rw [idle.unready] at has
    omega
  · intro busy apps listed app is
    obtain ⟨a,_,rfl⟩ := List.mem_map.mp is
    obtain ⟨stored,serving,tested,dynamic⟩ := (mem_discovered listed a).mp is
    have equal : a.spec.replicas = a.status.readyReplicas := by simpa [ready,applicationReady] using tested
    have low : 0 ≤ a.status.readyReplicas := counted (refOf .application a) a stored
    by_cases zero : a.status.readyReplicas = 0
    · exact absurd ⟨stored,serving,dynamic,equal.trans zero,zero⟩ (busy a)
    · show 1 ≤ a.status.readyReplicas
      omega

end Routes

/-- In every state that the reconcilers reach, the passes over an endpoint route only applications with ready
    replicas exactly when no idle application serves it. -/
theorem serving_routed_iff (p : Platform) (c d : Config KubeOp KubeReply Ref World Outcome) (initial : c.shared = World.fresh)
    (resting : ∀ i, ∃ outcome, c.prog i = .ret outcome) (run : Reach (controllers p) (fun _ => True) c d) (ep : ArksEndpoint) :
    OnlyServing d.shared.server ep ↔ ∀ app, ¬ Idle d.shared.server ep app :=
  onlyServing_counted (allCounted (reach_counted initial resting run))

/-- The application `llm` as a user creates it, with some number of replicas. -/
def llmAsked (replicas : Int) : ArksApplication :=
  { llmPlain ⟨none,[]⟩ with finalizers := [],spec := { (llmPlain ⟨none,[]⟩).spec with replicas := replicas } }

/-- The world behind its creation. -/
def asked (replicas : Int) : World := World.fresh.write .application (llmAsked replicas)

private theorem asked_objects {replicas : Int} {ns name : String} {app : ArksApplication}
    (stored : (asked replicas).server.objects .application ns name = some app) : app = llmAsked replicas := by
  rw [show (asked replicas).server = Cluster.empty.put .application (llmAsked replicas) from rfl,Cluster.put_objects] at stored
  split at stored
  · exact (Option.some.inj stored).symm
  · cases stored

private theorem asked_moves (replicas : Int) : Moves World.fresh (asked replicas) := by
  refine .written (logged_of (some (refOf .application (llmAsked replicas))) (fun _ => rfl)) ?_ ?_
  · intro ns name app stored
    rw [asked_objects stored]
    exact .inl rfl
  · intro ns name lws stored
    rw [show (asked replicas).server = Cluster.empty.put .application (llmAsked replicas) from rfl,
      Cluster.put_other _ (by decide)] at stored
    cases stored

theorem asked_reached (p : Platform) (replicas : Int) : Reach (controllers p) (fun _ => True)
    ⟨World.fresh,fun _ => .ret (.done .empty)⟩ ⟨asked replicas,fun _ => .ret (.done .empty)⟩ :=
  .step (.refl trivial) (.env (asked_moves replicas)) trivial

/-- The caches catch up, and a pass goes over `llm`. -/
def passed (w : World) : World := Orphans.passed (w.catchUp (fun _ => true))

/-- The controller of the leader worker sets counts a ready replica of `llm`. -/
def replicaReady (w : World) : World :=
  match w.server.objects .lws "team-a" "llm" with
  | some lws => w.write .lws { lws with status := { lws.status with readyReplicas := 1 } }
  | none => w

/-- The first pass puts the finalizer on, the second one creates the children, and the third one copies the count. -/
def served : World := passed (replicaReady (passed (passed (asked 1))))

/-- The next call writes no application but `llm`. -/
private def aside (p : KubeAction Outcome) (_ : World) : Bool :=
  match p with
  | .call op _ => (target op).all (fun ref => ref.kind ≠ .application ∨ ref = ⟨.application,"team-a","llm"⟩)
  | .ret _ => true

/-- A run leads to the world, and there is no application in it but `llm`. -/
private def Lone (w : World) : Prop :=
  Settles (controllers ⟨fun _ => "",id⟩) (fun _ => True) ⟨World.fresh,fun _ => .ret (.done .empty)⟩ w ∧
    ∀ ns name, (ns,name) ≠ ("team-a","llm") → w.server.objects .application ns name = none

private theorem asked_lone : Lone (asked 1) := by
  refine ⟨⟨_,fun _ => ⟨_,rfl⟩,asked_reached _ 1⟩,fun ns name other => ?_⟩
  exact (Cluster.put_objects ..).trans (if_neg (fun same => other (Prod.ext same.1 same.2)))

private theorem passed_lone {w : World} (lone : Lone w)
    (tested : always Orphans.perform aside Orphans.pass (w.catchUp (fun _ => true)) = true) : Lone (passed w) := by
  refine ⟨settles_exec (settles_env lone.1 (.caught rfl (w.catchUp_feed _)) (fun _ _ => trivial))
    (World.perform_acts (fun k => by simp [Orphans.lags]) ?_) (fun _ => .plain "team-a" "llm")
    (fun _ _ _ _ _ => trivial) (always_true _ _),fun ns name other => ?_⟩
  · intro op guess
    split at guess
    · exact ⟨_,_,rfl⟩
    · cases guess
  · refine (exec_keeps (f := fun w : World => w.server.objects .application ns name) (fun op next w tested => ?_) tested).trans
      (lone.2 ns name other)
    exact World.perform_aside w ⟨.application,ns,name⟩ (fun same => other (by simpa [aside,same] using tested))

private theorem ready_lone {w : World} (lone : Lone w) : Lone (replicaReady w) := by
  unfold replicaReady
  split
  · rename_i lws _
    obtain ⟨⟨prog,resting,run⟩,alone⟩ := lone
    let counted : LeaderWorkerSet := { lws with status := { lws.status with readyReplicas := 1 } }
    have all := put_counted (allCounted (reach_counted rfl (fun _ => ⟨_,rfl⟩) run)) (show Counted .lws counted from Int.one_nonneg)
    have kept : (w.write .lws counted).server.objects .application = w.server.objects .application :=
      Cluster.put_other (k := .lws) counted (by decide)
    refine ⟨settles_env ⟨prog,resting,run⟩ (.written (logged_of (some (refOf .lws counted)) (fun _ => rfl)) ?_
      (fun ns name o stored => all ⟨.lws,ns,name⟩ o stored)) (fun _ _ => trivial),fun ns name other => ?_⟩
    · exact fun ns name app stored => .inr ⟨app,by rw [← kept]; exact stored,rfl⟩
    · exact (congrFun (congrFun kept ns) name).trans (alone ns name other)
  · exact lone

/-- `llm` is routed with its ready replica, and nothing else is. -/
theorem serving_routed_iff_served : RoutedAt served.server chat "llm" ∧ OnlyServing served.server chat := by
  have stored : (served.server.objects .application "team-a" "llm").map (fun app : ArksApplication =>
      (app.spec.replicas,app.namespace_.val,servedName (.plain app),ready (.plain app),
        inStaticRoutes chat (serviceName (.plain app)))) = some (1,"team-a","chat",true,false) := by decide +kernel
  obtain ⟨app,present,facts⟩ := Option.map_eq_some_iff.mp stored
  simp only [Prod.mk.injEq] at facts
  obtain ⟨asks,ns,serves,isReady,dynamic⟩ := facts
  refine ⟨⟨app,present,⟨KubeName.ext ns,serves⟩,isReady,dynamic⟩,?_⟩
  obtain ⟨⟨prog,_,run⟩,alone⟩ : Lone served := passed_lone (ready_lone (passed_lone (passed_lone asked_lone (by decide +kernel))
    (by decide +kernel))) (by decide +kernel)
  refine (serving_routed_iff _ _ ⟨_,prog⟩ rfl (fun _ => ⟨_,rfl⟩) run chat).mpr (fun other idle => ?_)
  have found : served.server.objects .application other.namespace_ other.name = some other := idle.stored
  by_cases same : (other.namespace_.val,other.name.val) = ("team-a","llm")
  · rw [(Prod.mk.inj same).1,(Prod.mk.inj same).2,present] at found
    cases found
    exact absurd (asks.symm.trans idle.unasked) (by decide)
  · cases (alone _ _ same).symm.trans found

/-- An application whose replicas are omitted is routed as soon as it exists, with nothing behind its service. -/
theorem unserved_routed : Reach (controllers ⟨fun _ => "",id⟩) (fun _ => True) ⟨World.fresh,fun _ => .ret (.done .empty)⟩
      ⟨asked 0,fun _ => .ret (.done .empty)⟩ ∧ ¬ OnlyServing (asked 0).server chat := by
  refine ⟨asked_reached _ 0,fun only => ?_⟩
  obtain ⟨apps,listed⟩ := exists_listed indexes (asked 0).server .application chat.namespace_ chat.name
  have routes : Routed chat (.plain (llmAsked 0)) := ⟨⟨rfl,rfl⟩,rfl,by decide⟩
  have ready : 1 ≤ (llmAsked 0).status.readyReplicas :=
    onlyServing_iff.mp only apps listed _ ((mem_discovered listed _).mpr ⟨Cluster.put_stored _,routes⟩)
  exact absurd ready (by decide)

end Arks.ServingRoutes
