import Arks.Finalizers
import Arks.Endpoints

/-!
The routes of the endpoints. The controller puts a finalizer on an endpoint before it
creates the route, and takes it off when the endpoint is deleted. Whether there is a
route to delete it asks its cache. A cache that has not seen the route yet makes it drop
the finalizer and leave the route behind; as long as the routes of the deleted endpoints
have been seen, none is left.
-/
namespace Arks.OrphanRoutes
open Programs Programs.Prog Api Kube Controllers Endpoints Finalizers

def finalizerOf : Kind → Option String
  | .endpoint => some arksEndpointControllerFinalizer
  | _ => none

/-- The route of an endpoint has its name. -/
def family : Ref → List Ref
  | ⟨.endpoint,ns,name⟩ => [⟨.httpRoute,ns,name⟩]
  | _ => []

def guards : Guards where
  finalizer := finalizerOf
  child k := k = .httpRoute
  family := family
  custom k f guard := by cases k <;> trivial
  apart k child := by rw [child]; rfl

/-- Endpoints and routes are read from caches, each of which lags on its own. -/
def lags (k : Kind) : Prop := k = .endpoint ∨ k = .httpRoute

/-- What is listed does not matter. -/
def guesses (op : KubeOp) : Prop := ∃ k ns selected, op = .list k ns selected

/-- The endpoint and its route, by their key. -/
def home (ep : ArksEndpoint) : Ref := ⟨.endpoint,ep.namespace_,ep.name⟩

@[inherit_doc home]
def routeOf (ep : ArksEndpoint) : Ref := ⟨.httpRoute,ep.namespace_,ep.name⟩

section Passes
variable {index : Index} {w w' : World} {i : Ref} {ep : ArksEndpoint} {gone : Ref → Prop}

/-- The route is written while the endpoint carries the finalizer. -/
theorem reconcile_works : Issues (Works guards (home ep)) (fun _ => True) (reconcile ep) := by
  have always : ∀ op, (∀ w, Allowed guards w (home ep) op) → (∀ o, op ≠ .update .endpoint o) → Works guards (home ep) op :=
    fun op may other => ⟨fun w _ => may w,fun o _ same => absurd same (other o)⟩
  refine reconcile_within ⟨always _ (fun _ => .list _ _ _) (by simp),always _ (fun _ => .list _ _ _) (by simp)⟩
    (always _ (fun _ => .get _ _ _) (by simp)) (fun _ => always _ (fun _ => .status _) (by simp))
    (fun _ _ _ _ => ⟨?_,fun _ _ => always _ (fun _ => .patch _ rfl) (by simp)⟩)
  exact ⟨fun w guarded => .create _ rfl (fun _ => ⟨List.mem_singleton_self _,guarded⟩),by simp⟩

/-- The endpoint without its finalizer. -/
def released (ep : ArksEndpoint) : ArksEndpoint :=
  { ep with toObjectMeta := removeFinalizer ep.toObjectMeta arksEndpointControllerFinalizer }

/-- The finalizer comes off when the route is gone. -/
theorem release_complies {next : KubeReply (.update .endpoint (released ep)) → KubeAction Outcome}
    (ends : ∀ reply, ∃ outcome, next reply = pure outcome)
    (leaving : Leaving guards w (home ep) (version (k := .endpoint) ep) gone) (left : gone (routeOf ep)) :
    Complies index lags guesses guards (home ep) (.call (.update .endpoint (released ep)) next) w := by
  intro w₁ moved
  have still := leaving_relies leaving moved
  have allowed : Allowed guards w₁ (home ep) (.update .endpoint (released ep)) := by
    refine leaving_parts (k := .endpoint) (o := released ep) still (fun ref member => ?_) rfl
    cases List.mem_singleton.mp member
    exact left
  refine ⟨allowed,fun reply w₂ acts => ?_⟩
  obtain ⟨outcome,same⟩ := ends reply
  rw [same]
  exact complies_ret (acts_kept acts still.kept allowed)

/-- Where a pass over an endpoint stands: it has not begun, it is about to handle a deletion, or nothing can go wrong any more. -/
inductive Stands (index : Index) (i : Ref) (w : World) : KubeAction Outcome → Prop
  | safe {p : KubeAction Outcome} : Complies index lags guesses guards i p w → Stands index i w p
  | begins {ns name : String} : i = ⟨.endpoint,ns,name⟩ → Kept guards w → Stands index i w (reconcileRequest ns name)
  | deletes (ep : ArksEndpoint) : i = home ep → Leaving guards w i (version (k := .endpoint) ep) (fun _ => False) →
      Stands index i w (handleDelete ep)

private theorem stands_relies {p : KubeAction Outcome} (stands : Stands index i w p)
    (moved : Relies guards i w w') : Stands index i w' p := by
  cases stands with
  | safe complies =>
    have trans : ∀ a b c : World, Relies guards i a b → Relies guards i b c → Relies guards i a c := fun _ _ _ => relies_trans
    exact .safe (guar_stable trans complies moved)
  | begins is kept => exact .begins is (moved.kept kept)
  | deletes ep is leaving => exact .deletes ep is (leaving_relies leaving moved)

/-- The pass goes on with what it read of the endpoint. -/
theorem read_stands {ns name : String} {reply : KubeReply (.get .endpoint ns name)} (kept : Kept guards w)
    (found : ∀ ep, reply = .ok ep → w.seen ⟨.endpoint,ns,name⟩ = some ep) :
    ∀ k, reconcileRequest ns name = .call (.get .endpoint ns name) k → Stands index ⟨.endpoint,ns,name⟩ w (k reply) := by
  intro k same
  simp only [Endpoints.reconcileRequest,issue_bind] at same
  cases same
  rcases reply with (_ | _ | _) | ep
  · exact .safe (complies_ret kept)
  · exact .safe (complies_ret kept)
  · exact .safe (complies_ret kept)
  have seen := found ep rfl
  have place : refOf .endpoint ep = ⟨.endpoint,ns,name⟩ := w.keyed (Watched.seen_mem seen)
  change ArksEndpoint at ep
  obtain ⟨rfl,rfl⟩ : ep.namespace_.val = ns ∧ ep.name.val = name := by simpa [refOf,key] using place
  simp only
  split
  · rename_i deleted
    exact .deletes ep rfl ⟨kept,rfl,spent_read kept seen rfl ⟨_,rfl,deleted⟩,fun _ _ wrong => wrong.elim⟩
  split
  · refine .safe (complies_mild ⟨fun w => .keep _ ?_ rfl ⟨_,rfl,?_⟩,fun reply _ => ?_⟩ kept)
    · simp only [refOf,key]
      unfold addFinalizer
      split <;> rfl
    · unfold addFinalizer
      split
      · rename_i has
        exact (hasFinalizer_iff ..).mp has
      · simp
    · cases reply <;> trivial
  · rename_i alive carried
    have guarded : Guarded guards w (home ep) :=
      guarded_read kept seen rfl ⟨_,rfl,(hasFinalizer_iff ..).mp (by simpa using carried)⟩
        (by rintro ⟨_,same,deleted⟩; cases same; exact alive deleted)
    refine .safe (guar_bind (relies_refl _) (complies_works reconcile_works kept guarded) (fun result w' kept' => ?_))
    cases result <;> exact complies_ret kept'

/-- The pass handles the deletion of the endpoint, with the reply to its read of the route. -/
theorem delete_stands {reply : KubeReply (.get .httpRoute ep.namespace_ ep.name)}
    (leaving : Leaving guards w (home ep) (version (k := .endpoint) ep) (fun _ => False))
    (found : ∀ route, reply = .ok route → w.seen (routeOf ep) = some route)
    (missed : ∀ message, reply = .error (.notFound message) → ¬ w.Owned (home ep) (routeOf ep)) :
    ∀ k, handleDelete ep = .call (.get .httpRoute ep.namespace_ ep.name) k →
      Complies index lags guesses guards (home ep) (k reply) w := by
  intro k same
  simp only [handleDelete,issue_bind] at same
  cases same
  have free : ∀ {w}, Leaving guards w (home ep) (version (k := .endpoint) ep) (fun _ => False) →
      ¬ w.Owned (home ep) (routeOf ep) → Leaving guards w (home ep) (version (k := .endpoint) ep) (· = routeOf ep) :=
    fun leaving none => ⟨leaving.kept,leaving.guard,leaving.spent,by rintro _ _ rfl; exact none⟩
  rcases reply with (message | _ | _) | route
  · exact release_complies (fun reply => by cases reply <;> exact ⟨_,rfl⟩) (free leaving (missed message rfl)) rfl
  · exact complies_ret leaving.kept
  · exact complies_ret leaving.kept
  have place : refOf .httpRoute route = routeOf ep := w.keyed (Watched.seen_mem (found route rfl))
  intro w₁ moved
  have still := leaving_relies leaving moved
  have allowed : Allowed guards w₁ (home ep) (.delete .httpRoute route.namespace_ route.name) := .delete _ _ _ rfl
  refine ⟨allowed,fun reply w₂ acts => ?_⟩
  have later := leaving_acts still allowed acts rfl
  cases reply with
  | error => exact complies_ret later.kept
  | ok =>
    refine release_complies (fun reply => by cases reply <;> exact ⟨_,rfl⟩) (free later ?_) rfl
    rw [← place]
    exact acts_deleted (by simp [guesses]) acts (.inl rfl)

end Passes

/-! ### Runs -/

/-- The passes over an endpoint. -/
inductive Pass : Ref → KubeAction Outcome → Prop
  | endpoint (ns name : String) : Pass ⟨.endpoint,ns,name⟩ (Endpoints.reconcileRequest ns name)

/-- The controller of the endpoints, behind its caches. -/
def endpoints (index : Index) : System KubeOp KubeReply Ref World Outcome :=
  system index lags guesses guards Pass

/-- Where a pass is about to handle the deletion of an endpoint, the cache does not lack a route that was created for it. -/
def RoutesSeen (d : Config KubeOp KubeReply Ref World Outcome) : Prop :=
  ∀ ep, d.prog (home ep) = handleDelete ep → d.shared.seen (routeOf ep) = none → ¬ d.shared.Owned (home ep) (routeOf ep)

/-- The next call of a pass is allowed, and the pass stands well with any reply. -/
theorem stands_next {index : Index} {d : Config KubeOp KubeReply Ref World Outcome} {i : Ref}
    {op : KubeOp} {k : KubeReply op → KubeAction Outcome} (seen : RoutesSeen d) (at_i : d.prog i = .call op k)
    (stands : Stands index i d.shared (.call op k)) :
    Allowed guards d.shared i op ∧ ∀ r w, Acts index lags guesses i op d.shared r w → Stands index i w (k r) := by
  generalize rest : Prog.call op k = p at stands
  cases stands with
  | safe complies =>
    subst rest
    obtain ⟨allowed,continues⟩ := complies _ (relies_refl _ _)
    exact ⟨allowed,fun r w acts => .safe (continues r w acts)⟩
  | @begins ns name is kept =>
    have first : ∃ k, Endpoints.reconcileRequest ns name = .call (.get .endpoint ns name) k := ⟨_,rfl⟩
    obtain ⟨k',first⟩ := first
    rw [first] at rest
    cases rest
    subst is
    refine ⟨.get _ _ _,fun r w acts => ?_⟩
    obtain ⟨rfl,found,_⟩ := acts_cached (.inl rfl) (by simp [guesses]) acts
    exact read_stands kept found _ first
  | deletes ep is leaving =>
    have first : ∃ k, handleDelete ep = .call (.get .httpRoute ep.namespace_ ep.name) k := ⟨_,rfl⟩
    obtain ⟨k',first⟩ := first
    subst is
    have waits : d.prog (home ep) = handleDelete ep := at_i.trans rest
    rw [first] at rest
    cases rest
    refine ⟨.get _ _ _,fun r w acts => .safe ?_⟩
    obtain ⟨rfl,found,missed⟩ := acts_cached (.inr rfl) (by simp [guesses]) acts
    exact delete_stands leaving found (fun message same => seen ep waits (missed message same)) _ first

/-- In every run in which the deletions find the routes in the cache, a route that was created for an endpoint is there
    only while the endpoint is there with its finalizer. -/
theorem no_orphaned_routes (index : Index) (c d : Config KubeOp KubeReply Ref World Outcome)
    (initial : c.shared = World.fresh) (resting : ∀ i, ∃ outcome, c.prog i = .ret outcome)
    (run : Reach (endpoints index) RoutesSeen c d) (ep route : Ref) (kind : route.kind = .httpRoute)
    (owned : d.shared.Owned ep route) :
    ∃ o, objectAt d.shared.server ep = some o ∧ Carries arksEndpointControllerFinalizer o := by
  have kept : Kept guards d.shared := by
    refine (reach_complies (I := fun w => Kept guards w) (R := fun i w w' => Relies guards i w w')
      (G := fun i op w => Allowed guards w i op) (C := fun i p w => Stands index i w p)
      (fun _ _ _ _ => stands_relies) (fun _ _ kept moved => changes_relies kept moved)
      (fun i op w r w' kept allowed acts => ⟨acts_kept acts kept allowed,fun j other => acts_relies acts kept allowed other⟩)
      ?_ ?_ ?_ (fun i => ?_) run).1
    · exact fun d i op k seen _ at_i stands => stands_next seen at_i stands
    · intro i outcome p w kept _ begins
      cases begins with
      | endpoint ns name => exact .begins rfl kept
    · rw [initial]
      exact fresh_kept
    · obtain ⟨outcome,at_rest⟩ := resting i
      rw [at_rest,initial]
      exact .safe (complies_ret fresh_kept)
  obtain ⟨o,f,stored,guard,carries⟩ := kept.safe ep route kind owned
  have same : f = arksEndpointControllerFinalizer := by
    obtain ⟨k,ns,name⟩ := ep
    cases k <;> cases guard
    rfl
  exact ⟨o,stored,same ▸ carries⟩

/-! ### The endpoint `chat` -/

def chatEndpoint : ArksEndpoint where
  namespace_ := .teamA
  name := .chat
  uid := "1"
  resourceVersion := 1
  finalizers := []
  deletionTimestamp := none
  spec := ⟨1,⟨none,none,none,"arks",none,none⟩,none,[]⟩
  routes := []

/-- The replies to a pass over `chat` that finds no application. -/
def perform (op : KubeOp) (w : World) : KubeReply op × World :=
  w.perform (fun k => k = .endpoint ∨ k = .httpRoute)
    (fun
      | .list _ _ _ => some (.ok [])
      | _ => none)
    (home chatEndpoint) op

theorem perform_acts (op : KubeOp) (w : World) :
    Acts (fun _ _ => []) lags guesses (home chatEndpoint) op w (perform op w).1 (perform op w).2 := by
  refine World.perform_acts (fun k => by simp [lags]) (fun op guess => ?_) op w
  split at guess
  · exact ⟨_,_,_,rfl⟩
  · cases guess

def passed (w : World) : World := (exec perform (Endpoints.reconcileRequest "team-a" "chat") w).2

/-- A user asks for `chat`, a pass puts the finalizer on, and the next one creates the route. -/
def routed : World :=
  passed ((passed ((World.fresh.write .endpoint chatEndpoint).catchUp (fun _ => true))).catchUp (fun _ => true))

/-- No route that is there is about to be read. -/
def quiet (p : KubeAction Outcome) (w : World) : Bool :=
  match p with
  | .call (.get .httpRoute ns name) _ => (w.server.objects .httpRoute ns name).isNone
  | _ => true

private theorem resting_seen {w : World} {prog : Ref → KubeAction Outcome} (resting : ∀ i, ∃ outcome, prog i = .ret outcome) :
    RoutesSeen ⟨w,prog⟩ := by
  intro ep waits
  obtain ⟨outcome,rests⟩ := resting (home ep)
  cases rests.symm.trans waits

theorem quiet_seen {w : World} {prog : Ref → KubeAction Outcome} {i : Ref} {p : KubeAction Outcome}
    (resting : ∀ i, ∃ outcome, prog i = .ret outcome) (tested : quiet p w = true) : RoutesSeen ⟨w,Function.update prog i p⟩ := by
  intro ep waits _ owned
  by_cases same : home ep = i
  · subst same
    have waits : p = handleDelete ep := by simpa using waits
    rw [waits] at tested
    have none : (w.server.objects .httpRoute ep.namespace_ ep.name).isNone = true := tested
    have some : (w.server.objects .httpRoute ep.namespace_ ep.name).isSome = true := owned.1
    simp [Option.isNone_iff_eq_none.mp none] at some
  · obtain ⟨outcome,rests⟩ := resting (home ep)
    cases (rests.symm.trans (Function.update_of_ne same ..).symm).trans waits

section Settling
variable {legal : Config KubeOp KubeReply Ref World Outcome → Prop} {c : Config KubeOp KubeReply Ref World Outcome} {w : World}

theorem passed_settles (test : KubeAction Outcome → World → Bool) (settles : Settles (endpoints (fun _ _ => [])) legal c w)
    (ok : ∀ (prog : Ref → KubeAction Outcome) p w, (∀ i, ∃ outcome, prog i = .ret outcome) → test p w = true →
      legal ⟨w,Function.update prog (home chatEndpoint) p⟩)
    (passes : always perform test (Endpoints.reconcileRequest "team-a" "chat") w = true) :
    Settles (endpoints (fun _ _ => [])) legal c (passed w) :=
  settles_exec settles perform_acts (fun _ => .endpoint "team-a" "chat") ok passes

/-- The run to the route, in which nothing is deleted. -/
theorem routed_settles (quietly : ∀ d, RoutesSeen d → legal d) :
    Settles (endpoints (fun _ _ => [])) legal ⟨World.fresh,fun _ => .ret (.done .empty)⟩ routed := by
  have rests : ∀ (prog : Ref → KubeAction Outcome) w, (∀ i, ∃ outcome, prog i = .ret outcome) → legal ⟨w,prog⟩ :=
    fun prog w resting => quietly _ (resting_seen resting)
  have asked : Settles (endpoints (fun _ _ => [])) legal ⟨World.fresh,fun _ => .ret (.done .empty)⟩
      (World.fresh.write .endpoint chatEndpoint) :=
    settles_env ⟨_,fun _ => ⟨_,rfl⟩,.refl (rests _ _ (fun _ => ⟨_,rfl⟩))⟩
      (World.write_creates (by decide) rfl rfl (by simp [Deleted,meta?,chatEndpoint])) (fun prog => rests prog _)
  have first := passed_settles quiet (settles_env asked (World.catchUp_changes _ (fun _ => true)) (fun prog => rests prog _))
    (fun prog p w resting tested => quietly _ (quiet_seen resting tested)) (by decide +kernel)
  exact passed_settles quiet (settles_env first (World.catchUp_changes _ (fun _ => true)) (fun prog => rests prog _))
    (fun prog p w resting tested => quietly _ (quiet_seen resting tested)) (by decide +kernel)

end Settling

/-- The route of `chat` is there, and so is `chat`. -/
theorem no_orphaned_routes_chat :
    routed.Owned (home chatEndpoint) (routeOf chatEndpoint) ∧
      ∃ o, objectAt routed.server (home chatEndpoint) = some o ∧ Carries arksEndpointControllerFinalizer o := by
  have owned : routed.Owned (home chatEndpoint) (routeOf chatEndpoint) := ⟨by decide +kernel,by decide +kernel⟩
  obtain ⟨prog,_,run⟩ := routed_settles (fun _ seen => seen)
  exact ⟨owned,no_orphaned_routes _ _ ⟨_,prog⟩ rfl (fun _ => ⟨_,rfl⟩) run _ _ rfl owned⟩

/-- The user deletes `chat`, and only the cache of the endpoints learns of it. -/
def deletedIn (w : World) : World :=
  match objectAt w.server (home chatEndpoint) with
  | some ep => (w.write .endpoint { (ep : ArksEndpoint) with
      deletionTimestamp := some 0,resourceVersion := w.server.revision + 1 }).catchUp (fun ref => ref.kind = .endpoint)
  | none => w

/-- The pass that handles the deletion does not know of the route: `chat` goes, and its route stays. -/
theorem orphaned_route :
    ∃ d, Reach (endpoints (fun _ _ => [])) (fun _ => True) ⟨World.fresh,fun _ => .ret (.done .empty)⟩ d ∧
      d.shared.Owned (home chatEndpoint) (routeOf chatEndpoint) ∧ objectAt d.shared.server (home chatEndpoint) = none := by
  have before : ∃ ep : ArksEndpoint, objectAt routed.server (home chatEndpoint) = some ep ∧
      ep.finalizers = [arksEndpointControllerFinalizer] := by
    have stored : (objectAt routed.server (home chatEndpoint)).map (fun ep : ArksEndpoint => ep.finalizers) =
        some [arksEndpointControllerFinalizer] := by decide +kernel
    exact Option.map_eq_some_iff.mp stored
  obtain ⟨ep,stored,carried⟩ := before
  have deleted : Settles (endpoints (fun _ _ => [])) (fun _ => True) ⟨World.fresh,fun _ => .ret (.done .empty)⟩
      (deletedIn routed) := by
    simp only [deletedIn,stored]
    refine settles_env (settles_env (routed_settles (fun _ _ => trivial)) ?_ (fun _ _ => trivial))
      (World.catchUp_changes _ _) (fun _ _ => trivial)
    have place : key .endpoint ep = (chatEndpoint.namespace_.val,chatEndpoint.name.val) := routed.server.keyed stored
    refine World.write_changes (o := ep) (f := arksEndpointControllerFinalizer) rfl ?_ rfl (fun _ => ⟨_,rfl,rfl⟩)
      (fun _ => ⟨_,rfl,by simp [carried]⟩) ?_
    · obtain ⟨namespace_,name⟩ := Prod.mk.inj place
      simp only [Cluster.stored,key]
      rw [namespace_,name]
      exact stored
    · simp [Kube.released,meta?,carried]
  have left : (passed (deletedIn routed)).Owned (home chatEndpoint) (routeOf chatEndpoint) :=
    ⟨by decide +kernel,by decide +kernel⟩
  have gone : (objectAt (passed (deletedIn routed)).server (home chatEndpoint)).isNone = true := by decide +kernel
  obtain ⟨prog,_,run⟩ := passed_settles (fun _ _ => true) deleted (fun _ _ _ _ _ => trivial) (always_true _ _)
  exact ⟨⟨_,prog⟩,run,left,Option.isNone_iff_eq_none.mp gone⟩

end Arks.OrphanRoutes
