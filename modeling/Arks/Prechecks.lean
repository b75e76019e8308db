import Arks.Passes

/-!
What a leader worker set is created from. The checks of the specification and the wait
for the model are made until they pass, and then remembered in the conditions. A set
that is created in a later pass comes from the specification and the model as they are
by then, and is as good as those still are.
-/
namespace Arks.Prechecks
open Programs Programs.Prog Api Kube Controllers Workloads Applications Passes

/-- The user has no volume and no mount that is reserved for the model. -/
structure Unreserved (instanceSpec : ArksInstanceSpec) : Prop where
  volumes : ∀ volume ∈ instanceSpec.volumes, volume.name ≠ arksApplicationModelVolumeName
  mounts : ∀ mount ∈ instanceSpec.volumeMounts, mount.mountPath ≠ arksApplicationModelVolumeMountPath

/-- What a leader worker set should be generated from. -/
structure Checked (spec : ArksApplicationSpec) (model : ArksModel) : Prop where
  runtime : spec.runtime ∈ ["vllm","sglang","dynamo"]
  unreserved : Unreserved spec.instanceSpec
  ready : model.status.phase = some .ready

private theorem reservedVolume_none {instanceSpec : ArksInstanceSpec} :
    reservedVolume instanceSpec = none ↔ Unreserved instanceSpec := by
  constructor
  · intro none
    unfold reservedVolume at none
    split at none
    · cases none
    rename_i volumes
    split at none
    · cases none
    rename_i mounts
    exact ⟨by simpa using volumes,by simpa using mounts⟩
  · intro unreserved
    have volumes : instanceSpec.volumes.any (fun v => v.name = arksApplicationModelVolumeName) = false := by
      simpa using unreserved.volumes
    have mounts : instanceSpec.volumeMounts.any (fun m => m.mountPath = arksApplicationModelVolumeMountPath) = false := by
      simpa using unreserved.mounts
    simp [reservedVolume,volumes,mounts]

/-! ### One pass -/

/-- A pass: the application that it read, and the calls that followed. -/
structure Pass where
  app : ArksApplication
  calls : List KubeCall

/-- `Reconcile` read the application and made the calls. -/
def IsPass (p : Platform) (pass : Pass) : Prop :=
  ∃ namespace_ name outcome, Runs ((arksApplicationReconciler p).reconcileRequest namespace_ name)
    (⟨.get .application namespace_ name,.ok pass.app⟩ :: pass.calls) outcome

/-- The pass read the model. -/
def Reads (pass : Pass) (model : ArksModel) : Prop := ∃ namespace_ name, ⟨.get .model namespace_ name,.ok model⟩ ∈ pass.calls

/-- The pass requests the leader worker set. -/
def Creates (pass : Pass) (lws : LeaderWorkerSet) : Prop := ∃ reply, ⟨.create .lws lws,reply⟩ ∈ pass.calls

/-- The set is generated from the specification that the pass read, with the default for the runtime, and from the model. -/
def GeneratedFrom (p : Platform) (pass : Pass) (lws : LeaderWorkerSet) (spec : ArksApplicationSpec) (model : ArksModel) : Prop :=
  spec = ((arksApplicationReconciler p).defaulted pass.app).spec ∧ Reads pass model ∧
    ∃ app : ArksApplication, app.spec = spec ∧ generateLws p app model = .object lws

section Pass
variable {p : Platform} {pass : Pass} {app : ArksApplication} {model : ArksModel} {lws : LeaderWorkerSet} {calls : List KubeCall}

/-- Only the three runtimes have a command. -/
theorem generateLws_runtime (generated : generateLws p app model = .object lws) :
    app.spec.runtime ∈ ["vllm","sglang","dynamo"] := by
  simp only [generateLws,generated_bind,generated_pure] at generated
  obtain ⟨_,_,_,leads,_⟩ := generated
  unfold generateLeaderCommand at leads
  split at leads
  · simp_all
  split at leads
  · simp_all
  split at leads
  · simp_all
  · cases leads

variable {reply : Except ApiErr Unit}

/-- The removal of an application creates nothing. -/
theorem remove_creates {outcome : Outcome} (run : Runs ((arksApplicationReconciler p).remove app) calls outcome) :
    ⟨.create .lws lws,reply⟩ ∉ calls := by
  intro is
  unfold Reconciler.remove at run
  split at run
  · rw [(runs_ret.mp run).1] at is
    cases is
  · obtain ⟨removed,first,rest,rfl,children,later⟩ := runs_bind.mp run
    rcases List.mem_append.mp is with is | is
    · have deletes := runs_within (removeChildren_within (P := fun op => ∃ k ns name, op = .delete k ns name) _ _
        (fun _ _ => ⟨_,_,_,rfl⟩)) children
      obtain ⟨_,_,_,wrong⟩ := deletes.1 _ is
      cases wrong
    · cases removed with
      | error text =>
        rw [(runs_ret.mp later).1] at is
        cases is
      | ok =>
        obtain ⟨written,last,rfl,ended⟩ := runs_call.mp later
        have last_nil : last = [] := by cases written <;> exact (runs_ret.mp ended).1
        subst last_nil
        cases List.mem_singleton.mp is

/-- A leader worker set is created from what is generated. -/
theorem ladder_creates {namespace_ name : String} {generated : Generated LeaderWorkerSet} {ensured : Ensured}
    (ladder : Ladder .lws namespace_ name (pure generated) calls ensured)
    (is : ⟨.create .lws lws,reply⟩ ∈ calls) : generated = .object lws := by
  have given : ∀ {calls : List KubeCall} {made : Generated LeaderWorkerSet}, Runs (pure generated : KubeAction _) calls made →
      calls = [] ∧ made = generated := runs_ret.mp
  cases ladder with
  | found | unread => simp at is
  | panicked _ runs | ungenerated _ runs =>
    obtain ⟨rfl,_⟩ := given runs
    simp at is
  | created _ runs | existed _ _ runs | uncreated _ runs =>
    obtain ⟨rfl,same⟩ := given runs
    rw [← same]
    simp at is
    rw [is.1]

private theorem start_creates {flow : Flow ArksApplication} (run : Runs (startApplication p app model) calls flow)
    (is : ⟨.create .lws lws,reply⟩ ∈ calls) : generateLws p app model = .object lws := by
  obtain ⟨_,first,rest,rfl,ladder,services⟩ := startApplication_runs p app model run
  rcases List.mem_append.mp is with is | is
  · exact ladder_creates ladder is
  · cases services _ is

theorem announce_creates {flow : Flow (Object .application)}
    (run : Runs ((arksApplicationReconciler p).announce app model) calls flow) (is : ⟨.create .lws lws,reply⟩ ∈ calls) :
    ∃ made : ArksApplication, made.spec = app.spec ∧ generateLws p made model = .object lws := by
  cases announce_runs _ run with
  | already => cases is
  | stopped _ starts | started _ starts =>
    exact ⟨(arksApplicationReconciler p).revise app (Progress.setPhase · .creating),rfl,start_creates starts is⟩

private theorem sync_creates {result : ArksApplication × Outcome} (run : Runs (syncApplication app) calls result) :
    ⟨.create .lws lws,reply⟩ ∉ calls := by
  intro is
  simp only [syncApplication,issue_bind,runs_call] at run
  obtain ⟨read,rest,rfl,later⟩ := run
  have rest_nil : rest = [] := by
    rcases read with (_ | _ | _) | _ <;> exact (runs_ret.mp later).1
  subst rest_nil
  cases List.mem_singleton.mp is

/-- Only behind a read of the model that was not made to wait is a leader worker set created. -/
theorem served_creates {result : Object .application × Outcome}
    (served : Served (arksApplicationReconciler p) app calls result) (is : ⟨.create .lws lws,reply⟩ ∈ calls) :
    ∃ (model : ArksModel) (next : ArksApplication) (rest : List KubeCall),
      calls = ⟨.get .model app.namespace_ app.spec.model,.ok model⟩ :: rest ∧
      (∀ call ∈ rest, childKind (kindOf call.1)) ∧ (arksApplicationReconciler p).waitModel app model = .next next ∧
      ∃ made : ArksApplication, made.spec = next.spec ∧ generateLws p made model = .object lws := by
  cases served with
  | missing | unread | waiting => simp at is
  | stopped waits announces =>
    have is := (List.mem_cons.mp is).resolve_left (by rintro ⟨⟩)
    exact ⟨_,_,_,rfl,announce_kinds (tame_plain p) announces,waits,announce_creates announces is⟩
  | synced waits announces syncs =>
    have is := (List.mem_append.mp ((List.mem_cons.mp is).resolve_left (by rintro ⟨⟩))).resolve_right (sync_creates syncs)
    refine ⟨_,_,_,rfl,fun call is => ?_,waits,announce_creates announces is⟩
    rcases List.mem_append.mp is with is | is
    · exact announce_kinds (tame_plain p) announces call is
    · exact (runs_within ((tame_plain p).sync _) syncs).1 call is

/-- The course of a pass that creates a leader worker set. -/
theorem pass_creates (is_pass : IsPass p pass) (creates : Creates pass lws) :
    ∃ model, GeneratedFrom p pass lws ((arksApplicationReconciler p).defaulted pass.app).spec model ∧
      (∀ model', Reads pass model' → model' = model) ∧
      (Progress.check pass.app.status.toApplicationProgress .precheck = false → Unreserved pass.app.spec.instanceSpec) ∧
      (Progress.check pass.app.status.toApplicationProgress .loaded = false → model.status.phase = some .ready) := by
  obtain ⟨namespace_,name,outcome,run⟩ := is_pass
  obtain ⟨reply,is⟩ := creates
  rcases request_inner run with ⟨_,removed⟩ | ⟨after,ended,inner,behind,split,run,writes⟩
  · exact absurd is (remove_creates removed)
  have unwritten : ∀ call ∈ behind, ∃ o reply, call = (⟨.updateStatus .application o,reply⟩ : KubeCall) := by
    rcases writes with rfl | ⟨reply,rfl⟩
    · simp
    · exact fun call is => ⟨_,_,List.mem_singleton.mp is⟩
  have is : ⟨.create .lws lws,reply⟩ ∈ inner := by
    rw [split] at is
    refine (List.mem_append.mp is).resolve_right (fun wrong => ?_)
    obtain ⟨_,_,wrong⟩ := unwritten _ wrong
    cases wrong
  generalize result : (after,ended) = result' at run
  cases reconcile_runs _ run with
  | deleting | failed | refused => cases is
  | unfinalized | finalized => cases List.mem_singleton.mp is
  | @served app₁ _ _ _ _ checked served =>
    obtain ⟨model,next,rest,rfl,kinds,waits,made,spec,generated⟩ := served_creates served is
    have reads : Reads pass model := ⟨_,_,by rw [split]; exact .head _⟩
    have spec₁ : app₁.spec = ((arksApplicationReconciler p).defaulted pass.app).spec := by
      rcases precheck_next _ checked with ⟨_,rfl⟩ | ⟨_,_,rfl⟩ <;> rfl
    have spec₂ : next.spec = app₁.spec := by
      rcases waitModel_next _ waits with ⟨_,rfl⟩ | ⟨_,_,rfl⟩ <;> rfl
    refine ⟨model,⟨rfl,reads,made,spec.trans (spec₂.trans spec₁),generated⟩,?_,fun unchecked => ?_,fun unloaded => ?_⟩
    · rintro model' ⟨ns,name,is⟩
      rw [split] at is
      rcases List.mem_append.mp is with is | is
      · rcases List.mem_cons.mp is with same | is
        · cases same
          rfl
        · have wrong := kinds _ is
          simp [kindOf,childKind,routerKind] at wrong
      · obtain ⟨_,_,wrong⟩ := unwritten _ is
        cases wrong
    · have unchecked : Progress.check ((arksApplicationReconciler p).progress pass.app) .precheck = false := unchecked
      rcases precheck_next _ checked with ⟨done,_⟩ | ⟨_,none,_⟩
      · simp [Reconciler.initialized,unchecked] at done
      · have free : reservedVolume pass.app.spec.instanceSpec = .none := (Option.or_eq_none_iff.mp none).2
        exact reservedVolume_none.mp free
    · have unloaded : Progress.check ((arksApplicationReconciler p).progress pass.app) .loaded = false := unloaded
      have still : Progress.check ((arksApplicationReconciler p).progress app₁) .loaded = false := by
        rcases precheck_next _ checked with ⟨_,rfl⟩ | ⟨_,_,rfl⟩ <;> simp [Reconciler.initialized,unloaded]
      rcases waitModel_next _ waits with ⟨done,_⟩ | ⟨_,ready,_⟩
      · simp [still] at done
      · exact ready

end Pass

/-! ### Runs -/

/-- The phase and the conditions that a call writes. -/
def progressOf? : KubeCall → Option ApplicationProgress
  | ⟨.updateStatus .application app,.ok _⟩ => some app.status.toApplicationProgress
  | _ => none

/-- The passes over an application, the last one first. The user may edit the specification between them, and
    anything may happen to the model and to the leader worker set; the phase and the conditions are those that
    an earlier pass wrote. -/
inductive Run (p : Platform) (namespace_ name : KubeName) : List Pass → Prop
  | new : Run p namespace_ name []
  | pass {history : List Pass} {pass : Pass} : Run p namespace_ name history → IsPass p pass →
      pass.app.namespace_ = namespace_ → pass.app.name = name →
      (pass.app.status.toApplicationProgress = ⟨none,[]⟩ ∨
        ∃ earlier ∈ history, pass.app.status.toApplicationProgress ∈ earlier.calls.filterMap progressOf?) →
      Run p namespace_ name (pass :: history)

/-- Every leader worker set that is requested is generated from what is checked. -/
def AllChecked (p : Platform) (history : List Pass) : Prop :=
  ∀ pass ∈ history, ∀ lws, Creates pass lws → ∃ spec model, GeneratedFrom p pass lws spec model ∧ Checked spec model

/-- A pass that creates a set and relies on a condition finds things as they were when the condition was set: it reads
    no reserved volume or mount if Precheck was true, and a ready model if Loaded was. -/
def AllCurrent (history : List Pass) : Prop :=
  ∀ pass ∈ history, (∃ lws, Creates pass lws) →
    (Progress.check pass.app.status.toApplicationProgress .precheck = true → Unreserved pass.app.spec.instanceSpec) ∧
    (Progress.check pass.app.status.toApplicationProgress .loaded = true → ∀ model, Reads pass model →
      model.status.phase = some .ready)

section Run
variable {p : Platform} {namespace_ name : KubeName} {history : List Pass} {pass : Pass}

theorem run_passes (run : Run p namespace_ name history) (is : pass ∈ history) : IsPass p pass := by
  induction run with
  | new => cases is
  | pass _ is_pass _ _ _ ih =>
    rcases List.mem_cons.mp is with rfl | is
    · exact is_pass
    · exact ih is

/-- In every run the sets are generated from what is checked if and only if what the conditions remember still holds. -/
theorem created_checked_iff (run : Run p namespace_ name history) : AllChecked p history ↔ AllCurrent history := by
  constructor
  · rintro checked pass is ⟨lws,creates⟩
    obtain ⟨spec,model,⟨rfl,reads,_⟩,holds⟩ := checked pass is lws creates
    obtain ⟨_,_,only,_⟩ := pass_creates (run_passes run is) creates
    refine ⟨fun _ => holds.unreserved,fun _ model' reads' => ?_⟩
    rw [only model' reads',← only model reads]
    exact holds.ready
  · intro current pass is lws creates
    obtain ⟨unreserved,ready⟩ := current pass is ⟨lws,creates⟩
    obtain ⟨model,generated,_,free,loads⟩ := pass_creates (run_passes run is) creates
    refine ⟨_,model,generated,?_⟩
    obtain ⟨_,reads,app,spec,generates⟩ := generated
    refine ⟨spec ▸ generateLws_runtime generates,?_,?_⟩
    · cases remembered : Progress.check pass.app.status.toApplicationProgress .precheck with
      | false => exact free remembered
      | true => exact unreserved remembered
    · cases remembered : Progress.check pass.app.status.toApplicationProgress .loaded with
      | false => exact loads remembered
      | true => exact ready remembered model reads

end Run

/-! ### The application `llm` -/

/-- The replies to a pass over `app`: the model is as given, and the leader worker set is never there. -/
def replies (app : ArksApplication) (model : ArksModel) : (op : KubeOp) → KubeReply op
  | .get .application _ _ => .ok app
  | .get .model _ _ => .ok model
  | .get _ _ _ => .error (.notFound "not found")
  | .create _ _ | .updateStatus _ _ => .ok ()
  | _ => .error (.other "")

def llmPass (app : ArksApplication) (model : ArksModel) : Pass :=
  ⟨app,(replay (replies app model) ((arksApplicationReconciler ⟨fun _ => "",id⟩).reconcileRequest "team-a" "llm")).1.tail⟩

theorem llmPass_is (app : ArksApplication) (model : ArksModel) : IsPass ⟨fun _ => "",id⟩ (llmPass app model) :=
  ⟨"team-a","llm",_,runs_replay (replies app model) _⟩

/-- `llm` is created, and loses its leader worker set before the end of the pass. -/
def firstPass : Pass := llmPass (llmPlain ⟨none,[]⟩) claimedModel

/-- What the first pass wrote. -/
def afterFirst : ApplicationProgress := ((firstPass.calls.filterMap progressOf?).getLast?).getD ⟨none,[]⟩

theorem firstPass_run : Run ⟨fun _ => "",id⟩ llmMeta.namespace_ llmMeta.name [firstPass] :=
  .pass .new (llmPass_is _ _) rfl rfl (.inl rfl)

theorem laterPass_run {app : ArksApplication} {model : ArksModel} (meta_ : app.toObjectMeta = llmMeta)
    (progress : app.status.toApplicationProgress = afterFirst) :
    Run ⟨fun _ => "",id⟩ llmMeta.namespace_ llmMeta.name [llmPass app model,firstPass] := by
  have wrote : afterFirst ∈ firstPass.calls.filterMap progressOf? := by decide +kernel
  exact .pass firstPass_run (llmPass_is _ _) (congrArg ObjectMeta.namespace_ meta_) (congrArg ObjectMeta.name meta_)
    (.inr ⟨firstPass,List.mem_singleton_self _,progress ▸ wrote⟩)

/-- The set of the first pass comes from what the pass itself checked. -/
theorem firstPass_checked : (∃ lws, Creates firstPass lws) ∧ AllChecked ⟨fun _ => "",id⟩ [firstPass] := by
  refine ⟨⟨_,_,.tail _ (.tail _ (.head _))⟩,(created_checked_iff firstPass_run).mpr ?_⟩
  intro pass is _
  rw [List.mem_singleton.mp is]
  exact ⟨fun wrong => (by cases wrong),fun wrong => (by cases wrong)⟩

/-- The user takes the volume `models`. -/
def editedPlain : ArksApplication :=
  let app := llmPlain afterFirst
  { app with spec := { app.spec with instanceSpec := { app.spec.instanceSpec with
    volumes := [⟨arksApplicationModelVolumeName,.other "emptyDir"⟩] } } }

/-- The model is loaded again. -/
def reloadedModel : ArksModel := { claimedModel with status := ⟨some .modelLoading,[]⟩ }

/-- A set that is created again comes from an edited specification with a reserved volume, or from a model that is
    not ready any more. -/
theorem recreated_unchecked :
    (Run ⟨fun _ => "",id⟩ llmMeta.namespace_ llmMeta.name [llmPass editedPlain claimedModel,firstPass] ∧
      ¬ AllChecked ⟨fun _ => "",id⟩ [llmPass editedPlain claimedModel,firstPass]) ∧
    Run ⟨fun _ => "",id⟩ llmMeta.namespace_ llmMeta.name [llmPass (llmPlain afterFirst) reloadedModel,firstPass] ∧
      ¬ AllChecked ⟨fun _ => "",id⟩ [llmPass (llmPlain afterFirst) reloadedModel,firstPass] := by
  refine ⟨⟨laterPass_run rfl rfl,fun checked => ?_⟩,laterPass_run rfl rfl,fun checked => ?_⟩
  · have creates : ∃ lws, Creates (llmPass editedPlain claimedModel) lws := ⟨_,_,.tail _ (.tail _ (.head _))⟩
    obtain ⟨lws,creates⟩ := creates
    obtain ⟨spec,_,⟨rfl,_⟩,holds⟩ := checked _ (.head _) lws creates
    exact holds.unreserved.volumes _ (.head _) rfl
  · have creates : ∃ lws, Creates (llmPass (llmPlain afterFirst) reloadedModel) lws := ⟨_,_,.tail _ (.tail _ (.head _))⟩
    obtain ⟨lws,creates⟩ := creates
    obtain ⟨_,model,⟨_,reads,_⟩,holds⟩ := checked _ (.head _) lws creates
    obtain ⟨_,_,only,_⟩ := pass_creates (llmPass_is _ _) creates
    have reads' : Reads (llmPass (llmPlain afterFirst) reloadedModel) reloadedModel := ⟨_,_,.head _⟩
    have ready := holds.ready
    rw [only model reads,← only reloadedModel reads'] at ready
    cases ready

end Arks.Prechecks
