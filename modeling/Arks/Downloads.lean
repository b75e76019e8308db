import Arks.Lifecycles
import Arks.Records

/-!
From the specification of a model to the files on its volume. The controller runs a pod with
`scripts/download.py`, which downloads the model from the hub, and the kubelet tells by the
phase of the pod how the script has ended. The model is announced when the pod has
succeeded, an application waits for the announcement, and only then are its leader worker
sets created. Each of these is written by another party, maybe long after what it has read.
What follows is that no workload is there before the download of its model has succeeded.
-/
namespace Arks.Downloads
open Programs Programs.Prog Api Kube Controllers Workloads Applications
open Passes Finalizers Families Versions Records Lifecycles

/-! ### `download.py` -/

/-- What the client of the hub raises. `RepositoryNotFoundError` is an `HTTPError`, and that is a
    `RequestException`; the status is that of the response, where there is one. -/
inductive PyError
  | repositoryNotFound (status : Option Nat)
  | http (status : Option Nat)
  | request
  | other
deriving DecidableEq,Repr

inductive HubOp
  | whoami (token : String)
  | modelInfo (repoId : String) (token : Option String)
  | snapshotDownload (repoId localDir : String) (token : Option String)
  | sleep (seconds : Nat)
deriving DecidableEq,Repr

/-- What the client returns is only printed. -/
abbrev HubReply : HubOp → Type
  | .sleep _ => Unit
  | _ => Except PyError Unit

abbrev Script := Prog HubOp HubReply

abbrev hub (op : HubOp) : Script (HubReply op) := issue op

/-- `MODEL_NAME`, `MODEL_PATH` and `HF_TOKEN`. -/
structure Environ where
  modelName : String
  modelPath : String
  hfToken : Option String
deriving DecidableEq,Repr

def maxRetries : Nat := 3
def retryDelay : Nat := 10

section Script
variable (e : Environ)

/-- An empty token is no token. -/
def loginHuggingface : Script Bool :=
  match e.hfToken with
  | none => pure true
  | some token =>
    if token = "" then pure true
    else do
      match ← hub (.whoami token) with
      | .ok _ => pure true
      | .error _ => pure false

def checkModelExists : Script Bool := do
  match ← hub (.modelInfo e.modelName e.hfToken) with
  | .ok _ => pure true
  | .error (.repositoryNotFound _) => pure false
  | .error _ => pure false

/-- An `HTTPError`: some statuses end the script, the others are tried again at once. Without a response
    there is an `AttributeError`. -/
def httpError (status : Option Nat) (retry : Script (Except PyError Nat)) : Script (Except PyError Nat) :=
  match status with
  | none => pure (.error .other)
  | some status => if status ∈ [401,403,404] then pure (.ok 1) else retry

/-- The loop, with the number of attempts that are left. An exception that is not caught ends the script. -/
def attempt : Nat → Script (Except PyError Nat)
  | 0 => pure (.ok 1)
  | left + 1 => do
    match ← hub (.snapshotDownload e.modelName e.modelPath e.hfToken) with
    | .ok _ => pure (.ok 0)
    | .error (.repositoryNotFound status) | .error (.http status) => httpError status (attempt left)
    | .error .request => do
      let _ ← hub (.sleep retryDelay)
      attempt left
    | .error .other => pure (.error .other)

def downloadModel : Script (Except PyError Nat) := do
  if !(← loginHuggingface e) then pure (.ok 1)
  else if !(← checkModelExists e) then pure (.ok 1)
  else attempt e maxRetries

/-- `exit(download_model())`; an exception that is not caught is 1. -/
def exitCode : Except PyError Nat → Nat
  | .ok code => code
  | .error _ => 1

end Script

abbrev HubCall := Call HubOp HubReply

/-- What a call has downloaded, and where to. -/
def fetched : HubCall → Option (String × String)
  | ⟨.snapshotDownload repoId localDir _,.ok _⟩ => some (repoId,localDir)
  | _ => none

/-- The call is an attempt to download. -/
def tries : HubCall → Bool
  | ⟨.snapshotDownload _ _ _,_⟩ => true
  | _ => false

/-- How long a call sleeps. -/
def slept : HubCall → Nat
  | ⟨.sleep seconds,_⟩ => seconds
  | _ => 0

section Script
variable {e : Environ} {calls : List HubCall} {result : Except PyError Nat}

/-- How a run of the script ends: with 0 after one download, or otherwise without one. -/
structure Ended (e : Environ) (bound : Nat) (calls : List HubCall) (result : Except PyError Nat) : Prop where
  downloads : calls.filterMap fetched = if exitCode result = 0 then [(e.modelName,e.modelPath)] else []
  attempts : calls.countP tries ≤ bound
  sleeps : (calls.map slept).sum ≤ bound * retryDelay

/-- Calls that download nothing and do not try to. -/
def Quiet (calls : List HubCall) : Prop := ∀ call ∈ calls, fetched call = none ∧ tries call = false ∧ slept call = 0

theorem ended_failed {bound : Nat} (fails : exitCode result ≠ 0) : Ended e bound [] result :=
  ⟨by rw [if_neg fails]; rfl,Nat.zero_le _,Nat.zero_le _⟩

theorem ended_quiet {bound : Nat} {first : List HubCall} (quiet : Quiet first) (ended : Ended e bound calls result) :
    Ended e bound (first ++ calls) result where
  downloads := by
    rw [List.filterMap_append,List.filterMap_eq_nil_iff.mpr (fun call is => (quiet call is).1)]
    exact ended.downloads
  attempts := by
    rw [List.countP_append,List.countP_eq_zero.mpr (fun call is => by simp [(quiet call is).2.1]),Nat.zero_add]
    exact ended.attempts
  sleeps := by
    have awake : (first.map slept).sum = 0 := by
      refine List.sum_eq_zero (fun n is => ?_)
      obtain ⟨call,made,rfl⟩ := List.mem_map.mp is
      exact (quiet call made).2.2
    rw [List.map_append,List.sum_append,awake,Nat.zero_add]
    exact ended.sleeps

/-- An attempt that fails adds nothing to the downloads and one to the attempts. -/
theorem ended_again {left : Nat} {r : HubReply (.snapshotDownload e.modelName e.modelPath e.hfToken)}
    (failed : fetched ⟨.snapshotDownload e.modelName e.modelPath e.hfToken,r⟩ = none) (ended : Ended e left calls result) :
    Ended e (left + 1) (⟨.snapshotDownload e.modelName e.modelPath e.hfToken,r⟩ :: calls) result where
  downloads := by
    rw [List.filterMap_cons_none failed]
    exact ended.downloads
  attempts := by
    rw [List.countP_cons_of_pos rfl]
    exact Nat.succ_le_succ ended.attempts
  sleeps := by
    have before := ended.sleeps
    simp only [List.map_cons,List.sum_cons,slept]
    rw [Nat.succ_mul]
    omega

private theorem attempt_ended (left : Nat) : ∀ {calls result}, Runs
    (attempt e left) calls result → Ended e left calls result := by
  induction left with
  | zero =>
    intro calls result run
    obtain ⟨rfl,rfl⟩ := runs_ret.mp run
    exact ended_failed (by decide)
  | succ left ih =>
    intro calls result run
    simp only [attempt,issue_bind] at run
    obtain ⟨reply,rest,rfl,later⟩ := runs_call.mp run
    have refused : ∀ status r, fetched ⟨.snapshotDownload e.modelName e.modelPath e.hfToken,r⟩ = none →
        Runs (httpError status (attempt e left)) rest result →
        Ended e (left + 1) (⟨.snapshotDownload e.modelName e.modelPath e.hfToken,r⟩ :: rest) result := by
      intro status r failed later
      cases status with
      | none =>
        obtain ⟨rfl,rfl⟩ := runs_ret.mp later
        exact ended_again failed (ended_failed (by decide))
      | some status =>
        simp only [httpError] at later
        split at later
        · obtain ⟨rfl,rfl⟩ := runs_ret.mp later
          exact ended_again failed (ended_failed (by decide))
        · exact ended_again failed (ih later)
    rcases reply with (status | status | _ | _) | done
    · exact refused status _ rfl later
    · exact refused status _ rfl later
    · dsimp only at later
      obtain ⟨awake,rest,rfl,last⟩ := runs_call.mp later
      have ended := ih last
      refine ⟨ended.downloads,?_,?_⟩
      · rw [List.countP_cons_of_pos rfl,List.countP_cons_of_neg (by simp [tries])]
        exact Nat.succ_le_succ ended.attempts
      have before := ended.sleeps
      simp only [List.map_cons,List.sum_cons,slept]
      rw [Nat.succ_mul]
      omega
    · obtain ⟨rfl,rfl⟩ := runs_ret.mp later
      exact ended_again rfl (ended_failed (by decide))
    · obtain ⟨rfl,rfl⟩ := runs_ret.mp later
      exact ⟨rfl,Nat.succ_le_succ (Nat.zero_le _),Nat.zero_le _⟩

theorem quiet_nil : Quiet [] := fun _ is => by cases is

private theorem login_quiet {ok : Bool} (run : Runs (loginHuggingface e) calls ok) : Quiet calls := by
  unfold loginHuggingface at run
  cases token : e.hfToken with
  | none =>
    rw [token] at run
    rw [(runs_ret.mp run).1]
    exact quiet_nil
  | some token =>
    simp only [token] at run
    split at run
    · rw [(runs_ret.mp run).1]
      exact quiet_nil
    · simp only [issue_bind] at run
      obtain ⟨reply,rest,rfl,later⟩ := runs_call.mp run
      have none : rest = [] := by cases reply <;> exact (runs_ret.mp later).1
      rw [none]
      intro call is
      rw [List.mem_singleton.mp is]
      exact ⟨rfl,rfl,rfl⟩

private theorem check_quiet {ok : Bool} (run : Runs (checkModelExists e) calls ok) : Quiet calls := by
  simp only [checkModelExists,issue_bind] at run
  obtain ⟨reply,rest,rfl,later⟩ := runs_call.mp run
  have none : rest = [] := by rcases reply with (_ | _ | _ | _) | _ <;> exact (runs_ret.mp later).1
  rw [none]
  intro call is
  rw [List.mem_singleton.mp is]
  exact ⟨rfl,rfl,rfl⟩

theorem download_ended (run : Runs (downloadModel e) calls result) : Ended e maxRetries calls result := by
  obtain ⟨ok,first,rest,rfl,login,later⟩ := runs_bind.mp run
  refine ended_quiet (login_quiet login) ?_
  cases ok with
  | false =>
    obtain ⟨rfl,rfl⟩ := runs_ret.mp later
    exact ended_failed (by decide)
  | true =>
    obtain ⟨ok,second,rest,rfl,exists_,last⟩ := runs_bind.mp later
    refine ended_quiet (check_quiet exists_) ?_
    cases ok with
    | false =>
      obtain ⟨rfl,rfl⟩ := runs_ret.mp last
      exact ended_failed (by decide)
    | true => exact attempt_ended maxRetries last

/-- The script ends with 0 after it has downloaded the model to its path, and then only, whatever the hub answers;
    it makes at most three attempts, and sleeps for at most half a minute. -/
theorem script_exits (e : Environ) (calls : List HubCall) (result : Except PyError Nat)
    (run : Runs (downloadModel e) calls result) :
    (exitCode result = 0 ∧ calls.filterMap fetched = [(e.modelName,e.modelPath)] ∨
      exitCode result ≠ 0 ∧ calls.filterMap fetched = []) ∧
      calls.countP tries ≤ 3 ∧ (calls.map slept).sum ≤ 30 := by
  have ended := download_ended run
  refine ⟨?_,ended.attempts,ended.sleeps⟩
  by_cases zero : exitCode result = 0
  · exact .inl ⟨zero,by rw [ended.downloads,if_pos zero]⟩
  · exact .inr ⟨zero,by rw [ended.downloads,if_neg zero]⟩

/-- Without a token, and with one network error. -/
theorem script_exits_second :
    [⟨.modelInfo "org/chat" none,.ok ()⟩,⟨.snapshotDownload "org/chat" "/models/chat" none,.error .request⟩,⟨.sleep 10,()⟩,
      ⟨.snapshotDownload "org/chat" "/models/chat" none,.ok ()⟩].filterMap fetched = [("org/chat","/models/chat")] := by
  have run : Runs (downloadModel ⟨"org/chat","/models/chat",none⟩)
      [⟨.modelInfo "org/chat" none,.ok ()⟩,⟨.snapshotDownload "org/chat" "/models/chat" none,.error .request⟩,⟨.sleep 10,()⟩,
        ⟨.snapshotDownload "org/chat" "/models/chat" none,.ok ()⟩] (.ok 0) :=
    .call (.call (.call (.call .ret)))
  rcases (script_exits _ _ _ run).1 with ⟨_,downloads⟩ | ⟨fails,_⟩
  · exact downloads
  · exact absurd rfl fails

end Script

/-! ### The kubelet -/

/-- A download that has succeeded, in a pod of a namespace. -/
structure Download where
  namespace_ : String
  repoId : String
  localDir : String
deriving DecidableEq,Repr

/-- The API server, and the downloads that have succeeded. -/
abbrev Site := World (List Download)

/-- The command of the worker pod. -/
def scriptCommand : List String := ["/bin/bash","-c","python3 /scripts/download.py"]

/-- The entry of a variable; the last one counts. -/
def entry (env : List EnvVar) (name : String) : Option EnvVar := env.reverse.find? (fun v => v.name = name)

/-- A value that is written out and refers to no other variables. -/
def Literal (v : EnvVar) : Prop := v.valueFrom = none ∧ contains v.value "$(" = false

/-- The environment of a container. A variable that is not given may be set by the image, and one
    that refers to a secret or to other variables has any value. -/
structure Resolves (env : List EnvVar) (e : Environ) : Prop where
  modelName : ∀ v, entry env "MODEL_NAME" = some v → Literal v → e.modelName = v.value
  modelPath : ∀ v, entry env "MODEL_PATH" = some v → Literal v → e.modelPath = v.value
  hfToken : ∀ v, entry env "HF_TOKEN" = some v → Literal v → e.hfToken = some v.value

/-- The downloads of a pod. -/
def downloads (namespace_ : String) (calls : List HubCall) : List Download :=
  (calls.filterMap fetched).map (fun f => ⟨namespace_,f.1,f.2⟩)

/-- One object gets a new version. -/
structure Rewrites (a a' : Archive) (ref : Ref) (new : Option ref.Object) : Prop where
  here : a'.past ref = new :: a.past ref
  aside : ∀ other, other ≠ ref → a'.past other = a.past other

/-- A pod in another phase. -/
def inPhase (pod : Pod) (phase : PodPhase) (states : List ContainerState) : Pod :=
  { pod with phase := phase,containerStatuses := states }

/-- The kubelet runs the script of a pod. The pod succeeds when the script has ended with 0; a pod may fail, or be in any
    other phase, in the middle of the script. Of pods that run something else nothing is known. -/
inductive Kubelet (w w' : Site) : Prop
  | ends {ns name : String} {pod : Pod} {e : Environ} {calls : List HubCall} {result : Except PyError Nat}
      (states : List ContainerState) : objectAt w.archive.server ⟨.pod,ns,name⟩ = some pod →
      pod.template.command = scriptCommand → Resolves pod.template.env e → Runs (downloadModel e) calls result →
      Rewrites w.archive w'.archive ⟨.pod,ns,name⟩
        (some (inPhase pod (if exitCode result = 0 then .succeeded else .failed) states)) →
      w'.beside = downloads ns calls ++ w.beside → Kubelet w w'
  | runs {ns name : String} {pod : Pod} {e : Environ} {calls rest : List HubCall} {result : Except PyError Nat}
      (phase : PodPhase) (states : List ContainerState) : objectAt w.archive.server ⟨.pod,ns,name⟩ = some pod →
      pod.template.command = scriptCommand → Resolves pod.template.env e → Runs (downloadModel e) (calls ++ rest) result →
      phase ≠ .succeeded → Rewrites w.archive w'.archive ⟨.pod,ns,name⟩ (some (inPhase pod phase states)) →
      w'.beside = downloads ns calls ++ w.beside → Kubelet w w'
  | other {ns name : String} {pod : Pod} (phase : PodPhase) (states : List ContainerState) :
      objectAt w.archive.server ⟨.pod,ns,name⟩ = some pod → pod.template.command ≠ scriptCommand →
      Rewrites w.archive w'.archive ⟨.pod,ns,name⟩ (some (inPhase pod phase states)) → w'.beside = w.beside → Kubelet w w'

/-! ### What users ask for -/

/-- A model that users ask for, and the name of an application that serves it. -/
structure Supply where
  model : ArksModel
  application : String
  registered : Loading.Registered model.spec
  path : String
  located : generateModelPath model = .object path
  literal : contains model.spec.model "$(" = false ∧ contains path "$(" = false

namespace Supply
variable (s : Supply)

abbrev ns : String := s.model.namespace_.val

/-- What is downloaded for the model. -/
def download : Download := ⟨s.ns,s.model.spec.model,s.path⟩

/-- The leader worker set carries the label of the application. -/
def Labelled (lws : LeaderWorkerSet) : Prop :=
  lws.namespace_.val = s.ns ∧ (arksControllerKeyApplication,s.application) ∈ lws.labels

/-- What users and other controllers write. The model and the application keep what they say of the model; nobody
    else creates the worker pod or a leader worker set with the label of the application. -/
def Asks : (k : Kind) → Option (Object k) → Object k → Prop
  | .model,_,o => key .model o = key .model s.model → o.spec = s.model.spec
  | .application,_,o => key .application o = (s.ns,s.application) → o.spec.model = s.model.name
  | .disaggregated,_,o => key .disaggregated o = (s.ns,s.application) → o.spec.model = s.model.name
  | .pod,_,o => key .pod o ≠ (s.ns,Models.generateWorkerPodName s.model)
  | .lws,old,o => s.Labelled o → ∃ v, old = some v ∧ s.Labelled v
  | _,_,_ => True

/-- Users and other controllers write objects, one version each. -/
def Edited (a a' : Archive) : Prop :=
  ∀ ref, a'.past ref = a.past ref ∨ ∃ new, a'.past ref = new :: a.past ref ∧
    users ref (objectAt a.server ref) new ∧ ∀ o, new = some o → s.Asks ref.kind (objectAt a.server ref) o

def Others (w w' : Site) : Prop := (s.Edited w.archive w'.archive ∧ w'.beside = w.beside) ∨ Kubelet w w'

/-! ### What the objects stand for -/

def Done (w : Site) : Prop := s.download ∈ w.beside

/-- An application that is past waiting for its model. -/
def Beyond (progress : ApplicationProgress) : Prop :=
  Progress.check progress .loaded = true ∨ progress.phase = some .creating ∨ progress.phase = some .running

/-- The pod downloads the model to its path. -/
def Fetches (pod : Pod) : Prop :=
  pod.template.command = scriptCommand ∧
    ∀ e, Resolves pod.template.env e → e.modelName = s.model.spec.model ∧ e.modelPath = s.path

/-- What an application stands for. -/
def Serves (w : Site) (place : String × String) (modelName : String) (progress : ApplicationProgress) : Prop :=
  place = (s.ns,s.application) → modelName = s.model.name.val ∧ (Beyond progress → s.Done w)

/-- What is true of the objects: one that stands for the model stands for its download. -/
def Good (w : Site) : (k : Kind) → Object k → Prop
  | .model,o => key .model o = key .model s.model → o.spec = s.model.spec ∧ Loading.Sound (s.Done w) o
  | .application,o => s.Serves w (key .application o) o.spec.model o.status.toApplicationProgress
  | .disaggregated,o => s.Serves w (key .disaggregated o) o.spec.model o.status.toApplicationProgress
  | .pod,o => key .pod o = (s.ns,Models.generateWorkerPodName s.model) → s.Fetches o ∧ (o.phase = .succeeded → s.Done w)
  | .lws,o => s.Labelled o → s.Done w
  | _,_ => True

end Supply

section Facts
variable {s : Supply} {w w' : Site}

theorem done_grows (grows : Grows (· ⊆ ·) w w') (done : s.Done w) : s.Done w' := grows.beside done

theorem good_grows (k : Kind) (o : Object k) (grows : Grows (· ⊆ ·) w w') (good : s.Good w k o) : s.Good w' k o := by
  have serves : ∀ {place modelName progress}, s.Serves w place modelName progress → s.Serves w' place modelName progress :=
    fun serves here => ⟨(serves here).1,fun beyond => done_grows grows ((serves here).2 beyond)⟩
  cases k with
  | model => exact fun here => ⟨(good here).1,Loading.sound_mono (done_grows grows) (good here).2⟩
  | application | disaggregated => exact serves good
  | pod => exact fun here => ⟨(good here).1,fun succeeded => done_grows grows ((good here).2 succeeded)⟩
  | lws => exact fun labelled => done_grows grows (good labelled)
  | _ => trivial

/-! ### Others -/

private theorem unset_progress {progress : ApplicationProgress} (phase : progress.phase = none)
    (conditions : progress.conditions = []) :
    ¬ Supply.Beyond progress := by
  rintro (loaded | creating | running)
  · simp [Progress.check,checkCondition,conditions] at loaded
  · rw [phase] at creating
    cases creating
  · rw [phase] at running
    cases running

/-- A version that users or other controllers write. -/
theorem edit_good {k : Kind} {ns name : String} {old new : Option (Object k)} (place : ∀ o, new = some o → key k o = (ns,name))
    (good : ∀ v, old = some v → key k v = (ns,name) ∧ s.Good w k v) (edit : users ⟨k,ns,name⟩ old new)
    (asks : ∀ o, new = some o → s.Asks k old o) : ∀ o, new = some o → s.Good w k o := by
  rintro o rfl
  have wants := asks o rfl
  have here := place o rfl
  cases k with
  | model =>
    refine fun named => ⟨wants named,?_⟩
    cases old with
    | none =>
      obtain ⟨phase,conditions⟩ : o.status.phase = none ∧ o.status.conditions = [] := edit
      exact Loading.sound_unready (by simp [phase]) (by simp [Models.checkModelCondition,checkCondition,conditions])
    | some v =>
      have same : o.status = v.status := edit
      exact Loading.sound_congr same ((good v rfl).2 ((good v rfl).1.trans (here.symm.trans named))).2
  | application | disaggregated =>
    refine fun named => ⟨wants named,fun beyond => ?_⟩
    cases old with
    | none =>
      obtain ⟨phase,conditions⟩ : o.status.phase = none ∧ o.status.conditions = [] := edit
      exact absurd beyond (unset_progress phase conditions)
    | some v =>
      have same : o.status = v.status := edit
      exact ((good v rfl).2 ((good v rfl).1.trans (here.symm.trans named))).2 (same ▸ beyond)
  | pod => exact fun named => absurd named wants
  | lws =>
    intro labelled
    obtain ⟨v,rfl,was⟩ := wants labelled
    exact (good v rfl).2 was
  | _ => trivial

theorem entry_name (model : ArksModel) (source : ArksModelSourceHuggingFace) (path : String) :
    entry (Models.workerEnv model source path) "MODEL_NAME" = some ⟨"MODEL_NAME",model.spec.model,none⟩ ∧
      entry (Models.workerEnv model source path) "MODEL_PATH" = some ⟨"MODEL_PATH",path,none⟩ := by
  unfold Models.workerEnv
  cases source.tokenSecretRef <;> simp [entry]

private theorem rewrites_grows {ref : Ref} {new : Option ref.Object} (rewrites : Rewrites w.archive w'.archive ref new)
    (more : w.beside ⊆ w'.beside) : Grows (· ⊆ ·) w w' := by
  refine ⟨fun other o is => ?_,more⟩
  by_cases here : other = ref
  · subst here
    rw [rewrites.here]
    exact .tail _ is
  · rwa [rewrites.aside other here]

theorem rewrites_good {ref : Ref} {o : ref.Object} (holds : Holds (s.Good w) w.archive)
    (rewrites : Rewrites w.archive w'.archive ref (some o)) (more : w.beside ⊆ w'.beside) (good : s.Good w' ref.kind o) :
    Grows (· ⊆ ·) w w' ∧ Holds (s.Good w') w'.archive := by
  have grows := rewrites_grows rewrites more
  refine ⟨grows,fun other o' is => ?_⟩
  by_cases here : other = ref
  · subst here
    rw [rewrites.here] at is
    rcases List.mem_cons.mp is with new | old
    · cases new
      exact good
    · exact good_grows _ _ grows (holds other o' old)
  · rw [rewrites.aside other here] at is
    exact good_grows _ _ grows (holds other o' is)

/-- A pod in another phase is good, if it has succeeded only after the download. -/
theorem inPhase_good {pod : Pod} {phase : PodPhase} {states : List ContainerState} (good : s.Good w .pod pod)
    (done : key .pod pod = (s.ns,Models.generateWorkerPodName s.model) → s.Fetches pod → phase = .succeeded → s.Done w') :
    s.Good w' .pod (inPhase pod phase states) :=
  fun named => ⟨(good named).1,done named (good named).1⟩

private theorem kubelet_good (holds : Holds (s.Good w) w.archive) (moved : Kubelet w w') :
    Grows (· ⊆ ·) w w' ∧ Holds (s.Good w') w'.archive := by
  have stored : ∀ {ns name pod}, objectAt w.archive.server ⟨.pod,ns,name⟩ = some pod →
      key .pod pod = (ns,name) ∧ s.Good w .pod pod := by
    intro ns name pod present
    exact ⟨w.archive.server.keyed present,holds ⟨.pod,ns,name⟩ pod (present ▸ current_mem w.archive _)⟩
  cases moved with
  | @ends ns name pod e calls result states present command resolves run rewrites more =>
    refine rewrites_good holds rewrites (by rw [more]; exact List.subset_append_right _ _) ?_
    refine inPhase_good (stored present).2 (fun named fetches succeeded => ?_)
    have zero : exitCode result = 0 := by
      by_contra other
      rw [if_neg other] at succeeded
      cases succeeded
    have place : ns = s.ns := (Prod.mk.inj ((stored present).1.symm.trans named)).1
    obtain ⟨repo,dir⟩ := fetches.2 e resolves
    rw [Supply.Done,more,downloads,(download_ended run).downloads,if_pos zero,Supply.download,← repo,← dir,← place]
    exact .head _
  | runs phase states present command resolves run unfinished rewrites more =>
    refine rewrites_good holds rewrites (by rw [more]; exact List.subset_append_right _ _) ?_
    exact inPhase_good (stored present).2 (fun _ _ succeeded => absurd succeeded unfinished)
  | other phase states present command rewrites more =>
    refine rewrites_good holds rewrites (by rw [more]; exact List.Subset.refl _) ?_
    exact inPhase_good (stored present).2 (fun _ fetches _ => absurd fetches.1 command)

theorem others_good (holds : Holds (s.Good w) w.archive) (moved : s.Others w w') :
    Grows (· ⊆ ·) w w' ∧ Holds (s.Good w') w'.archive := by
  rcases moved with ⟨edited,same⟩ | moved
  · have grows : Grows (· ⊆ ·) w w' := by
      refine ⟨fun ref o is => ?_,by rw [same]; exact List.Subset.refl _⟩
      rcases edited ref with kept | ⟨new,more,_⟩
      · rwa [kept]
      · rw [more]
        exact .tail _ is
    refine ⟨grows,fun ref o is => good_grows _ _ grows ?_⟩
    rcases edited ref with kept | ⟨new,more,edit,asks⟩
    · exact holds ref o (kept ▸ is)
    have place : ∀ o', some o' ∈ w'.archive.past ref → key ref.kind o' = (ref.namespace_,ref.name) :=
      fun o' is => past_key (k := ref.kind) is
    rw [more] at is place
    rcases List.mem_cons.mp is with rfl | old
    · refine @edit_good s w ref.kind ref.namespace_ ref.name _ _ (fun o' is => place o' ?_) (fun v is => ?_) edit asks o rfl
      · rw [is]
        exact .head _
      · exact ⟨w.archive.server.keyed is,holds ref v (is ▸ current_mem w.archive ref)⟩
    · exact holds ref o old
  · exact kubelet_good holds moved

end Facts

/-! ### The passes over the model -/

section Models
open Models
variable {s : Supply} {w : Site} {p : Platform} {model : ArksModel}

abbrev Sees (s : Supply) (w : Site) {α : Type} (Q : α → Prop) (p : KubeAction α) : Prop :=
  Within (Tells w.archive) (Writes (s.Good w)) Q p

/-- The specification and the status of a model that a pass goes on with. -/
def Fine (s : Supply) (w : Site) (model : ArksModel) : Prop :=
  key .model model = key .model s.model → model.spec = s.model.spec ∧ Loading.Sound (s.Done w) model

theorem update_fine {m : ObjectMeta} (fine : Fine s w model)
    (same : (m.namespace_.val,m.name.val) = key .model model) :
    Writes (s.Good w) (.update .model { model with toObjectMeta := m }) := by
  intro n stored place good named
  have here : key .model model = key .model s.model := same.symm.trans named
  have kept : (updated n .model stored { model with toObjectMeta := m }).status = stored.status := rfl
  exact ⟨(fine here).1,Loading.sound_congr kept (good (place.trans named)).2⟩

theorem status_sound (sound : key .model model = key .model s.model → Loading.Sound (s.Done w) model) :
    Writes (s.Good w) (.updateStatus .model model) := by
  intro n stored place good named
  have written : (statusUpdated n .model stored model).status = model.status := rfl
  exact ⟨(good named).1,Loading.sound_congr written (sound (place.symm.trans named))⟩

/-- The path of the model is that of the model that users ask for. -/
theorem path_eq {path : String} (here : key .model model = key .model s.model) (spec : model.spec = s.model.spec)
    (located : generateModelPath model = .object path) : path = s.path := by
  have place := Prod.mk.inj here
  have same : generateModelPath model = generateModelPath s.model := by
    simp only [generateModelPath,spec]
    rw [place.1,place.2]
  have both := located.symm.trans (same.trans s.located)
  cases both
  rfl

/-- The worker pod that a pass creates. -/
theorem workerPod_good {hub : ArksModelSourceHuggingFace} {path claimName : String} (fine : Fine s w model)
    (located : generateModelPath model = .object path) : s.Good w .pod (workerPod p model hub path claimName) := by
  intro named
  obtain ⟨place,same⟩ := Prod.mk.inj named
  have name : model.name.val = s.model.name.val := by
    have texts : "arks-worker-" ++ model.name.val = "arks-worker-" ++ s.model.name.val := same
    exact (String.append_right_inj _).mp texts
  have here : key .model model = key .model s.model := Prod.ext place name
  refine ⟨⟨rfl,fun e resolves => ?_⟩,(fun wrong => by cases wrong)⟩
  have path_here := path_eq here (fine here).1 located
  have literal := s.literal
  rw [← path_here,← (fine here).1] at literal ⊢
  exact ⟨resolves.modelName _ (entry_name model hub path).1 ⟨rfl,literal.1⟩,
    resolves.modelPath _ (entry_name model hub path).2 ⟨rfl,literal.2⟩⟩

private theorem prepareStorage_sees : Sees s w (fun _ => True) (prepareStorage model) := by
  unfold prepareStorage
  cases model.spec.storage with
  | none => trivial
  | some storage =>
    simp only
    cases storage.pvc with
    | none => trivial
    | some pvc =>
      simp only
      split
      · trivial
      · refine within_bind (ensure_within trivial (fun o generated => ?_)) (fun _ _ => trivial)
        cases generated
        trivial

private theorem loadModel_sees {claimName : String} (fine : Fine s w model) : Sees s w (fun _ => True)
    (loadModel p model claimName) := by
  unfold loadModel
  split
  · trivial
  cases model.spec.source with
  | none => trivial
  | some source =>
    simp only
    cases source.huggingface with
    | none => trivial
    | some hub =>
      simp only [loadHuggingface,issue_bind,within_call]
      refine ⟨trivial,fun read _ => ?_⟩
      cases read with
      | ok => trivial
      | error e =>
        cases located : generateModelPath model with
        | failed | panicked => cases e <;> trivial
        | object path =>
          cases e with
          | notFound => exact ⟨workerPod_good fine located,fun _ _ => trivial⟩
          | alreadyExists | other => trivial

private theorem provide_sees (fine : Fine s w model) (unready : model.status.phase ≠ some .ready) :
    Sees s w (fun _ => True) (provide p model) := by
  have leaves : Sees s w (fun flow => flow.object.1.spec = model.spec ∧ flow.object.1.toObjectMeta = model.toObjectMeta ∧
      checkModelCondition flow.object.1 .modelLoaded = checkModelCondition model .modelLoaded ∧
      flow.object.1.status.phase ≠ some .ready) (prepareStorage model) := by
    refine within_mono (within_and prepareStorage_sees (within_any (within_of_runs (fun _ _ run =>
      Loading.prepared_leaves (prepareStorage_runs run) unready)))) (fun _ is => is.1) (fun flow is => ?_)
    exact ⟨is.2.2.1,is.2.2.2.1,is.2.2.2.2,is.2.1⟩
  refine within_bind leaves (fun flow kept => ?_)
  cases flow with
  | stop => trivial
  | next goes =>
    obtain ⟨model₁,claimName⟩ := goes
    obtain ⟨spec,same,loaded,unready₁⟩ := kept
    have fine₁ : Fine s w model₁ := by
      intro here
      have place : key .model model = key .model s.model := by
        rw [← here,key,key,show model₁.toObjectMeta = model.toObjectMeta from same]
      refine ⟨spec.trans (fine place).1,Loading.sound_unready unready₁ (fun is => (fine place).2.loaded ?_)⟩
      rw [← loaded]
      exact is
    refine within_bind (loadModel_sees fine₁) (fun flow _ => ?_)
    cases flow <;> trivial

/-- What the pass leaves of the model, when the worker pod was seen as it was. -/
theorem provide_sound (holds : Holds (s.Good w) w.archive) (fine : Fine s w model) (unsettled : ¬ Settled model.status) :
    Within (Tells w.archive) (fun _ => True) (fun result => Writes (s.Good w) (.updateStatus .model result.1))
      (provide p model) := by
  refine within_of_answered (fun calls result run told => status_sound (fun here => ?_))
  have provided := provide_runs run
  have place : key .model model = key .model s.model := by
    rw [← here,key,key,(provided_proceeds unsettled provided).1]
  obtain ⟨source,hub,from_,registry⟩ := s.registered
  have bare : ¬ Loading.Bare model.spec := by
    rintro ⟨empty,_⟩
    rw [(fine place).1,from_] at empty
    cases empty
    cases registry
  refine Loading.provided_sound provided bare (fun ready => unsettled (.inl ready)) (fine place).2 id ?_ ?_
  · intro unregistered
    rw [(fine place).1] at unregistered
    exact absurd s.registered unregistered
  · rintro ⟨worker,is,succeeded⟩
    have seen : some worker ∈ w.archive.past ⟨.pod,model.namespace_,generateWorkerPodName model⟩ := told _ is
    have name : (model.namespace_.val,generateWorkerPodName model) = (s.ns,generateWorkerPodName s.model) := by
      obtain ⟨ns,name⟩ := Prod.mk.inj place
      rw [generateWorkerPodName,generateWorkerPodName,name]
      exact Prod.ext ns rfl
    exact (holds ⟨.pod,_,_⟩ worker seen ((past_key (k := .pod) seen).trans name)).2 succeeded

private theorem model_reconcile_sees (holds : Holds (s.Good w) w.archive) (fine : Fine s w model) :
    Sees s w (fun result => Writes (s.Good w) (.updateStatus .model result.1)) (reconcile p model) := by
  have unchanged : Writes (s.Good w) (.updateStatus .model model) := status_sound (fun here => (fine here).2)
  unfold reconcile
  split
  · exact unchanged
  split
  · exact unchanged
  split
  · have place := (model_told (sameVersion_add model.toObjectMeta arksModelControllerFinalizer)).1
    refine ⟨update_fine fine place,fun reply told => ?_⟩
    cases reply with
    | error =>
      have kept : (finalizing model).status = model.status := rfl
      exact status_sound (fun here => Loading.sound_congr kept (fine (place.symm.trans here)).2)
    | ok stored =>
      obtain ⟨n,before,is,same⟩ := told
      refine status_sound (fun here => ?_)
      have kept : stored.status = before.status := by rw [same]; rfl
      have before_place : key .model before = key .model (finalizing model) := past_key (k := .model) is
      have stored_place : key .model stored = key .model (finalizing model) := same ▸ key_updated ..
      exact Loading.sound_congr kept (holds _ before is (before_place.trans (stored_place.symm.trans here))).2
  · rename_i unsettled _
    have initialized : Fine s w (initializeModelCondition model) := by
      intro here
      rw [key,initialize_meta] at here
      refine ⟨(initialize_spec model).trans (fine here).1,?_⟩
      refine Loading.sound_unready ?_ (fun loaded => (fine here).2.loaded (by simpa using loaded))
      rw [Loading.initialize_phase]
      exact fun ready => unsettled (.inl ready)
    have unsettled' : ¬ Settled (initializeModelCondition model).status := by
      rw [Settled,Loading.initialize_phase]
      exact unsettled
    exact within_mono (within_and (provide_sees initialized (fun ready => unsettled' (.inl ready)))
      (provide_sound holds initialized unsettled')) (fun _ is => is.1) (fun _ is => is.2)

private theorem model_remove_sees (fine : Fine s w model) : Sees s w (fun _ => True) (Models.remove model) := by
  have release : Sees s w (fun _ => True) (release model) :=
    ⟨update_fine fine rfl,fun reply _ => by cases reply <;> trivial⟩
  unfold Models.remove
  split
  · trivial
  cases model.spec.source.bind ArksModelSource.huggingface with
  | none => exact release
  | some =>
    refine ⟨trivial,fun reply _ => ?_⟩
    rcases reply with (_ | _ | _) | _
    · exact release
    · trivial
    · trivial
    · exact release

private theorem model_pass_sees (holds : Holds (s.Good w) w.archive) (ns name : String) :
    Sees s w (fun _ => True) (Models.reconcileRequest p ns name) :=
  request_within trivial (fun object told => model_remove_sees (holds ⟨.model,ns,name⟩ object told))
    (fun object told => model_reconcile_sees holds (holds ⟨.model,ns,name⟩ object told))

end Models

/-! ### The passes over the application -/

section Applications
open Supply (Beyond)
variable {s : Supply} {w : Site} {k : Kind} {r : Reconciler k} {app app' : Object k} {model : ArksModel}

/-- A reconciler whose applications stand for their models. -/
structure Fits (s : Supply) {k : Kind} (r : Reconciler k) {σ τ : Type} (spec : Object k → σ) (status : Object k → τ) : Prop
    extends Apart r spec status where
  good : ∀ w app, s.Good w k app ↔ s.Serves w (key k app) (r.modelName app) (r.progress app)
  named : ∀ a b, spec a = spec b → r.modelName a = r.modelName b
  named_defaulted : ∀ app, r.modelName (r.defaulted app) = r.modelName app
  named_revise : ∀ app f, r.modelName (r.revise app f) = r.modelName app
  starts : ∀ w app model, (key k app = (s.ns,s.application) → s.Done w) → Sees s w (fun _ => True) (r.start app model)
  syncs : ∀ w app, Holds (s.Good w) w.archive → Sees s w (fun _ => True) (r.sync app)

variable {σ τ : Type} {spec : Object k → σ} {status : Object k → τ}

/-- The application that a pass goes on with, or leaves. -/
def Carried (s : Supply) (w : Site) (r : Reconciler k) (app : Object k) : Prop :=
  key k app = (s.ns,s.application) → Beyond (r.progress app) → s.Done w

theorem key_meta (orderly : Orderly r) (same : r.meta_ app' = r.meta_ app) : key k app' = key k app := by
  rw [orderly.keyed,orderly.keyed,same]

theorem update_serves (fits : Fits s r spec status) (place : key k app' = key k app) (named : r.modelName app' = r.modelName app)
    (serves : s.Serves w (key k app) (r.modelName app) (r.progress app)) : Writes (s.Good w) (.update k app') := by
  intro n stored same good
  rw [fits.good] at good ⊢
  rw [key_updated,place,fits.named _ app' (fits.spec_updated n stored app'),named,
    fits.progress_status _ stored (fits.status_updated n stored app')]
  rw [same,place] at good
  exact fun here => ⟨(serves here).1,(good here).2⟩

theorem status_carried (fits : Fits s r spec status) (carried : Carried s w r app) :
    Writes (s.Good w) (.updateStatus k app) := by
  intro n stored same good
  rw [fits.good] at good ⊢
  rw [key_statusUpdated,fits.named _ stored (fits.spec_statusUpdated n stored app),
    fits.progress_status _ app (fits.status_statusUpdated n stored app)]
  exact fun here => ⟨(good here).1,carried (same.symm.trans here)⟩

/-! #### The stages -/

variable {progress : ApplicationProgress}

private theorem beyond_fail {type : ArksApplicationConditionType} {reason message : String}
    (beyond : Beyond (Progress.fail progress type reason message)) : Beyond progress := by
  rcases beyond with loaded | wrong | wrong
  · rw [Progress.check_fail] at loaded
    split at loaded
    · cases loaded
    · exact .inl loaded
  · cases wrong
  · cases wrong

theorem beyond_initialized (beyond : Beyond (Progress.initialize_ progress)) : Beyond progress := by
  rcases beyond with loaded | phase | phase
  · exact .inl (by simpa using loaded)
  · refine .inr (.inl ?_)
    rw [Progress.phase_initialized] at phase
    cases is : progress.phase <;> simp_all
  · refine .inr (.inr ?_)
    rw [Progress.phase_initialized] at phase
    cases is : progress.phase <;> simp_all

theorem beyond_precheck {flow : Flow (Object k)} (goes : r.precheck app = flow) (beyond : Beyond (r.progress flow.object)) :
    Beyond (r.progress app) := by
  cases flow with
  | stop app' outcome =>
    obtain ⟨_,_,reason,message,rfl⟩ := precheck_stop r goes
    rw [Flow.object,r.progress_revise] at beyond
    exact beyond_fail beyond
  | next app' =>
    rcases precheck_next r goes with ⟨_,rfl⟩ | ⟨_,_,rfl⟩
    · exact beyond
    · rw [Flow.object,r.progress_revise] at beyond
      rcases beyond with loaded | wrong | wrong
      · exact .inl (by simpa using loaded)
      · cases wrong
      · cases wrong

/-- An application that waits is not past waiting. -/
theorem waiting_carried {outcome : Outcome} (stops : r.waitModel app model = .stop app' outcome) :
    ¬ Beyond (r.progress app') := by
  obtain ⟨unloaded,⟨_,_,rfl⟩ | ⟨_,_,_,rfl⟩⟩ := waitModel_stop r stops
  · rw [r.progress_revise]
    rintro (loaded | wrong | wrong)
    · simp at loaded
    · cases wrong
    · cases wrong
  · rw [r.progress_revise]
    rintro (loaded | wrong | wrong)
    · simp [unloaded] at loaded
    · cases wrong
    · cases wrong

private theorem missing_carried {reason message : String} : ¬ Beyond (Progress.fail progress .loaded reason message) := by
  rintro (loaded | wrong | wrong)
  · simp at loaded
  · cases wrong
  · cases wrong

/-- Once an application need not wait any more, the model has been downloaded. -/
theorem waited_done (holds : Holds (s.Good w) w.archive) (serves : s.Serves w (key k app) (r.modelName app) (r.progress app))
    (orderly : Orderly r) (read : some model ∈ w.archive.past ⟨.model,(r.meta_ app).namespace_,r.modelName app⟩)
    (goes : r.waitModel app model = .next app') (here : key k app = (s.ns,s.application)) : s.Done w := by
  rcases waitModel_next r goes with ⟨loaded,_⟩ | ⟨_,ready,_⟩
  · exact (serves here).2 (.inl loaded)
  · have place : key .model model = key .model s.model := by
      rw [past_key (k := .model) read,(serves here).1]
      rw [orderly.keyed] at here
      rw [(Prod.mk.inj here).1]
      rfl
    have sound := (holds ⟨.model,_,_⟩ model read place).2
    exact sound.loaded (sound.ready ready .modelLoaded)

private theorem serve_sees (fits : Fits s r spec status) (holds : Holds (s.Good w) w.archive)
    (serves : s.Serves w (key k app) (r.modelName app) (r.progress app)) :
    Sees s w (fun result => r.meta_ result.1 = r.meta_ app ∧ Carried s w r result.1) (r.serve app) := by
  have orderly := fits.toOrderly
  simp only [Reconciler.serve,issue_bind,within_call]
  refine ⟨trivial,fun read told => ?_⟩
  have unread : r.meta_ app = r.meta_ app ∧ Carried s w r app := ⟨rfl,fun here => (serves here).2⟩
  rcases read with (_ | _ | _) | model
  · refine ⟨by simp,fun _ beyond => ?_⟩
    rw [r.progress_revise] at beyond
    exact absurd beyond missing_carried
  · exact unread
  · exact unread
  simp only
  cases waits : r.waitModel app model with
  | stop app' outcome =>
    refine ⟨?_,fun _ beyond => absurd beyond (waiting_carried waits)⟩
    obtain ⟨_,⟨_,_,rfl⟩ | ⟨_,_,_,rfl⟩⟩ := waitModel_stop r waits <;> simp
  | next app₁ =>
    have done : key k app = (s.ns,s.application) → s.Done w := waited_done holds serves orderly told waits
    have place := Readiness.waitModel_meta waits
    have announces : Sees s w (fun flow => r.meta_ flow.object = r.meta_ app₁) (r.announce app₁ model) := by
      refine within_mono (within_and (P := Writes (s.Good w)) (Q := fun _ => True) ?_
        (within_any (within_of_runs (fun _ _ run => announce_meta orderly.tame run)))) (fun _ is => is.1) (fun _ is => is.2)
      unfold Reconciler.announce
      split
      · trivial
      · refine within_bind (fits.starts w _ model (fun here => done ?_)) (fun flow _ => by cases flow <;> trivial)
        rw [← here]
        exact (key_meta orderly ((r.meta_revise ..).trans place)).symm
    refine within_bind announces (fun flow same => ?_)
    cases flow with
    | stop app₂ =>
      have same : r.meta_ app₂ = r.meta_ app := same.trans place
      exact ⟨same,fun here _ => done ((key_meta orderly same).symm.trans here)⟩
    | next app₂ =>
      have same : r.meta_ app₂ = r.meta_ app := same.trans place
      refine within_mono (within_and (fits.syncs w app₂ holds)
        (within_any (within_of_runs (fun _ _ run => (fits.synced run).1)))) (fun _ is => is.1) (fun result is => ?_)
      have last : r.meta_ result.1 = r.meta_ app := is.2.trans same
      exact ⟨last,fun here _ => done ((key_meta orderly last).symm.trans here)⟩

private theorem application_reconcile_sees (fits : Fits s r spec status) (holds : Holds (s.Good w) w.archive)
    (good : s.Good w k app) : Sees s w (fun result => Writes (s.Good w) (.updateStatus k result.1)) (r.reconcile app) := by
  have serves := (fits.good w app).mp good
  have unchanged : Writes (s.Good w) (.updateStatus k app) := status_carried fits (fun here => (serves here).2)
  have named : r.modelName (r.initialized app) = r.modelName app :=
    (fits.named_defaulted _).trans (fits.named_revise ..)
  have progress : r.progress (r.initialized app) = Progress.initialize_ (r.progress app) :=
    (r.progress_defaulted _).trans (r.progress_revise ..)
  have place : key k (r.initialized app) = key k app :=
    key_meta fits.toOrderly ((r.meta_defaulted _).trans (r.meta_revise ..))
  unfold Reconciler.reconcile
  split
  · exact unchanged
  split
  · exact unchanged
  split
  · have sent_place : key k (finalizing r app) = key k app := (told_apart fits.toApart (finalizing_meta app)).1
    have sent_named : r.modelName (finalizing r app) = r.modelName app :=
      (fits.named _ _ (fits.spec_withMeta ..)).trans named
    have sent_progress : r.progress (finalizing r app) = Progress.initialize_ (r.progress app) :=
      (r.progress_withMeta ..).trans progress
    refine ⟨update_serves fits sent_place sent_named serves,fun reply told => ?_⟩
    cases reply with
    | error =>
      refine status_carried fits (fun here beyond => ?_)
      exact (serves (sent_place.symm.trans here)).2 (beyond_initialized (sent_progress ▸ beyond))
    | ok stored =>
      obtain ⟨n,before,is,same⟩ := told
      refine status_carried fits (fun here beyond => ?_)
      have before_good := (fits.good w before).mp (holds (refOf k (finalizing r app)) before is)
      have before_place : key k before = key k (finalizing r app) := past_key is
      have stored_place : key k stored = key k (finalizing r app) := same ▸ key_updated ..
      have kept : r.progress stored = r.progress before :=
        fits.progress_status stored before (same ▸ fits.status_updated n before _)
      exact (before_good (before_place.trans (stored_place.symm.trans here))).2 (kept ▸ beyond)
  · cases checks : r.precheck (r.initialized app) with
    | stop app' outcome =>
      refine status_carried fits (fun here beyond => ?_)
      have same : key k app' = key k app := by
        obtain ⟨_,_,_,_,rfl⟩ := precheck_stop r checks
        exact (key_meta fits.toOrderly (r.meta_revise ..)).trans place
      have before := beyond_precheck checks beyond
      exact (serves (same.symm.trans here)).2 (beyond_initialized (progress ▸ before))
    | next app' =>
      have same : key k app' = key k app ∧ r.modelName app' = r.modelName app := by
        rcases precheck_next r checks with ⟨_,rfl⟩ | ⟨_,_,rfl⟩
        · exact ⟨place,named⟩
        · exact ⟨(key_meta fits.toOrderly (r.meta_revise ..)).trans place,(fits.named_revise ..).trans named⟩
      have serves' : s.Serves w (key k app') (r.modelName app') (r.progress app') := by
        rw [same.1,same.2]
        refine fun here => ⟨(serves here).1,fun beyond => (serves here).2 ?_⟩
        exact beyond_initialized (progress ▸ beyond_precheck checks beyond)
      exact within_mono (serve_sees fits holds serves') (fun _ is => is) (fun result is => status_carried fits is.2)

private theorem application_remove_sees (fits : Fits s r spec status) (good : s.Good w k app) :
    Sees s w (fun _ => True) (r.remove app) := by
  have serves := (fits.good w app).mp good
  unfold Reconciler.remove
  split
  · trivial
  refine within_bind (within_any (removeChildren_within _ _ (fun _ _ => trivial))) (fun removed _ => ?_)
  cases removed with
  | error => trivial
  | ok =>
    have place : key k (r.withMeta app (removeFinalizer (r.meta_ app) arksApplicationControllerFinalizer)) = key k app := by
      refine (told_apart fits.toApart ?_).1
      rw [r.meta_withMeta]
      exact sameVersion_remove ..
    refine ⟨update_serves fits place (fits.named _ _ (fits.spec_withMeta ..)) serves,fun reply _ => ?_⟩
    cases reply <;> trivial

theorem application_pass_sees (fits : Fits s r spec status) (holds : Holds (s.Good w) w.archive) (ns name : String) :
    Sees s w (fun _ => True) (r.reconcileRequest ns name) :=
  request_within trivial (fun object told => application_remove_sees fits (holds ⟨k,ns,name⟩ object told))
    (fun object told => application_reconcile_sees fits holds (holds ⟨k,ns,name⟩ object told))

end Applications

section Plain
variable {s : Supply} {w : Site} {p : Platform} {app : ArksApplication} {model : ArksModel}

/-- A leader worker set of an application carries its name. -/
theorem own_good {namespace_ name : KubeName} {lws : LeaderWorkerSet} (place : lws.namespace_ = namespace_)
    (labels : lws.labels = [(arksControllerKeyApplication,name.val)])
    (done : (namespace_.val,name.val) = (s.ns,s.application) → s.Done w) : s.Good w .lws lws := by
  rintro ⟨here,labelled⟩
  rw [labels] at labelled
  have same : s.application = name.val := (Prod.mk.inj (List.mem_singleton.mp labelled)).2
  exact done (by rw [same,← here,place])

theorem generateLws_labels {lws : LeaderWorkerSet} (generated : generateLws p app model = .object lws) :
    lws.namespace_ = app.namespace_ ∧ lws.labels = [(arksControllerKeyApplication,app.name.val)] := by
  simp only [generateLws,generated_bind,generated_pure] at generated
  obtain ⟨_,_,_,_,_,_,_,_,rfl⟩ := generated
  exact ⟨rfl,rfl⟩

private theorem startApplication_sees (done : key .application app = (s.ns,s.application) → s.Done w) :
    Sees s w (fun _ => True) (startApplication p app model) := by
  refine within_bind (ensure_within trivial (fun lws generated => ?_)) (fun lws _ => ?_)
  · obtain ⟨place,labels⟩ := generateLws_labels generated
    exact own_good place labels done
  · cases applicationFields.afterWorkload app "" "LWS" lws with
    | stop => trivial
    | next => exact within_bind (ensure_within trivial (fun _ _ => trivial)) (fun _ _ => trivial)

private theorem plain_fits (s : Supply) (p : Platform) :
    Fits s (arksApplicationReconciler p) ArksApplication.spec ArksApplication.status where
  toApart := plain_apart p
  good _ _ := Iff.rfl
  named _ _ same := congrArg ArksApplicationSpec.model same
  named_defaulted _ := rfl
  named_revise _ _ := rfl
  starts _ _ _ done := startApplication_sees done
  syncs _ _ _ := ⟨trivial,fun read _ => by rcases read with (_ | _ | _) | _ <;> trivial⟩

end Plain

section Disaggregated
open Workloads.Disaggregated (Role generateDisaggregatedLws)
open Applications.Disaggregated
variable {s : Supply} {w : Site} {p : Platform} {app : ArksDisaggregatedApplication} {model : ArksModel}

theorem generateDisaggregatedLws_labels {role : Role} {lws : LeaderWorkerSet}
    (generated : generateDisaggregatedLws p app model role = .object lws) :
    lws.namespace_ = app.namespace_ ∧ lws.labels = [(arksControllerKeyApplication,app.name.val)] := by
  simp only [generateDisaggregatedLws,generated_bind,generated_pure] at generated
  obtain ⟨_,_,_,_,_,_,_,_,_,_,rfl⟩ := generated
  exact ⟨rfl,rfl⟩

/-- The download is done if the application is the one of the supply. -/
def Done (s : Supply) (w : Site) (app : ArksDisaggregatedApplication) : Prop :=
  key .disaggregated app = (s.ns,s.application) → s.Done w

/-- A stage of the pass, which keeps the metadata. -/
theorem stage_sees {P : KubeOp → Prop} {stage : KubeAction (Flow ArksDisaggregatedApplication)} (done : Done s w app)
    (sees : Sees s w (fun _ => True) stage) (keeps : Issues P (Keeps fields app) stage) :
    Sees s w (fun flow => Done s w flow.object) stage := by
  refine within_mono (within_and sees (within_any keeps)) (fun _ is => is.1) (fun flow is here => done ?_)
  rw [← here,key,key,keeps_meta is.2]

theorem startWorkload_sees (role : Role) (done : Done s w app) :
    Sees s w (fun flow => Done s w flow.object) (startWorkload p role app model) := by
  refine stage_sees done (within_bind (ensure_within trivial (fun lws generated => ?_)) (fun _ _ => trivial))
    (startWorkload_within p app model role)
  obtain ⟨made,built,named⟩ := generated_bind.mp generated
  cases generated_pure.mp named
  obtain ⟨place,labels⟩ := generateDisaggregatedLws_labels built
  exact @own_good s w app.namespace_ app.name { made with name := lwsName role app } place labels done

/-- Calls on the kinds that stand for nothing. -/
theorem writes_aside {op : KubeOp} (kind : routerKind (kindOf op) ∨ kindOf op = .service) : Writes (s.Good w) op := by
  cases op with
  | get | list | delete => trivial
  | create k | update k | updateStatus k | patch k =>
    cases k <;> first | trivial | exact fun _ _ _ _ => trivial | (rcases kind with wrong | wrong <;> cases wrong)

theorem start_sees (done : Done s w app) : Sees s w (fun _ => True) (start p app model) := by
  have sized_done : Done s w (sized app) := fun here => done (by rw [← here,key,key,sized_meta])
  have stages : Sees s w (fun flow => Done s w flow.object) (start p app model) := start_stages sized_done
    (fun role _ done => startWorkload_sees role done)
    (fun app done => stage_sees done (within_mono (within_any (startRouter_within p app)) (fun _ kind => writes_aside (.inl kind))
      (fun _ _ => trivial)) (startRouter_within p app))
    (fun app done => stage_sees done (within_mono (within_any (startService_within app)) (fun _ kind => writes_aside (.inr kind))
      (fun _ _ => trivial)) (startService_within app))
  exact within_mono stages (fun _ is => is) (fun _ _ => trivial)

/-- The number of replicas of a leader worker set is all that is written over. -/
theorem syncWorkload_sees (holds : Holds (s.Good w) w.archive) (role : Role) :
    Sees s w (fun _ => True) (syncWorkload role app) := by
  simp only [syncWorkload,issue_bind,within_call]
  refine ⟨trivial,fun read told => ?_⟩
  rcases read with (_ | _ | _) | lws <;> try trivial
  simp only
  split
  · refine ⟨fun _ _ _ _ labelled => ?_,fun _ _ => trivial⟩
    exact holds ⟨.lws,_,_⟩ lws told labelled
  · trivial

theorem sync_sees (holds : Holds (s.Good w) w.archive) : Sees s w (fun _ => True) (sync app) :=
  sync_stages (Q := fun _ => True) trivial (fun _ _ _ => trivial) (fun role _ _ => syncWorkload_sees holds role)
    (fun app _ => within_mono (within_any (syncRouter_within app)) (fun op kind => writes_aside (.inl (by rw [kind]; trivial)))
      (fun _ _ => trivial))

private theorem disaggregated_fits (s : Supply) (p : Platform) :
    Fits s (arksDisaggregatedApplicationReconciler p) ArksDisaggregatedApplication.spec
      ArksDisaggregatedApplication.status where
  toApart := disaggregated_apart p
  good _ _ := Iff.rfl
  named _ _ same := congrArg ArksDisaggregatedApplicationSpec.model same
  named_defaulted _ := rfl
  named_revise _ _ := rfl
  starts _ _ _ done := start_sees done
  syncs _ _ holds := sync_sees holds

end Disaggregated

/-! ### Runs -/

section Runs
variable {s : Supply} {w : Site} {p : Platform}

theorem endpoint_stays : Endpoints.Stays (Tells w.archive) (Writes (s.Good w)) (fun _ => True) where
  added _ _ _ _ _ _ _ := trivial
  removed _ _ _ _ _ _ _ := trivial
  status _ _ _ _ _ _ _ := trivial
  list _ _ := ⟨trivial,trivial⟩
  route _ _ := ⟨trivial,fun _ _ => trivial⟩
  written _ _ _ _ := ⟨trivial,fun _ _ _ _ _ _ => trivial⟩

/-- Any number of replicas of the controllers, users, other controllers and the kubelet. -/
def site (ι : Type) (p : Platform) (index : Index) (s : Supply) :
    System KubeOp KubeReply ι Site Outcome :=
  Records.system index s.Others (fun _ => Pass p)

theorem pass_sees {pass : KubeAction Outcome} (is : Pass p pass) (holds : Holds (s.Good w) w.archive) :
    Sees s w (fun _ => True) pass := by
  cases is with
  | application => exact application_pass_sees (plain_fits s p) holds _ _
  | disaggregated => exact application_pass_sees (disaggregated_fits s p) holds _ _
  | model => exact model_pass_sees holds _ _
  | endpoint => exact Endpoints.request_stays endpoint_stays trivial (fun _ _ => trivial)

/-- Nothing is there yet. -/
def Site.fresh : Site := ⟨.fresh,[]⟩

private theorem fresh_holds : Holds (s.Good Site.fresh) Site.fresh.archive := by
  intro ref o is
  cases List.mem_singleton.mp is

theorem site_good {ι : Type} [DecidableEq ι] {index : Index}
    {c d : Config KubeOp KubeReply ι Site Outcome} (initial : c.shared = Site.fresh)
    (resting : ∀ i, ∃ outcome, c.prog i = .ret outcome) (run : Reach (site ι p index s) (fun _ => True) c d) :
    Holds (s.Good d.shared) d.shared.archive := by
  refine reach_holds (· ⊆ ·) (fun _ => List.Subset.refl _) (fun _ _ _ => List.Subset.trans)
    (fun _ _ k o grows good => good_grows k o grows good) (fun _ _ holds moved => others_good holds moved)
    (fun _ pass is w holds => pass_sees is holds) ?_ resting run
  rw [initial]
  exact fresh_holds

/-- No workload runs ahead of its model. Where a model with a source on the hub is ready, where an application of either
    kind that serves it is running, and where a leader worker set of that application is there at all, the script has
    downloaded the model to the path of the model before: however many replicas run, whatever they read and whichever
    calls, pods or downloads fail. -/
theorem workloads_follow_downloads {ι : Type} [DecidableEq ι] (s : Supply) (p : Platform)
    (index : Index) (c d : Config KubeOp KubeReply ι Site Outcome)
    (initial : c.shared = Site.fresh) (resting : ∀ i, ∃ outcome, c.prog i = .ret outcome)
    (run : Reach (site ι p index s) (fun _ => True) c d) :
    (∀ o : ArksModel, some o ∈ d.shared.archive.past ⟨.model,s.ns,s.model.name⟩ → o.status.phase = some .ready →
      s.download ∈ d.shared.beside) ∧
    (∀ o : ArksApplication, some o ∈ d.shared.archive.past ⟨.application,s.ns,s.application⟩ →
      o.status.phase = some .running → s.download ∈ d.shared.beside) ∧
    (∀ o : ArksDisaggregatedApplication, some o ∈ d.shared.archive.past ⟨.disaggregated,s.ns,s.application⟩ →
      o.status.phase = some .running → s.download ∈ d.shared.beside) ∧
    ∀ name (o : LeaderWorkerSet), some o ∈ d.shared.archive.past ⟨.lws,s.ns,name⟩ →
      (arksControllerKeyApplication,s.application) ∈ o.labels → s.download ∈ d.shared.beside := by
  have good := site_good initial resting run
  refine ⟨fun o is ready => ?_,fun o is running => ?_,fun o is running => ?_,fun name o is labelled => ?_⟩
  · have sound := (good ⟨.model,_,_⟩ o is (past_key (k := .model) is)).2
    exact sound.loaded (sound.ready ready .modelLoaded)
  · exact (good ⟨.application,_,_⟩ o is (past_key (k := .application) is)).2 (.inr (.inr running))
  · exact (good ⟨.disaggregated,_,_⟩ o is (past_key (k := .disaggregated) is)).2 (.inr (.inr running))
  · have place : (o.namespace_.val,o.name) = (s.ns,name) := past_key (k := .lws) is
    exact good ⟨.lws,_,_⟩ o is ⟨(Prod.mk.inj place).1,labelled⟩

/-! #### A team asks for a model from the hub -/

/-- The model `chat` as it is created. -/
def hubChat : ArksModel :=
  let model := Models.hubModel none ⟨none,[]⟩
  { model with spec := { model.spec with model := "org/chat" } }

private theorem hubChat_literal :
    contains hubChat.spec.model "$(" = false ∧ contains ("/models/models/" ++ "team-a" ++ "/" ++ "chat") "$(" = false := by
  decide +kernel

/-- It is served by an application `llm`. -/
def chatSupply : Supply where
  model := hubChat
  application := "llm"
  registered := ⟨_,_,rfl,rfl⟩
  path := "/models/models/" ++ "team-a" ++ "/" ++ "chat"
  located := rfl
  literal := hubChat_literal

/-- One replica runs the controllers. -/
abbrev Crew (w : Site) : Prop :=
  Settles (site Unit host (fun _ _ => []) chatSupply) (fun _ => True) ⟨.fresh,fun _ => .ret (.done .empty)⟩ w

/-- A pass to its end. -/
def passed (pass : KubeAction Outcome) (w : Site) : Site := ⟨ran pass w.archive,w.beside⟩

theorem crew_passed {w : Site} {pass : KubeAction Outcome} (crew : Crew w) (is : Pass host pass) : Crew (passed pass w) :=
  settles_pass (i := ()) crew is

theorem crew_write {w : Site} {k : Kind} {o : Object k} (crew : Crew w)
    (edit : users (refOf k o) (objectAt w.archive.server (refOf k o)) (some o))
    (asks : chatSupply.Asks k (objectAt w.archive.server (refOf k o)) o) : Crew ⟨w.archive.write k o,w.beside⟩ := by
  refine settles_env crew (.inl ⟨fun ref => ?_,rfl⟩) (fun _ _ => trivial)
  by_cases here : refOf k o = ref
  · subst here
    have new : objectAt (w.archive.server.put k o) (refOf k o) = some o := put_at rfl
    refine .inr ⟨some o,(if_pos rfl).trans (congrArg (· :: w.archive.past (refOf k o)) new),edit,?_⟩
    rintro _ ⟨⟩
    exact asks
  · exact .inl (if_neg (by simpa using here))

private theorem write_rewrites (a : Archive) {k : Kind} (o : Object k) : Rewrites a (a.write k o) (refOf k o) (some o) where
  here := by
    have new : objectAt (a.server.put k o) (refOf k o) = some o := put_at rfl
    exact (if_pos rfl).trans (congrArg (· :: a.past (refOf k o)) new)
  aside other differs := if_neg (by simpa using differs.symm)

/-- The controller has created the worker pod. -/
def chatLoading : Site := passed (Models.reconcileRequest host "team-a" "chat") ⟨Archive.fresh.write .model hubChat,[]⟩

private theorem crew_loading : Crew chatLoading :=
  crew_passed (crew_write ⟨_,fun _ => ⟨_,rfl⟩,.refl trivial⟩ ⟨rfl,rfl⟩ (fun _ => rfl)) (.model _ _)

/-- The script has ended with 0. -/
def chatPod : Pod :=
  inPhase (Models.workerPod host hubChat ⟨none⟩ ("/models/models/" ++ "team-a" ++ "/" ++ "chat") "chat") .succeeded []

@[inherit_doc chatPod]
def chatFetched : Site := ⟨chatLoading.archive.write .pod chatPod,[chatSupply.download]⟩

/-- The model is announced, and the application comes up. -/
def llmServed : Site :=
  passed ((arksApplicationReconciler host).reconcileRequest "team-a" "llm")
    ⟨(passed (Models.reconcileRequest host "team-a" "chat") chatFetched).archive.write .application (llmPlain ⟨none,[]⟩),
      [chatSupply.download]⟩

private theorem chat_pod_there : chatLoading.archive.server.objects .pod (key .pod chatPod).1 (key .pod chatPod).2 =
    some (Models.workerPod host hubChat ⟨none⟩ ("/models/models/" ++ "team-a" ++ "/" ++ "chat") "chat") := by
  decide +kernel

private theorem crew_fetched : Crew chatFetched := by
  let e : Environ := ⟨"org/chat","/models/models/" ++ "team-a" ++ "/" ++ "chat",none⟩
  have run : Runs (downloadModel e) [⟨.modelInfo e.modelName none,.ok ()⟩,⟨.snapshotDownload e.modelName e.modelPath none,.ok ()⟩]
      (.ok 0) := .call (.call .ret)
  have entries := entry_name hubChat ⟨none⟩ ("/models/models/" ++ "team-a" ++ "/" ++ "chat")
  have resolves : Resolves (Models.workerEnv hubChat ⟨none⟩ ("/models/models/" ++ "team-a" ++ "/" ++ "chat")) e := by
    refine ⟨fun v is _ => ?_,fun v is _ => ?_,fun v is _ => ?_⟩
    · rw [entries.1] at is
      cases is
      rfl
    · rw [entries.2] at is
      cases is
      rfl
    · cases is
  refine settles_env crew_loading (.inr ?_) (fun _ _ => trivial)
  exact @Kubelet.ends _ _ (key .pod chatPod).1 (key .pod chatPod).2 _ e _ _ [] chat_pod_there rfl resolves run
    (write_rewrites _ (k := .pod) chatPod) rfl

private theorem crew_served : Crew llmServed := by
  refine crew_passed (crew_write (crew_passed crew_fetched (.model _ _)) ?_ (fun _ => rfl)) (.application _ _)
  have absent : objectAt (passed (Models.reconcileRequest host "team-a" "chat") chatFetched).archive.server
      (refOf .application (llmPlain ⟨none,[]⟩)) = none := Option.isNone_iff_eq_none.mp (by decide +kernel)
  rw [absent]
  exact ⟨rfl,rfl⟩

/-- The leader worker set of `llm` is there, and so is the model. -/
theorem workloads_follow_downloads_llm : ∃ o : LeaderWorkerSet, some o ∈ llmServed.archive.past ⟨.lws,"team-a","llm"⟩ ∧
    (arksControllerKeyApplication,"llm") ∈ o.labels ∧ chatSupply.download ∈ llmServed.beside := by
  have there : (objectAt llmServed.archive.server ⟨.lws,"team-a","llm"⟩).map LeaderWorkerSet.labels =
      some [(arksControllerKeyApplication,"llm")] := by decide +kernel
  obtain ⟨lws,same,labels⟩ := Option.map_eq_some_iff.mp there
  have is : some lws ∈ llmServed.archive.past ⟨.lws,"team-a","llm"⟩ := same ▸ current_mem llmServed.archive _
  have labelled : (arksControllerKeyApplication,"llm") ∈ lws.labels := labels ▸ List.mem_singleton_self _
  obtain ⟨prog,_,run⟩ := crew_served
  exact ⟨lws,is,labelled,(workloads_follow_downloads chatSupply host _ _ ⟨_,prog⟩ rfl (fun _ => ⟨_,rfl⟩) run).2.2.2 "llm" lws is
    labelled⟩

end Runs

end Arks.Downloads
