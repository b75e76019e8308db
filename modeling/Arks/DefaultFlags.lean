import Arks.Passes

/-!
The flags that the generators of commands add by default: a policy and a port of
its metrics to the command of a router, and metrics to the commands of a server of
SGLang. A flag is left to the user when its name occurs somewhere in the command so
far. The command spells the user's arguments, and it spells names, labels and paths.
-/
namespace Arks.DefaultFlags
open Texts Api Controllers Workloads Passes
open Workloads.Disaggregated (Role generateWorkloadLabels generateWorkloadLwsLabels selectorArgs launchCommand
  generateDisaggregationRouterCommand generateDisaggregationLeaderCommand generateDisaggregationWorkerCommand)
set_option maxRecDepth 4096

/-! ### Occurrences in a command -/

section Occurrences
variable {part : String}

theorem contains_sep {sep : String} {c : Char} (one : sep.toList = [c]) (free : Lacks c part) (a b : String) :
    contains (a ++ sep ++ b) part = true ↔ contains a part = true ∨ contains b part = true := by
  simp only [contains,decide_eq_true_eq,String.toList_append,one,List.append_assoc,List.cons_append,List.nil_append]
  exact infix_sep free

/-- What has no blank occurs in a command when it occurs in one of its words. -/
theorem contains_appendArgs (free : Lacks ' ' part) (args : String) (more : List String) :
    contains (appendArgs args more) part = true ↔
      contains args part = true ∨ ∃ word ∈ more, contains word part = true := by
  induction more generalizing args with
  | nil => simp [appendArgs]
  | cons word more ih =>
    rw [show appendArgs args (word :: more) = appendArgs (args ++ " " ++ word) more from rfl,ih,contains_sep rfl free]
    simp [or_assoc]

private theorem appendArgs_append (args : String) (first second : List String) :
    appendArgs (appendArgs args first) second = appendArgs args (first ++ second) := List.foldl_append.symm

/-- A number has no letters. -/
theorem not_contains_number {c : Char} (has : c ∈ part.toList) (sign : c ≠ '-') (digit : c.isDigit = false) (n : Int) :
    contains (toString n) part = false := by
  simp only [contains,decide_eq_false_iff_not]
  intro here
  exact digits_lack n sign digit (here.subset has)

end Occurrences

/-! ### The flags -/

inductive Flag
  | policy | prometheusPort | enableMetrics
deriving DecidableEq,Repr

/-- What the generator looks for. -/
def Flag.name : Flag → String
  | .policy => "-policy"
  | .prometheusPort => "prometheus-port"
  | .enableMetrics => "enable-metrics"

/-- What the generator adds. -/
def Flag.default_ (metricPort : Int) : Flag → String
  | .policy => " --policy cache_aware"
  | .prometheusPort => " --prometheus-host 0.0.0.0 --prometheus-port " ++ toString metricPort
  | .enableMetrics => " --enable-metrics"

theorem Flag.name_word (flag : Flag) : Lacks ' ' flag.name := by cases flag <;> decide
theorem Flag.name_lacks_equals (flag : Flag) : Lacks '=' flag.name := by cases flag <;> decide
theorem Flag.name_lacks_slash (flag : Flag) : Lacks '/' flag.name := by cases flag <;> decide

theorem Flag.not_contains_number (flag : Flag) (n : Int) : contains (toString n) flag.name = false := by
  cases flag with
  | policy | prometheusPort => exact DefaultFlags.not_contains_number (c := 'p') (by decide) (by decide) (by decide) n
  | enableMetrics => exact DefaultFlags.not_contains_number (c := 'e') (by decide) (by decide) (by decide) n

/-- The defaults of some flags one after the other. -/
def defaults (metricPort : Int) (flags : List Flag) : String :=
  String.ofList (flags.flatMap (fun flag => (flag.default_ metricPort).toList))

theorem defaults_nil (metricPort : Int) : defaults metricPort [] = "" := rfl

theorem defaults_cons (metricPort : Int) (flag : Flag) (flags : List Flag) :
    defaults metricPort (flag :: flags) = flag.default_ metricPort ++ defaults metricPort flags := by
  rw [← String.toList_inj,String.toList_append]
  simp only [defaults,String.toList_ofList,List.flatMap_cons]

/-- How the default begins, which no other one does. -/
def Flag.start : Flag → String
  | .policy => " --po"
  | .prometheusPort => " --pr"
  | .enableMetrics => " --en"

theorem Flag.starts (metricPort : Int) (flag : Flag) : flag.start.toList <+: (flag.default_ metricPort).toList := by
  cases flag with
  | policy =>
    show " --po".toList <+: " --policy cache_aware".toList
    decide
  | prometheusPort =>
    have fixed : " --pr".toList <+: " --prometheus-host 0.0.0.0 --prometheus-port ".toList := by decide
    exact fixed.trans ⟨(toString metricPort).toList,String.toList_append.symm⟩
  | enableMetrics =>
    show " --en".toList <+: " --enable-metrics".toList
    decide

theorem Flag.start_inj {flag other : Flag} (begins : flag.start.toList <+: other.start.toList) : flag = other := by
  revert begins
  cases flag <;> cases other <;> decide

theorem Flag.start_length (flag : Flag) : flag.start.toList.length = 5 := by cases flag <;> decide

private theorem defaults_injective (metricPort : Int) : Function.Injective (defaults metricPort) := by
  intro first second same
  have spelled : ∀ flag : Flag, (flag.default_ metricPort).toList ≠ [] := by
    intro flag empty
    have short := (flag.starts metricPort).length_le
    simp [empty,flag.start_length] at short
  have free : ∀ flag other : Flag, (flag.default_ metricPort).toList <+: (other.default_ metricPort).toList →
      flag = other := by
    intro flag other begins
    have both := (flag.starts metricPort).trans begins
    exact Flag.start_inj (List.prefix_of_prefix_length_le both (other.starts metricPort)
      (by rw [flag.start_length,other.start_length]))
  exact spelling_injective spelled free (String.ofList_injective same)

/-! ### The generators -/

/-- A call of a generator of commands. -/
inductive Generator
  | router (app : ArksDisaggregatedApplication) (port metricPort : Int)
  | disaggregated (app : ArksDisaggregatedApplication) (model : ArksModel) (role : Role) (part : WorkLoadRole)
  | plain (app : ArksApplication) (model : ArksModel) (part : WorkLoadRole)

/-- Which generator is called. -/
inductive Site
  | router
  | disaggregated (role : Role) (part : WorkLoadRole)
  | plain (part : WorkLoadRole)
deriving DecidableEq

/-- The router's command up to the arguments of the user. -/
def routerArgs (p : Platform) (app : ArksDisaggregatedApplication) (port : Int) : String :=
  let args := "python3 -m sglang_router.launch_router --pd-disaggregation --service-discovery " ++
    "--service-discovery-port 8080 --host 0.0.0.0 --port " ++ toString port ++
    " --service-discovery-namespace " ++ app.namespace_.val
  let args := selectorArgs (args ++ " --prefill-selector") (p.range (generateWorkloadLwsLabels app .prefill .leader))
  let args := selectorArgs (args ++ " --decode-selector") (p.range (generateWorkloadLwsLabels app .decode .leader))
  appendArgs args app.spec.router.routerArgs

/-- How the command of a server begins. -/
def launchServer : WorkLoadRole → String
  | .leader => "python3 -m sglang.launch_server --dist-init-addr $(LWS_LEADER_ADDRESS):20000 " ++
      "--nnodes $(LWS_GROUP_SIZE) --node-rank $(LWS_WORKER_INDEX) --trust-remote-code --host 0.0.0.0 --port 8080"
  | .worker => "python3 -m sglang.launch_server --dist-init-addr $(LWS_LEADER_ADDRESS):20000 " ++
      "--nnodes $(LWS_GROUP_SIZE) --node-rank $(LWS_WORKER_INDEX) --trust-remote-code"

@[inherit_doc launchServer]
def launchDisaggregated : WorkLoadRole → String
  | .leader => "python3 -m sglang.launch_server --dist-init-addr $(LWS_LEADER_ADDRESS):20000 " ++
      "--nnodes $(LWS_GROUP_SIZE) --node-rank $(LWS_WORKER_INDEX) --trust-remote-code --host 0.0.0.0 --port 8080 " ++
      "--disaggregation-mode prefill"
  | .worker => "python3 -m sglang.launch_server --dist-init-addr $(LWS_LEADER_ADDRESS):20000 " ++
      "--nnodes $(LWS_GROUP_SIZE) --node-rank $(LWS_WORKER_INDEX) --trust-remote-code"

namespace Generator

def site : Generator → Site
  | router _ _ _ => .router
  | disaggregated _ _ role part => .disaggregated role part
  | plain _ _ part => .plain part

def runtime : Generator → String
  | router app _ _ => app.spec.runtime
  | disaggregated app _ _ _ => app.spec.runtime
  | plain app _ _ => app.spec.runtime

/-- The command as the shell gets it. -/
def command (p : Platform) : Generator → Generated String
  | router app port metricPort => generateDisaggregationRouterCommand p app port metricPort
  | disaggregated app model role .leader => generateDisaggregationLeaderCommand app model role
  | disaggregated app model role .worker => generateDisaggregationWorkerCommand app model role
  | plain app model .leader => do
    let command ← generateLeaderCommand app model
    pure (command.getLastD "")
  | plain app model .worker => do
    let command ← generateWorkerCommand app model
    pure (command.getLastD "")

/-- The command before any default is added. -/
def args (p : Platform) : Generator → Generated String
  | router app port _ => pure (routerArgs p app port)
  | disaggregated app model role part => do
    let path ← generateModelPath model
    pure (appendArgs (launchDisaggregated part ++ " --model-path " ++ path ++ " --served-model-name " ++
      Disaggregated.getServedModelName app ++ " --disaggregation-mode " ++ role.text) (role.workload app).runtimeCommonArgs)
  | plain app model part => do
    let path ← generateModelPath model
    pure (appendArgs (modelArgs app (launchServer part) path "--model-path" "--tp") app.spec.runtimeCommonArgs)

/-- The flags with a default, in the order in which they are looked for. -/
def flags : Generator → List Flag
  | router _ _ _ => [.policy,.prometheusPort]
  | disaggregated _ _ _ _ => [.enableMetrics]
  | plain _ _ _ => [.enableMetrics]

/-- The port that is the default of a router's flag; no other generator has one. -/
def metricPort : Generator → Int
  | router _ _ metricPort => metricPort
  | disaggregated _ _ _ _ => 0
  | plain _ _ _ => 0

/-- The arguments of the user: `RouterArgs` or `RuntimeCommonArgs`. -/
def given : Generator → List String
  | router app _ _ => app.spec.router.routerArgs
  | disaggregated app _ role _ => (role.workload app).runtimeCommonArgs
  | plain app _ _ => app.spec.runtimeCommonArgs

/-- The command has the default of the flag behind the arguments, alone or with other defaults. -/
def Appends (p : Platform) (g : Generator) (flag : Flag) : Prop :=
  ∃ args added, flag ∈ added ∧ g.args p = .object args ∧ g.command p = .object (args ++ defaults g.metricPort added)

end Generator

section Added
variable {p : Platform} {g : Generator} {args : String}

private theorem enableMetrics_eq (args : String) : enableMetrics args =
    args ++ defaults 0 ([Flag.enableMetrics].filter (fun flag => !contains args flag.name)) := by
  unfold enableMetrics
  by_cases given : contains args "enable-metrics" = true
  · rw [if_pos given,List.filter_cons_of_neg (by simpa [Flag.name] using given),List.filter_nil,defaults_nil,String.append_empty]
  · rw [if_neg given,List.filter_cons_of_pos (by simpa [Flag.name] using given),List.filter_nil,defaults_cons,defaults_nil,
      String.append_empty]
    rfl

/-- The default policy does not name the port. -/
theorem contains_policy (args : String) :
    contains (args ++ " --policy cache_aware") "prometheus-port" = contains args "prometheus-port" := by
  have other : contains "--policy cache_aware" "prometheus-port" = false := by decide
  have apart := contains_sep (show " ".toList = [' '] from rfl) Flag.prometheusPort.name_word args "--policy cache_aware"
  rw [String.append_assoc,show " " ++ "--policy cache_aware" = " --policy cache_aware" from rfl] at apart
  rw [Bool.eq_iff_iff]
  exact apart.trans (by rw [show Flag.prometheusPort.name = "prometheus-port" from rfl,other]; simp)

/-- The router looks for its flags in turn. -/
theorem routerDefaults_eq (args : String) (metricPort : Int) :
    (let args := if contains args "-policy" then args else args ++ " --policy cache_aware"
    if contains args "prometheus-port" then args
      else args ++ " --prometheus-host 0.0.0.0 --prometheus-port " ++ toString metricPort) =
    args ++ defaults metricPort ([Flag.policy,.prometheusPort].filter (fun flag => !contains args flag.name)) := by
  by_cases policy : contains args "-policy" = true
  · rw [List.filter_cons_of_neg (by simpa [Flag.name] using policy)]
    simp only [policy,if_true]
    by_cases port : contains args "prometheus-port" = true
    · rw [if_pos port,List.filter_cons_of_neg (by simpa [Flag.name] using port),List.filter_nil,defaults_nil,
        String.append_empty]
    · rw [if_neg port,List.filter_cons_of_pos (by simpa [Flag.name] using port),List.filter_nil,defaults_cons,defaults_nil,
        String.append_empty,String.append_assoc]
      rfl
  · rw [List.filter_cons_of_pos (by simpa [Flag.name] using policy),defaults_cons]
    simp only [policy,if_false,Bool.false_eq_true]
    rw [contains_policy]
    by_cases port : contains args "prometheus-port" = true
    · rw [if_pos port,List.filter_cons_of_neg (by simpa [Flag.name] using port),List.filter_nil,defaults_nil,
        String.append_empty]
      rfl
    · rw [if_neg port,List.filter_cons_of_pos (by simpa [Flag.name] using port),List.filter_nil,defaults_cons,defaults_nil,
        String.append_empty,String.append_assoc,String.append_assoc]
      rfl

/-- What the generator makes of the arguments. -/
def Generator.settled : Generator → String → String
  | router _ _ metricPort,args =>
    let args := if contains args "-policy" then args else args ++ " --policy cache_aware"
    if contains args "prometheus-port" then args
      else args ++ " --prometheus-host 0.0.0.0 --prometheus-port " ++ toString metricPort
  | disaggregated _ _ _ _,args => enableMetrics args
  | plain _ _ _,args => enableMetrics args

/-- The flags that do not occur in the arguments are those whose defaults are added. -/
theorem settled_eq (g : Generator) (args : String) : g.settled args =
    args ++ defaults g.metricPort (g.flags.filter (fun flag => !contains args flag.name)) := by
  cases g with
  | router app port metricPort => exact routerDefaults_eq args metricPort
  | disaggregated | plain => exact enableMetrics_eq args

theorem command_settled (sglang : g.runtime = "sglang") : g.command p = (do
    let args ← g.args p
    pure (g.settled args)) := by
  cases g with
  | router app port metricPort => exact if_pos sglang
  | disaggregated app model role part =>
    have launched : ∀ launch, launchCommand app model role launch = _ := fun _ => if_pos sglang
    cases part with
    | leader | worker =>
      refine (launched _).trans ?_
      rw [Generator.args]
      cases generateModelPath model <;> rfl
  | plain app model part =>
    have runs : app.spec.runtime = "sglang" := sglang
    have other : ¬ app.spec.runtime = "vllm" := by rw [runs]; decide
    cases part with
    | leader =>
      rw [Generator.command,generateLeaderCommand,if_neg other,if_pos runs,Generator.args]
      cases generateModelPath model <;> rfl
    | worker =>
      rw [Generator.command,generateWorkerCommand,if_neg other,if_pos runs,Generator.args]
      cases generateModelPath model <;> rfl

theorem command_eq (sglang : g.runtime = "sglang") (assembled : g.args p = .object args) : g.command p =
    .object (args ++ defaults g.metricPort (g.flags.filter (fun flag => !contains args flag.name))) := by
  rw [command_settled sglang,assembled,← settled_eq]
  rfl

private theorem appends_iff (sglang : g.runtime = "sglang") (assembled : g.args p = .object args) (flag : Flag) :
    g.Appends p flag ↔ flag ∈ g.flags ∧ contains args flag.name = false := by
  have made := command_eq sglang assembled
  constructor
  · rintro ⟨args',added,among,assembled',made'⟩
    obtain rfl := Generated.object.inj (assembled.symm.trans assembled')
    have same := String.append_right_inj _ |>.mp (Generated.object.inj (made.symm.trans made'))
    rw [← defaults_injective _ same] at among
    simpa using among
  · rintro ⟨has,unnamed⟩
    exact ⟨args,_,List.mem_filter.mpr ⟨has,by simp [unnamed]⟩,assembled,made⟩

end Added

/-! ### What a command spells -/

/-- The labels that a reconciler sets itself. -/
def reserved : List String :=
  [arksControllerKeyDisaggregationRole,arksControllerKeyApplication,arksControllerKeyModel,arksControllerKeyWorkLoadRole]

/-- The keys and the values of the labels that reach a pod from its specification. -/
def instanceTexts (instanceSpec : ArksInstanceSpec) : List String :=
  (instanceSpec.labels.filter (fun label => label.1 ∉ reserved)).flatMap (fun label => [label.1,label.2])

/-- What the path of a model spells: its sub-path, or its namespace and its name. -/
def pathTexts (model : ArksModel) : List String :=
  match model.spec.storage with
  | none => []
  | some storage => if storage.subPath ≠ "" then [storage.subPath] else [model.namespace_.val,model.name.val]

namespace Generator

/-- The texts in the command that are not arguments of the user. -/
def texts : Generator → List String
  | router app _ _ => [app.namespace_.val,app.name.val,app.spec.model] ++
      instanceTexts app.spec.prefill.instanceSpec ++ instanceTexts app.spec.decode.instanceSpec
  | disaggregated app model _ _ => Disaggregated.getServedModelName app :: pathTexts model
  | plain app model _ => getServedModelName app :: pathTexts model

/-- An argument of the user names the flag. -/
def Gives (g : Generator) (flag : Flag) : Prop := ∃ arg ∈ g.given, contains arg flag.name = true

/-- A text that is not an argument of the user names the flag. -/
def Mentions (g : Generator) (flag : Flag) : Prop := ∃ text ∈ g.texts, contains text flag.name = true

instance (g : Generator) (flag : Flag) : Decidable (g.Gives flag) := inferInstanceAs (Decidable (∃ _ ∈ g.given,_))
instance (g : Generator) (flag : Flag) : Decidable (g.Mentions flag) := inferInstanceAs (Decidable (∃ _ ∈ g.texts,_))

end Generator

section Spelled
variable (flag : Flag)

theorem contains_label (key value : String) :
    contains (key ++ "=" ++ value) flag.name = true ↔ contains key flag.name = true ∨ contains value flag.name = true :=
  contains_sep rfl flag.name_lacks_equals key value

private theorem reserved_plain : ∀ key ∈ reserved, contains key flag.name = false := by
  cases flag <;> decide

private theorem reserved_distinct : reserved.Nodup := by decide

theorem role_plain (role : Role) : contains role.text flag.name = false := by
  cases flag <;> cases role <;> decide

private theorem part_plain (part : WorkLoadRole) : contains part.text flag.name = false := by
  cases flag <;> cases part <;> decide

private theorem exists_setLabel {labels : Labels} {key value : String} {P : String × String → Prop} :
    (∃ label ∈ setLabel labels key value, P label) ↔ (∃ label ∈ labels, label.1 ≠ key ∧ P label) ∨ P (key,value) := by
  simp [setLabel,or_and_right,exists_or,and_assoc]

private theorem exists_instanceTexts {instanceSpec : ArksInstanceSpec} :
    (∃ text ∈ instanceTexts instanceSpec, contains text flag.name = true) ↔
      ∃ label ∈ instanceSpec.labels, label.1 ∉ reserved ∧ contains (label.1 ++ "=" ++ label.2) flag.name = true := by
  simp only [instanceTexts,contains_label,List.mem_flatMap,List.mem_filter,decide_eq_true_eq]
  constructor
  · rintro ⟨text,⟨label,⟨is,free⟩,among⟩,names⟩
    rcases List.mem_pair.mp among with rfl | rfl
    · exact ⟨label,is,free,.inl names⟩
    · exact ⟨label,is,free,.inr names⟩
  · rintro ⟨label,is,free,key | value⟩
    · exact ⟨label.1,⟨label,⟨is,free⟩,by simp⟩,key⟩
    · exact ⟨label.2,⟨label,⟨is,free⟩,by simp⟩,value⟩

/-- What the labels of the leaders spell. -/
theorem labels_iff (app : ArksDisaggregatedApplication) (role : Role) :
    (∃ label ∈ generateWorkloadLwsLabels app role .leader, contains (label.1 ++ "=" ++ label.2) flag.name = true) ↔
      contains app.name.val flag.name = true ∨ contains app.spec.model flag.name = true ∨
        ∃ text ∈ instanceTexts (role.workload app).instanceSpec, contains text flag.name = true := by
  have plain : ∀ {key : String}, key ∈ reserved → contains key flag.name = false := reserved_plain flag _
  have distinct := reserved_distinct
  simp only [reserved,List.nodup_cons,List.mem_cons,not_or] at distinct
  simp only [generateWorkloadLwsLabels,generateWorkloadLabels,exists_setLabel,exists_instanceTexts,contains_label,
    role_plain,part_plain,plain (show arksControllerKeyDisaggregationRole ∈ reserved by simp [reserved]),
    plain (show arksControllerKeyApplication ∈ reserved by simp [reserved]),
    plain (show arksControllerKeyModel ∈ reserved by simp [reserved]),
    plain (show arksControllerKeyWorkLoadRole ∈ reserved by simp [reserved])]
  simp only [reserved,List.mem_cons,List.not_mem_nil,not_or,ne_eq,distinct,not_false_eq_true,Bool.false_eq_true,false_or,
    or_false,and_false,true_and,and_assoc]
  exact ⟨by rintro ((label | name) | model); exacts [.inr (.inr label),.inl name,.inr (.inl model)],
    by rintro (name | model | label); exacts [.inl (.inr name),.inr model,.inl (.inl label)]⟩

theorem contains_path {model : ArksModel} {path : String} (told : generateModelPath model = .object path) :
    contains path flag.name = true ↔ ∃ text ∈ pathTexts model, contains text flag.name = true := by
  have slashed : ∀ a b, contains (a ++ "/" ++ b) flag.name = true ↔ _ := contains_sep rfl flag.name_lacks_slash
  have mount : contains "/models" flag.name = false := by cases flag <;> decide
  have directory : contains "/models/models" flag.name = false := by cases flag <;> decide
  unfold generateModelPath at told
  unfold pathTexts
  cases stored : model.spec.storage with
  | none => simp [stored] at told
  | some storage =>
    simp only [stored] at told
    by_cases named : storage.subPath ≠ ""
    · rw [if_pos named] at told
      obtain rfl := generated_pure.mp told
      rw [show "/models/" = "/models" ++ "/" from rfl,slashed,mount]
      simp [named]
    · rw [if_neg named] at told
      obtain rfl := generated_pure.mp told
      rw [slashed,show "/models/models/" = "/models/models" ++ "/" from rfl,slashed,directory]
      simp [named]

/-- The router's command, word by word. -/
theorem routerArgs_words (p : Platform) (app : ArksDisaggregatedApplication) (port : Int) : routerArgs p app port =
    appendArgs ("python3 -m sglang_router.launch_router --pd-disaggregation --service-discovery " ++
      "--service-discovery-port 8080 --host 0.0.0.0 --port")
      ([toString port,"--service-discovery-namespace",app.namespace_.val,"--prefill-selector"] ++
        (p.range (generateWorkloadLwsLabels app .prefill .leader)).map (fun l => l.1 ++ "=" ++ l.2) ++
        ["--decode-selector"] ++
        (p.range (generateWorkloadLwsLabels app .decode .leader)).map (fun l => l.1 ++ "=" ++ l.2) ++
        app.spec.router.routerArgs) := by
  have head : "--service-discovery-port 8080 --host 0.0.0.0 --port " =
      "--service-discovery-port 8080 --host 0.0.0.0 --port" ++ " " := rfl
  have namespace_ : " --service-discovery-namespace " = " " ++ "--service-discovery-namespace" ++ " " := rfl
  have prefill : " --prefill-selector" = " " ++ "--prefill-selector" := rfl
  have decode : " --decode-selector" = " " ++ "--decode-selector" := rfl
  unfold routerArgs selectorArgs
  rw [head,namespace_,prefill,decode]
  simp only [← appendArgs_append]
  simp only [appendArgs,List.foldl_cons,List.foldl_nil,String.append_assoc]

/-- The order in which the process ranges over the labels does not matter. -/
theorem ranged_iff {p : Platform} (ranges : ∀ labels, (p.range labels).Perm labels) (app : ArksDisaggregatedApplication)
    (role : Role) :
    (∃ word ∈ (p.range (generateWorkloadLwsLabels app role .leader)).map (fun l => l.1 ++ "=" ++ l.2),
      contains word flag.name = true) ↔
      contains app.name.val flag.name = true ∨ contains app.spec.model flag.name = true ∨
        ∃ text ∈ instanceTexts (role.workload app).instanceSpec, contains text flag.name = true := by
  rw [← labels_iff flag app role]
  simp only [List.mem_map,exists_exists_and_eq_and,(ranges _).mem_iff]

private theorem start_plain : contains ("python3 -m sglang_router.launch_router --pd-disaggregation --service-discovery " ++
    "--service-discovery-port 8080 --host 0.0.0.0 --port") flag.name = false := by
  cases flag with
  | policy | prometheusPort | enableMetrics => exact (contains_ofList_two _ _ _).trans (by decide)

/-- The words that the generators write themselves. -/
theorem words_plain : ∀ word ∈ ["--service-discovery-namespace","--prefill-selector","--decode-selector","--model-path",
    "--served-model-name","--disaggregation-mode","--tp"], contains word flag.name = false := by
  cases flag <;> decide

private theorem contains_router {p : Platform} (ranges : ∀ labels, (p.range labels).Perm labels)
    (app : ArksDisaggregatedApplication) (port metricPort : Int) :
    contains (routerArgs p app port) flag.name = true ↔
      (Generator.router app port metricPort).Gives flag ∨ (Generator.router app port metricPort).Mentions flag := by
  have gather : ∀ place name model prefill decode user : Prop,
      ((place ∨ name ∨ model ∨ prefill) ∨ name ∨ model ∨ decode) ∨ user ↔
        user ∨ ((place ∨ name ∨ model) ∨ prefill) ∨ decode := by tauto
  have plain := words_plain flag
  simp only [List.forall_mem_cons] at plain
  rw [routerArgs_words,contains_appendArgs flag.name_word]
  simp only [List.mem_append,or_and_right,exists_or,ranged_iff flag ranges app]
  simp only [List.exists_mem_cons_iff,start_plain,plain,flag.not_contains_number port,Generator.Gives,
    Generator.Mentions,Generator.given,Generator.texts,List.mem_append,or_and_right,exists_or,Role.workload,
    Bool.false_eq_true,List.not_mem_nil,false_and,exists_false,false_or,or_false]
  exact gather _ _ _ _ _ _

end Spelled

section Servers
variable (flag : Flag) {p : Platform} {model : ArksModel} {role : Role} {part : WorkLoadRole} {args : String}

theorem launchServer_plain : contains (launchServer part) flag.name = false := by
  cases part with
  | leader | worker => cases flag <;> exact (contains_ofList_two _ _ _).trans (by decide)

private theorem launchDisaggregated_plain : contains (launchDisaggregated part) flag.name = false := by
  cases part with
  | leader => cases flag <;> exact (contains_ofList_three _ _ _ _).trans (by decide)
  | worker =>
    show contains (launchServer .worker) flag.name = false
    exact launchServer_plain flag

private theorem contains_disaggregated {app : ArksDisaggregatedApplication}
    (assembled : (Generator.disaggregated app model role part).args p = .object args) :
    contains args flag.name = true ↔ (Generator.disaggregated app model role part).Gives flag ∨
      (Generator.disaggregated app model role part).Mentions flag := by
  obtain ⟨path,told,same⟩ := generated_bind.mp assembled
  obtain rfl := generated_pure.mp same
  have words : launchDisaggregated part ++ " --model-path " ++ path ++ " --served-model-name " ++
      Disaggregated.getServedModelName app ++ " --disaggregation-mode " ++ role.text =
      appendArgs (launchDisaggregated part) ["--model-path",path,"--served-model-name",Disaggregated.getServedModelName app,
        "--disaggregation-mode",role.text] := by
    rw [show " --model-path " = " " ++ "--model-path" ++ " " from rfl,
      show " --served-model-name " = " " ++ "--served-model-name" ++ " " from rfl,
      show " --disaggregation-mode " = " " ++ "--disaggregation-mode" ++ " " from rfl]
    simp only [appendArgs,List.foldl_cons,List.foldl_nil,String.append_assoc]
  have plain := words_plain flag
  simp only [List.forall_mem_cons] at plain
  rw [words,contains_appendArgs flag.name_word,contains_appendArgs flag.name_word]
  simp only [List.exists_mem_cons_iff,launchDisaggregated_plain,plain,role_plain,contains_path flag told,Generator.Gives,
    Generator.Mentions,Generator.given,Generator.texts,Bool.false_eq_true,List.not_mem_nil,false_and,exists_false,false_or,
    or_false]
  exact or_comm.trans (or_congr_right or_comm)

private theorem contains_plain {app : ArksApplication} (assembled : (Generator.plain app model part).args p = .object args) :
    contains args flag.name = true ↔ (Generator.plain app model part).Gives flag ∨
      (Generator.plain app model part).Mentions flag := by
  obtain ⟨path,told,same⟩ := generated_bind.mp assembled
  obtain rfl := generated_pure.mp same
  have words : modelArgs app (launchServer part) path "--model-path" "--tp" =
      appendArgs (launchServer part) (["--model-path",path,"--served-model-name",getServedModelName app] ++
        if 0 < app.spec.tensorParallelSize then ["--tp",toString app.spec.tensorParallelSize] else []) := by
    unfold modelArgs
    rw [show " --served-model-name " = " " ++ "--served-model-name" ++ " " from rfl]
    split <;> simp only [appendArgs,List.cons_append,List.nil_append,List.foldl_cons,List.foldl_nil,String.append_assoc]
  have plain := words_plain flag
  simp only [List.forall_mem_cons] at plain
  have parallel : ¬ ∃ word ∈ (if 0 < app.spec.tensorParallelSize then ["--tp",toString app.spec.tensorParallelSize] else []),
      contains word flag.name = true := by
    split
    · simp only [List.exists_mem_cons_iff,plain,flag.not_contains_number app.spec.tensorParallelSize,Bool.false_eq_true,
        List.not_mem_nil,false_and,exists_false,or_false,not_false_eq_true]
    · simp
  rw [words,contains_appendArgs flag.name_word,contains_appendArgs flag.name_word]
  simp only [List.mem_append,or_and_right,exists_or,parallel,List.exists_mem_cons_iff,launchServer_plain,plain,
    contains_path flag told,Generator.Gives,Generator.Mentions,Generator.given,Generator.texts,Bool.false_eq_true,
    List.not_mem_nil,false_and,exists_false,false_or,or_false]
  exact or_comm.trans (or_congr_right or_comm)

/-- A flag occurs in a command when an argument or another text names it. -/
theorem contains_args (ranges : ∀ labels, (p.range labels).Perm labels) {g : Generator}
    (assembled : g.args p = .object args) : contains args flag.name = true ↔ g.Gives flag ∨ g.Mentions flag := by
  cases g with
  | router app port metricPort =>
    obtain rfl : routerArgs p app port = args := generated_pure.mp assembled
    exact contains_router flag ranges app port metricPort
  | disaggregated app model role part => exact contains_disaggregated flag assembled
  | plain app model part => exact contains_plain flag assembled

end Servers

/-! ### Two applications -/

/-- A default is added when neither an argument nor another text names its flag. -/
theorem appends_unnamed {p : Platform} (ranges : ∀ labels, (p.range labels).Perm labels) {g : Generator}
    (sglang : g.runtime = "sglang") {args : String} (assembled : g.args p = .object args) (flag : Flag) :
    g.Appends p flag ↔ flag ∈ g.flags ∧ ¬ (g.Gives flag ∨ g.Mentions flag) := by
  rw [appends_iff sglang assembled,← contains_args flag ranges assembled,Bool.not_eq_true]

/-- With the same arguments every default is added to both commands or to neither when an argument
    names its flag, or the other texts of both commands do, or those of neither. -/
theorem default_flags_iff {p q : Platform} (ranges : ∀ labels, (p.range labels).Perm labels)
    (ranges' : ∀ labels, (q.range labels).Perm labels) {g h : Generator} (alike : g.site = h.site)
    (sglang : g.runtime = "sglang") (sglang' : h.runtime = "sglang") (arguments : g.given = h.given) {command command' : String}
    (made : g.command p = .object command) (made' : h.command q = .object command') :
    (∀ flag, g.Appends p flag ↔ h.Appends q flag) ↔
      ∀ flag ∈ g.flags, g.Gives flag ∨ (g.Mentions flag ↔ h.Mentions flag) := by
  rw [command_settled sglang] at made
  rw [command_settled sglang'] at made'
  obtain ⟨args,assembled,_⟩ := generated_bind.mp made
  obtain ⟨args',assembled',_⟩ := generated_bind.mp made'
  have flags : g.flags = h.flags := by cases g <;> cases h <;> first | rfl | cases alike
  have gives : ∀ flag, g.Gives flag ↔ h.Gives flag := by
    intro flag
    rw [Generator.Gives,Generator.Gives,arguments]
  simp only [appends_unnamed ranges sglang assembled,appends_unnamed ranges' sglang' assembled',← flags,← gives]
  constructor
  · intro same flag looked
    have both := same flag
    tauto
  · intro each flag
    have settled := each flag
    tauto

/-! ### Samples -/

def host : Platform := ⟨fun _ => "",id⟩

/-- The disaggregated application `llm` of a namespace. -/
def llmIn (place : KubeName) : ArksDisaggregatedApplication := { llmDisaggregated ⟨none,[]⟩ with namespace_ := place }

/-- The application `llm` that serves its model under a name. -/
def llmServing (served : String) : ArksApplication :=
  { llmPlain ⟨none,[]⟩ with spec := { (llmPlain ⟨none,[]⟩).spec with runtime := "sglang",servedModelName := served } }

/-- A router's command and that of a leader. -/
def routerIn (place : KubeName) : Generator := .router (llmIn place) 8080 9090

@[inherit_doc routerIn]
def leaderOf (served : String) : Generator := .plain (llmServing served) claimedModel .leader

theorem routerIn_assembled (place : KubeName) : (routerIn place).args host = .object (routerArgs host (llmIn place) 8080) := rfl

private theorem leaderOf_assembled (served : String) : ∃ args, (leaderOf served).args host = .object args :=
  ⟨_,generated_bind.mpr ⟨"/models/models/team-a/chat",rfl,rfl⟩⟩

private theorem routerIn_appends (place : KubeName) (flag : Flag) :
    (routerIn place).Appends host flag ↔ flag ∈ (routerIn place).flags ∧
      ¬ ((routerIn place).Gives flag ∨ (routerIn place).Mentions flag) :=
  appends_unnamed (fun _ => .refl _) rfl (routerIn_assembled place) flag

private theorem leaderOf_appends (served : String) (flag : Flag) :
    (leaderOf served).Appends host flag ↔ flag ∈ (leaderOf served).flags ∧
      ¬ ((leaderOf served).Gives flag ∨ (leaderOf served).Mentions flag) := by
  obtain ⟨args,assembled⟩ := leaderOf_assembled served
  exact appends_unnamed (fun _ => .refl _) rfl assembled flag

theorem default_flags_iff_teams :
    (routerIn ⟨"team-a",by decide,by decide⟩).Appends host .policy ↔
      (routerIn ⟨"team-b",by decide,by decide⟩).Appends host .policy := by
  have sglang : ∀ place, (routerIn place).runtime = "sglang" := fun _ => rfl
  have alike : ∀ place place', (routerIn place).site = (routerIn place').site := fun _ _ => rfl
  have arguments : ∀ place place', (routerIn place).given = (routerIn place').given := fun _ _ => rfl
  have made := fun place => command_eq (sglang place) (routerIn_assembled place)
  refine (default_flags_iff (fun _ => .refl _) (fun _ => .refl _) (alike _ _) (sglang _) (sglang _) (arguments _ _)
    (made _) (made _)).mpr ?_ .policy
  decide

/-- A namespace that is called after policies takes the policy away from the router, one called after the
    port the metrics, and a served name takes away the metrics of a leader. -/
theorem default_flags_differ :
    ((routerIn ⟨"team-a",by decide,by decide⟩).Appends host .policy ∧
      ¬ (routerIn ⟨"team-policy",by decide,by decide⟩).Appends host .policy) ∧
    ((routerIn ⟨"team-a",by decide,by decide⟩).Appends host .prometheusPort ∧
      ¬ (routerIn ⟨"prometheus-ports",by decide,by decide⟩).Appends host .prometheusPort) ∧
    (leaderOf "chat").Appends host .enableMetrics ∧ ¬ (leaderOf "chat-enable-metrics").Appends host .enableMetrics := by
  simp only [routerIn_appends,leaderOf_appends]
  decide

end Arks.DefaultFlags
