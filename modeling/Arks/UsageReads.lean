import Arks.Services

/-!
What the two services make of the errors of a read pipeline. `Exec` returns the error of
the first command that failed, and a missing key is such an error. So a missing key hides
the errors behind it from the check of the whole pipeline: the quota service looks at
each command again, the limiter takes whatever failed for zero.
-/
namespace Arks.UsageReads
open Programs Programs.Prog Counters Effects Services

/-! ### Pipelines -/

/-- The usage is what the read says: its value, or zero for a missing key. -/
def Tells : Except RedisErr Int → Int → Prop
  | .ok value,usage => usage = value
  | .error .nil,usage => usage = 0
  | .error (.failed _),_ => False

def isFailed : Except RedisErr Int → Bool
  | .error (.failed _) => true
  | _ => false

/-- The commands of `CheckLimit` with their results. -/
def checkCalls : List (Option CheckedItem) → List (Call Op Reply)
  | [] => []
  | none :: items => checkCalls items
  | some item :: items => ⟨.get item.key,item.getCmd⟩ :: ⟨.ttl item.key,item.ttlCmd⟩ :: checkCalls items

/-- The commands of `GetUsage` with their results. -/
def usageCalls (s : RedisQuotaService) : List (QuotaRequest × Except RedisErr Int) → List (Call Op Reply)
  | [] => []
  | (req,getCmd) :: items => ⟨.get (generateQuotaKey s.keyPrefix req),getCmd⟩ :: usageCalls s items

/-- `CheckLimit` fails or reports for every known rule what its read says. -/
def Reports (items : List (Option CheckedItem)) (r : Except String (List (Option RateLimitResponse))) : Prop :=
  ∀ responses, r = .ok responses → List.Forall₂ (fun item response => ∀ checked, item = some checked →
    ∃ report, response = some report ∧ report.ruleName = checked.req.ruleName ∧
      Tells checked.getCmd report.currentUsage) items responses

/-- `GetUsage` fails or reports for every request what its read says. -/
def ReportsUsage (items : List (QuotaRequest × Except RedisErr Int)) (r : Except String (List QuotaResult)) : Prop :=
  ∀ results, r = .ok results → List.Forall₂ (fun item result => Tells item.2 result.currentUsage) items results

/-- The first command that failed found its key missing, and a read of a counter failed for another reason. -/
def Masked (items : List (Option CheckedItem)) : Prop :=
  checkErr items = some .nil ∧ ∃ checked, some checked ∈ items ∧ isFailed checked.getCmd = true

section Reads
variable {c : RedisRateLimter} {s : RedisQuotaService} {calls : List (Call Op Reply)}

private theorem readItems_runs {items : List (Option CheckItem)} {results : List (Option CheckedItem)}
    (run : Runs (readItems items) calls results) :
    results.map (Option.map CheckedItem.toCheckItem) = items ∧ calls = checkCalls results := by
  induction items generalizing calls results with
  | nil =>
    obtain ⟨rfl,rfl⟩ := runs_ret.mp run
    exact ⟨rfl,rfl⟩
  | cons item items ih =>
    cases item with
    | none =>
      obtain ⟨later,first,last,rfl,reads,ends⟩ := runs_bind.mp run
      obtain ⟨rfl,rfl⟩ := runs_ret.mp ends
      obtain ⟨rfl,rfl⟩ := ih reads
      exact ⟨rfl,List.append_nil _⟩
    | some item =>
      obtain ⟨getCmd,rest,rfl,run₁⟩ := runs_call.mp run
      obtain ⟨ttlCmd,rest',rfl,run₂⟩ := runs_call.mp run₁
      have run₂ : Runs (readItems items >>= fun results => pure (some ⟨item,getCmd,ttlCmd⟩ :: results)) rest' results := run₂
      obtain ⟨later,first,last,rfl,reads,ends⟩ := runs_bind.mp run₂
      obtain ⟨rfl,rfl⟩ := runs_ret.mp ends
      obtain ⟨rfl,rfl⟩ := ih reads
      exact ⟨rfl,by rw [List.append_nil]; rfl⟩

private theorem getAll_runs {requests : List QuotaRequest} {items : List (QuotaRequest × Except RedisErr Int)}
    (run : Runs (s.getAll requests) calls items) : items.map Prod.fst = requests ∧ calls = usageCalls s items := by
  induction requests generalizing calls items with
  | nil =>
    obtain ⟨rfl,rfl⟩ := runs_ret.mp run
    exact ⟨rfl,rfl⟩
  | cons req requests ih =>
    obtain ⟨getCmd,rest,rfl,run₁⟩ := runs_call.mp run
    have run₁ : Runs (s.getAll requests >>= fun results => pure ((req,getCmd) :: results)) rest items := run₁
    obtain ⟨later,first,last,rfl,reads,ends⟩ := runs_bind.mp run₁
    obtain ⟨rfl,rfl⟩ := runs_ret.mp ends
    obtain ⟨rfl,rfl⟩ := ih reads
    exact ⟨rfl,by rw [List.append_nil]; rfl⟩

private theorem tells_currentValue {getCmd : Except RedisErr Int} : Tells getCmd
    (currentValue getCmd) ↔ isFailed getCmd = false := by
  rcases getCmd with (_ | _) | _ <;> simp [Tells,currentValue,isFailed]

/-- The reports say what the reads say exactly when none of them failed. -/
theorem responses_tell (now : Int) (items : List (Option CheckedItem)) :
    Reports items (.ok (items.map (Option.map (CheckedItem.response now)))) ↔
      ∀ checked, some checked ∈ items → isFailed checked.getCmd = false := by
  have each : ∀ checked : CheckedItem, (∃ report, some (checked.response now) = some report ∧
      report.ruleName = checked.req.ruleName ∧ Tells checked.getCmd report.currentUsage) ↔ isFailed checked.getCmd = false := by
    intro checked
    rw [← tells_currentValue]
    constructor
    · rintro ⟨_,⟨⟩,_,told⟩
      exact told
    · exact fun told => ⟨_,rfl,rfl,told⟩
  constructor
  · intro reports checked is
    have all := reports _ rfl
    rw [List.forall₂_map_right_iff,List.forall₂_same] at all
    exact (each checked).mp (all _ is checked rfl)
  · rintro whole _ ⟨⟩
    rw [List.forall₂_map_right_iff,List.forall₂_same]
    rintro _ is checked rfl
    exact (each checked).mpr (whole checked is)

/-- A pipeline without an error has no read that failed. -/
theorem checkErr_none {items : List (Option CheckedItem)} (fine : checkErr items = none) :
    ∀ checked, some checked ∈ items → isFailed checked.getCmd = false := by
  induction items with
  | nil => nofun
  | cons item items ih =>
    cases item with
    | none =>
      intro checked is
      exact ih fine checked (by simpa using is)
    | some item =>
      rw [checkErr,Option.or_eq_none_iff,Option.or_eq_none_iff] at fine
      intro checked is
      rcases List.mem_cons.mp is with same | is
      · cases same
        cases read : item.getCmd with
        | ok => rfl
        | error e => simp [errOf,read] at fine
      · exact ih fine.2.2 checked is

private theorem checkLimit_reports {requests : List RateLimitRequest} {r : Except String (List (Option RateLimitResponse))}
    (run : Runs (c.checkLimit requests) calls r) : ∃ now items, calls = ⟨.now (.checkLimit requests),now⟩ :: checkCalls items ∧
      items.map (Option.map CheckedItem.toCheckItem) = requests.map (c.checkItem now) ∧ (Reports items r ↔ ¬ Masked items) := by
  obtain ⟨now,rest,rfl,later⟩ := runs_call.mp run
  have later : Runs (readItems (requests.map (c.checkItem now)) >>= _) rest r := later
  obtain ⟨items,first,last,rfl,reads,ends⟩ := runs_bind.mp later
  obtain ⟨listed,rfl⟩ := readItems_runs reads
  refine ⟨now,items,?_⟩
  cases err : checkErr items with
  | none =>
    rw [err] at ends
    obtain ⟨rfl,rfl⟩ := runs_ret.mp ends
    refine ⟨by rw [List.append_nil],listed,?_⟩
    exact iff_of_true ((responses_tell now items).mpr (checkErr_none err)) (fun ⟨first,_⟩ => by simp [err] at first)
  | some e =>
    rw [err] at ends
    cases e with
    | failed message =>
      obtain ⟨rfl,rfl⟩ := runs_ret.mp ends
      exact ⟨by rw [List.append_nil],listed,iff_of_true nofun (fun ⟨first,_⟩ => by simp [err] at first)⟩
    | nil =>
      obtain ⟨rfl,rfl⟩ := runs_ret.mp ends
      refine ⟨by rw [List.append_nil],listed,?_⟩
      rw [responses_tell,Masked,err]
      simp

/-- The quota service looks at every read again. -/
theorem usageResults_tell {items : List (QuotaRequest × Except RedisErr Int)} : ReportsUsage items (usageResults items) := by
  induction items with
  | nil =>
    rintro _ ⟨⟩
    exact .nil
  | cons item items ih =>
    obtain ⟨req,getCmd⟩ := item
    intro results found
    -- a command that did not fail tells its value, and the rest is read
    cases rest : usageResults items with
    | error e =>
      rcases getCmd with (_ | message) | value <;> simp [usageResults,rest] at found
    | ok later =>
      rcases getCmd with (_ | message) | value <;> simp only [usageResults,rest] at found
      · cases found
        exact .cons rfl (ih later rest)
      · cases found
      · cases found
        exact .cons rfl (ih later rest)

private theorem getUsage_reports {requests : List QuotaRequest} {r : Except String (List QuotaResult)}
    (run : Runs (s.getUsage requests) calls r) :
    ∃ items, calls = usageCalls s items ∧ items.map Prod.fst = requests ∧ ReportsUsage items r := by
  obtain ⟨items,first,last,rfl,reads,ends⟩ := runs_bind.mp run
  obtain ⟨listed,rfl⟩ := getAll_runs reads
  split at ends
  · obtain ⟨rfl,rfl⟩ := runs_ret.mp ends
    exact ⟨items,List.append_nil _,listed,nofun⟩
  · obtain ⟨rfl,rfl⟩ := runs_ret.mp ends
    exact ⟨items,List.append_nil _,listed,usageResults_tell⟩

end Reads

/-- Whatever the commands of the pipelines return, `CheckLimit` fails or reports what its reads say exactly when no
    missing key hides a read that failed, and `GetUsage` always does. -/
theorem usage_reported_iff (c : RedisRateLimter) (s : RedisQuotaService) :
    (∀ requests calls r, Runs (c.checkLimit requests) calls r →
      ∃ now items, calls = ⟨.now (.checkLimit requests),now⟩ :: checkCalls items ∧
        items.map (Option.map CheckedItem.toCheckItem) = requests.map (c.checkItem now) ∧ (Reports items r ↔ ¬ Masked items)) ∧
    (∀ requests calls r, Runs (s.getUsage requests) calls r →
      ∃ items, calls = usageCalls s items ∧ items.map Prod.fst = requests ∧ ReportsUsage items r) :=
  ⟨fun _ _ _ run => checkLimit_reports run,fun _ _ _ run => getUsage_reports run⟩

/-! ### A missing key and a failed read -/

def tokenKey : String := "arks-ratelimiter:namespace=team-a.user=alice.model=chat.tpm:0"

def bothLimits : List RateLimitRequest :=
  ["rpm","tpm"].map (fun name => ⟨[⟨"namespace","team-a"⟩,⟨"user","alice"⟩,⟨"model","chat"⟩],name,5,1⟩)

/-- Redis with no keys, in which every read of the token counter fails. -/
def failing (op : Op) (w : World) : Reply op × World :=
  match op with
  | .get key => if key = tokenKey then (.error (.failed "CLUSTERDOWN The cluster is down"),w) else perform (.get key) w
  | op => perform op w

def readFailed : Call Op Reply → Bool
  | ⟨.get _,.error (.failed _)⟩ => true
  | _ => false

/-- A read that failed is among the calls. -/
theorem failed_call {items : List (Option CheckedItem)} {checked : CheckedItem} (is : some checked ∈ items)
    (failed : isFailed checked.getCmd = true) : (checkCalls items).any readFailed = true := by
  induction items with
  | nil => cases is
  | cons item items ih =>
    cases item with
    | none => exact ih (by simpa using is)
    | some item =>
      rw [checkCalls,List.any_cons,List.any_cons,Bool.or_eq_true,Bool.or_eq_true]
      rcases List.mem_cons.mp is with same | is
      · cases same
        refine .inl ?_
        cases read : checked.getCmd with
        | ok => simp [isFailed,read] at failed
        | error e => cases e <;> simp [isFailed,read,readFailed] at failed ⊢
      · exact .inr (.inr (ih is))

def summary (responses : List (Option RateLimitResponse)) : List (Option (String × Int × Bool)) :=
  responses.map (Option.map (fun response => (response.ruleName,response.currentUsage,response.overLimit)))

/-- The counters of a store with no keys are reported as they are. -/
theorem usage_reported_iff_missing : ∃ calls responses items,
    Runs ((newRedisRateLimter "arks-ratelimiter" 0).checkLimit bothLimits) calls (.ok responses) ∧ Reports items
    (.ok responses) := by
  obtain ⟨responses,found⟩ : ∃ responses,
      (exec perform ((newRedisRateLimter "arks-ratelimiter" 0).checkLimit bothLimits)
        (World.fresh [] [] [])).1 = .ok responses := ⟨_,rfl⟩
  have run := exec_runs perform ((newRedisRateLimter "arks-ratelimiter" 0).checkLimit bothLimits) (World.fresh [] [] [])
  rw [found] at run
  obtain ⟨now,items,same,_,reports⟩ := (usage_reported_iff (newRedisRateLimter "arks-ratelimiter" 0) ⟨"arks-quota"⟩).1 _ _ _ run
  refine ⟨_,responses,items,run,reports.mpr (fun ⟨_,checked,is,fails⟩ => ?_)⟩
  have failed : (Programs.calls perform ((newRedisRateLimter "arks-ratelimiter" 0).checkLimit bothLimits)
      (World.fresh [] [] [])).any readFailed = true := by
    rw [same,List.any_cons,failed_call is fails,Bool.or_true]
  exact absurd failed (by decide +kernel)

/-- The read of the token counter fails behind a missing key, and it is reported as unused. -/
theorem failed_unused : ∃ calls responses,
    Runs ((newRedisRateLimter "arks-ratelimiter" 0).checkLimit bothLimits) calls (.ok responses) ∧
    calls.any readFailed = true ∧ summary responses = [some ("rpm",0,false),some ("tpm",0,false)] := by
  obtain ⟨responses,found,reported⟩ : ∃ responses,
      (exec failing ((newRedisRateLimter "arks-ratelimiter" 0).checkLimit bothLimits) (World.fresh [] [] [])).1 = .ok responses ∧
        summary responses = [some ("rpm",0,false),some ("tpm",0,false)] := ⟨_,rfl,by decide +kernel⟩
  refine ⟨Programs.calls failing ((newRedisRateLimter "arks-ratelimiter" 0).checkLimit bothLimits) (World.fresh [] [] []),
    responses,?_,by decide +kernel,reported⟩
  rw [← found]
  exact exec_runs _ _ _

end Arks.UsageReads
