import Arks.Gateway
import Arks.TokenOrder

/-!
What the gateway lists and what it lets through. The HTTP server lists the models of a
token, and a session looks up the qos of a token on a model. They read the authorization
each in their own way. Where every authorization is a bearer one, and no two tokens share
their string, the models that are listed are those for which a session finds a qos, and whom
the listing turns away the session turns away as well.
-/
namespace Arks.Listing
open Programs Programs.Prog Api Counters Effects Services Gateway TokenOrder

/-! ### The HTTP handler -/

/-- A model as it is listed. -/
structure OpenaiModel where
  id : String
  object : String
deriving DecidableEq,Repr

structure ModelResponse where
  object : String
  data : List OpenaiModel
deriving DecidableEq,Repr

/-- What the handler writes: an error, or the list with status 200. -/
inductive HTTPAnswer
  | error (text : String) (status : Int)
  | list (response : ModelResponse)
deriving DecidableEq,Repr

/-- The names of headers are compared in ASCII. -/
def isAuthorization (n : HeaderValue) : Bool := n.key.toList.map Char.toLower = "authorization".toList

/-- `Header.Get`: the first value, empty when there is none. -/
def authorization (headers : List HeaderValue) : String := ((headers.find? isAuthorization).map HeaderValue.rawValue).getD ""

/-- The answer to a request for the models of a token. -/
def writeModels : Except String (List String) → HTTPAnswer
  | .error _ => .error "error in getting model list" 500
  | .ok modelNames => .list ⟨"list",modelNames.map (fun modelName => ⟨modelName,"model"⟩)⟩

def handleGetModels {m : Type → Type} [Monad m] (s : Server m) (headers : List HeaderValue) : m HTTPAnswer :=
  match bearer (authorization headers) with
  | none => pure (.error "Unauthorized" 401)
  | some token =>
    if token = "" then pure (.error "Unauthorized" 401)
    else do
      let modelNames ← s.configProvider.getModelsByToken token
      pure (writeModels modelNames)

/-! ### The authorization -/

/-- The names of the headers are ASCII, and every authorization is a bearer one. -/
structure Ordinary (headers : List HeaderValue) : Prop where
  ascii : ∀ n ∈ headers, ∀ c ∈ n.key.toList, c.toNat < 128
  bearers : ∀ n ∈ headers, isAuthorization n = true → (bearer n.rawValue).isSome

section Authorization
variable {headers : List HeaderValue}

private theorem toLower_ascii {c : Char} (ascii : c.toNat < 128) : toLower c = c.toLower := by
  have apart : ∀ n : Nat, 128 ≤ n → n.isValidChar → c ≠ Char.ofNat n := by
    rintro n large valid rfl
    rw [Char.toNat_ofNat,if_pos valid] at ascii
    omega
  unfold toLower
  rw [if_neg (apart _ (by decide) (by decide)),if_neg (apart _ (by decide) (by decide))]

private theorem isAuthorization_iff {n : HeaderValue} (ascii : ∀ c ∈ n.key.toList, c.toNat < 128) :
    isAuthorization n = true ↔ n.key.toList.map toLower = "authorization".toList := by
  rw [List.map_congr_left (fun c is => toLower_ascii (ascii c is)),isAuthorization,decide_eq_true_iff]

/-- The listing and the session read the same token. -/
theorem authorization_token (ordinary : Ordinary headers) : (bearer (authorization headers)).getD "" = tokenOf headers := by
  induction headers with
  | nil => decide
  | cons n headers ih =>
    have same := isAuthorization_iff (ordinary.ascii n (.head _))
    by_cases is : isAuthorization n = true
    · obtain ⟨token,found⟩ := Option.isSome_iff_exists.mp (ordinary.bearers n (.head _) is)
      rw [tokenOf,if_pos (same.mp is),found,authorization,List.find?_cons_of_pos is,Option.map_some,Option.getD_some,found]
      rfl
    · rw [tokenOf,if_neg (fun wrong => is (same.mpr wrong)),authorization,List.find?_cons_of_neg is]
      exact ih ⟨fun n is => ordinary.ascii n (.tail _ is),
        fun n is => ordinary.bearers n (.tail _ is)⟩

end Authorization

/-! ### What the handlers return -/

section Handlers
variable {store : TokenStore} {headers : List HeaderValue} {ratelimiter : RedisRateLimter} {quotaService : RedisQuotaService}
  {codec : Codec} {qos : UserQos} {model : String} {stream : Bool}

/-- The listing is what the provider makes of the tokens in some order. -/
theorem handleGetModels_returns (ordinary : Ordinary headers) {answer : HTTPAnswer}
    (returns : store.Returns (handleGetModels (newServer ratelimiter quotaService codec) headers) answer) :
    (tokenOf headers = "" ∧ answer = .error "Unauthorized" 401) ∨
      (tokenOf headers ≠ "" ∧ ∃ listed, listed.Perm (store.matching (tokenOf headers)) ∧
        answer = writeModels (modelsOfFirst (tokenOf headers) listed)) := by
  have token := authorization_token ordinary
  obtain ⟨calls,run,answered⟩ := returns
  unfold handleGetModels at run
  cases found : bearer (authorization headers) with
  | none =>
    rw [found] at run token
    exact .inl ⟨token.symm,(runs_ret.mp run).2⟩
  | some text =>
    rw [found,Option.getD_some] at token
    subst token
    rw [found] at run
    dsimp only at run
    by_cases empty : tokenOf headers = ""
    · rw [if_pos empty] at run
      exact .inl ⟨empty,(runs_ret.mp run).2⟩
    · rw [if_neg empty] at run
      obtain ⟨names,first,rest,rfl,asked,last⟩ := runs_bind.mp run
      obtain ⟨listed,perm,rfl⟩ := getModelsByToken_returns.mp
        ⟨first,asked,fun call is => answered call (List.mem_append_left _ is)⟩
      exact .inr ⟨empty,listed,perm,(runs_ret.mp last).2⟩

/-- From the limits on, the qos is returned. -/
theorem admitRequest_qos (s : Server Action) :
    Issues (fun _ => True) (fun result => result.qos = some qos) (admitRequest s qos model stream) := by
  refine within_bind within_trivial (fun limited _ => ?_)
  cases limited with
  | some => exact rfl
  | none =>
    refine within_bind within_trivial (fun exceeded _ => ?_)
    cases exceeded with
    | some => exact rfl
    | none => exact within_bind within_trivial (fun counted _ => by cases counted <;> exact rfl)

/-- A session finds what the provider makes of the tokens in some order. -/
theorem handleRequestBody_qos {body : Bytes} {reqBody : ReqBody} {token : String} {result : RequestResult}
    (parsed : codec.unmarshalRequest body = .ok reqBody) (named : reqBody.model ≠ "")
    (returns : store.Returns (handleRequestBody (newServer ratelimiter quotaService codec) body token) result) :
    ∃ listed, listed.Perm (store.matching token) ∧
      (result.qos.isSome ↔ ∃ qos, qosOfFirst token reqBody.model listed = .ok (some qos)) := by
  obtain ⟨calls,run,answered⟩ := returns
  unfold handleRequestBody at run
  rw [show (newServer ratelimiter quotaService codec).codec = codec from rfl,parsed] at run
  simp only [if_neg named] at run
  obtain ⟨found,first,rest,rfl,asked,last⟩ := runs_bind.mp run
  obtain ⟨listed,perm,rfl⟩ := getQosByToken_returns.mp ⟨first,asked,fun call is => answered call (List.mem_append_left _ is)⟩
  refine ⟨listed,perm,?_⟩
  cases resolved : qosOfFirst token reqBody.model listed with
  | error =>
    rw [resolved] at last
    rw [(runs_ret.mp last).2]
    simp
  | ok found =>
    rw [resolved] at last
    cases found with
    | none =>
      rw [(runs_ret.mp last).2]
      simp
    | some qos =>
      have kept : result.qos = some qos := by
        refine (runs_within (Q := fun result => result.qos = some qos)
          (within_bind within_trivial (fun modelList _ => ?_)) last).2
        cases modelList with
        | error => exact rfl
        | ok modelList =>
          simp only
          split
          · exact rfl
          split
          · exact rfl
          · exact admitRequest_qos _
      simp [kept]

end Handlers

/-! ### The listing and the sessions -/

/-- Both lookups, of the same tokens. -/
theorem first_agrees {token model : String} {listed : List ArksToken} :
    (∃ qos, qosOfFirst token model listed = .ok (some qos)) ↔
      ∃ modelNames, modelsOfFirst token listed = .ok modelNames ∧ model ∈ modelNames := by
  cases listed with
  | nil => simp [qosOfFirst,modelsOfFirst]
  | cons t rest =>
    have agrees : (∃ qos, qosOf t model = some qos) ↔ model ∈ models t := Option.isSome_iff_exists.symm.trans (qosOf_some t)
    simp only [modelsOfFirst,Except.ok.injEq,exists_eq_left',← agrees,qosOfFirst]
    cases qosOf t model <;> simp

/-- The session is over with a response of status 401. -/
def Unauthorized (response : ProcessingResponse) : Prop := ∃ setHeaders body, response = .immediateResponse 401 setHeaders body

private theorem headers_unauthorized {headers : List HeaderValue} :
    Unauthorized (handleRequestHeaders headers).1 ↔ tokenOf headers = "" := by
  unfold handleRequestHeaders
  by_cases empty : tokenOf headers = ""
  · simp only [empty,iff_true]
    exact ⟨_,_,rfl⟩
  · simp only [empty,iff_false]
    rintro ⟨_,_,wrong⟩
    cases wrong

/-- The listing agrees with the sessions: with the same headers the HTTP server turns away whom a session turns away for
    want of a token, and otherwise a session finds a qos for a model exactly when the model is listed. -/
theorem listing_matches_sessions (store : TokenStore) (ratelimiter : RedisRateLimter) (quotaService : RedisQuotaService)
    (codec : Codec) (headers : List HeaderValue) (ordinary : Ordinary headers)
    (few : (store.matching (tokenOf headers)).length ≤ 1) (answer : HTTPAnswer)
    (returns : store.Returns (handleGetModels (newServer ratelimiter quotaService codec) headers) answer) :
    ((∃ text, answer = .error text 401) ↔ Unauthorized (handleRequestHeaders headers).1) ∧
      ∀ body reqBody, codec.unmarshalRequest body = .ok reqBody → reqBody.model ≠ "" → tokenOf headers ≠ "" →
        ∀ result, store.Returns (handleRequestBody (newServer ratelimiter quotaService codec) body (tokenOf headers)) result →
          (result.qos.isSome ↔ ∃ response, answer = .list response ∧ reqBody.model ∈ response.data.map OpenaiModel.id) := by
  rw [headers_unauthorized]
  rcases handleGetModels_returns ordinary returns with ⟨empty,rfl⟩ | ⟨nonempty,listed,perm,rfl⟩
  · exact ⟨⟨fun _ => empty,fun _ => ⟨_,rfl⟩⟩,fun _ _ _ _ nonempty => absurd empty nonempty⟩
  refine ⟨⟨?_,fun empty => absurd empty nonempty⟩,?_⟩
  · rintro ⟨text,refused⟩
    cases made : modelsOfFirst (tokenOf headers) listed <;> rw [made] at refused <;> cases refused
  · intro body reqBody parsed named _ result returned
    obtain ⟨listed',perm',found⟩ := handleRequestBody_qos parsed named returned
    obtain rfl := single_order few perm perm'
    rw [found,first_agrees]
    cases modelsOfFirst (tokenOf headers) listed with
    | error | ok => simp [writeModels]

/-- The token of one user. -/
def oneToken : TokenStore where
  tokens := [⟨.teamA,.alice,"secret",[⟨"chat",[],""⟩]⟩]
  distinct := List.pairwise_singleton _ _

/-- Every request is for the model `chat`. -/
def chatCodec : Codec :=
  ⟨fun _ => .ok ⟨"chat",none,none⟩,fun _ => .error "",fun _ => ([],none),fun _ => "",fun _ => "",fun _ => ""⟩

abbrev chatServer : Server Action := newServer (newRedisRateLimter "" 0) ⟨""⟩ chatCodec

/-- The model `chat` is listed, so that a session finds the qos of its user. -/
theorem listing_matches_sessions_chat : ∃ result, oneToken.Returns (handleRequestBody chatServer [] "secret") result ∧
    result.qos.isSome := by
  have listed : oneToken.Returns (handleGetModels chatServer [rawHeader "Authorization" "Bearer secret"])
      (.list ⟨"list",[⟨"chat","model"⟩]⟩) :=
    ⟨[⟨.listTokens "secret",.ok oneToken.tokens⟩],.call .ret,fun call is => by
      rw [List.mem_singleton.mp is]
      exact List.Perm.refl _⟩
  have ordinary : Ordinary [rawHeader "Authorization" "Bearer secret"] := ⟨by simp [rawHeader],by decide⟩
  have asked : oneToken.Returns (handleRequestBody chatServer [] "secret")
      ⟨headerError "x-error-no-model-backends" "chat" 400 "model chat does not exist",
        some ⟨"alice","team-a","chat","",[]⟩,"chat",false⟩ :=
    ⟨[⟨.listTokens "secret",.ok oneToken.tokens⟩,⟨.listEndpoints "team-a",.ok []⟩],.call (.call .ret),fun call is => by
      rcases List.mem_cons.mp is with rfl | is
      · exact List.Perm.refl _
      · rw [List.mem_singleton.mp is]
        trivial⟩
  refine ⟨_,asked,((listing_matches_sessions oneToken _ _ chatCodec _ ordinary (by decide) _ listed).2 [] ⟨"chat",none,none⟩ rfl
    (by decide) (by decide) _ asked).mpr ⟨_,rfl,by decide⟩⟩

end Arks.Listing
