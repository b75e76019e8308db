import Arks.Services

/-!
Whose token it is. The index on `spec.token` may hold several tokens of different
namespaces, the cache returns them in no particular order, and the first one decides.
Two orders give the same user only if there is no choice, or if no choice has the model.
-/
namespace Arks.TokenOrder
open Programs Programs.Prog Counters Effects Services
open Api (ArksToken ArksQos)

/-! ### Tokens and their order -/

def Apart (t t' : ArksToken) : Prop := t.namespace_ ≠ t'.namespace_ ∨ t.name ≠ t'.name

/-- The tokens of a cluster. A name is given once in a namespace, and nothing keeps two of them from having the
    same `spec.token`. -/
structure TokenStore where
  tokens : List ArksToken
  distinct : tokens.Pairwise Apart

namespace TokenStore
variable (store : TokenStore)

/-- The tokens that the index has for a string. -/
def matching (token : String) : List ArksToken := store.tokens.filter (fun t => t.token = token)

/-- What the cache may answer: the tokens of the index in any order. -/
def Lists : (op : Op) → Reply op → Prop
  | .listTokens token,.ok listed => listed.Perm (store.matching token)
  | .listTokens _,.error _ => False
  | _,_ => True

/-- The program may return this. -/
def Returns {α : Type} (p : Action α) (r : α) : Prop := ∃ calls, Runs p calls r ∧ ∀ call ∈ calls, store.Lists call.1 call.2

end TokenStore

/-- The models of a token. -/
def models (t : ArksToken) : List String := t.qos.map ArksQos.arksEndpoint

/-- The same namespace, user, quota name and rate limits, or two failures. -/
def SameQos : Except String (Option UserQos) → Except String (Option UserQos) → Prop
  | .ok (some qos),.ok (some qos') => qos.namespace_ = qos'.namespace_ ∧ qos.user = qos'.user ∧
      qos.quotaName = qos'.quotaName ∧ qos.rateLimits = qos'.rateLimits
  | .error _,.error _ => True
  | _,_ => False

/-- The same models, or two failures. -/
def SameModels : Except String (List String) → Except String (List String) → Prop
  | .ok models,.ok models' => ∀ model, model ∈ models ↔ model ∈ models'
  | .error _,.error _ => True
  | _,_ => False

/-! ### Both lookups take the first token -/

/-- `GetQosByToken` behind the list of tokens. -/
def qosOfFirst (token model : String) : List ArksToken → Except String (Option UserQos)
  | [] => .error ("token not found: " ++ token)
  | obj :: _ =>
    match qosOf obj model with
    | none => .error ("model not found: " ++ model)
    | some qos => .ok (some qos)

/-- `GetModelsByToken` behind the list of tokens. -/
def modelsOfFirst (token : String) : List ArksToken → Except String (List String)
  | [] => .error ("token not found: " ++ token)
  | obj :: _ => .ok (models obj)

section Lookups
variable {store : TokenStore} {token model : String}

private theorem getQosByToken_first :
    getQosByToken token model = (ask (.listTokens token) >>= fun found => pure (found.bind (qosOfFirst token model))) := by
  refine congrArg (Prog.call (Op.listTokens token)) (funext (fun found => ?_))
  rcases found with e | _ | ⟨obj,_⟩
  · rfl
  · rfl
  · simp only [Prog.bind,Except.bind,qosOfFirst]
    cases qosOf obj model <;> rfl

private theorem getModelsByToken_first :
    getModelsByToken token = (ask (.listTokens token) >>= fun found => pure (found.bind (modelsOfFirst token))) := by
  refine congrArg (Prog.call (Op.listTokens token)) (funext (fun found => ?_))
  rcases found with e | _ | ⟨obj,_⟩ <;> rfl

/-- A lookup may return what it makes of the tokens in any order. -/
theorem lookup_returns {α : Type} {f : List ArksToken → Except String α} {r : Except String α} :
    store.Returns (ask (.listTokens token) >>= fun found => pure (found.bind f)) r ↔
      ∃ listed, listed.Perm (store.matching token) ∧ r = f listed := by
  constructor
  · rintro ⟨calls,run,answered⟩
    obtain ⟨found,rest,rfl,later⟩ := runs_call.mp run
    have listed := answered ⟨_,found⟩ List.mem_cons_self
    obtain ⟨rfl,rfl⟩ := runs_ret.mp later
    cases found with
    | error e => cases listed
    | ok found => exact ⟨found,listed,rfl⟩
  · rintro ⟨listed,perm,rfl⟩
    refine ⟨[⟨.listTokens token,.ok listed⟩],runs_call.mpr ⟨.ok listed,[],rfl,runs_ret.mpr ⟨rfl,rfl⟩⟩,?_⟩
    simpa [TokenStore.Lists] using perm

theorem getQosByToken_returns {r : Except String (Option UserQos)} :
    store.Returns (getQosByToken token model) r ↔ ∃ listed, listed.Perm
    (store.matching token) ∧ r = qosOfFirst token model listed := by
  rw [getQosByToken_first]
  exact lookup_returns

theorem getModelsByToken_returns {r : Except String (List String)} :
    store.Returns (getModelsByToken token) r ↔ ∃ listed, listed.Perm (store.matching token) ∧ r = modelsOfFirst token listed := by
  rw [getModelsByToken_first]
  exact lookup_returns

/-- Every matching token may come first. -/
theorem comes_first {t : ArksToken} (is : t ∈ store.matching token) : ∃ rest, (t :: rest).Perm (store.matching token) :=
  ⟨_,(List.perm_cons_erase is).symm⟩

/-- With two matching tokens, each has another one beside it. -/
theorem another {t : ArksToken} (is : t ∈ store.matching token) (several : 1 < (store.matching token).length) :
    ∃ t' ∈ store.matching token, Apart t t' := by
  obtain ⟨rest,perm⟩ := comes_first is
  have apart : (t :: rest).Pairwise Apart := by
    refine (perm.pairwise_iff ?_).mpr (store.distinct.filter _)
    exact fun distinct => distinct.imp Ne.symm Ne.symm
  have nonempty : 0 < rest.length := by
    have same := perm.length_eq
    simp only [List.length_cons] at same
    omega
  obtain ⟨t',other⟩ := List.exists_mem_of_length_pos nonempty
  exact ⟨t',perm.mem_iff.mp (by simp [other]),(List.pairwise_cons.mp apart).1 t' other⟩

/-- With at most one matching token there is one order. -/
theorem single_order {listed listed' : List ArksToken} (few : (store.matching token).length ≤ 1)
    (perm : listed.Perm (store.matching token)) (perm' : listed'.Perm (store.matching token)) : listed = listed' := by
  have both := perm.trans perm'.symm
  cases listed with
  | nil => exact (List.nil_perm.mp both).symm
  | cons t rest =>
    have short : rest = [] := by
      have length := perm.length_eq
      simp only [List.length_cons] at length
      exact List.eq_nil_of_length_eq_zero (by omega)
    rw [short] at both ⊢
    exact List.singleton_perm.mp both

theorem qosOf_some (t : ArksToken) : (qosOf t model).isSome = true ↔ model ∈ models t := by
  simp [qosOf,models,List.find?_isSome]

theorem qosOf_owner {t : ArksToken} {qos : UserQos} (found : qosOf t model = some qos) :
    qos.namespace_ = t.namespace_ ∧ qos.user = t.name := by
  obtain ⟨entry,_,rfl⟩ := Option.map_eq_some_iff.mp found
  exact ⟨rfl,rfl⟩

/-- A token with the model does not give the same as another token, which has another owner. -/
theorem apart_qos {t t' : ArksToken} {rest rest' : List ArksToken} (has : model ∈ models t) (apart : Apart t t') :
    ¬ SameQos (qosOfFirst token model (t :: rest)) (qosOfFirst token model (t' :: rest')) := by
  obtain ⟨qos,found⟩ := Option.isSome_iff_exists.mp ((qosOf_some t).mpr has)
  intro same
  cases other : qosOf t' model with
  | none => simp [qosOfFirst,found,other,SameQos] at same
  | some qos' =>
    simp only [qosOfFirst,found,other,SameQos] at same
    obtain ⟨ns,user⟩ := qosOf_owner found
    obtain ⟨ns',user'⟩ := qosOf_owner other
    rcases apart with apart | apart
    · exact apart (Api.KubeName.ext (ns.symm.trans (same.1.trans ns')))
    · exact apart (Api.KubeName.ext (user.symm.trans (same.2.1.trans user')))

private theorem sameQos_refl (listed : List ArksToken) :
    SameQos (qosOfFirst token model listed) (qosOfFirst token model listed) := by
  cases listed with
  | nil => trivial
  | cons t rest =>
    simp only [qosOfFirst]
    cases qosOf t model with
    | none => trivial
    | some qos => exact ⟨rfl,rfl,rfl,rfl⟩

/-- Without the model every order fails. -/
theorem lacking_fails {listed : List ArksToken} (lacking : ∀ t ∈ listed, model ∉ models t) :
    ∃ e, qosOfFirst token model listed = .error e := by
  cases listed with
  | nil => exact ⟨_,rfl⟩
  | cons t rest =>
    have none_ : qosOf t model = none := by
      have missing := mt (qosOf_some t).mp (lacking t (by simp))
      simpa using missing
    exact ⟨_,by rw [qosOfFirst,none_]⟩

end Lookups

/-- Two orders of the cache give the same user exactly when at most one token matches or no matching token has the
    model, and the same models exactly when all matching tokens have the same. -/
theorem lookups_ordered_iff (store : TokenStore) (token : String) :
    (∀ model, (∀ r r', store.Returns (getQosByToken token model) r → store.Returns (getQosByToken token model) r' →
      SameQos r r') ↔
      (store.matching token).length ≤ 1 ∨ ∀ t ∈ store.matching token, model ∉ models t) ∧
    ((∀ r r', store.Returns (getModelsByToken token) r → store.Returns (getModelsByToken token) r' → SameModels r r') ↔
      ∀ t ∈ store.matching token, ∀ t' ∈ store.matching token, ∀ model, model ∈ models t ↔ model ∈ models t') := by
  constructor
  · intro model
    simp only [getQosByToken_returns]
    constructor
    · intro same
      by_contra several
      simp only [not_or,not_le,not_forall,not_not] at several
      obtain ⟨several,t,is,has⟩ := several
      obtain ⟨t',is',apart⟩ := another is several
      obtain ⟨rest,perm⟩ := comes_first is
      obtain ⟨rest',perm'⟩ := comes_first is'
      exact apart_qos has apart (same _ _ ⟨_,perm,rfl⟩ ⟨_,perm',rfl⟩)
    · rintro (few | lacking) r r' ⟨listed,perm,rfl⟩ ⟨listed',perm',rfl⟩
      · rw [single_order few perm perm']
        exact sameQos_refl listed'
      · obtain ⟨e,fails⟩ : ∃ e, qosOfFirst token model listed = .error e :=
          lacking_fails (fun t is => lacking t (perm.mem_iff.mp is))
        obtain ⟨e',fails'⟩ : ∃ e, qosOfFirst token model listed' = .error e :=
          lacking_fails (fun t is => lacking t (perm'.mem_iff.mp is))
        rw [fails,fails']
        trivial
  · simp only [getModelsByToken_returns]
    constructor
    · intro same t is t' is'
      obtain ⟨rest,perm⟩ := comes_first is
      obtain ⟨rest',perm'⟩ := comes_first is'
      exact same _ _ ⟨_,perm,rfl⟩ ⟨_,perm',rfl⟩
    · rintro alike r r' ⟨listed,perm,rfl⟩ ⟨listed',perm',rfl⟩
      cases listed with
      | nil =>
        rw [List.nil_perm.mp (perm.trans perm'.symm)]
        trivial
      | cons t rest =>
        cases listed' with
        | nil => exact absurd (List.nil_perm.mp (perm'.trans perm.symm)) (List.cons_ne_nil _ _)
        | cons t' rest' => exact alike t (perm.mem_iff.mp (by simp)) t' (perm'.mem_iff.mp (by simp))

/-- Two teams that gave their users the same token. -/
def sharedToken : TokenStore where
  tokens := [⟨.teamA,.alice,"secret",[⟨"chat",[],"plan"⟩]⟩,
    ⟨⟨"team-b",by decide,by decide⟩,⟨"bob",by decide,by decide⟩,"secret",[⟨"chat",[],""⟩,⟨"code",[],""⟩]⟩]
  distinct := by simp [Apart,Api.KubeName.teamA]

/-- The order of the cache decides who pays for the request, and which models the user sees. -/
theorem shared_ordered :
    sharedToken.Returns (getQosByToken "secret" "chat") (.ok (some ⟨"alice","team-a","chat","plan",[]⟩)) ∧
    sharedToken.Returns (getQosByToken "secret" "chat") (.ok (some ⟨"bob","team-b","chat","",[]⟩)) ∧
    sharedToken.Returns (getModelsByToken "secret") (.ok ["chat"]) ∧
    sharedToken.Returns (getModelsByToken "secret") (.ok ["chat","code"]) := by
  have whole : sharedToken.matching "secret" = sharedToken.tokens := by decide
  have turned : sharedToken.tokens.reverse.Perm (sharedToken.matching "secret") := by
    rw [whole]
    exact List.reverse_perm _
  refine ⟨getQosByToken_returns.mpr ⟨_,.refl _,by decide⟩,getQosByToken_returns.mpr ⟨_,turned,by decide⟩,
    getModelsByToken_returns.mpr ⟨_,.refl _,by decide⟩,getModelsByToken_returns.mpr ⟨_,turned,by decide⟩⟩

end Arks.TokenOrder
