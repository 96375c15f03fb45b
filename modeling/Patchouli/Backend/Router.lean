import Patchouli.Backend.ControlKeys
import Patchouli.Sqlite.Operation

/-!
# Routing by scope

`RoutingProvider` hands every call to one of its providers. The scope of the call decides which: the
first route all of whose fields the scope has, or else the default. A call that carries further
scopes, of an idempotency key or of the entities of a publication, is refused if they lead elsewhere.

Scopes are routed as texts, which the router reads again. Where a scope has floats, reading may round
them; `ScopeTexts.Recalls` says of a scope that it is read back as it was written.

## Main definitions

* `ScopeRouter`, `ScopeRouter.new`
* `ScopeRouter.routeScope`, `ScopeRouter.routeIdentity`, `Operation.route`
* `Operation.InScope` — a call whose scopes are all one

## Main results

* `ScopeRouter.new_isOk` — when there is a router
* `ScopeRouter.route_of_inScope` — such a call goes where its scope goes
-/

namespace Patchouli

open Json (Value FloatText)

/-! ### Routers -/

/-- A scope with some fields belongs to a provider. -/
structure ScopeRoute where
  scope : Meta
  provider : String

/-- The check of a route. -/
def validateRoute (names : List String) (index : ℕ) (route : ScopeRoute) :
    Except ProviderError Unit :=
  if route.scope = [] then
    .error (ProviderError.new ("provider route " ++ toString index ++
      " must match at least one scope field"))
  else if route.provider ∉ names then
    .error (ProviderError.new ("provider route " ++ toString index ++
      " references unknown provider " ++ route.provider.quote))
  else .ok ()

/-- The loop over the routes, from position `index`. -/
def validateRoutes (names : List String) : List ScopeRoute → (index : ℕ) →
    Except ProviderError Unit
  | [], _ => .ok ()
  | route :: rest, index => do
    validateRoute names index route
    validateRoutes names rest (index + 1)

/-- A `RoutingProvider`, without the connections of its providers. -/
structure ScopeRouter where
  providers : RoutingProvider
  default : String
  routes : List ScopeRoute
  capabilities : ProviderCapabilities
  default_mem : default ∈ providers.names
  routes_mem : ∀ route ∈ routes, route.scope ≠ [] ∧ route.provider ∈ providers.names

theorem validateRoutes_eq_ok {names : List String} {routes : List ScopeRoute} {index : ℕ} :
    validateRoutes names routes index = .ok () ↔
      ∀ route ∈ routes, route.scope ≠ [] ∧ route.provider ∈ names := by
  induction routes generalizing index with
  | nil => simp [validateRoutes]
  | cons route rest ih =>
    rw [validateRoutes, Except.seq_eq_ok, ih, List.forall_mem_cons]
    refine and_congr_left fun _ => ?_
    unfold validateRoute
    by_cases hscope : route.scope = []
    · simp [hscope]
    · by_cases hprovider : route.provider ∈ names <;> simp [hscope, hprovider]

/-- The capabilities of the first provider, and of the others. -/
def intersectCapabilities : List ProviderCapabilities → Option ProviderCapabilities
  | [] => none
  | first :: rest => some (.intersectAll first rest)

/-- `RoutingProvider::new`, of providers in the order of their names. -/
def ScopeRouter.new (providers : List (String × ProviderCapabilities))
    (hsorted : (providers.map (·.1)).Pairwise (· < ·)) (default : String)
    (routes : List ScopeRoute) : Except ProviderError ScopeRouter :=
  match intersectCapabilities (providers.map (·.2)) with
  | none => .error (ProviderError.new "at least one provider is required")
  | some capabilities =>
    if hdefault : default ∈ providers.map (·.1) then
      match hroutes : validateRoutes (providers.map (·.1)) routes 0 with
      | .error error => .error error
      | .ok () => .ok {
          providers := ⟨providers.map (·.1), hsorted⟩
          default, routes, capabilities
          default_mem := hdefault
          routes_mem := validateRoutes_eq_ok.mp hroutes }
    else
      .error (ProviderError.new ("default provider " ++ default.quote ++ " is not configured"))

/-- **When there is a router.** Its capabilities are those all of its providers have. -/
theorem ScopeRouter.new_isOk {providers : List (String × ProviderCapabilities)}
    {hsorted : (providers.map (·.1)).Pairwise (· < ·)} {default : String}
    {routes : List ScopeRoute} :
    (∃ router, ScopeRouter.new providers hsorted default routes = .ok router) ↔
      default ∈ providers.map (·.1) ∧
        ∀ route ∈ routes, route.scope ≠ [] ∧ route.provider ∈ providers.map (·.1) := by
  rw [← @validateRoutes_eq_ok _ _ 0]
  unfold ScopeRouter.new
  cases providers with
  | nil => simp [intersectCapabilities]
  | cons first rest =>
    generalize hproviders : first :: rest = providers at hsorted ⊢
    have hcapabilities : ∃ capabilities,
        intersectCapabilities (providers.map (·.2)) = some capabilities := by
      subst hproviders
      exact ⟨_, rfl⟩
    obtain ⟨capabilities, hcapabilities⟩ := hcapabilities
    simp only [hcapabilities]
    split_ifs with hdefault
    · split
      · rename_i error hroutes
        exact iff_of_false (by simp) fun h => by simp [hroutes] at h
      · rename_i hroutes
        exact iff_of_true ⟨_, rfl⟩ ⟨hdefault, hroutes⟩
    · exact iff_of_false (by simp) fun h => hdefault h.1

/-! ### Scopes -/

/-- How the texts of scopes and of control keys are written and read. Of a control key the router
reads the scope. -/
structure ScopeTexts where
  floats : FloatText
  readScope : String → Except String Meta
  readIdentity : String → Except String Meta

/-- A scope, as it is written. -/
def ScopeTexts.text (texts : ScopeTexts) (scope : Meta) : String :=
  jsonText texts.floats (.object scope)

/-- A scope that is read back as it was written, by itself and in every control key. -/
structure ScopeTexts.Recalls (texts : ScopeTexts) (scope : Meta) : Prop where
  read : texts.readScope (texts.text scope) = .ok scope
  identity : ∀ fields, NumbersRead fields →
    texts.readIdentity (ControlKey.text texts.floats ⟨scope, fields⟩) = .ok scope

namespace ScopeRouter

variable (router : ScopeRouter) (texts : ScopeTexts)

/-- The name of the provider of a scope. -/
def providerOf (scope : Meta) : String :=
  match router.routes.find? fun route => route.scope.all fun entry =>
      scope.lookup entry.1 = some entry.2 with
  | some route => route.provider
  | none => router.default

/-- `route_scope`. -/
def routeScope (text : String) : Except ProviderError String := do
  let scope ← (texts.readScope text).mapError fun error =>
    ProviderError.new ("invalid provider scope: " ++ error)
  if router.providerOf scope ∈ router.providers.names then return router.providerOf scope
  else .error (ProviderError.new ("provider " ++ (router.providerOf scope).quote ++
    " is not configured"))

/-- `route_identity`. -/
def routeIdentity (text : String) : Except ProviderError String := do
  let scope ← (texts.readIdentity text).mapError fun error =>
    ProviderError.new ("invalid scoped provider identity: " ++ error)
  router.routeScope texts (texts.text scope)

/-- `ensure_same_route`. -/
def ensureSameRoute (expected text : String) : Except ProviderError Unit := do
  let actual ← router.routeScope texts text
  if expected = actual then return ()
  else .error (ProviderError.new "one atomic provider operation cannot cross provider routes")

/-- The comparison of the provider of a scope with that of an idempotency key. -/
def ensureIdentityRoute (expected identity message : String) : Except ProviderError Unit := do
  let actual ← router.routeIdentity texts identity
  if expected = actual then return ()
  else .error (ProviderError.new message)

end ScopeRouter

/-- The provider of a call. -/
def Operation.route (router : ScopeRouter) (texts : ScopeTexts) : {α : Type} → Operation α →
    Except ProviderError String
  | _, readEntity key _ => router.routeScope texts key.scopeJson
  | _, readChanges query => router.routeScope texts query.scopeJson
  | _, retrieveEntities query _ => router.routeScope texts query.scopeJson
  | _, readIdempotency scope _ identity _ _ => do
    let provider ← router.routeScope texts scope
    router.ensureIdentityRoute texts provider identity
      "scope and idempotency identity route to different providers"
    return provider
  | _, commitEntity entity => router.routeScope texts entity.key.scopeJson
  | _, commitEntityIdempotent entity idempotency _ => do
    let provider ← router.routeScope texts entity.key.scopeJson
    router.ensureIdentityRoute texts provider idempotency.identityJson
      "entity and idempotency identity route to different providers"
    return provider
  | _, readEntityInWorkUnit workUnit key _ => do
    let provider ← router.routeScope texts workUnit.scopeJson
    router.ensureSameRoute texts provider key.scopeJson
    return provider
  | _, readIdempotencyInWorkUnit workUnit _ identity _ _ _ => do
    let provider ← router.routeScope texts workUnit.scopeJson
    router.ensureIdentityRoute texts provider identity
      "work unit and idempotency identity route to different providers"
    return provider
  | _, retrieveEntitiesInWorkUnit workUnit query _ => do
    let provider ← router.routeScope texts workUnit.scopeJson
    router.ensureSameRoute texts provider query.scopeJson
    return provider
  | _, commitEntityInWorkUnit staged => do
    let provider ← router.routeScope texts staged.workUnit.scopeJson
    router.ensureSameRoute texts provider staged.entity.key.scopeJson
    match staged.idempotency with
    | none => return provider
    | some idempotency => do
      router.ensureIdentityRoute texts provider idempotency.identityJson
        "work unit and idempotency identity route to different providers"
      return provider
  | _, publishWorkUnit publish => do
    let provider ← router.routeScope texts publish.workUnit.scopeJson
    publish.resolutions.forM fun resolution =>
      router.ensureSameRoute texts provider resolution.entity.key.scopeJson
    return provider

/-! ### Calls in one scope -/

/-- A control key of some scope. -/
def ScopeTexts.KeyOf (texts : ScopeTexts) (scope : Meta) (identity : String) : Prop :=
  ∃ fields, NumbersRead fields ∧ identity = ControlKey.text texts.floats ⟨scope, fields⟩

/-- A call all of whose scopes are one. -/
def Operation.InScope (texts : ScopeTexts) (scope : Meta) : {α : Type} → Operation α → Prop
  | _, readEntity key _ => key.scopeJson = texts.text scope
  | _, readChanges query => query.scopeJson = texts.text scope
  | _, retrieveEntities query _ => query.scopeJson = texts.text scope
  | _, readIdempotency scopeJson _ identity _ _ =>
    scopeJson = texts.text scope ∧ texts.KeyOf scope identity
  | _, commitEntity entity => entity.key.scopeJson = texts.text scope
  | _, commitEntityIdempotent entity idempotency _ =>
    entity.key.scopeJson = texts.text scope ∧ texts.KeyOf scope idempotency.identityJson
  | _, readEntityInWorkUnit workUnit key _ =>
    workUnit.scopeJson = texts.text scope ∧ key.scopeJson = texts.text scope
  | _, readIdempotencyInWorkUnit workUnit _ identity _ _ _ =>
    workUnit.scopeJson = texts.text scope ∧ texts.KeyOf scope identity
  | _, retrieveEntitiesInWorkUnit workUnit query _ =>
    workUnit.scopeJson = texts.text scope ∧ query.scopeJson = texts.text scope
  | _, commitEntityInWorkUnit staged =>
    staged.workUnit.scopeJson = texts.text scope ∧
      staged.entity.key.scopeJson = texts.text scope ∧
      ∀ idempotency ∈ staged.idempotency, texts.KeyOf scope idempotency.identityJson
  | _, publishWorkUnit publish =>
    publish.workUnit.scopeJson = texts.text scope ∧
      ∀ resolution ∈ publish.resolutions, resolution.entity.key.scopeJson = texts.text scope

namespace ScopeRouter

variable {router : ScopeRouter} {texts : ScopeTexts} {scope : Meta}

/-- Every route leads to a provider there is. -/
theorem providerOf_mem (router : ScopeRouter) (scope : Meta) :
    router.providerOf scope ∈ router.providers.names := by
  unfold providerOf
  split
  · rename_i route hfind
    exact (router.routes_mem route (List.mem_of_find?_eq_some hfind)).2
  · exact router.default_mem

theorem routeScope_text (h : texts.Recalls scope) :
    router.routeScope texts (texts.text scope) = .ok (router.providerOf scope) := by
  unfold routeScope
  rw [h.read]
  exact if_pos (router.providerOf_mem scope)

theorem ensureSameRoute_text (h : texts.Recalls scope) :
    router.ensureSameRoute texts (router.providerOf scope) (texts.text scope) = .ok () := by
  unfold ensureSameRoute
  rw [routeScope_text h]
  exact if_pos rfl

theorem ensureIdentityRoute_key (h : texts.Recalls scope) {identity : String}
    (hkey : texts.KeyOf scope identity) (message : String) :
    router.ensureIdentityRoute texts (router.providerOf scope) identity message = .ok () := by
  obtain ⟨fields, hfields, rfl⟩ := hkey
  unfold ensureIdentityRoute routeIdentity
  rw [h.identity fields hfields]
  show (router.routeScope texts (texts.text scope) >>= _) = _
  rw [routeScope_text h]
  exact if_pos rfl

/-- **A call goes where its scope goes.** -/
theorem route_of_inScope {α : Type} {op : Operation α} (h : texts.Recalls scope)
    (hop : op.InScope texts scope) : op.route router texts = .ok (router.providerOf scope) := by
  have hroute : router.routeScope texts (texts.text scope) = .ok (router.providerOf scope) :=
    routeScope_text h
  have hsame : router.ensureSameRoute texts (router.providerOf scope) (texts.text scope) = .ok () :=
    ensureSameRoute_text h
  have hidentity : ∀ {identity : String}, texts.KeyOf scope identity → ∀ message,
      router.ensureIdentityRoute texts (router.providerOf scope) identity message = .ok () :=
    fun hkey message => ensureIdentityRoute_key h hkey message
  cases op with
  | readEntity key consistency =>
    rw [Operation.InScope] at hop
    rw [Operation.route, hop, hroute]
  | readChanges query =>
    rw [Operation.InScope] at hop
    rw [Operation.route, hop, hroute]
  | retrieveEntities query consistency =>
    rw [Operation.InScope] at hop
    rw [Operation.route, hop, hroute]
  | commitEntity entity =>
    rw [Operation.InScope] at hop
    rw [Operation.route, hop, hroute]
  | readIdempotency scopeJson consistency identity request now =>
    rw [Operation.route, hop.1, hroute, Except.ok_bind, hidentity hop.2, Except.ok_bind]
    rfl
  | commitEntityIdempotent entity idempotency now =>
    rw [Operation.route, hop.1, hroute, Except.ok_bind, hidentity hop.2, Except.ok_bind]
    rfl
  | readEntityInWorkUnit workUnit key consistency =>
    rw [Operation.route, hop.1, hop.2, hroute, Except.ok_bind, hsame, Except.ok_bind]
    rfl
  | readIdempotencyInWorkUnit workUnit consistency identity request now allowReplay =>
    rw [Operation.route, hop.1, hroute, Except.ok_bind, hidentity hop.2, Except.ok_bind]
    rfl
  | retrieveEntitiesInWorkUnit workUnit query consistency =>
    rw [Operation.route, hop.1, hop.2, hroute, Except.ok_bind, hsame, Except.ok_bind]
    rfl
  | commitEntityInWorkUnit staged =>
    obtain ⟨hunit, hentity, hrecorded⟩ := hop
    rw [Operation.route, hunit, hroute, Except.ok_bind, hentity, hsame, Except.ok_bind]
    cases hrecord : staged.idempotency with
    | none => rfl
    | some idempotency =>
      dsimp only
      rw [hidentity (hrecorded idempotency hrecord), Except.ok_bind]
      rfl
  | publishWorkUnit publish =>
    obtain ⟨hunit, hresolutions⟩ := hop
    have hall : (publish.resolutions.forM fun resolution => router.ensureSameRoute texts
        (router.providerOf scope) resolution.entity.key.scopeJson) = .ok () :=
      Except.forM_eq_ok.mpr fun resolution hresolution => by
        rw [hresolutions resolution hresolution, hsame]
    rw [Operation.route, hunit, hroute, Except.ok_bind]
    exact Except.seq_eq_ok.mpr ⟨hall, rfl⟩

end ScopeRouter

end Patchouli
