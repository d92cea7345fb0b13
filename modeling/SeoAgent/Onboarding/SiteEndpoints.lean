import SeoAgent.Onboarding.GoogleOAuth

/-!
# The requests about sites

The site endpoints of the API (`app/api/app.py`) and the two readers of Search Console
that work without a request: the analysis of a run (`app/runtime/service.py`) and the
round of the warehouse (`app/warehouse/runner.py`). Every one works on a copy of the site
it has read.
-/

namespace SeoAgent.Onboarding

open SeoAgent.Verified Service Url

/-! ## The site store -/

def notFound : OnboardingExc := .httpException 404 "Site not found."

/-- `_get_site` and `_ensure_owner`. -/
def ownedSite (siteId principalId : String) : OnboardingProc Site := do
  match ← findRecord .site siteId with
  | none => throw notFound
  | some (site, _) =>
      if site.status = .removed then throw notFound
      else if site.principalId ≠ principalId then throw (.httpException 404 "Resource not found.")
      else pure site

/-- `SiteStore.update`, in a transaction that has made the writes `before`. -/
def updateAfter (before : OnboardingWrites) (site : Site) : OnboardingProc Unit := do
  match ← findRecord .site site.siteId with
  | none => throw (.persistenceNotFoundError s!"site not found: {site.siteId}")
  | some (current, version) =>
      if site.updatedAt ≠ current.updatedAt then
        throw (.siteChangedError s!"site changed since it was read: {site.siteId}")
      else do
        let at_ ← readClock
        commitAll (before ++ [.replace .site site.siteId { site with updatedAt := at_ } version])

def updateSite (site : Site) : OnboardingProc Unit := updateAfter [] site

/-- `list_all`. -/
def listAllSites : OnboardingProc (List Site) := do
  let found ← Service.list (B := onboardingBackend) (X := onboardingOutside) .site
  pure (found.entries.map fun entry => entry.2.1)

/-- `list_for_tenant`. -/
def listForTenant (tenantId : String) : OnboardingProc (List Site) := do
  let found ← listAllSites
  pure (found.filter (·.principalId = tenantId))

/-! ## Create, verify, remove -/

/-- `create_site`. -/
def createSite (principalId name : String) (baseUrl : HttpUrl) : OnboardingProc Unit := do
  let existing ← listForTenant principalId
  askOutside (.requireSiteRoom principalId (existing.countP (·.status ≠ .removed)))
  let siteId ← makeId
  let at_ ← readClock
  tryCatch (commitAll [.create .site siteId
      { siteId, principalId, name, baseUrl, createdAt := at_, updatedAt := at_ }]) fun _ =>
    throw (.httpException 409 "Unable to create site.")

/-- `get_ownership`: a site without a token is given one. -/
def getOwnership (siteId principalId : String) : OnboardingProc Unit := do
  let site ← ownedSite siteId principalId
  if site.verificationToken = none then do
    let token ← makeId
    updateSite { site with verificationToken := some token }
  else pure ()

/-- `verify_ownership`. -/
def verifyOwnership (siteId principalId : String) : OnboardingProc Unit := do
  let site ← ownedSite siteId principalId
  match ← askOutside (.verify site) with
  | none => pure ()
  | some method => do
      let at_ ← readClock
      updateSite { site with ownershipMethod := some method, ownershipVerifiedAt := some at_ }

/-- `remove_site`. -/
def removeSite (siteId principalId : String) : OnboardingProc Unit := do
  let site ← ownedSite siteId principalId
  let underWay ← askOutside (.hasChangeUnderWay site)
  if underWay then
    throw (.httpException 409
      "A change on this site is still under way; let it finish or undo it first.")
  else updateSite { site with status := .removed }

/-! ## Search Console -/

/-- `ConfigureGSCRequest`; the list of properties is asked for without the property and
the limit. -/
structure ConfigureGSCRequest where
  propertyUrl : String
  useGoogleAccount : Bool := false
  credentialRef : Option String := none
  authMode : String := "access_token"
  rowLimit : Nat := 25000
  deriving DecidableEq, Repr

/-- `GOOGLE_ACCOUNT_AUTH_MODE`. -/
def googleAccountAuthMode : String := "oauth_refresh_token"

/-- `_gsc_credential`: the credential of a request and its mode. -/
def gscCredential (request : ConfigureGSCRequest) (tenantId : String) :
    OnboardingProc (SecretRef × String) :=
  if request.useGoogleAccount then do
    match ← readConnection tenantId with
    | none =>
        throw (.httpException 409 "Connect your Google account first (POST /v1/google/connect).")
    | some connection => pure (connection.credentialRef, googleAccountAuthMode)
  else if request.credentialRef.getD "" = "" then
    throw (.httpException 422
      "Give credential_ref, or set use_google_account after connecting Google.")
  else
    pure ({ provider := .environment, key := request.credentialRef.getD "" }, request.authMode)

/-- `_require_ownership_for_shared_credential`: whether the credential is shared. -/
def requireOwnership (site : Site) (credential : SecretRef) : Except OnboardingExc Bool :=
  if !credentialIsShared credential then .ok false
  else if site.ownershipVerifiedAt = none then
    .error (.httpException 409 ("Prove this site is yours first (POST " ++
      "/v1/sites/\x7bsite_id\x7d/ownership/verify): connect the HoshyarSEO Connector plugin, " ++
      "or add the verification meta tag."))
  else .ok true

/-- `gsc_property_lister`; what it raises is passed on. -/
def listProperties (authMode : String) (reference : SecretRef) :
    OnboardingProc (List GSCProperty) :=
  tryCatch (askOutside (.properties authMode reference)) fun
    | .raised message => throw (.httpException 502 message)
    | e => throw e

section Unicode
variable (U : Unicode)

/-- Whether a property may be the site's. -/
def fitsSite (shared : Bool) (propertyUrl : String) (site : Site) : Option Bool :=
  if shared then propertyMatchesSite U propertyUrl site.baseUrl.text
  else propertyCoversSite U propertyUrl site.baseUrl.text

/-- The properties that match the site. -/
def ownProperties (site : Site) : List GSCProperty → Except OnboardingExc (List GSCProperty)
  | [] => .ok []
  | item :: rest =>
      match propertyMatchesSite U item.siteUrl site.baseUrl.text with
      | none => .error (.valueError item.siteUrl)
      | some own => (ownProperties site rest).map fun others => if own then item :: others else others

/-- With the shared account only the site's own properties are named. -/
def visibleProperties (shared : Bool) (site : Site) (properties : List GSCProperty) :
    Except OnboardingExc (List GSCProperty) :=
  if shared then ownProperties U site properties else .ok properties

/-- An answer that names properties read with a credential. -/
def answerWith (site : Site) (credential : SecretRef) (properties : List GSCProperty) :
    OnboardingProc Unit :=
  askOutside (.listed site credential (properties.map GSCProperty.siteUrl))

/-- `available_gsc_properties`. -/
def availableGscProperties (siteId principalId : String) (request : ConfigureGSCRequest) :
    OnboardingProc Unit := do
  let site ← ownedSite siteId principalId
  let (credential, authMode) ← gscCredential request principalId
  let shared ← Prog.ofExcept (requireOwnership site credential)
  let properties ← listProperties authMode credential
  let visible ← Prog.ofExcept (visibleProperties U shared site properties)
  answerWith site credential visible

/-- `readable`. -/
def GSCProperty.readable (item : GSCProperty) : Bool := item.permissionLevel ≠ "siteUnverifiedUser"

/-- The property must be one that Google reports and lets the credential read. -/
def requireListed (shared : Bool) (site : Site) (credential : SecretRef) (authMode : String)
    (request : ConfigureGSCRequest) : OnboardingProc Unit := do
  let properties ← listProperties authMode credential
  let visible ← Prog.ofExcept (visibleProperties U shared site properties)
  match properties.find? (·.siteUrl = request.propertyUrl) with
  | none => do
      answerWith site credential visible
      throw (.httpException 422 ("This credential cannot see that property. It must match " ++
        "exactly, including the trailing slash."))
  | some chosen =>
      if chosen.readable then pure ()
      else do
        answerWith site credential [chosen]
        throw (.httpException 422 ("That property is listed but not readable with this " ++
          "credential, so every run would fail. Verify it in Search Console first."))

/-- The check with Google, on a server with a property lister. -/
def requireListedIf (hasLister shared : Bool) (site : Site) (credential : SecretRef)
    (authMode : String) (request : ConfigureGSCRequest) : OnboardingProc Unit :=
  if hasLister then requireListed U shared site credential authMode request else pure ()

/-- `configure_gsc`, on a server with a property lister or without one. -/
def configureGsc (hasLister : Bool) (siteId principalId : String)
    (request : ConfigureGSCRequest) : OnboardingProc Unit := do
  let site ← ownedSite siteId principalId
  let (credential, authMode) ← gscCredential request principalId
  let shared ← Prog.ofExcept (requireOwnership site credential)
  match fitsSite U shared request.propertyUrl site with
  | none => throw (.valueError request.propertyUrl)
  | some false => throw (.httpException 422 "The property must be this site's own domain.")
  | some true => do
      requireListedIf U hasLister shared site credential authMode request
      let propertyUrl ← Prog.ofExcept
        ((validatePropertyUrl request.propertyUrl).mapError OnboardingExc.valueError)
      let gsc : GSCConnectionConfig :=
        { propertyUrl, credentialRef := credential, authMode, rowLimit := request.rowLimit }
      updateSite { site with gsc := some gsc }

/-! ## The site adapter -/

/-- `SITE_SECRET_ENV_PREFIX`. -/
def siteSecretEnvPrefix : String := "SEO_AGENT_SITE_SECRET_"

structure ConfigureSiteAdapterRequest where
  adapterType : String
  config : Dict
  secretRefs : List (String × String)
  secrets : List (String × String)
  deriving DecidableEq

/-- `re.fullmatch(r"[a-z_]{1,50}", name)`. -/
def isCredentialName (name : String) : Bool :=
  1 ≤ name.length && name.length ≤ 50 && name.toList.all fun c => c == '_' || c.isLower

/-- The writes of the vault inside the transaction, with the references they are under. -/
def putSecrets (site : Site) :
    List (String × String) → OnboardingProc (OnboardingWrites × List (String × SecretRef))
  | [] => pure ([], [])
  | (name, value) :: rest =>
      if !isCredentialName name then
        throw (.httpException 422 "Credential names are lower-case field names.")
      else if Text.strip value = "" then
        throw (.httpException 422 s!"{name} must not be empty.")
      else do
        let key := site.siteId ++ "/" ++ name
        let current ← findRecord .siteSecret key
        let (writes, refs) ← putSecrets site rest
        pure (Service.overWrite (B := onboardingBackend) .siteSecret key
            (newSecret site.principalId site.siteId name value) current :: writes,
          (name, referenceFor site.siteId name) :: refs)

/-- `configure_site_adapter`. -/
def configureSiteAdapter (siteId principalId : String) (request : ConfigureSiteAdapterRequest) :
    OnboardingProc Unit := do
  let site ← ownedSite siteId principalId
  if request.secretRefs.any fun ref => (Text.dropPrefix? siteSecretEnvPrefix ref.2).isNone then
    throw (.httpException 422 (s!"Environment references must start with {siteSecretEnvPrefix}; " ++
      "or send the credential itself in 'secrets'."))
  else if request.secrets.any fun secret => request.secretRefs.any (·.1 = secret.1) then
    throw (.httpException 422 "Give each credential once, as a value or a reference")
  else do
    let refs : List (String × SecretRef) :=
      request.secretRefs.map fun ref => (ref.1, { provider := .environment, key := ref.2 })
    let (writes, stored) ← putSecrets site request.secrets
    let adapter : SiteAdapterConnection :=
      { adapterType := request.adapterType, config := request.config, secretRefs := refs ++ stored }
    let updated := { site with siteAdapter := some adapter }
    tryCatch (askOutside (.buildAdapter updated)) fun _ =>
      throw (.httpException 422 "Invalid adapter configuration or missing credential reference.")
    updateAfter writes updated

/-! ## Disconnecting Google -/

/-- Sites that read through the grant are detached, while no connection is in use. -/
def detachSites (tenantId : String) : List Site → OnboardingProc Unit
  | [] => pure ()
  | site :: rest => do
      let connection ← readConnection tenantId
      if connection.isSome then pure ()
      else if site.gsc.any (·.credentialRef = tenantCredentialRef tenantId) then do
        updateSite { site with gsc := none }
        detachSites tenantId rest
      else detachSites tenantId rest

/-- `google_disconnect`. -/
def googleDisconnect (tenantId : String) : OnboardingProc Unit := do
  let _ ← tryCatch (oauthDisconnect tenantId) fun
    | .oauthError message => throw (.httpException 502 message)
    | e => throw e
  let sites ← listForTenant tenantId
  detachSites tenantId sites

/-! ## Readers of Search Console -/

/-- The analysis of a run on a site, `run` of the runtime's service. -/
def analyse (siteId : String) : OnboardingProc Unit := do
  match ← findRecord .site siteId with
  | none => throw (.persistenceNotFoundError s!"site not found: {siteId}")
  | some (site, _) =>
      if site.status ≠ .active then throw (.valueError "Site must be active to run analysis.")
      else
        match site.gsc with
        | none => throw (.valueError "GSC is not configured.")
        | some gsc => askOutside (.fetch site gsc)

/-- The sites of one round of the warehouse. -/
def syncSites : List Site → OnboardingProc Unit
  | [] => pure ()
  | site :: rest =>
      match site.gsc, siteMayReadSearchConsole U site with
      | _, none => throw (.valueError site.baseUrl.text)
      | some gsc, some true => do
          -- What becomes of a day is recorded by the warehouse.
          tryCatch (askOutside (.fetch site gsc)) fun _ => pure ()
          syncSites rest
      | _, _ => syncSites rest

/-- `run_round`, as far as it reads sites. -/
def syncRound : OnboardingProc Unit := do
  let sites ← listAllSites
  syncSites U sites

/-! ## The machine -/

inductive OnboardingKind
  | createSite (principalId name : String) (baseUrl : HttpUrl)
  | getOwnership (siteId principalId : String)
  | verifyOwnership (siteId principalId : String)
  | removeSite (siteId principalId : String)
  | availableGscProperties (siteId principalId : String) (request : ConfigureGSCRequest)
  | configureGsc (hasLister : Bool) (siteId principalId : String) (request : ConfigureGSCRequest)
  | configureSiteAdapter (siteId principalId : String) (request : ConfigureSiteAdapterRequest)
  | oauthStart (tenantId : String)
  | oauthBegin (stateId : String)
  | oauthComplete (stateId : String) (code error browserNonce : Option String)
  | googleDisconnect (tenantId : String)
  | analyse (siteId : String)
  | syncRound

def onboardingBody : OnboardingKind → OnboardingProc Unit
  | .createSite principalId name baseUrl => Onboarding.createSite principalId name baseUrl
  | .getOwnership siteId principalId => Onboarding.getOwnership siteId principalId
  | .verifyOwnership siteId principalId => Onboarding.verifyOwnership siteId principalId
  | .removeSite siteId principalId => Onboarding.removeSite siteId principalId
  | .availableGscProperties siteId principalId request =>
      Onboarding.availableGscProperties U siteId principalId request
  | .configureGsc hasLister siteId principalId request =>
      Onboarding.configureGsc U hasLister siteId principalId request
  | .configureSiteAdapter siteId principalId request =>
      Onboarding.configureSiteAdapter siteId principalId request
  | .oauthStart tenantId => Onboarding.oauthStart tenantId
  | .oauthBegin stateId => Onboarding.oauthBegin stateId
  | .oauthComplete stateId code error browserNonce =>
      Onboarding.oauthComplete stateId code error browserNonce
  | .googleDisconnect tenantId => Onboarding.googleDisconnect tenantId
  | .analyse siteId => Onboarding.analyse siteId
  | .syncRound => Onboarding.syncRound U

/-- Any number of requests at once. -/
@[reducible] def onboardingProcesses : Processes onboardingBackend onboardingOutside where
  Kind := OnboardingKind
  body := onboardingBody U
  admits := fun _ _ => true

@[reducible] def onboardingMachine : Machine (iface onboardingBackend onboardingOutside) :=
  Service.machine (onboardingProcesses U)

/-- Nothing is stored yet. -/
def nothingStored : World onboardingBackend onboardingOutside := ⟨Repository.empty, {}⟩

end Unicode

end SeoAgent.Onboarding
