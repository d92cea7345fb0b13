import SeoAgent.Onboarding.Ownership
import SeoAgent.Verified.Overwrite

/-!
# The records of onboarding

Sites, the secrets of the vault, the states of Google sign-ins and the connections to
Google, over one repository (`app/onboarding/site_store.py`, `vault.py`,
`google_oauth.py`). Google, the ciphers, the property lister, the adapters and the plans
are outside. The outside keeps the tokens whose revocation Google confirmed, what was
fetched from Search Console and what was listed to a tenant; no request reads them.
-/

namespace SeoAgent.Onboarding

open SeoAgent.Verified Service

/-! ## Records -/

/-- `StoredSecret`, with the value its ciphertext has. -/
structure StoredSecret where
  tenantId : String
  siteId : String
  name : String
  sealedValue : String := ""
  erased : Bool := false
  deriving DecidableEq, Repr

/-- `OAuthState`; times in microseconds. -/
structure OAuthState where
  stateId : String
  tenantId : String
  codeVerifier : String
  browserNonce : String
  createdAt : Int
  begun : Bool := false
  used : Bool := false
  deriving DecidableEq, Repr

structure GoogleConnection where
  tenantId : String
  email : Option String := none
  scopes : List String
  credentialRef : SecretRef
  connectedAt : Int
  disconnectedAt : Option Int := none
  deriving DecidableEq, Repr

inductive OnboardingType
  | site
  | siteSecret
  | googleOauthState
  | googleConnection
  deriving DecidableEq, Repr

@[reducible] def OnboardingType.Payload : OnboardingType → Type
  | site => Site
  | siteSecret => StoredSecret
  | googleOauthState => OAuthState
  | googleConnection => GoogleConnection

instance OnboardingType.decidableEqPayload : (t : OnboardingType) → DecidableEq t.Payload
  | site => inferInstanceAs (DecidableEq Site)
  | siteSecret => inferInstanceAs (DecidableEq StoredSecret)
  | googleOauthState => inferInstanceAs (DecidableEq OAuthState)
  | googleConnection => inferInstanceAs (DecidableEq GoogleConnection)

inductive OnboardingExc
  | persistenceConflictError
  | persistenceNotFoundError (message : String)
  | siteChangedError (message : String)
  | databaseError (message : String)
  | secretResolutionError (message : String)
  | oauthError (message : String)
  | httpException (status : Nat) (detail : String)
  | valueError (message : String)
  /-- Whatever the outside raises. -/
  | raised (message : String)
  deriving DecidableEq, Repr

def OnboardingExc.refused (_ : OnboardingType) (i : String) : Repository.Refusal → OnboardingExc
  | .notFound => persistenceNotFoundError i
  | _ => persistenceConflictError

@[reducible] def onboardingBackend : Backend where
  T := OnboardingType
  Payload := OnboardingType.Payload
  Exn := OnboardingExc
  refused := OnboardingExc.refused
  broken := .databaseError

/-! ## The outside -/

/-- What Google's token endpoint answers, with the e-mail of its identity token. -/
structure TokenBody where
  error : Option String := none
  scope : String := ""
  refreshToken : Option String := none
  email : Option String := none
  deriving DecidableEq, Repr

/-- `GSCProperty`. -/
structure GSCProperty where
  siteUrl : String
  permissionLevel : String
  deriving DecidableEq, Repr

inductive OnboardingOp
  | exchange (code codeVerifier : String)
  | revoke (token : String)
  /-- Decryption of a stored secret. -/
  | unseal (secret : StoredSecret)
  /-- `gsc_property_lister`. -/
  | properties (authMode : String) (reference : SecretRef)
  /-- `OwnershipVerifier.verify`. -/
  | verify (site : Site)
  /-- `adapter_factory.build`. -/
  | buildAdapter (site : Site)
  | requireSiteRoom (tenantId : String) (sites : Nat)
  | hasChangeUnderWay (site : Site)
  /-- The answer to a request that names properties read with a credential. -/
  | listed (site : Site) (credential : SecretRef) (properties : List String)
  /-- Search Console data of the site's property, for an analysis or a sync. -/
  | fetch (site : Site) (gsc : GSCConnectionConfig)
  deriving DecidableEq

@[reducible] def OnboardingOp.Res : OnboardingOp → Type
  | .exchange _ _ => Nat × TokenBody
  | .revoke _ => Nat
  | .unseal _ => String
  | .properties _ _ => List GSCProperty
  | .verify _ => Option String
  | .buildAdapter _ => Unit
  | .requireSiteRoom _ _ => Unit
  | .hasChangeUnderWay _ => Bool
  | .listed _ _ _ => Unit
  | .fetch _ _ => Unit

/-- How the outside answers. -/
inductive OnboardingChoice
  | fails (message : String)
  | done
  | tokens (status : Nat) (body : TokenBody)
  | status (n : Nat)
  | properties (found : List GSCProperty)
  | method (proof : Option String)
  | flag (b : Bool)

/-- A property of a site that was named to its tenant or read for it, and the credential
that was used. -/
structure Reading where
  site : Site
  credential : SecretRef
  property : String

structure OnboardingState where
  revoked : List String := []
  readings : List Reading := []

/-- Google confirms a revocation, or says the token is no longer valid. -/
def confirmsRevocation (status : Nat) : Bool := status = 200 || status = 400

def onboardingExec (s : OnboardingState) :
    (o : OnboardingOp) → OnboardingChoice → Option (Except OnboardingExc o.Res × OnboardingState)
  | _, .fails message => some (.error (.raised message), s)
  | .exchange _ _, .tokens status body => some (.ok (status, body), s)
  | .revoke token, .status n =>
      some (.ok n,
        if confirmsRevocation n then { s with revoked := token :: s.revoked } else s)
  | .unseal secret, .done => some (.ok secret.sealedValue, s)
  | .properties _ _, .properties found => some (.ok found, s)
  | .verify _, .method proof => some (.ok proof, s)
  | .buildAdapter _, .done => some (.ok (), s)
  | .requireSiteRoom _ _, .done => some (.ok (), s)
  | .hasChangeUnderWay _, .flag b => some (.ok b, s)
  | .listed site credential properties, .done =>
      some (.ok (), { s with readings := (properties.map (⟨site, credential, ·⟩)) ++ s.readings })
  | .fetch site gsc, .done =>
      some (.ok (), { s with readings := ⟨site, gsc.credentialRef, gsc.propertyUrl⟩ :: s.readings })
  | _, _ => none

@[reducible] def onboardingOutside : Outside OnboardingExc where
  Op := OnboardingOp
  Res := OnboardingOp.Res
  State := OnboardingState
  Choice := OnboardingChoice
  Env := Empty
  exec := onboardingExec
  change := fun _ e => nomatch e

abbrev OnboardingProc (α : Type) : Type := Proc onboardingBackend onboardingOutside α

abbrev OnboardingPast : Type := Past onboardingBackend onboardingOutside

abbrev OnboardingWrites : Type := Writes onboardingBackend

abbrev findRecord (t : OnboardingType) (i : String) : OnboardingProc (Option (t.Payload × Nat)) :=
  Service.find (B := onboardingBackend) (X := onboardingOutside) t i

abbrev commitAll (ws : OnboardingWrites) : OnboardingProc Unit :=
  Service.commit (B := onboardingBackend) (X := onboardingOutside) ws

abbrev saveOver (t : OnboardingType) (i : String) (v : t.Payload) : OnboardingProc Unit :=
  Service.saveLatest (B := onboardingBackend) (X := onboardingOutside) t i v

abbrev askOutside (x : OnboardingOp) : OnboardingProc x.Res :=
  Service.ext (B := onboardingBackend) (X := onboardingOutside) x

abbrev readClock : OnboardingProc Int :=
  Service.now (B := onboardingBackend) (X := onboardingOutside)

abbrev makeId : OnboardingProc String :=
  Service.newId (B := onboardingBackend) (X := onboardingOutside)

/-! ## The vault -/

/-- `reference_for`. -/
def referenceFor (siteId name : String) : SecretRef :=
  { provider := .database, key := siteId ++ "/" ++ name }

def newSecret (tenantId siteId name value : String) : StoredSecret :=
  { tenantId, siteId, name, sealedValue := value }

/-- `SecretVault.put`. -/
def vaultPut (tenantId siteId name value : String) : OnboardingProc SecretRef :=
  if Text.strip value = "" then throw (.valueError s!"The value for {name} must not be empty.")
  else do
    saveOver .siteSecret (siteId ++ "/" ++ name) (newSecret tenantId siteId name value)
    pure (referenceFor siteId name)

/-- `SecretVault.holds`. -/
def vaultHolds (aggregateId : String) : OnboardingProc Bool := do
  let found ← findRecord .siteSecret aggregateId
  pure (found.any fun stored => !stored.1.erased)

/-- `SecretVault.get`. -/
def vaultGet (aggregateId : String) : OnboardingProc String := do
  match ← findRecord .siteSecret aggregateId with
  | none => throw (.secretResolutionError s!"Secret is not configured: {aggregateId}")
  | some (stored, _) =>
      if stored.erased then
        throw (.secretResolutionError s!"This credential was disconnected: {aggregateId}")
      else askOutside (.unseal stored)

/-- An erased secret. -/
def StoredSecret.tombstone (stored : StoredSecret) : StoredSecret :=
  { stored with sealedValue := "", erased := true }

/-- `SecretVault.erase`. -/
def vaultErase (aggregateId : String) : OnboardingProc Unit := do
  match ← findRecord .siteSecret aggregateId with
  | none => pure ()
  | some (stored, version) =>
      commitAll [.replace .siteSecret aggregateId stored.tombstone version]

end SeoAgent.Onboarding
