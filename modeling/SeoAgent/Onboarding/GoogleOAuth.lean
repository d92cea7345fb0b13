import SeoAgent.Onboarding.Store

/-!
# Sign in with Google

`GoogleOAuthService` (`app/onboarding/google_oauth.py`): a sign-in is started, begun in a
browser and completed by Google's redirect; a tenant disconnects. The refresh token is in
the vault under the tenant's own slot, and a connection record says whether it is in use.
-/

namespace SeoAgent.Onboarding

open SeoAgent.Verified Service

def refreshTokenName : String := "google_refresh_token"

def searchConsoleReadonly : String := "https://www.googleapis.com/auth/webmasters.readonly"

/-- `STATE_TTL`, ten minutes. -/
def stateTtl : Int := 600000000

/-- `site_id` of a tenant's own secrets. -/
def tenantSlot (tenantId : String) : String := "tenant:" ++ tenantId

/-- The id of a tenant's refresh token in the vault. -/
def tokenKey (tenantId : String) : String := tenantSlot tenantId ++ "/" ++ refreshTokenName

/-- `tenant_credential_ref`. -/
def tenantCredentialRef (tenantId : String) : SecretRef :=
  { provider := .database, key := tokenKey tenantId }

/-! ## Start and begin -/

/-- `start`. -/
def oauthStart (tenantId : String) : OnboardingProc Unit := do
  let stateId ← makeId
  let codeVerifier ← makeId
  let browserNonce ← makeId
  let at_ ← readClock
  commitAll [.create .googleOauthState stateId
    { stateId, tenantId, codeVerifier, browserNonce, createdAt := at_ }]

/-- `_live_state`. -/
def readState (stateId : String) : OnboardingProc (OAuthState × Nat) := do
  match ← findRecord .googleOauthState (Text.orElse stateId "-") with
  | none =>
      throw (.oauthError "This connection link is not valid. Start the connection again.")
  | some (state, version) => do
      let at_ ← readClock
      if at_ - state.createdAt > stateTtl then
        throw (.oauthError "This connection link has expired. Start the connection again.")
      else pure (state, version)

/-- `begin`. -/
def oauthBegin (stateId : String) : OnboardingProc Unit := do
  let (state, version) ← readState stateId
  if state.begun then
    throw (.oauthError "This link has already been used. Start the connection again.")
  else commitAll [.replace .googleOauthState state.stateId { state with begun := true } version]

/-! ## Complete -/

/-- Why a redirect of Google is refused before anything is spent. -/
def completeRefusal (state : OAuthState) (browserNonce : Option String) : Option OnboardingExc :=
  if !state.begun || state.used then
    some (.oauthError "This sign-in was already used. Start the connection again.")
  else if browserNonce.getD "" = "" || browserNonce ≠ some state.browserNonce then
    some (.oauthError
      "This sign-in was started in another browser. Start it again from your own account.")
  else none

/-- The refresh token and the scopes that Google granted. -/
def grantedToken (status : Nat) (body : TokenBody) :
    Except OnboardingExc (String × List String) :=
  if status ≠ 200 then
    .error (.oauthError s!"Google refused the sign-in ({body.error.getD (toString status)}).")
  else if searchConsoleReadonly ∉ Text.words body.scope then
    .error (.oauthError ("Search Console access was not ticked on Google's screen. " ++
      "Connect again and allow it."))
  else if body.refreshToken.getD "" = "" then
    .error (.oauthError "Google did not return a long-lived token. Connect again.")
  else .ok (body.refreshToken.getD "", Text.words body.scope)

/-- The token goes into the vault, and the connection is recorded. -/
def connect (tenantId token : String) (email : Option String) (scopes : List String) :
    OnboardingProc Unit := do
  let credentialRef ← vaultPut tenantId (tenantSlot tenantId) refreshTokenName token
  let connectedAt ← readClock
  saveOver .googleConnection tenantId { tenantId, email, scopes, credentialRef, connectedAt }

/-- `complete`. -/
def oauthComplete (stateId : String) (code error browserNonce : Option String) :
    OnboardingProc Unit := do
  let (state, version) ← readState stateId
  match completeRefusal state browserNonce with
  | some e => throw e
  | none => do
      commitAll [.replace .googleOauthState state.stateId { state with used := true } version]
      if error.getD "" ≠ "" then
        throw (.oauthError "Access was not granted on Google's screen.")
      else if code.getD "" = "" then
        throw (.oauthError "Google did not return an authorization code.")
      else do
        let (status, body) ← askOutside (.exchange (code.getD "") state.codeVerifier)
        let (token, granted) ← Prog.ofExcept (grantedToken status body)
        connect state.tenantId token body.email granted

/-! ## Disconnect -/

/-- `connection`: the connection of a tenant that is in use. -/
def liveConnection : Option (GoogleConnection × Nat) → Option GoogleConnection
  | some (connection, _) => if connection.disconnectedAt = none then some connection else none
  | none => none

def readConnection (tenantId : String) : OnboardingProc (Option GoogleConnection) := do
  let found ← findRecord .googleConnection tenantId
  pure (liveConnection found)

/-- The token is read and revoked; `false` when the vault holds none. -/
def revokeHeld (key : String) : Bool → OnboardingProc Bool
  | false => pure false
  | true => do
      let token ← tryCatch (vaultGet key) fun _ =>
        throw (.oauthError ("The stored Google token could not be read, so it could not be " ++
          "revoked; nothing was changed. Try again."))
      let status ← tryCatch (askOutside (.revoke token)) fun _ =>
        throw (.oauthError ("Google could not be reached to revoke access; " ++
          "nothing was changed. Try again."))
      if confirmsRevocation status then pure true
      else
        throw (.oauthError
          s!"Google did not confirm the revocation ({status}); nothing was changed. Try again.")

/-- `disconnect`. -/
def oauthDisconnect (tenantId : String) : OnboardingProc Bool := do
  match ← readConnection tenantId with
  | none => pure false
  | some connection => do
      let held ← vaultHolds connection.credentialRef.key
      let revoked ← revokeHeld connection.credentialRef.key held
      vaultErase connection.credentialRef.key
      let at_ ← readClock
      saveOver .googleConnection connection.tenantId { connection with disconnectedAt := some at_ }
      pure revoked

end SeoAgent.Onboarding
