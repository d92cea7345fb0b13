import SeoAgent.Verified.Service
import SeoAgent.Verified.Text

/-!
# Tenants and their keys

`app/tenancy/keys.py` and `app/tenancy/store.py`: a key is `seo_<key id>_<secret>`, and what is
stored of it is a digest under its key id. Keys and tenants are records of one repository; the
commands of `app/tenants.py` and the authenticator of `app/api/auth.py` are its processes.

## Main results

* `parse_token` — the parts of a key come back from what is presented.
-/

namespace SeoAgent.Tenancy

open SeoAgent.Verified Service

/-! ## The form of a key -/

/-- `PREFIX`. -/
def keyPrefix : List Char := "seo".toList

/-- What is before the first separator, and what is after it. -/
def splitOnce (s : List Char) : Option (List Char × List Char) :=
  match s.dropWhile (· ≠ '_') with
  | [] => none
  | _ :: rest => some (s.takeWhile (· ≠ '_'), rest)

/-- `parse`: the key id and the secret; none for `InvalidKeyFormat`. -/
def parse (token : String) : Option (String × String) :=
  (splitOnce (Text.strip token).toList).bind fun first =>
    (splitOnce first.2).bind fun second =>
      if first.1 ≠ keyPrefix ∨ second.1 = [] ∨ second.2 = [] then none
      else some (String.ofList second.1, String.ofList second.2)

/-- `IssuedKey.token`. -/
def tokenOf (keyId secret : String) : String := "seo_" ++ keyId ++ "_" ++ secret

theorem splitOnce_append {s : List Char} (h : '_' ∉ s) (rest : List Char) :
    splitOnce (s ++ '_' :: rest) = some (s, rest) := by
  have hall : ∀ c ∈ s, decide (c ≠ '_') = true := fun c hc => decide_eq_true fun he => h (he ▸ hc)
  unfold splitOnce
  rw [List.dropWhile_append_of_pos hall, List.takeWhile_append_of_pos hall]
  simp

/-- The parts of a key come back from what is presented, whatever separators the secret has. -/
theorem parse_token {keyId secret : String} (hid : keyId ≠ "") (hplain : '_' ∉ keyId.toList)
    (hsecret : secret ≠ "") (hstrip : Text.strip (tokenOf keyId secret) = tokenOf keyId secret) :
    parse (tokenOf keyId secret) = some (keyId, secret) := by
  have hlist : (tokenOf keyId secret).toList =
      "seo".toList ++ '_' :: (keyId.toList ++ '_' :: secret.toList) := by
    simp [tokenOf]
  have hne {s : String} (h : s ≠ "") : s.toList ≠ [] := fun he => h (String.toList_inj.mp he)
  unfold parse
  rw [hstrip, hlist, splitOnce_append (by decide), Option.bind_some, splitOnce_append hplain,
    Option.bind_some, if_neg (by simp [keyPrefix, hne hid, hne hsecret]), String.ofList_toList,
    String.ofList_toList]

/-! ## Records -/

/-- `TenantStatus`. -/
inductive TenantStatus
  | active
  | suspended
  deriving DecidableEq, Repr

/-- `Tenant`; times in microseconds. -/
structure Tenant where
  tenantId : String
  name : String
  status : TenantStatus := .active
  createdAt : Int
  updatedAt : Int
  deriving DecidableEq, Repr

/-- `APIKeyRecord`. -/
structure APIKeyRecord where
  keyId : String
  tenantId : String
  digest : String
  label : String := ""
  createdAt : Int
  revokedAt : Option Int := none
  deriving DecidableEq, Repr

def APIKeyRecord.active (key : APIKeyRecord) : Bool := key.revokedAt.isNone

inductive TenancyType
  | tenant
  | apiKey
  deriving DecidableEq, Repr

@[reducible] def TenancyType.Payload : TenancyType → Type
  | tenant => Tenant
  | apiKey => APIKeyRecord

instance TenancyType.decidableEqPayload : (t : TenancyType) → DecidableEq t.Payload
  | tenant => inferInstanceAs (DecidableEq Tenant)
  | apiKey => inferInstanceAs (DecidableEq APIKeyRecord)

inductive TenancyExc
  | persistenceConflictError
  | persistenceNotFoundError (message : String)
  | databaseError (message : String)
  | validationError
  | httpException (status : Nat) (detail : String)
  deriving DecidableEq, Repr

def TenancyExc.refused (_ : TenancyType) (i : String) : Repository.Refusal → TenancyExc
  | .notFound => persistenceNotFoundError i
  | _ => persistenceConflictError

@[reducible] def tenancyBackend : Backend where
  T := TenancyType
  Payload := TenancyType.Payload
  Exn := TenancyExc
  refused := TenancyExc.refused
  broken := .databaseError

/-! ## The outside -/

/-- A request that was let in, with the principal it is carried out for. -/
structure Served where
  token : String
  principal : String
  deriving DecidableEq, Repr

/-- `secrets` for a new key, and what an endpoint does for a principal. -/
inductive TenancyOp
  | draw
  | serve (request : Served)
  deriving DecidableEq

@[reducible] def TenancyOp.Res : TenancyOp → Type
  | .draw => String × String
  | .serve _ => Unit

/-- The requests that were served, newest first. -/
abbrev ServedLog : Type := List Served

/-- Any key may be drawn, and serving may fail after it has begun. -/
inductive TenancyChoice
  | drawn (keyId secret : String)
  | done
  | failed

def serveExec (log : ServedLog) : (o : TenancyOp) → TenancyChoice →
    Option (Except TenancyExc o.Res × ServedLog)
  | .draw, .drawn keyId secret => some (.ok (keyId, secret), log)
  | .serve request, .done => some (.ok (), request :: log)
  | .serve request, .failed => some (.error .validationError, request :: log)
  | _, _ => none

@[reducible] def tenancyOutside : Outside TenancyExc where
  Op := TenancyOp
  Res := TenancyOp.Res
  State := ServedLog
  Choice := TenancyChoice
  Env := Empty
  exec := serveExec
  change := fun _ e => e.elim

abbrev TenancyProc (α : Type) : Type := Prog (iface tenancyBackend tenancyOutside) α

abbrev TenancyPast : Type := (iface tenancyBackend tenancyOutside).Past

/-! ## The stores -/

def findKey (keyId : String) : TenancyProc (Option (APIKeyRecord × Nat)) :=
  Prog.ask (I := iface tenancyBackend tenancyOutside) (.find .apiKey keyId)

def findTenant (tenantId : String) : TenancyProc (Option (Tenant × Nat)) :=
  Prog.ask (I := iface tenancyBackend tenancyOutside) (.find .tenant tenantId)

def commit (ws : List (Repository.Write TenancyType TenancyType.Payload)) : TenancyProc Unit :=
  Prog.ask (I := iface tenancyBackend tenancyOutside) (.commit ws)

def now : TenancyProc Int := Prog.ask (I := iface tenancyBackend tenancyOutside) .now

def draw : TenancyProc (String × String) :=
  Prog.ask (I := iface tenancyBackend tenancyOutside) (.ext .draw)

/-- `APIKeyStore.revoke`. -/
def revoke (keyId : String) : TenancyProc APIKeyRecord := do
  match ← findKey keyId with
  | none => throw (.persistenceNotFoundError s!"api key not found: {keyId}")
  | some (existing, version) =>
      if existing.active = false then pure existing
      else do
        let at_ ← now
        let revoked := { existing with revokedAt := some at_ }
        commit [.replace .apiKey keyId revoked version]
        pure revoked

/-- `TenantStore.update`. -/
def updateTenant (tenant : Tenant) : TenancyProc Tenant := do
  match ← findTenant tenant.tenantId with
  | none => throw (.persistenceNotFoundError s!"tenant not found: {tenant.tenantId}")
  | some (_, version) => do
      let at_ ← now
      let updated := { tenant with updatedAt := at_ }
      commit [.replace .tenant tenant.tenantId updated version]
      pure updated

/-! ## Authentication -/

/-- What a server is set up with: the digest of a text, `str.lower`, and whether a token is the
configured key, if there is one. -/
structure Server where
  sha256 : String → String
  lower : String → String
  isAdmin : Option (String → Bool)

/-- `digest_for`. -/
def Server.digestFor (server : Server) (keyId secret : String) : String :=
  server.sha256 (keyId ++ "_" ++ secret)

def unauthorized (detail : String) : TenancyExc := .httpException 401 detail

/-- `APIKeyAuthenticator.authenticate`, of a bearer token. -/
def authenticateAdmin (isAdmin : String → Bool) (token : String) : TenancyProc String :=
  if isAdmin token then pure "admin" else throw (unauthorized "Invalid credentials.")

/-- `TenantAPIKeyAuthenticator.authenticate`, of a bearer token. -/
def authenticateToken (server : Server) (token : String) : TenancyProc String :=
  match parse token with
  | none =>
      match server.isAdmin with
      | some isAdmin => authenticateAdmin isAdmin token
      | none => throw (unauthorized "Invalid credentials.")
  | some (keyId, secret) => do
      match ← findKey keyId with
      | none => throw (unauthorized "Invalid credentials.")
      | some (key, _) =>
          if key.active = false then throw (unauthorized "Invalid credentials.")
          else if server.digestFor keyId secret ≠ key.digest then
            throw (unauthorized "Invalid credentials.")
          else do
            match ← findTenant key.tenantId with
            | none => throw (unauthorized "Invalid credentials.")
            | some (tenant, _) =>
                if tenant.status ≠ .active then
                  throw (.httpException 403 "This account is suspended.")
                else pure key.tenantId

/-- `HTTPAuthorizationCredentials`. -/
structure Credentials where
  scheme : String
  token : String
  deriving DecidableEq, Repr

/-- `TenantAPIKeyAuthenticator.authenticate`. -/
def authenticate (server : Server) : Option Credentials → TenancyProc String
  | none => throw (unauthorized "Authentication required.")
  | some credentials =>
      if server.lower credentials.scheme ≠ "bearer" then
        throw (unauthorized "Invalid authentication scheme.")
      else authenticateToken server credentials.token

/-- A request: it is served for the principal it authenticates as. -/
def request (server : Server) (credentials : Credentials) : TenancyProc Unit := do
  let principal ← authenticate server (some credentials)
  Prog.ask (I := iface tenancyBackend tenancyOutside)
    (.ext (.serve ⟨credentials.token, principal⟩))

/-! ## The commands -/

/-- What pydantic allows of a new record. -/
def APIKeyRecord.valid (key : APIKeyRecord) : Bool :=
  key.keyId ≠ "" && key.keyId.length ≤ 64 && key.tenantId ≠ "" && key.tenantId.length ≤ 64 &&
    key.digest.length = 64 && key.label.length ≤ 200

/-- `_issue`. -/
def issue (server : Server) (tenantId label : String) : TenancyProc Unit := do
  let (keyId, secret) ← draw
  let at_ ← now
  let key : APIKeyRecord :=
    { keyId, tenantId, digest := server.digestFor keyId secret, label, createdAt := at_ }
  if key.valid = false then throw .validationError
  else commit [.create .apiKey keyId key]

/-- `create`. -/
def createTenant (server : Server) (name : String) (noKey : Bool) : TenancyProc Unit := do
  let hex ← Prog.ask (I := iface tenancyBackend tenancyOutside) .newId
  let at_ ← now
  let tenantId := "t-" ++ (hex.take 16).toString
  if name = "" ∨ 200 < name.length then throw .validationError
  else do
    commit [.create .tenant tenantId { tenantId, name, createdAt := at_, updatedAt := at_ }]
    if noKey then pure () else issue server tenantId "initial"

/-- `issue-key`. -/
def issueKey (server : Server) (tenantId label : String) : TenancyProc Unit := do
  match ← findTenant tenantId with
  | none => pure ()
  | some _ => issue server tenantId label

/-- `revoke-key`. -/
def revokeKey (keyId : String) : TenancyProc Unit := do
  match ← findKey keyId with
  | none => pure ()
  | some _ => Prog.void (revoke keyId)

/-- `suspend` and `activate`. -/
def setStatus (tenantId : String) (status : TenantStatus) : TenancyProc Unit := do
  match ← findTenant tenantId with
  | none => pure ()
  | some (tenant, _) => Prog.void (updateTenant { tenant with status })

/-- What runs: requests, and the commands of an operator. -/
inductive TenancyKind
  | request (credentials : Credentials)
  | createTenant (name : String) (noKey : Bool)
  | issueKey (tenantId label : String)
  | revokeKey (keyId : String)
  | setStatus (tenantId : String) (status : TenantStatus)
  deriving DecidableEq, Repr

/-- Any number of requests and commands at once. -/
@[reducible] def tenancyProcesses (server : Server) : Processes tenancyBackend tenancyOutside where
  Kind := TenancyKind
  body := fun
    | .request credentials => Tenancy.request server credentials
    | .createTenant name noKey => Tenancy.createTenant server name noKey
    | .issueKey tenantId label => Tenancy.issueKey server tenantId label
    | .revokeKey keyId => Tenancy.revokeKey keyId
    | .setStatus tenantId status => Tenancy.setStatus tenantId status
  admits := fun _ _ => true

@[reducible] def tenancyMachine (server : Server) : Machine (iface tenancyBackend tenancyOutside) :=
  Service.machine (tenancyProcesses server)

end SeoAgent.Tenancy
