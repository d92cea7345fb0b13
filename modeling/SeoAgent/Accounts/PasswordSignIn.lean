import SeoAgent.Accounts.Passwords
import SeoAgent.Accounts.Store

/-!
# Signing in with a password

`sign_in_with_password` and `_open` (`app/accounts/service.py`) with what they use of the
account, session and tenant stores. Any number of sign-ins to one account with one password
run at once; each read and each write of a record is one operation. The attempt limiters and
the source of salts are outside, tokens are fresh names.
-/

namespace SeoAgent.SignIn

open SeoAgent.Verified Service Prog Machine
open SeoAgent.Accounts (Account AccountStatus PasswordLibrary hashPassword needsRehash
  verifyPassword laterThan)

/-! ## The records and the outside -/

inductive TenantStatus
  | active
  | suspended
  deriving DecidableEq, Repr

structure Tenant where
  tenantId : String
  status : TenantStatus
  deriving DecidableEq, Repr

/-- A signed-in browser; times in microseconds. -/
structure Session where
  tokenHash : String
  accountId : String
  tenantId : String
  generation : Nat
  csrfToken : String
  createdAt : Int
  expiresAt : Int
  lastSeenAt : Int
  revokedAt : Option Int := none
  deriving DecidableEq, Repr

inductive SignInType
  | account
  | accountEmail
  | session
  | tenant
  deriving DecidableEq, Repr

/-- The index by e-mail has the id of an account. -/
@[reducible] def SignInType.Payload : SignInType → Type
  | account => Account
  | accountEmail => String
  | session => Session
  | tenant => Tenant

instance SignInType.decidableEqPayload : (t : SignInType) → DecidableEq t.Payload
  | account => inferInstanceAs (DecidableEq Account)
  | accountEmail => inferInstanceAs (DecidableEq String)
  | session => inferInstanceAs (DecidableEq Session)
  | tenant => inferInstanceAs (DecidableEq Tenant)

inductive SignInExc
  | persistenceConflictError (aggregateType : SignInType)
  | persistenceNotFoundError
  | databaseError (message : String)
  | accountChangedError (message : String)
  | lookupError (message : String)
  | signInError (message : String)
  | tooManyAttemptsError (message : String)
  /-- `WeakPasswordError`, or what scrypt raises. -/
  | valueError
  deriving DecidableEq, Repr

def SignInExc.refused (t : SignInType) (_ : String) : Repository.Refusal → SignInExc
  | .notFound => persistenceNotFoundError
  | _ => persistenceConflictError t

@[reducible] def signInBackend : Backend where
  T := SignInType
  Payload := SignInType.Payload
  Exn := SignInExc
  refused := SignInExc.refused
  broken := .databaseError

/-- The limiters of the service. -/
inductive Limiter
  | perEmail
  | perAddress
  deriving DecidableEq, Repr

inductive SignInOp
  | attempt (limiter : Limiter) (key : String)
  | cancel (limiter : Limiter) (key : String)
  | succeeded (limiter : Limiter) (key : String)
  /-- `secrets.token_bytes`. -/
  | salt
  deriving DecidableEq

@[reducible] def SignInOp.Res : SignInOp → Type
  | .attempt _ _ => Bool
  | .cancel _ _ => Unit
  | .succeeded _ _ => Unit
  | .salt => List UInt8

inductive SignInAnswer
  | flag (b : Bool)
  | done
  | bytes (salt : List UInt8)

def signInExec : (o : SignInOp) → SignInAnswer → Option o.Res
  | .attempt _ _, .flag b => some b
  | .cancel _ _, .done => some ()
  | .succeeded _ _, .done => some ()
  | .salt, .bytes salt => some salt
  | _, _ => none

@[reducible] def signInOutside : Outside SignInExc where
  Op := SignInOp
  Res := SignInOp.Res
  State := Unit
  Choice := SignInAnswer
  Env := Empty
  exec := fun s o ch => (signInExec o ch).map fun r => (.ok r, s)
  change := fun _ e => nomatch e

abbrev SignInProc (α : Type) : Type := Proc signInBackend signInOutside α

abbrev SignInPast : Type := Past signInBackend signInOutside

abbrev SignInWrites : Type := Writes signInBackend

abbrev SignInRecords : Type := Repository SignInType SignInType.Payload

abbrev SignInEvent : Type := (iface signInBackend signInOutside).Event

abbrev findAccount (accountId : String) : SignInProc (Option (Account × Nat)) :=
  Service.find (B := signInBackend) (X := signInOutside) .account accountId

abbrev findEmail (email : String) : SignInProc (Option (String × Nat)) :=
  Service.find (B := signInBackend) (X := signInOutside) .accountEmail email

abbrev findTenant (tenantId : String) : SignInProc (Option (Tenant × Nat)) :=
  Service.find (B := signInBackend) (X := signInOutside) .tenant tenantId

abbrev commitOne (w : Repository.Write SignInType SignInType.Payload) : SignInProc Unit :=
  Service.commit (B := signInBackend) (X := signInOutside) [w]

abbrev askOutside (x : SignInOp) : SignInProc x.Res :=
  Service.ext (B := signInBackend) (X := signInOutside) x

abbrev readClock : SignInProc Int := Service.now (B := signInBackend) (X := signInOutside)

abbrev makeToken : SignInProc String := Service.newId (B := signInBackend) (X := signInOutside)

/-- What a sign-in uses of the standard library: `strip().lower()`, the key of an address and
`token_hash`. -/
structure SignInLibrary extends PasswordLibrary where
  normalizeEmail : String → String
  addressKey : String → String
  tokenHash : String → String

/-! ## The account store -/

section Store
variable (lib : SignInLibrary)

/-- `by_email`. -/
def byEmail (email : String) : SignInProc (Option Account) := do
  match ← findEmail (lib.normalizeEmail email) with
  | none => pure none
  | some (accountId, _) => do
      let found ← findAccount accountId
      pure (found.map Prod.fst)

/-- A write of an account that another one was before. -/
def onChanged {α : Type} (accountId : String) : SignInExc → SignInProc α
  | .persistenceConflictError _ =>
      throw (.accountChangedError s!"account changed while being written: {accountId}")
  | e => throw e

/-- `update`. -/
def update (account : Account) : SignInProc Account := do
  match ← findAccount account.accountId with
  | none => throw (.lookupError s!"account not found: {account.accountId}")
  | some (current, version) =>
      if current.updatedAt ≠ account.updatedAt then
        throw (.accountChangedError s!"account changed since it was read: {account.accountId}")
      else do
        let at_ ← readClock
        let written := { account with updatedAt := laterThan account.updatedAt at_ }
        tryCatch (commitOne (.replace .account account.accountId written version))
          (onChanged account.accountId)
        pure written

/-! ## The sign-in -/

def genericRefusal : SignInExc := .signInError "The email or password is not correct."

def tooMany : SignInExc :=
  .tooManyAttemptsError "Too many attempts. Wait a few minutes and try again."

/-- `SESSION_LIFETIME`, fourteen days. -/
def sessionLifetime : Int := 1209600000000

/-- `_require_active_tenant`. -/
def requireActiveTenant (account : Account) : SignInProc Unit := do
  match ← findTenant account.tenantId with
  | some (⟨_, .active⟩, _) => pure ()
  | _ => throw (.signInError "This account is suspended. Contact HoshyarSEO support.")

/-- The account as it is now does not let the session stand. -/
def invalidNow (session : Session) (checkedHash : Option String) (current : Account) : Bool :=
  current.status ≠ .active || current.sessionGeneration ≠ session.generation ||
    current.passwordHash ≠ checkedHash

/-- The session is revoked, and the sign-in refused. -/
def refuse (session : Session) (at_ : Int) : SignInProc String := do
  commitOne (.replace .session session.tokenHash { session with revokedAt := some at_ } 1)
  throw genericRefusal

/-- What `_open` does once the session is there. -/
def confirm (session : Session) (token : String) (checkedHash : Option String) (at_ : Int) :
    SignInProc String := do
  match ← findAccount session.accountId with
  | none => refuse session at_
  | some (current, _) =>
      if invalidNow session checkedHash current then refuse session at_
      else do
        tryCatch (update { current with lastLoginAt := some at_ }).void fun
          | .accountChangedError _ => pure ()
          | e => throw e
        pure token

/-- `_open`, for an account whose hash was checked. -/
def openSession (account : Account) : SignInProc String := do
  requireActiveTenant account
  let at_ ← readClock
  let token ← makeToken
  let csrfToken ← makeToken
  let session : Session :=
    { tokenHash := lib.tokenHash token, accountId := account.accountId
      tenantId := account.tenantId, generation := account.sessionGeneration, csrfToken
      createdAt := at_, expiresAt := at_ + sessionLifetime, lastSeenAt := at_ }
  commitOne (.create .session session.tokenHash session)
  confirm session token account.passwordHash at_

/-- The account with a new hash of the password. -/
def rehash (password : String) (account : Account) : SignInProc Account := do
  let salt ← askOutside .salt
  match hashPassword lib.toPasswordLibrary password salt with
  | none => throw .valueError
  | some stored => update { account with passwordHash := some stored }

/-- A hash with old parameters is replaced; when that cannot be, it waits. -/
def rehashed (password : String) (account : Account) : SignInProc Account :=
  if needsRehash lib.toPasswordLibrary (account.passwordHash.getD "") then
    tryCatch (rehash lib password account) fun
      | .accountChangedError _ => pure account
      | .valueError => pure account
      | e => throw e
  else pure account

/-- The password is right: the account goes on as it was read. -/
def admitted (password email address : String) (account : Account) : SignInProc String := do
  askOutside (.succeeded .perEmail email)
  askOutside (.cancel .perAddress address)
  let account ← rehashed lib password account
  openSession lib account

/-- What follows the limiters. -/
def checkPassword (password email address : String) : SignInProc String := do
  match ← byEmail lib email with
  | none => throw genericRefusal
  | some account =>
      if !verifyPassword lib.toPasswordLibrary password account.passwordHash ||
          account.status ≠ .active then
        throw genericRefusal
      else admitted lib password email address account

/-- `sign_in_with_password`. -/
def signInWithPassword (email password address : String) : SignInProc String := do
  let email := lib.normalizeEmail email
  let address := lib.addressKey address
  let allowed ← askOutside (.attempt .perEmail email)
  if !allowed then throw tooMany
  else do
    let allowed ← askOutside (.attempt .perAddress address)
    if !allowed then do
      askOutside (.cancel .perEmail email)
      throw tooMany
    else checkPassword lib password email address

end Store

/-! ## The machine -/

/-- A sign-in to the account with this e-mail. -/
structure Request (lib : SignInLibrary) (key : String) where
  email : String
  address : String
  same : lib.normalizeEmail (lib.normalizeEmail email) = key

/-- Any number of sign-ins to one account with one password. -/
@[reducible] def signIns (lib : SignInLibrary) (key password : String) :
    Processes signInBackend signInOutside where
  Kind := Request lib key
  body := fun request => (signInWithPassword lib request.email password request.address).void
  admits := fun _ _ => true

@[reducible] def signInMachine (lib : SignInLibrary) (key password : String) :
    Machine (iface signInBackend signInOutside) :=
  Service.machine (signIns lib key password)

end SeoAgent.SignIn
