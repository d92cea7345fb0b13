import SeoAgent.Accounts.PasswordSignIn

/-!
# Sessions

`AuthService._open`, `session_for` and `sign_out` (`app/accounts/service.py`), with what the
commands of `app/accounts/__main__.py` and the sign-ins write of accounts. An account is read
here by its id; which id an e-mail, a number or a Google identity leads to is a matter of the
indexes of the account store.

Any number of sign-ins, requests, sign-outs and commands run at once, and each read and each
write of a record is one operation.
-/

namespace SeoAgent.Sessions

open SeoAgent.Verified Service
open SeoAgent.Accounts (Account AccountStatus laterThan)
open SeoAgent.SignIn (Tenant TenantStatus)

/-! ## The records -/

inductive LoginMethod
  | password
  | google
  | sms
  deriving DecidableEq, Repr

/-- A signed-in browser; times in microseconds. -/
structure Session where
  tokenHash : String
  accountId : String
  tenantId : String
  method : LoginMethod
  generation : Nat
  csrfToken : String
  createdAt : Int
  expiresAt : Int
  lastSeenAt : Int
  revokedAt : Option Int := none
  deriving DecidableEq, Repr

inductive SessionType
  | account
  | session
  | tenant
  deriving DecidableEq, Repr

@[reducible] def SessionType.Payload : SessionType → Type
  | account => Account
  | session => Session
  | tenant => Tenant

instance SessionType.decidableEqPayload : (t : SessionType) → DecidableEq t.Payload
  | account => inferInstanceAs (DecidableEq Account)
  | session => inferInstanceAs (DecidableEq Session)
  | tenant => inferInstanceAs (DecidableEq Tenant)

inductive SessionExc
  | persistenceConflictError
  | persistenceNotFoundError
  | databaseError (message : String)
  | accountChangedError (message : String)
  | accountExistsError (message : String)
  | lookupError (message : String)
  | signInError (message : String)
  /-- What hashing a password raises. -/
  | valueError
  /-- No one is signed in. -/
  | unauthorized
  deriving DecidableEq, Repr

def SessionExc.refused (_ : SessionType) (_ : String) : Repository.Refusal → SessionExc
  | .notFound => persistenceNotFoundError
  | _ => persistenceConflictError

@[reducible] def sessionBackend : Backend where
  T := SessionType
  Payload := SessionType.Payload
  Exn := SessionExc
  refused := SessionExc.refused
  broken := .databaseError

/-! ## The outside -/

/-- A request that a session was accepted for. -/
structure Accepted where
  session : Session
  account : Account
  deriving DecidableEq

/-- `hash_password` with its random salt, and what is done for a signed-in browser. -/
inductive SessionOp
  | hashPassword (password : String)
  | serve (accepted : Accepted)
  deriving DecidableEq

@[reducible] def SessionOp.Res : SessionOp → Type
  | .hashPassword _ => String
  | .serve _ => Unit

inductive SessionAnswer
  | hashed (stored : String)
  | refused
  | done

/-- The requests that were accepted, newest first. -/
abbrev AcceptedLog : Type := List Accepted

def sessionExec (log : AcceptedLog) : (o : SessionOp) → SessionAnswer →
    Option (Except SessionExc o.Res × AcceptedLog)
  | .hashPassword _, .hashed stored => some (.ok stored, log)
  | .hashPassword _, .refused => some (.error .valueError, log)
  | .serve accepted, .done => some (.ok (), accepted :: log)
  | _, _ => none

@[reducible] def sessionOutside : Outside SessionExc where
  Op := SessionOp
  Res := SessionOp.Res
  State := AcceptedLog
  Choice := SessionAnswer
  Env := Empty
  exec := sessionExec
  change := fun _ e => e.elim

abbrev SessionProc (α : Type) : Type := Proc sessionBackend sessionOutside α

abbrev SessionPast : Type := Past sessionBackend sessionOutside

abbrev SessionEvent : Type := (iface sessionBackend sessionOutside).Event

abbrev SessionWrites : Type := Writes sessionBackend

abbrev SessionRecords : Type := Repository SessionType SessionType.Payload

abbrev findAccount (accountId : String) : SessionProc (Option (Account × Nat)) :=
  Service.find (B := sessionBackend) (X := sessionOutside) .account accountId

abbrev findSession (tokenHash : String) : SessionProc (Option (Session × Nat)) :=
  Service.find (B := sessionBackend) (X := sessionOutside) .session tokenHash

abbrev findTenant (tenantId : String) : SessionProc (Option (Tenant × Nat)) :=
  Service.find (B := sessionBackend) (X := sessionOutside) .tenant tenantId

abbrev commitOne (w : Repository.Write SessionType SessionType.Payload) : SessionProc Unit :=
  Service.commit (B := sessionBackend) (X := sessionOutside) [w]

abbrev askOutside (x : SessionOp) : SessionProc x.Res :=
  Service.ext (B := sessionBackend) (X := sessionOutside) x

abbrev readClock : SessionProc Int := Service.now (B := sessionBackend) (X := sessionOutside)

abbrev makeToken : SessionProc String :=
  Service.newId (B := sessionBackend) (X := sessionOutside)

/-- What the service uses of hashing: of tokens, and of passwords. -/
structure SessionLibrary where
  tokenHash : String → String
  verifyPassword : String → Option String → Bool
  needsRehash : String → Bool

/-! ## Accounts -/

/-- A write of an account that another one was before. -/
def onChanged {α : Type} (accountId : String) : SessionExc → SessionProc α
  | .persistenceConflictError =>
      throw (.accountChangedError s!"account changed while being written: {accountId}")
  | e => throw e

/-- `AccountStore.update`. -/
def update (account : Account) : SessionProc Account := do
  match ← findAccount account.accountId with
  | none => throw (.lookupError s!"account not found: {account.accountId}")
  | some (current, version) =>
      if current.updatedAt ≠ account.updatedAt then
        throw (.accountChangedError s!"account changed since it was read: {account.accountId}")
      else do
        let at_ ← readClock
        let written := { account with updatedAt := laterThan account.updatedAt at_ }
        tryCatch (commitOne (.replace .account account.accountId written version))
          (onChanged account.accountId)
        pure written

/-- `AccountStore.bind_google`, for its account record: three tries. -/
def bindGoogle (accountId subject : String) : Nat → SessionProc Account
  | 0 => throw (.accountChangedError s!"account kept changing: {accountId}")
  | tries + 1 =>
      tryCatch (do
        match ← findAccount accountId with
        | some (current, _) =>
            if current.mayTake subject then update { current with googleSubject := some subject }
            else throw (.accountExistsError "This account cannot take this Google account.")
        | none => throw (.accountExistsError "This account cannot take this Google account."))
        fun
        | .accountChangedError _ => bindGoogle accountId subject tries
        | e => throw e

/-- What an operator changes of an account. -/
inductive Command
  | setPassword (password : String)
  | unlinkGoogle
  | allowGoogle
  | revokeSessions
  | disable
  | enable
  deriving DecidableEq, Repr

/-- `end_sessions`: the change, and the next generation. -/
def endSessions (account : Account) : Account :=
  { account with sessionGeneration := account.sessionGeneration + 1 }

/-- The copy that a command writes. -/
def Command.apply (account : Account) (newHash : String) : Command → Account
  | setPassword _ => endSessions { account with passwordHash := some newHash }
  | unlinkGoogle => endSessions { account with googleSubject := none, googleLinkAllowed := false }
  | allowGoogle => { account with googleLinkAllowed := true }
  | revokeSessions => endSessions account
  | disable => endSessions { account with status := .disabled }
  | enable => { account with status := .active }

/-- The new hash of `set-password`, made before the account is read. -/
def Command.newHash : Command → SessionProc String
  | setPassword password => askOutside (.hashPassword password)
  | _ => pure ""

/-- A command, on the account it has found. -/
def operate (accountId : String) (command : Command) : SessionProc Unit := do
  let newHash ← command.newHash
  match ← findAccount accountId with
  | none => pure ()
  | some (account, _) => Prog.void (update (command.apply account newHash))

/-! ## Signing in -/

def genericRefusal : String := "The email or password is not correct."

def googleRefusal : String := "There is no HoshyarSEO account for this Google account."

def mobileRefusal : String := "This account cannot sign in."

def suspended : String := "This account is suspended. Contact HoshyarSEO support."

def LoginMethod.refusal : LoginMethod → String
  | password => genericRefusal
  | google => googleRefusal
  | sms => mobileRefusal

/-- `SESSION_LIFETIME`, fourteen days. -/
def sessionLifetime : Int := 1209600000000

/-- `IDLE_TIMEOUT`, three days. -/
def idleTimeout : Int := 259200000000

/-- `TOUCH_EVERY`, ten minutes. -/
def touchEvery : Int := 600000000

/-- `_tenant_active`. -/
def tenantActive (tenantId : String) : SessionProc Bool := do
  match ← findTenant tenantId with
  | some (⟨_, .active⟩, _) => pure true
  | _ => pure false

/-- `_require_active_tenant`. -/
def requireActiveTenant (account : Account) : SessionProc Unit := do
  if ← tenantActive account.tenantId then pure () else throw (.signInError suspended)

/-- The session is revoked, and the sign-in refused. -/
def refuse (session : Session) (at_ : Int) : SessionProc String := do
  commitOne (.replace .session session.tokenHash { session with revokedAt := some at_ } 1)
  throw (.signInError session.method.refusal)

/-- The account as it is now lets the session stand. -/
def confirms (session : Session) (stillValid : Account → Bool) (current : Account) : Bool :=
  current.status = .active && current.sessionGeneration = session.generation && stillValid current

/-- What `_open` does once the session is there. -/
def confirm (session : Session) (token : String) (stillValid : Account → Bool) :
    SessionProc String := do
  match ← findAccount session.accountId with
  | none => refuse session session.createdAt
  | some (current, _) =>
      if confirms session stillValid current then do
        tryCatch (Prog.void (update { current with lastLoginAt := some session.createdAt })) fun
          | .accountChangedError _ => pure ()
          | e => throw e
        pure token
      else refuse session session.createdAt

section Library
variable (lib : SessionLibrary)

/-- `_open`. -/
def openSession (account : Account) (method : LoginMethod) (stillValid : Account → Bool) :
    SessionProc String := do
  requireActiveTenant account
  let at_ ← readClock
  let token ← makeToken
  let csrfToken ← makeToken
  let session : Session :=
    { tokenHash := lib.tokenHash token, accountId := account.accountId
      tenantId := account.tenantId, method, generation := account.sessionGeneration, csrfToken
      createdAt := at_, expiresAt := at_ + sessionLifetime, lastSeenAt := at_ }
  commitOne (.create .session session.tokenHash session)
  confirm session token stillValid

/-- What somebody signs in with: a password, a Google identity that was linked before or comes
with the verified e-mail of the account, or a number whose code was checked. -/
inductive Login
  | password (password : String)
  | google (subject : String) (byEmail : Bool)
  | sms (mobile : String)
  deriving DecidableEq, Repr

/-- A hash with old parameters is replaced; when that cannot be, it waits. -/
def rehashed (account : Account) (password : String) : SessionProc Account :=
  if lib.needsRehash (account.passwordHash.getD "") then
    tryCatch (do
      let stored ← askOutside (.hashPassword password)
      update { account with passwordHash := some stored }) fun
      | .accountChangedError _ => pure account
      | .valueError => pure account
      | e => throw e
  else pure account

/-- `sign_in_with_password`, after the limiters, for the account of the e-mail. -/
def signInWithPassword (accountId password : String) : SessionProc String := do
  match ← findAccount accountId with
  | none => throw (.signInError genericRefusal)
  | some (account, _) =>
      if !lib.verifyPassword password account.passwordHash || account.status ≠ .active then
        throw (.signInError genericRefusal)
      else do
        let account ← rehashed lib account password
        openSession lib account .password fun current =>
          current.passwordHash = account.passwordHash

/-- An account that its verified e-mail led to is linked to the identity first. -/
def linked (account : Account) (subject : String) : SessionProc Account := do
  if account.googleSubject ≠ none ∧ account.googleSubject ≠ some subject then
    throw (.signInError googleRefusal)
  else if account.googleLinkAllowed = false then throw (.signInError googleRefusal)
  else if account.status ≠ .active then throw (.signInError googleRefusal)
  else do
    requireActiveTenant account
    tryCatch (bindGoogle account.accountId subject 3) fun
      | .accountExistsError _ => throw (.signInError googleRefusal)
      | .accountChangedError _ => throw (.signInError googleRefusal)
      | e => throw e

def identified (account : Account) (subject : String) (byEmail : Bool) : SessionProc Account :=
  if byEmail then linked account subject else pure account

/-- `sign_in_with_google`, for the account of the identity or of its verified e-mail. -/
def signInWithGoogle (accountId subject : String) (byEmail : Bool) : SessionProc String := do
  match ← findAccount accountId with
  | none => throw (.signInError googleRefusal)
  | some (account, _) => do
      let account ← identified account subject byEmail
      if account.status ≠ .active then throw (.signInError googleRefusal)
      else openSession lib account .google fun current => current.googleSubject = some subject

/-- `sign_in_with_mobile`, for the account of the number. -/
def signInWithMobile (accountId mobile : String) : SessionProc String := do
  match ← findAccount accountId with
  | none => throw (.signInError mobileRefusal)
  | some (account, _) =>
      if account.status ≠ .active then throw (.signInError mobileRefusal)
      else openSession lib account .sms fun current => current.mobile = some mobile

def signIn (accountId : String) : Login → SessionProc String
  | .password password => signInWithPassword lib accountId password
  | .google subject byEmail => signInWithGoogle lib accountId subject byEmail
  | .sms mobile => signInWithMobile lib accountId mobile

/-! ## Recognising a signed-in browser -/

/-- The session has been revoked, has expired or has sat idle. -/
def Session.ended (session : Session) (at_ : Int) : Bool :=
  session.revokedAt.isSome || session.expiresAt ≤ at_ || idleTimeout ≤ at_ - session.lastSeenAt

/-- A session seen again is stamped, now and then; one another request stamped is still good. -/
def touch (session : Session) (version : Nat) (at_ : Int) : SessionProc Session :=
  if touchEvery ≤ at_ - session.lastSeenAt then do
    let touched := { session with lastSeenAt := at_ }
    tryCatch (do
      commitOne (.replace .session session.tokenHash touched version)
      pure touched) fun
      | .persistenceConflictError => pure session
      | e => throw e
  else pure session

/-- What `session_for` does with the session it has found. -/
def recognise (session : Session) (version : Nat) : SessionProc (Option (Session × Account)) := do
  let at_ ← readClock
  if session.ended at_ then pure none
  else
    match ← findAccount session.accountId with
    | none => pure none
    | some (account, _) =>
        if account.status ≠ .active then pure none
        else if session.generation ≠ account.sessionGeneration then pure none
        else if !(← tenantActive session.tenantId) then pure none
        else do
          let kept ← touch session version at_
          pure (some (kept, account))

/-- `session_for`. -/
def sessionFor : Option String → SessionProc (Option (Session × Account))
  | none => pure none
  | some token =>
      if token = "" ∨ 200 < token.length then pure none
      else do
        match ← findSession (lib.tokenHash token) with
        | none => pure none
        | some (session, version) => recognise session version

/-- A request of a browser. -/
def request (token : Option String) : SessionProc Unit := do
  match ← sessionFor lib token with
  | none => throw .unauthorized
  | some (session, account) => askOutside (.serve ⟨session, account⟩)

/-- `sign_out`. -/
def signOut : Option String → SessionProc Unit
  | none => pure ()
  | some token =>
      if token = "" then pure ()
      else do
        match ← findSession (lib.tokenHash token) with
        | none => pure ()
        | some (session, version) =>
            if session.revokedAt.isSome then pure ()
            else do
              let at_ ← readClock
              commitOne (.replace .session session.tokenHash
                { session with revokedAt := some at_ } version)

end Library

/-! ## The machine -/

/-- A tenant is made, or its status is set. -/
def putTenant (tenant : Tenant) : SessionProc Unit := do
  match ← findTenant tenant.tenantId with
  | none => commitOne (.create .tenant tenant.tenantId tenant)
  | some (_, version) => commitOne (.replace .tenant tenant.tenantId tenant version)

inductive SessionKind
  | signIn (accountId : String) (login : Login)
  | request (token : Option String)
  | signOut (token : Option String)
  | operate (accountId : String) (command : Command)
  | createAccount (account : Account)
  | putTenant (tenant : Tenant)

def sessionBody (lib : SessionLibrary) : SessionKind → SessionProc Unit
  | .signIn accountId login => Prog.void (signIn lib accountId login)
  | .request token => request lib token
  | .signOut token => signOut lib token
  | .operate accountId command => operate accountId command
  | .createAccount account => commitOne (.create .account account.accountId account)
  | .putTenant tenant => putTenant tenant

@[reducible] def sessionProcesses (lib : SessionLibrary) :
    Processes sessionBackend sessionOutside where
  Kind := SessionKind
  body := sessionBody lib
  admits := fun _ _ => true

@[reducible] def sessionMachine (lib : SessionLibrary) :
    Machine (iface sessionBackend sessionOutside) :=
  Service.machine (sessionProcesses lib)

end SeoAgent.Sessions
