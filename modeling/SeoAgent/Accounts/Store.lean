import SeoAgent.Verified.Reads

/-!
# Accounts

`AccountStore` (`app/accounts/store.py`) over one repository of accounts and of their
three indexes: by e-mail, by mobile number and by Google identity. A transaction is one
commit of its writes; what is read inside it is read before.

The callers of `create` (`app/accounts/service.py`) make accounts without a Google
identity, and those of `update` and `unlink_google` change copies they have read, in
fields that no index is about.
-/

namespace SeoAgent.Accounts

open SeoAgent.Verified Service

/-! ## Accounts -/

inductive AccountStatus
  | active
  | disabled
  deriving DecidableEq, Repr

/-- A person who signs in; times in microseconds. -/
structure Account where
  accountId : String
  tenantId : String
  email : Option String := none
  mobile : Option String := none
  termsAcceptedAt : Option Int := none
  status : AccountStatus := .active
  passwordHash : Option String := none
  googleSubject : Option String := none
  googleLinkAllowed : Bool := true
  sessionGeneration : Nat := 0
  createdAt : Int
  updatedAt : Int
  lastLoginAt : Option Int := none
  named : accountId ≠ ""
  /-- `found_by_something`. -/
  found : email ≠ none ∨ mobile ≠ none

/-- Accounts with the same fields are the same. -/
instance : DecidableEq Account := fun a b =>
  decidable_of_iff (a.accountId = b.accountId ∧ a.tenantId = b.tenantId ∧ a.email = b.email ∧
      a.mobile = b.mobile ∧ a.termsAcceptedAt = b.termsAcceptedAt ∧ a.status = b.status ∧
      a.passwordHash = b.passwordHash ∧ a.googleSubject = b.googleSubject ∧
      a.googleLinkAllowed = b.googleLinkAllowed ∧ a.sessionGeneration = b.sessionGeneration ∧
      a.createdAt = b.createdAt ∧ a.updatedAt = b.updatedAt ∧ a.lastLoginAt = b.lastLoginAt) (by
    cases a
    cases b
    simp)

/-- What the callers change in a copy. -/
structure AccountChanges where
  status : Option AccountStatus := none
  passwordHash : Option (Option String) := none
  googleLinkAllowed : Option Bool := none
  sessionGeneration : Option Nat := none
  lastLoginAt : Option (Option Int) := none

/-- `model_copy(update=changes)`. -/
def Account.modelCopy (account : Account) (changes : AccountChanges) : Account :=
  { account with
    status := changes.status.getD account.status
    passwordHash := changes.passwordHash.getD account.passwordHash
    googleLinkAllowed := changes.googleLinkAllowed.getD account.googleLinkAllowed
    sessionGeneration := changes.sessionGeneration.getD account.sessionGeneration
    lastLoginAt := changes.lastLoginAt.getD account.lastLoginAt }

/-! ## The repository -/

inductive AccountType
  | account
  | accountEmail
  | accountMobile
  | accountGoogle
  deriving DecidableEq, Repr

/-- An index record has the id of an account, or none. -/
@[reducible] def AccountType.Payload : AccountType → Type
  | account => Account
  | accountEmail => Option String
  | accountMobile => Option String
  | accountGoogle => Option String

instance AccountType.decidableEqPayload : (t : AccountType) → DecidableEq t.Payload
  | account => inferInstanceAs (DecidableEq Account)
  | accountEmail => inferInstanceAs (DecidableEq (Option String))
  | accountMobile => inferInstanceAs (DecidableEq (Option String))
  | accountGoogle => inferInstanceAs (DecidableEq (Option String))

inductive AccountExc
  /-- `PersistenceConflictError`, at a record of a type. -/
  | persistenceConflictError (aggregateType : AccountType)
  | persistenceNotFoundError
  | databaseError (message : String)
  | accountExistsError (message : String)
  | accountChangedError (message : String)
  | lookupError (message : String)
  | validationError
  deriving DecidableEq, Repr

def AccountExc.refused (t : AccountType) (_ : String) : Repository.Refusal → AccountExc
  | .notFound => persistenceNotFoundError
  | _ => persistenceConflictError t

@[reducible] def accountBackend : Backend where
  T := AccountType
  Payload := AccountType.Payload
  Exn := AccountExc
  refused := AccountExc.refused
  broken := .databaseError

/-- The store talks to nothing but its repository and the clock. -/
@[reducible] def nothingElse : Outside AccountExc where
  Op := Empty
  Res := fun x => nomatch x
  State := Unit
  Choice := Empty
  Env := Empty
  exec := fun _ x => nomatch x
  change := fun _ e => nomatch e

abbrev AccountProc (α : Type) : Type := Proc accountBackend nothingElse α

abbrev AccountPast : Type := Past accountBackend nothingElse

abbrev AccountWrites : Type := Writes accountBackend

abbrev findAccount (accountId : String) : AccountProc (Option (Account × Nat)) :=
  Service.find (B := accountBackend) (X := nothingElse) .account accountId

abbrev findGoogle (subject : String) : AccountProc (Option (Option String × Nat)) :=
  Service.find (B := accountBackend) (X := nothingElse) .accountGoogle subject

abbrev commitAll (ws : AccountWrites) : AccountProc Unit :=
  Service.commit (B := accountBackend) (X := nothingElse) ws

/-! ## Operations -/

/-- The index records of a new account, and the account. -/
def createWrites (account : Account) : AccountWrites :=
  (account.email.toList.map fun email => .create .accountEmail email (some account.accountId)) ++
    (account.mobile.toList.map fun mobile =>
      .create .accountMobile mobile (some account.accountId)) ++
    [.create .account account.accountId account]

def create (account : Account) : AccountProc Unit :=
  tryCatch (commitAll (createWrites account)) fun
    | .persistenceConflictError .accountEmail =>
        throw (.accountExistsError ("An account with this email already exists: " ++
          account.email.getD ""))
    | .persistenceConflictError .accountMobile =>
        throw (.accountExistsError "An account with this mobile number already exists.")
    | e => throw e

/-- `_later_than`. -/
def laterThan (previous now : Int) : Int := if previous < now then now else previous + 1

/-- `update`, in a transaction that has made the writes `before`. -/
def updateAfter (before : AccountWrites) (account : Account) : AccountProc Account := do
  match ← findAccount account.accountId with
  | none => throw (.lookupError s!"account not found: {account.accountId}")
  | some (current, version) =>
      if current.updatedAt ≠ account.updatedAt then
        throw (.accountChangedError s!"account changed since it was read: {account.accountId}")
      else do
        let at_ ← Service.now
        let written := { account with updatedAt := laterThan account.updatedAt at_ }
        commitAll (before ++ [.replace .account account.accountId written version])
        pure written

/-- A write of an account that another one was before. -/
def onChanged {α : Type} (accountId : String) : AccountExc → AccountProc α
  | .persistenceConflictError _ =>
      throw (.accountChangedError s!"account changed while being written: {accountId}")
  | e => throw e

def update (account : Account) : AccountProc Account :=
  tryCatch (updateAfter [] account) (onChanged account.accountId)

/-- May an account take a Google identity? -/
def Account.mayTake (account : Account) (subject : String) : Bool :=
  account.status = .active && account.googleLinkAllowed &&
    (account.googleSubject = none || account.googleSubject = some subject)

def taken : AccountExc :=
  .accountExistsError "This Google account is already linked to an account."

/-- The write of `_claim_google` over the index record that was read, unless it is
taken. -/
def claimGoogle (accountId subject : String) :
    Option (Option String × Nat) → Except AccountExc AccountWrites
  | some (some _, _) => .error taken
  | some (none, version) => .ok [.replace .accountGoogle subject (some accountId) version]
  | none =>
      -- A record needs an id that is not empty.
      if subject = "" then .error .validationError
      else .ok [.create .accountGoogle subject (some accountId)]

/-- One try of `bind_google`. -/
def bindOnce (accountId subject : String) : AccountProc Account := do
  match ← findAccount accountId with
  | none => throw (.accountExistsError "This account cannot take this Google account.")
  | some (current, _) =>
      if !current.mayTake subject then
        throw (.accountExistsError "This account cannot take this Google account.")
      else do
        let index ← findGoogle subject
        let claim ← Prog.ofExcept (claimGoogle accountId subject index)
        tryCatch (updateAfter claim { current with googleSubject := some subject }) fun
          | .persistenceConflictError .accountGoogle => throw taken
          | e => onChanged accountId e

/-- `bind_google`, with the tries that are left. -/
def bindGoogle (accountId subject : String) : Nat → AccountProc Account
  | 0 => throw (.accountChangedError s!"account kept changing: {accountId}")
  | tries + 1 =>
      tryCatch (bindOnce accountId subject) fun
        | .accountChangedError _ => bindGoogle accountId subject tries
        | e => throw e

/-- The copy `unlink_google` writes. -/
def Account.unlinked (account : Account) (changes : AccountChanges) : Account :=
  { account with googleSubject := none, googleLinkAllowed := false }.modelCopy changes

/-- The write that empties an index record, when it points to the account. -/
def releaseGoogle (accountId subject : String) : Option (Option String × Nat) → AccountWrites
  | some (some owner, version) =>
      if owner = accountId then [.replace .accountGoogle subject none version] else []
  | _ => []

def unlinkGoogle (account : Account) (changes : AccountChanges) : AccountProc Account :=
  tryCatch (match account.googleSubject.filter (· ≠ "") with
    | none => updateAfter [] (account.unlinked changes)
    | some subject => do
        let index ← findGoogle subject
        updateAfter (releaseGoogle account.accountId subject index) (account.unlinked changes))
    (onChanged account.accountId)

/-! ## The machine -/

/-- A caller reads an account and does something with the copy. -/
def withCopy (accountId : String) (p : Account → AccountProc Account) : AccountProc Unit := do
  match ← findAccount accountId with
  | none => pure ()
  | some (account, _) => (p account).void

inductive AccountKind
  | create (account : Account) (unlinked : account.googleSubject = none)
  | bindGoogle (accountId subject : String)
  | unlinkGoogle (accountId : String) (changes : Account → AccountChanges)
  | update (accountId : String) (changes : Account → AccountChanges)

def accountBody : AccountKind → AccountProc Unit
  | .create account _ => Accounts.create account
  | .bindGoogle accountId subject => (Accounts.bindGoogle accountId subject 3).void
  | .unlinkGoogle accountId changes =>
      withCopy accountId fun account => Accounts.unlinkGoogle account (changes account)
  | .update accountId changes =>
      withCopy accountId fun account => Accounts.update (account.modelCopy (changes account))

/-- Any number of calls at once. -/
@[reducible] def accountProcesses : Processes accountBackend nothingElse where
  Kind := AccountKind
  body := accountBody
  admits := fun _ _ => true

@[reducible] def accountMachine : Machine (iface accountBackend nothingElse) :=
  Service.machine accountProcesses

/-- No accounts. -/
def noAccounts : World accountBackend nothingElse := ⟨Repository.empty, ()⟩

end SeoAgent.Accounts
