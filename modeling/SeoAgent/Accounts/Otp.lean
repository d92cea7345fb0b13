import Mathlib
import SeoAgent.Verified.Tickets

/-!
# One-time codes by SMS

`OtpService` (`app/accounts/otp.py`): a code is sent to a mobile number and checked, over
one versioned record a number. Times are in microseconds. The attempt limiters, the
random source, the SMS provider and the hash comparison are outside; the outside keeps a
log of the codes sent, the guesses compared and the checks passed, which no request
reads. A code is known by the number and the moment it was sent.
-/

namespace SeoAgent.Accounts.Otp

open SeoAgent.Verified Service

/-! ## Challenges -/

/-- Two minutes. -/
def codeLifetime : Int := 120000000

/-- Sixty seconds. -/
def resendAfter : Int := 60000000

def codesPerDay : Nat := 5

def triesPerCode : Nat := 5

/-- Ten minutes. -/
def signupFormTime : Int := 600000000

/-- `timedelta(days=1)`. -/
def oneDay : Int := 86400000000

structure OtpChallenge where
  mobile : String
  salt : String
  codeHash : String
  expiresAt : Int
  tries : Nat := 0
  used : Bool := false
  /-- When codes went to this number, the last day's only. -/
  sent : List Int := []
  deriving DecidableEq, Repr

/-- When the code of a challenge was sent. -/
def OtpChallenge.sentAt (challenge : OtpChallenge) : Int := challenge.sent.getLastD 0

/-- One more try is counted. -/
def OtpChallenge.tried (challenge : OtpChallenge) : OtpChallenge :=
  { challenge with tries := challenge.tries + 1 }

/-- A right code: used up, or kept for the sign-up form. -/
def OtpChallenge.passed (challenge : OtpChallenge) (consume : Bool) (at_ : Int) :
    OtpChallenge :=
  if consume then { challenge with used := true }
  else { challenge with expiresAt := max challenge.expiresAt (at_ + signupFormTime) }

/-- The moments of the last day. -/
def recent (at_ : Int) (sent : List Int) : List Int :=
  sent.filter fun moment => at_ - moment < oneDay

/-! ## The repository and the outside -/

inductive OtpType
  | otpChallenge
  deriving DecidableEq, Repr

inductive OtpExc
  | persistenceConflictError
  | persistenceNotFoundError
  | databaseError (message : String)
  | smsError (message : String)
  | otpError (message : String)
  | otpTooSoon (message : String) (waitSeconds : Int)
  deriving DecidableEq, Repr

def OtpExc.refused (_ : OtpType) (_ : String) : Repository.Refusal → OtpExc
  | .notFound => persistenceNotFoundError
  | _ => persistenceConflictError

@[reducible] def otpBackend : Backend where
  T := OtpType
  Payload := fun _ => OtpChallenge
  Exn := OtpExc
  refused := OtpExc.refused
  broken := .databaseError

/-- The attempt limiters of the service. -/
inductive Limiter
  | perAddress
  | checks
  | all
  deriving DecidableEq, Repr

/-- What a request asks of the outside. The challenge and version it names beside are for
the log. -/
inductive OtpOp
  | attempt (limiter : Limiter) (key : String)
  | draw
  | sendCode (code : String) (challenge : OtpChallenge) (version : Nat)
  | compareDigest (given : String) (challenge : OtpChallenge) (version : Nat)
  /-- `return True`. -/
  | accept (consume : Bool) (challenge : OtpChallenge) (version : Nat)

@[reducible] def OtpOp.Res : OtpOp → Type
  | attempt _ _ => Bool
  | draw => Fin 1000000 × String
  | sendCode _ _ _ => Unit
  | compareDigest _ _ _ => Bool
  | accept _ _ _ => Unit

inductive OtpAnswer
  | allowed (yes : Bool)
  | drawn (code : Fin 1000000) (salt : String)
  | done
  | failed (message : String)

/-- What the outside keeps of an operation. -/
inductive OtpEntry
  | codeSent (challenge : OtpChallenge) (version : Nat)
  | compared (challenge : OtpChallenge) (version : Nat)
  | accepted (consume : Bool) (challenge : OtpChallenge) (version : Nat)
  deriving DecidableEq, Repr

namespace OtpEntry

def challenge : OtpEntry → OtpChallenge
  | codeSent challenge _ => challenge
  | compared challenge _ => challenge
  | accepted _ challenge _ => challenge

/-- The version of the record the operation follows. -/
def version : OtpEntry → Nat
  | codeSent _ version => version
  | compared _ version => version
  | accepted _ _ version => version

end OtpEntry

def OtpOp.entry : OtpOp → Option OtpEntry
  | sendCode _ challenge version => some (.codeSent challenge version)
  | compareDigest _ challenge version => some (.compared challenge version)
  | accept consume challenge version => some (.accepted consume challenge version)
  | attempt _ _ => none
  | draw => none

/-- An SMS that failed may have gone out. -/
def otpExec (hash : String → String → String) (log : List OtpEntry) : (o : OtpOp) →
    OtpAnswer → Option (Except OtpExc o.Res × List OtpEntry)
  | .attempt _ _, .allowed yes => some (.ok yes, log)
  | .draw, .drawn code salt => some (.ok (code, salt), log)
  | .sendCode _ challenge version, .done => some (.ok (), .codeSent challenge version :: log)
  | .sendCode _ challenge version, .failed message =>
      some (.error (.smsError message), .codeSent challenge version :: log)
  | .compareDigest given challenge version, .done =>
      some (.ok (hash challenge.salt given = challenge.codeHash),
        .compared challenge version :: log)
  | .accept consume challenge version, .done =>
      some (.ok (), .accepted consume challenge version :: log)
  | _, _ => none

@[reducible] def otpOutside (hash : String → String → String) : Outside OtpExc where
  Op := OtpOp
  Res := OtpOp.Res
  State := List OtpEntry
  Choice := OtpAnswer
  Env := Empty
  exec := otpExec hash
  change := fun _ e => nomatch e

/-! ## Requests -/

section Requests
variable (hash : String → String → String)

abbrev OtpProc (α : Type) : Type := Proc otpBackend (otpOutside hash) α

abbrev OtpPast : Type := Past otpBackend (otpOutside hash)

abbrev otpExt (x : OtpOp) : OtpProc hash x.Res :=
  Service.ext (B := otpBackend) (X := otpOutside hash) x

/-- The stored challenge with its version, or version 0. -/
def readChallenge (mobile : String) : OtpProc hash (Option OtpChallenge × Nat) := do
  let found ← Service.find (B := otpBackend) (X := otpOutside hash) .otpChallenge mobile
  pure (found.map Prod.fst, (found.map Prod.snd).getD 0)

/-- The write of `_save`. -/
def saveChallenge (challenge : OtpChallenge) (version : Nat) :
    Repository.Write OtpType fun _ => OtpChallenge :=
  if version = 0 then .create .otpChallenge challenge.mobile challenge
  else .replace .otpChallenge challenge.mobile challenge version

def save (challenge : OtpChallenge) (version : Nat) : OtpProc hash Unit :=
  Service.commit (B := otpBackend) (X := otpOutside hash) [saveChallenge challenge version]

/-- Why no code is sent now, from the moments of the last day. -/
def sendRefusal (at_ : Int) (sent : List Int) : Option OtpExc :=
  match sent.getLast? with
  | none => none
  | some last =>
      if at_ - last < resendAfter then
        some (.otpTooSoon "A code was sent a moment ago."
          ((resendAfter - (at_ - last)) / 1000000 + 1))
      else if codesPerDay ≤ sent.length then
        some (.otpError "Too many codes sent to this number today.")
      else none

/-- `f"{code:06d}"`. -/
def sixDigits (code : Fin 1000000) : String :=
  String.ofList ((List.range 6).reverse.map fun i => Char.ofNat (48 + code / 10 ^ i % 10))

/-- The challenge of a new code. -/
def newChallenge (mobile : String) (at_ : Int) (sent : List Int) (code : Fin 1000000)
    (salt : String) : OtpChallenge :=
  { mobile, salt, codeHash := hash salt (sixDigits code), expiresAt := at_ + codeLifetime
    sent := sent ++ [at_] }

/-- Saves a new code and then sends it: of two requests together one is refused. -/
def saveAndSend (challenge : OtpChallenge) (version : Nat) (code : Fin 1000000) :
    OtpProc hash Unit := do
  tryCatch (save hash challenge version) fun
    | .persistenceConflictError =>
        throw (.otpTooSoon "A code was sent a moment ago." (resendAfter / 1000000))
    | e => throw e
  tryCatch (otpExt hash (.sendCode (sixDigits code) challenge (version + 1))) fun
    | .smsError _ =>
        throw (.otpError "The code could not be sent. Try again in a few minutes.")
    | e => throw e

def send (mobile address : String) : OtpProc hash Unit := do
  let at_ ← Service.now
  let found ← readChallenge hash mobile
  let sent := recent at_ ((found.1.map OtpChallenge.sent).getD [])
  match sendRefusal at_ sent with
  | some e => throw e
  | none => do
      if !(← otpExt hash (.attempt .perAddress address)) then
        throw (.otpError "Too many codes requested. Try again later.")
      else if !(← otpExt hash (.attempt .all "all")) then
        throw (.otpError "Too many codes requested. Try again later.")
      else do
        let drawn ← otpExt hash .draw
        saveAndSend hash (newChallenge hash mobile at_ sent drawn.1 drawn.2) found.2 drawn.1

/-- Persian and Arabic digits as ASCII ones. -/
def toAsciiDigit (c : Char) : Char :=
  if 0x6F0 ≤ c.toNat ∧ c.toNat ≤ 0x6F9 then Char.ofNat (c.toNat - 0x6F0 + 48)
  else if 0x660 ≤ c.toNat ∧ c.toNat ≤ 0x669 then Char.ofNat (c.toNat - 0x660 + 48)
  else c

/-- The first six digits that were typed. -/
def givenDigits (code : String) : String :=
  String.ofList (((code.toList.map toAsciiDigit).filter fun c =>
    48 ≤ c.toNat && c.toNat ≤ 57).take 6)

/-- Saves, unless another request was there first. -/
def saveUnlessConflict (challenge : OtpChallenge) (version : Nat) : OtpProc hash Bool :=
  tryCatch (do
      save hash challenge version
      pure true)
    fun
      | .persistenceConflictError => pure false
      | e => throw e

/-- A try of a code that may be tried: it is counted, and then compared. -/
def tryCode (code : String) (consume : Bool) (at_ : Int) (current : OtpChallenge)
    (version : Nat) : OtpProc hash Unit := do
  if ← saveUnlessConflict hash current.tried version then
    if ← otpExt hash (.compareDigest (givenDigits code) current.tried (version + 1)) then
      if ← saveUnlessConflict hash (current.tried.passed consume at_) (version + 1) then
        otpExt hash (.accept consume (current.tried.passed consume at_) (version + 2))
      else pure ()
    else pure ()
  else pure ()

/-- A code that may still be tried. -/
def OtpChallenge.stillOpen (challenge : OtpChallenge) (at_ : Int) : Bool :=
  !challenge.used && decide (at_ < challenge.expiresAt) &&
    decide (challenge.tries < triesPerCode)

/-- `check`; every end but `accept` is `return False`. -/
def check (mobile code address : String) (consume : Bool) : OtpProc hash Unit := do
  if !(← otpExt hash (.attempt .checks address)) then
    throw (.otpError "Too many tries. Try again later.")
  else do
    let found ← readChallenge hash mobile
    let at_ ← Service.now
    match found.1 with
    | none => pure ()
    | some current =>
        if current.stillOpen at_ then tryCode hash code consume at_ current found.2 else pure ()

/-! ## The machine -/

inductive OtpKind
  | send (mobile address : String)
  | check (mobile code address : String) (consume : Bool)

def otpBody : OtpKind → OtpProc hash Unit
  | .send mobile address => Otp.send hash mobile address
  | .check mobile code address consume => Otp.check hash mobile code address consume

/-- Any number of requests at once. -/
@[reducible] def otpProcesses : Processes otpBackend (otpOutside hash) where
  Kind := OtpKind
  body := otpBody hash
  admits := fun _ _ => true

@[reducible] def otpMachine : Machine (iface otpBackend (otpOutside hash)) :=
  Service.machine (otpProcesses hash)

/-- Nothing stored and nothing sent. -/
def noCodes : World otpBackend (otpOutside hash) := ⟨Repository.empty, []⟩

/-- The log of the codes sent, the guesses compared and the checks passed. -/
def otpLog : Logbook (B := otpBackend) (otpOutside hash) OtpEntry where
  entries := id
  entry := OtpOp.entry
  exec := by
    intro s x ch r s' h
    cases x with
    | attempt limiter key =>
        cases ch with
        | allowed yes => cases h; exact .inl rfl
        | _ => cases h
    | draw =>
        cases ch with
        | drawn code salt => cases h; exact .inl rfl
        | _ => cases h
    | sendCode code challenge version =>
        cases ch with
        | done => cases h; exact .inr ⟨_, rfl, rfl⟩
        | failed message => cases h; exact .inr ⟨_, rfl, rfl⟩
        | _ => cases h
    | compareDigest given challenge version =>
        cases ch with
        | done => cases h; exact .inr ⟨_, rfl, rfl⟩
        | _ => cases h
    | accept consume challenge version =>
        cases ch with
        | done => cases h; exact .inr ⟨_, rfl, rfl⟩
        | _ => cases h
  change := fun {_ e _} _ => nomatch e

end Requests

end SeoAgent.Accounts.Otp
