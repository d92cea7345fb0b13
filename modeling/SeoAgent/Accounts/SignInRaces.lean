import SeoAgent.Accounts.PasswordSignIn
import SeoAgent.Verified.Reads

/-!
# Sign-ins that race

A sign-in goes by the hash it has read until it reads the account again to confirm its
session. A hash with old parameters is replaced by the first sign-in that gets to it, and only
by that one, since an update is refused when the account was written since. Any other sign-in
that went by the old hash at that moment then finds another hash and is refused, though its
password is right.

## Main results

* `signIn_ends` — a sign-in with the right password is refused only when the hash it went by
  is no longer there.
* `none_refused` — none is refused in a run in which a hash is replaced only while no other
  sign-in goes by it.
* `rightPassword_refused` — a run of two sign-ins, one of which is refused.
-/

namespace SeoAgent.SignIn

open SeoAgent.Verified Service Prog Machine
open SeoAgent.Accounts (Account AccountStatus hashPassword needsRehash verifyPassword laterThan
  verifyPassword_hashPassword)

/-! ## The hash a sign-in goes by -/

/-- How far a sign-in has come with the hash of its account: it has read none, it goes by one,
it has opened a session by one, or it has confirmed it against the one it found then. -/
inductive Relied
  | nothing
  | on (hash : Option String)
  | opened (hash : Option String)
  | confirmed (hash found : Option String)
  deriving DecidableEq, Repr

/-- What one answer makes of it. -/
def advance : Relied → SignInEvent → Relied
  | .nothing, ⟨.find .account _, .ok (some (account, _))⟩ => .on account.passwordHash
  | .on _, ⟨.commit [.replace .account _ written _], .ok _⟩ => .on written.passwordHash
  | .on hash, ⟨.commit [.create .session _ _], _⟩ => .opened hash
  | .opened hash, ⟨.find .account _, .ok (some (account, _))⟩ =>
      .confirmed hash account.passwordHash
  | relied, _ => relied

def relied : SignInPast → Relied
  | [] => .nothing
  | ev :: past => advance (relied past) ev

/-- The sign-in still goes by a hash. -/
def Relied.pending : Relied → Bool
  | .on _ => true
  | .opened _ => true
  | _ => false

theorem relied_cons (ev : SignInEvent) (past : SignInPast) :
    relied (ev :: past) = advance (relied past) ev := rfl

/-! ## The account and its sign-ins -/

/-- The account that is signed in to. -/
structure Whom where
  accountId : String
  tenantId : String
  generation : Nat

section Contract
variable (lib : SignInLibrary) (key password : String) (whom : Whom)

/-- The account is active, in its tenant and its generation, and the password is right. -/
structure Right (account : Account) : Prop where
  accountId : account.accountId = whom.accountId
  tenantId : account.tenantId = whom.tenantId
  status : account.status = .active
  generation : account.sessionGeneration = whom.generation
  verified : verifyPassword lib.toPasswordLibrary password account.passwordHash = true

/-- The account is found by its e-mail, may be signed in to with the password, and its stamps
increase from version to version. -/
structure Ready (r : SignInRecords) : Prop where
  index : r.latest .accountEmail key = some whom.accountId
  tenant : ∃ tenant, r.latest .tenant whom.tenantId = some tenant ∧ tenant.status = .active
  account : ∃ account, r.latest .account whom.accountId = some account ∧
    Right lib password whom account
  stamps : (r.versions .account whom.accountId).Pairwise fun u v => u.updatedAt < v.updatedAt

/-- What comes back from an operation while nothing fails. -/
def Trusted : (o : Service.Op signInBackend signInOutside) →
    (iface signInBackend signInOutside).Answer o → Prop
  | .find .accountEmail email, answer =>
      email = key → ∃ version, answer = .ok (some (whom.accountId, version))
  | .find .account accountId, answer => accountId = whom.accountId →
      ∃ account version, answer = .ok (some (account, version)) ∧ Right lib password whom account
  | .find .tenant tenantId, answer => tenantId = whom.tenantId →
      ∃ tenant version, answer = .ok (some (tenant, version)) ∧ tenant.status = .active
  | .commit [.create .session _ _], answer => answer = .ok ()
  | .commit [.replace .account _ _ _], answer =>
      answer = .ok () ∨ answer = .error (.persistenceConflictError .account)
  | .ext (.attempt _ _), answer => answer = .ok true
  | .ext (.cancel _ _), answer => answer = .ok ()
  | .ext (.succeeded _ _), answer => answer = .ok ()
  | .ext .salt, answer => ∃ salt, answer = .ok salt
  | .now, answer => ∃ at_, answer = .ok at_
  | .newId, answer => ∃ name, answer = .ok name
  | _, _ => True

/-- The account was read so, at some time. -/
def HasFound (past : SignInPast) (account : Account) (version : Nat) : Prop :=
  (⟨.find .account whom.accountId, .ok (some (account, version))⟩ : SignInEvent) ∈ past

/-- The account is written over a version that was read, with the stamp of a copy that was
read. The hash of the copy is kept once the session has been confirmed. -/
structure Rewrites (past : SignInPast) (copy current written : Account) (version read : Nat) :
    Prop where
  copyRead : HasFound whom past copy read
  currentRead : HasFound whom past current version
  stamp : current.updatedAt = copy.updatedAt
  later : copy.updatedAt < written.updatedAt
  right : Right lib password whom written
  hash : (∃ hash, relied past = .on hash) ∨ written.passwordHash = copy.passwordHash

/-- The transactions of a sign-in. -/
inductive SignInCommit (past : SignInPast) : SignInWrites → Prop
  | opened (session : Session) (goesBy : ∃ hash, relied past = .on hash) :
      SignInCommit past [.create .session session.tokenHash session]
  | revoked (session : Session) (version : Nat) :
      SignInCommit past [.replace .session session.tokenHash session version]
  | rewritten {copy current written : Account} {version read : Nat}
      (rewrites : Rewrites lib password whom past copy current written version read) :
      SignInCommit past [.replace .account whom.accountId written version]

/-- The contract of a sign-in. -/
@[reducible] def contract : Prog.Contract (iface signInBackend signInOutside) where
  permits past
    | .commit ws => SignInCommit lib password whom past ws
    | .find .account accountId => accountId = whom.accountId
    | _ => True
  trusts := Trusted lib key password whom

/-- The session was confirmed against another hash than the one the sign-in went by. -/
def Mismatched (past : SignInPast) : Prop :=
  ∃ hash found, relied past = .confirmed hash found ∧ found ≠ hash

/-- A sign-in is refused only when the hash it went by is no longer there. -/
def RefusedOnlyMismatched {α : Type} (past : SignInPast) : Except SignInExc α → Prop
  | .ok _ => True
  | .error _ => Mismatched past

end Contract

/-! ## One sign-in -/

section OneSignIn
variable {lib : SignInLibrary} {key password : String} {whom : Whom} {past : SignInPast}
  {copy account : Account} {hash : Option String} {read : Nat}

theorem lt_laterThan (previous at_ : Int) : previous < laterThan previous at_ := by
  unfold laterThan
  split <;> omega

/-- What an update gives back: the copy with a later stamp, or that the account has changed.
A sign-in that goes by a hash goes by the new one, or still by the old one. -/
def UpdateEnds (lib : SignInLibrary) (password : String) (whom : Whom) (account : Account)
    (before : Relied) (past : SignInPast) : Except SignInExc Account → Prop
  | .ok written => written.passwordHash = account.passwordHash ∧
      Right lib password whom written ∧
      ∀ hash, before = .on hash → relied past = .on account.passwordHash
  | .error e => (∃ message, e = .accountChangedError message) ∧
      ∀ hash, before = .on hash → relied past = .on hash

theorem Right.stamped (h : Right lib password whom account) (stamp : Int) :
    Right lib password whom { account with updatedAt := stamp } :=
  ⟨h.accountId, h.tenantId, h.status, h.generation, h.verified⟩

theorem update_ends (hcopy : HasFound whom past copy read)
    (hstamp : account.updatedAt = copy.updatedAt) (hright : Right lib password whom account)
    (hhash : (∃ hash, relied past = .on hash) ∨ account.passwordHash = copy.passwordHash) :
    wp (contract lib key password whom) (UpdateEnds lib password whom account (relied past))
      (update account) past := by
  obtain ⟨accountId, tenantId, generation⟩ := whom
  obtain rfl : account.accountId = accountId := hright.accountId
  unfold update
  refine Prog.wp_ask_bind rfl (fun found hfound => ?_) fun e he => ?_
  · obtain ⟨current, version, heq, -⟩ := hfound rfl
    obtain rfl := Except.ok.inj heq
    have hfind : ∀ h, relied past = .on h →
        relied (⟨.find .account account.accountId, .ok (some (current, version))⟩ :: past) = .on h :=
      fun h hrelied => by rw [relied_cons, hrelied]; rfl
    dsimp only
    split
    · exact ⟨⟨_, rfl⟩, hfind⟩
    · next hsame =>
        refine Prog.wp_ask_bind trivial (fun at_ _ => ?_) fun e he => ?_
        · let written : Account := { account with updatedAt := laterThan account.updatedAt at_ }
          let past' : SignInPast := ⟨.now, .ok at_⟩ ::
            ⟨.find .account account.accountId, .ok (some (current, version))⟩ :: past
          have hnow : ∀ h, relied past = .on h → relied past' = .on h :=
            fun h hrelied => by rw [relied_cons, hfind h hrelied]; rfl
          have hrewrites : Rewrites lib password _ past' copy current written version read :=
            { copyRead := List.mem_cons_of_mem _ (List.mem_cons_of_mem _ hcopy)
              currentRead := List.mem_cons_of_mem _ List.mem_cons_self
              stamp := (not_not.mp hsame).trans hstamp
              later := hstamp ▸ lt_laterThan _ _
              right := hright.stamped _
              hash := hhash.imp (fun ⟨h, hrelied⟩ => ⟨h, hnow h hrelied⟩) id }
          rw [Prog.wp_bind, Prog.wp_tryCatch]
          refine Prog.wp_ask (.rewritten hrewrites) fun r hr => ?_
          rcases hr with rfl | rfl
          · refine ⟨rfl, hright.stamped _, fun h hrelied => ?_⟩
            rw [relied_cons, hnow h hrelied]
            rfl
          · refine ⟨⟨_, rfl⟩, fun h hrelied => ?_⟩
            rw [relied_cons, hnow h hrelied]
            rfl
        · obtain ⟨at_, hat⟩ := he
          cases hat
  · obtain ⟨_, _, heq, -⟩ := he rfl
    cases heq

/-- The sign-in goes on with an account it has the right to, and goes by its hash. -/
def Proceeds (lib : SignInLibrary) (password : String) (whom : Whom) (past : SignInPast) :
    Except SignInExc Account → Prop
  | .ok account => Right lib password whom account ∧ relied past = .on account.passwordHash
  | .error _ => False

theorem rehashed_proceeds (hcopy : HasFound whom past account read)
    (hright : Right lib password whom account) (hon : relied past = .on account.passwordHash) :
    wp (contract lib key password whom) (Proceeds lib password whom)
      (rehashed lib password account) past := by
  unfold rehashed
  split
  · -- Either the new hash is there, or the sign-in goes on by the hash it has read.
    refine Prog.wp_try (Q := fun past' r => match r with
        | .ok written => Right lib password whom written ∧ relied past' = .on written.passwordHash
        | .error e => (e = .valueError ∨ ∃ message, e = .accountChangedError message) ∧
            relied past' = .on account.passwordHash) ?_ (fun _ _ _ h => h) fun past' e _ he => ?_
    · unfold rehash
      refine Prog.wp_ask_bind trivial (fun salt _ => ?_) fun e he => ?_
      · have hsalted : relied (⟨.ext .salt, .ok salt⟩ :: past) = .on account.passwordHash := by
          rw [relied_cons, hon]
          rfl
        dsimp only
        split
        · exact ⟨.inl rfl, hsalted⟩
        · next stored hstored =>
            have hnew : Right lib password whom { account with passwordHash := some stored } :=
              ⟨hright.accountId, hright.tenantId, hright.status, hright.generation,
                verifyPassword_hashPassword hstored⟩
            refine Prog.wp_mono (fun past' r _ hr => ?_)
              (update_ends (List.mem_cons_of_mem _ hcopy) rfl hnew (.inl ⟨_, hsalted⟩))
            cases r with
            | ok written =>
                obtain ⟨hhash, hwritten, hrelied⟩ := hr
                exact ⟨hwritten, (hrelied _ hsalted).trans (congrArg Relied.on hhash.symm)⟩
            | error e => exact ⟨.inr hr.1, hr.2 _ hsalted⟩
      · obtain ⟨salt, hsalt⟩ := he
        cases hsalt
    · obtain ⟨rfl | ⟨message, rfl⟩, hrelied⟩ := he
      · exact ⟨hright, hrelied⟩
      · exact ⟨hright, hrelied⟩
  · exact ⟨hright, hon⟩

/-- The account that was found lets the session stand unless its hash is another. -/
theorem invalidNow_iff {session : Session} {current : Account}
    (hcurrent : Right lib password whom current) (hgeneration : session.generation = whom.generation) :
    invalidNow session hash current = true ↔ current.passwordHash ≠ hash := by
  simp [invalidNow, hcurrent.status, hcurrent.generation, hgeneration]

theorem confirm_ends {session : Session} {token : String} {at_ : Int}
    (hsession : session.accountId = whom.accountId ∧ session.generation = whom.generation)
    (hopened : relied past = .opened hash) :
    wp (contract lib key password whom) RefusedOnlyMismatched (confirm session token hash at_)
      past := by
  unfold confirm
  refine Prog.wp_ask_bind hsession.1 (fun found hfound => ?_) fun e he => ?_
  · obtain ⟨current, version, heq, hcurrent⟩ := hfound hsession.1
    obtain rfl := Except.ok.inj heq
    let past' : SignInPast :=
      ⟨.find .account session.accountId, .ok (some (current, version))⟩ :: past
    have hconfirmed : relied past' = .confirmed hash current.passwordHash := by
      rw [relied_cons, hopened]
      rfl
    have hfoundAt : HasFound whom past' current version := by
      unfold HasFound
      rw [← hsession.1]
      exact List.mem_cons_self
    dsimp only
    split
    · next hinvalid =>
        have hother := (invalidNow_iff hcurrent hsession.2).mp hinvalid
        refine Prog.wp_ask_bind (.revoked { session with revokedAt := some at_ } 1)
          (fun _ _ => ?_) fun e _ => ?_
        all_goals
          refine ⟨hash, current.passwordHash, ?_, hother⟩
          rw [relied_cons]
          exact congrArg (advance · _) hconfirmed
    · let seenNow : Account := { current with lastLoginAt := some at_ }
      have hright : Right lib password whom seenNow :=
        ⟨hcurrent.accountId, hcurrent.tenantId, hcurrent.status, hcurrent.generation,
          hcurrent.verified⟩
      have hupdate : wp (contract lib key password whom)
          (UpdateEnds lib password whom seenNow (relied past')) (update seenNow) past' :=
        update_ends hfoundAt rfl hright (.inr rfl)
      refine Prog.wp_seq (Q := fun _ r => ∃ a, r = .ok a) ?_ (fun _ _ _ _ => trivial) ?_
      · refine Prog.wp_try (Q := fun _ r => (∃ a, r = .ok a) ∨
          ∃ message, r = .error (SignInExc.accountChangedError message)) ?_ (fun _ _ _ h => ?_) ?_
        · refine Prog.wp_seq hupdate (fun _ _ _ _ => .inl ⟨(), rfl⟩) fun _ e _ he => ?_
          obtain ⟨message, rfl⟩ := he.1
          exact .inr ⟨message, rfl⟩
        · rcases h with h | ⟨message, h⟩
          · exact h
          · cases h
        · rintro past'' e - (⟨a, h⟩ | ⟨message, h⟩)
          · cases h
          · cases h
            exact ⟨(), rfl⟩
      · rintro past'' e - ⟨a, h⟩
        cases h
  · obtain ⟨_, _, heq, -⟩ := he hsession.1
    cases heq

theorem openSession_ends (hright : Right lib password whom account)
    (hon : relied past = .on account.passwordHash) :
    wp (contract lib key password whom) RefusedOnlyMismatched (openSession lib account) past := by
  unfold openSession requireActiveTenant
  rw [Prog.wp_bind]
  refine Prog.wp_ask_bind trivial (fun found hfound => ?_) fun e he => ?_
  · obtain ⟨⟨tenantId, status⟩, version, heq, hstatus⟩ := hfound hright.tenantId
    obtain rfl := Except.ok.inj heq
    obtain rfl : status = .active := hstatus
    refine Prog.wp_ask_bind trivial (fun at_ _ => ?_) fun e he => ?_
    · refine Prog.wp_ask_bind trivial (fun token _ => ?_) fun e he => ?_
      · refine Prog.wp_ask_bind trivial (fun csrfToken _ => ?_) fun e he => ?_
        · let session : Session :=
            { tokenHash := lib.tokenHash token, accountId := account.accountId
              tenantId := account.tenantId, generation := account.sessionGeneration, csrfToken
              createdAt := at_, expiresAt := at_ + sessionLifetime, lastSeenAt := at_ }
          let past' : SignInPast := ⟨.newId, .ok csrfToken⟩ :: ⟨.newId, .ok token⟩ ::
            ⟨.now, .ok at_⟩ ::
            ⟨.find .tenant account.tenantId, .ok (some (⟨tenantId, .active⟩, version))⟩ :: past
          have hgoesBy : relied past' = .on account.passwordHash := by
            show advance (advance (advance (advance (relied past) _) _) _) _ = _
            rw [hon]
            rfl
          refine Prog.wp_ask_bind (.opened session ⟨_, hgoesBy⟩) (fun _ _ => ?_) fun e he => ?_
          · refine confirm_ends ⟨hright.accountId, hright.generation⟩ ?_
            rw [relied_cons]
            exact congrArg (advance · _) hgoesBy
          · cases he
        · obtain ⟨name, hname⟩ := he
          cases hname
      · obtain ⟨name, hname⟩ := he
        cases hname
    · obtain ⟨at_, hat⟩ := he
      cases hat
  · obtain ⟨_, _, heq, -⟩ := he hright.tenantId
    cases heq

theorem admitted_ends {email address : String} (hcopy : HasFound whom past account read)
    (hright : Right lib password whom account) (hon : relied past = .on account.passwordHash) :
    wp (contract lib key password whom) RefusedOnlyMismatched
      (admitted lib password email address account) past := by
  unfold admitted
  refine Prog.wp_ask_bind trivial (fun _ _ => ?_) fun e he => by cases he
  refine Prog.wp_ask_bind trivial (fun _ _ => ?_) fun e he => by cases he
  let past' : SignInPast := ⟨.ext (.cancel .perAddress address), .ok ()⟩ ::
    ⟨.ext (.succeeded .perEmail email), .ok ()⟩ :: past
  have hon' : relied past' = .on account.passwordHash := by
    show advance (advance (relied past) _) _ = _
    rw [hon]
    rfl
  have hcopy' : HasFound whom past' account read :=
    List.mem_cons_of_mem _ (List.mem_cons_of_mem _ hcopy)
  refine Prog.wp_seq (rehashed_proceeds hcopy' hright hon') (fun past'' account' _ h => ?_)
    fun _ _ _ h => h.elim
  exact openSession_ends h.1 h.2

theorem checkPassword_ends {email address : String} (hkey : lib.normalizeEmail email = key)
    (hnothing : relied past = .nothing) :
    wp (contract lib key password whom) RefusedOnlyMismatched
      (checkPassword lib password email address) past := by
  unfold checkPassword byEmail
  rw [Prog.wp_bind]
  refine Prog.wp_ask_bind trivial (fun found hfound => ?_) fun e he => ?_
  · obtain ⟨version, heq⟩ := hfound hkey
    obtain rfl := Except.ok.inj heq
    refine Prog.wp_ask_bind rfl (fun found hfound => ?_) fun e he => ?_
    · obtain ⟨account, read, heq, hright⟩ := hfound rfl
      obtain rfl := Except.ok.inj heq
      have hadmitted : (!verifyPassword lib.toPasswordLibrary password account.passwordHash ||
          account.status ≠ .active) = false := by
        rw [hright.verified, hright.status]
        rfl
      show wp _ _ (if (!verifyPassword lib.toPasswordLibrary password account.passwordHash ||
        account.status ≠ .active) = true then _ else _) _
      rw [hadmitted, if_neg Bool.false_ne_true]
      refine admitted_ends List.mem_cons_self hright ?_
      show advance (advance (relied past) _) _ = _
      rw [hnothing]
      rfl
    · obtain ⟨_, _, heq, -⟩ := he rfl
      cases heq
  · obtain ⟨_, heq⟩ := he hkey
    cases heq

/-- A sign-in with the right password is refused only when the hash it went by is no longer
there. -/
theorem signIn_ends (request : Request lib key) :
    wp (contract lib key password whom) RefusedOnlyMismatched
      (signInWithPassword lib request.email password request.address).void [] := by
  have hsignIn : wp (contract lib key password whom) RefusedOnlyMismatched
      (signInWithPassword lib request.email password request.address) [] := by
    unfold signInWithPassword
    refine Prog.wp_ask_bind trivial (fun allowed hallowed => ?_) fun e he => by cases he
    obtain rfl := Except.ok.inj hallowed
    refine Prog.wp_ask_bind trivial (fun allowed hallowed => ?_) fun e he => by cases he
    obtain rfl := Except.ok.inj hallowed
    exact checkPassword_ends request.same rfl
  exact Prog.wp_seq (f := fun _ => Prog.ret ()) hsignIn (fun _ _ _ _ => trivial) fun _ _ _ h => h

end OneSignIn

/-! ## One operation -/

abbrev SignInChoice : Type := Service.Choice (B := signInBackend) signInOutside

/-- A new session has an id of its own. -/
def startsNew (r : SignInRecords) : Repository.Write SignInType SignInType.Payload → Bool
  | .create .session i _ => (r.versions .session i).isEmpty
  | _ => true

/-- Nothing fails, attempts are within their limits, and no two tokens are alike. -/
def ordinaryOp (r : SignInRecords) :
    Service.Op signInBackend signInOutside → SignInChoice → Bool
  | .find _ _, .done => true
  | .list _, .done => true
  | .commit ws, .done => ws.all (startsNew r)
  | .now, _ => true
  | .newId, _ => true
  | .ext (.attempt _ _), .ext (.flag within) => within
  | .ext (.cancel _ _), _ => true
  | .ext (.succeeded _ _), _ => true
  | .ext .salt, _ => true
  | _, _ => false

/-- The hash of the account as it is stored. -/
def hashNow (whom : Whom) (r : SignInRecords) : Option String :=
  (r.latest .account whom.accountId).bind Account.passwordHash

/-- A sign-in that goes by a hash goes by this one, and one that has confirmed its session has
found the one it went by. -/
def Sure (now : Option String) : Relied → Prop
  | .nothing => True
  | .on hash => hash = now
  | .opened hash => hash = now
  | .confirmed hash found => found = hash

section OneOperation
variable {lib : SignInLibrary} {key password : String} {whom : Whom} {past : SignInPast}
  {w w' : World signInBackend signInOutside} {o : Service.Op signInBackend signInOutside}
  {ch : SignInChoice} {answer : (iface signInBackend signInOutside).Answer o}

/-- A write is made or refused. -/
theorem exec_write {x : Repository.Write SignInType SignInType.Payload} {answer : Except SignInExc Unit}
    (he : exec w (.commit [x]) .done = some (answer, w')) :
    (w.records.apply x = .ok w'.records ∧ answer = .ok ()) ∨
      ∃ e, w.records.apply x = .error e ∧
        answer = .error (SignInExc.refused x.target.1 x.target.2 e) ∧ w' = w := by
  simp only [Service.exec, commitOr] at he
  cases hx : w.records.apply x with
  | ok r =>
      rw [hx] at he
      cases he
      exact .inl ⟨rfl, rfl⟩
  | error e =>
      rw [hx] at he
      cases he
      exact .inr ⟨e, rfl, rfl, rfl⟩

theorem Ready.current (h : Ready lib key password whom w.records) :
    ∃ account, w.records.current .account whom.accountId =
      some (account, (w.records.versions .account whom.accountId).length) ∧
        Right lib password whom account ∧ hashNow whom w.records = account.passwordHash := by
  obtain ⟨account, hlatest, hright⟩ := h.account
  refine ⟨account, ?_, hright, ?_⟩
  · show ((w.records.versions .account whom.accountId).getLast?).map _ = _
    have hlast : (w.records.versions .account whom.accountId).getLast? = some account := hlatest
    rw [hlast]
    rfl
  · unfold hashNow
    rw [hlatest]
    rfl

theorem current_of_latest {r : SignInRecords} {t : SignInType} {i : String} {v : t.Payload}
    (h : r.latest t i = some v) : r.current t i = some (v, (r.versions t i).length) := by
  have hlast : (r.versions t i).getLast? = some v := h
  show ((r.versions t i).getLast?).map _ = _
  rw [hlast]
  rfl

/-- While nothing fails, what comes back can be trusted. -/
theorem trusted_of_exec (h : Ready lib key password whom w.records)
    (hpermits : (contract lib key password whom).permits past o)
    (hordinary : ordinaryOp w.records o ch = true) (he : exec w o ch = some (answer, w')) :
    Trusted lib key password whom o answer := by
  cases o with
  | find t i =>
      have hdone : ch = .done := by cases ch <;> first | rfl | cases hordinary
      subst hdone
      cases he
      cases t with
      | account =>
          rintro rfl
          obtain ⟨account, hcurrent, hright, -⟩ := h.current
          exact ⟨account, _, congrArg Except.ok hcurrent, hright⟩
      | accountEmail =>
          rintro rfl
          exact ⟨_, congrArg Except.ok (current_of_latest h.index)⟩
      | session => trivial
      | tenant =>
          rintro rfl
          obtain ⟨tenant, hlatest, hactive⟩ := h.tenant
          exact ⟨tenant, _, congrArg Except.ok (current_of_latest hlatest), hactive⟩
  | list t => trivial
  | commit ws =>
      have hdone : ch = .done := by cases ch <;> first | rfl | cases hordinary
      subst hdone
      cases hpermits with
      | opened session goesBy =>
          have hnew : w.records.versions .session session.tokenHash = [] := by
            simpa [ordinaryOp, startsNew] using hordinary
          rcases exec_write he with ⟨-, rfl⟩ | ⟨e, hrefused, -, -⟩
          · rfl
          · rw [Repository.apply, if_pos hnew] at hrefused
            cases hrefused
      | revoked session version => trivial
      | @rewritten _ _ written version _ rewrites =>
          rcases exec_write he with ⟨-, rfl⟩ | ⟨e, hrefused, rfl, -⟩
          · exact .inl rfl
          · obtain ⟨account, hcurrent, -, -⟩ := h.current
            have hsome : w.records.versions .account whom.accountId ≠ [] := fun hnil => by
              rw [Repository.current_eq_none_iff.mpr hnil] at hcurrent
              cases hcurrent
            rw [Repository.apply, if_neg hsome] at hrefused
            split at hrefused
            · cases hrefused
            · cases hrefused
              exact .inr rfl
  | now =>
      cases ch with
      | clock at_ =>
          cases he
          exact ⟨at_, rfl⟩
      | _ => cases he
  | newId =>
      cases ch with
      | name id =>
          cases he
          exact ⟨id, rfl⟩
      | _ => cases he
  | ext x =>
      obtain ⟨c, rfl, hx, -⟩ := exec_ext he
      obtain ⟨y, hy, hyw⟩ := Option.map_eq_some_iff.mp hx
      cases hyw
      cases x with
      | attempt limiter key =>
          cases c with
          | flag within =>
              obtain rfl : within = true := hordinary
              cases hy
              rfl
          | _ => cases hy
      | cancel limiter key => rfl
      | succeeded limiter key => rfl
      | salt => exact ⟨y, rfl⟩

section Rewriting
variable {copy current written : Account} {version read : Nat} {r : SignInRecords}

/-- An account that is written over was read as it is stored. -/
theorem Rewrites.stored
    (hr : Rewrites lib password whom past copy current written version read)
    (h : Ready lib key password whom w.records) (htold : Told w.records past)
    (hs : w.records.apply (.replace .account whom.accountId written version) = .ok r) :
    r = w.records.append .account whom.accountId written ∧
      w.records.latest .account whom.accountId = some copy := by
  obtain ⟨hn, rfl⟩ := Repository.apply_replace hs
  refine ⟨rfl, ?_⟩
  have hcurrent : w.records.current .account whom.accountId = some (current, version) :=
    Repository.current_eq_some_iff.mpr ⟨htold.found hr.currentRead, hn⟩
  have hlast := Repository.getLast?_of_current hcurrent
  have hcopy : copy ∈ w.records.versions .account whom.accountId :=
    Repository.mem_of_versionAt (htold.found hr.copyRead)
  -- Stamps increase, so the copy is the version that has its stamp.
  obtain ⟨front, hfront⟩ := List.getLast?_eq_some_iff.mp hlast
  have hstamps := h.stamps
  rw [hfront] at hstamps hcopy
  rcases List.mem_append.mp hcopy with hcopy | hcopy
  · have hlt := (List.pairwise_append.mp hstamps).2.2 copy hcopy current
      (List.mem_singleton_self current)
    exact absurd hlt (by rw [hr.stamp]; exact Int.lt_irrefl _)
  · rw [List.mem_singleton.mp hcopy]
    exact hlast

theorem hashNow_append :
    hashNow whom (w.records.append .account whom.accountId written) = written.passwordHash := by
  unfold hashNow Repository.latest
  rw [Repository.versions_append, if_pos rfl, List.getLast?_concat]
  rfl

theorem Ready.append_account (h : Ready lib key password whom w.records)
    (hcopy : w.records.latest .account whom.accountId = some copy)
    (hright : Right lib password whom written) (hlater : copy.updatedAt < written.updatedAt) :
    Ready lib key password whom (w.records.append .account whom.accountId written) := by
  have hkept : ∀ t, t ≠ .account → ∀ i,
      (w.records.append .account whom.accountId written).latest t i = w.records.latest t i := by
    intro t ht i
    unfold Repository.latest
    rw [Repository.versions_append_of_ne_type w.records .account whom.accountId written ht]
  refine ⟨?_, ?_, ⟨written, ?_, hright⟩, ?_⟩
  · rw [hkept .accountEmail (by decide)]
    exact h.index
  · rw [hkept .tenant (by decide)]
    exact h.tenant
  · unfold Repository.latest
    rw [Repository.versions_append, if_pos rfl, List.getLast?_concat]
  · rw [Repository.versions_append, if_pos rfl]
    refine List.pairwise_append.mpr ⟨h.stamps, List.pairwise_singleton _ _, fun u hu v hv => ?_⟩
    rw [List.mem_singleton.mp hv]
    obtain ⟨front, hfront⟩ := List.getLast?_eq_some_iff.mp
      (show (w.records.versions .account whom.accountId).getLast? = some copy from hcopy)
    have hstamps := h.stamps
    rw [hfront] at hu hstamps
    rcases List.mem_append.mp hu with hu | hu
    · exact ((List.pairwise_append.mp hstamps).2.2 u hu copy (List.mem_singleton_self copy)).trans
        hlater
    · rw [List.mem_singleton.mp hu]
      exact hlater

/-- A session is written beside the account. -/
theorem Ready.append_session (h : Ready lib key password whom w.records) (i : String)
    (session : Session) : Ready lib key password whom (w.records.append .session i session) ∧
      hashNow whom (w.records.append .session i session) = hashNow whom w.records := by
  have hversions : ∀ t, t ≠ .session → ∀ i',
      (w.records.append .session i session).versions t i' = w.records.versions t i' :=
    fun t ht i' => Repository.versions_append_of_ne_type w.records .session i session ht i'
  have hkept : ∀ t, t ≠ .session → ∀ i',
      (w.records.append .session i session).latest t i' = w.records.latest t i' := by
    intro t ht i'
    unfold Repository.latest
    rw [hversions t ht]
  refine ⟨⟨?_, ?_, ?_, ?_⟩, ?_⟩
  · rw [hkept .accountEmail (by decide)]
    exact h.index
  · rw [hkept .tenant (by decide)]
    exact h.tenant
  · rw [hkept .account (by decide)]
    exact h.account
  · rw [hversions .account (by decide)]
    exact h.stamps
  · unfold hashNow
    rw [hkept .account (by decide)]

end Rewriting

/-- What one operation does to the account: nothing, or it is written by a sign-in that goes
by a hash, or with the hash it has. -/
theorem ready_step (h : Ready lib key password whom w.records) (htold : Told w.records past)
    (hpermits : (contract lib key password whom).permits past o)
    (he : exec w o ch = some (answer, w')) :
    Ready lib key password whom w'.records ∧
      (hashNow whom w'.records = hashNow whom w.records ∨
        ∃ written version, o = .commit [.replace .account whom.accountId written version] ∧
          hashNow whom w'.records = written.passwordHash ∧ ∃ hash, relied past = .on hash) := by
  rcases exec_records he with heq | ⟨ws, rfl, hcommit⟩
  · rw [heq]
    exact ⟨h, .inl rfl⟩
  · cases hpermits with
    | opened session goesBy =>
        obtain ⟨-, hrecords⟩ := Repository.apply_create (Repository.commit_singleton.mp hcommit)
        rw [hrecords]
        have hsession := h.append_session session.tokenHash session
        exact ⟨hsession.1, .inl hsession.2⟩
    | revoked session version =>
        obtain ⟨-, hrecords⟩ := Repository.apply_replace (Repository.commit_singleton.mp hcommit)
        rw [hrecords]
        have hsession := h.append_session session.tokenHash session
        exact ⟨hsession.1, .inl hsession.2⟩
    | @rewritten copy current written version read rewrites =>
        obtain ⟨hrecords, hcopy⟩ := rewrites.stored h htold (Repository.commit_singleton.mp hcommit)
        have hready := h.append_account hcopy rewrites.right rewrites.later
        rw [hrecords]
        refine ⟨hready, ?_⟩
        rw [hashNow_append]
        rcases rewrites.hash with hon | hsame
        · exact .inr ⟨written, version, rfl, rfl, hon⟩
        · refine .inl (hsame.trans ?_)
          unfold hashNow
          rw [hcopy]
          rfl

/-- The hash that was written is there. -/
theorem hash_of_write {i : String} {written : Account} {n : Nat}
    (h : Ready lib key password whom w.records) (htold : Told w.records past)
    (hpermits : SignInCommit lib password whom past [.replace .account i written n])
    (he : Service.exec w (.commit [.replace .account i written n]) ch = some (.ok (), w')) :
    hashNow whom w'.records = written.passwordHash := by
  have hcommit := Repository.commit_singleton.mp (exec_commit_ok he).1
  cases hpermits with
  | rewritten rewrites =>
      rw [(rewrites.stored h htold hcommit).1, hashNow_append]

/-- The account that was found has the hash that is stored. -/
theorem hash_of_find {i : String} {account : Account} {n : Nat}
    (h : Ready lib key password whom w.records) (hi : i = whom.accountId)
    (he : Service.exec w (.find .account i) ch = some (.ok (some (account, n)), w')) :
    hashNow whom w'.records = account.passwordHash ∧
      hashNow whom w'.records = hashNow whom w.records := by
  obtain ⟨hfound, rfl⟩ := exec_find_ok he
  obtain ⟨account', hcurrent, -, hhash⟩ := h.current
  subst hi
  have heq : some (account, n) = some (account', _) := hfound.symm.trans hcurrent
  rw [(Prod.mk.inj (Option.some.inj heq)).1]
  exact ⟨hhash, rfl⟩

/-- A sign-in keeps being sure of its hash by what it does itself. -/
theorem Sure.own (h : Ready lib key password whom w.records) (htold : Told w.records past)
    (hpermits : (contract lib key password whom).permits past o)
    (hordinary : ordinaryOp w.records o ch = true) (he : exec w o ch = some (answer, w'))
    (hsure : Sure (hashNow whom w.records) (relied past)) :
    Sure (hashNow whom w'.records) (relied (⟨o, answer⟩ :: past)) := by
  obtain ⟨-, hhash⟩ := ready_step h htold hpermits he
  rw [relied_cons]
  unfold advance
  split
  · -- The account is read for the first time.
    next hrelied heq =>
    cases heq
    exact (hash_of_find h hpermits he).1.symm
  · -- The hash is replaced.
    next hrelied heq =>
    cases heq
    exact (hash_of_write h htold hpermits he).symm
  · -- The session is opened.
    next hrelied heq =>
    cases heq
    rw [hrelied] at hsure
    rcases hhash with hsame | ⟨_, _, hcommit, -⟩
    · exact hsure.trans hsame.symm
    · cases hcommit
  · -- The account is read to confirm the session.
    next hrelied heq =>
    cases heq
    rw [hrelied] at hsure
    obtain ⟨hfound, hsame⟩ := hash_of_find h hpermits he
    exact hfound.symm.trans (hsame.trans hsure.symm)
  · next hnotOn _ _ =>
    rcases hhash with hsame | ⟨written, version, rfl, hnew, hash, hon⟩
    · rw [hsame]
      exact hsure
    · have hdone : ch = .done := by cases ch <;> first | rfl | cases hordinary
      subst hdone
      rcases exec_write he with ⟨-, rfl⟩ | ⟨e, -, -, rfl⟩
      · exact absurd rfl (hnotOn hash _ written version () hon)
      · exact hsure

end OneOperation

/-! ## Every run -/

section Runs
variable {lib : SignInLibrary} {key password : String}

/-- The operation a move carries out, with the process that asked for it. -/
def operation (c : Config (signInMachine lib key password)) :
    Move (M := signInMachine lib key password) →
      Option (Nat × Service.Op signInBackend signInOutside × SignInChoice)
  | .act t ch =>
      match c.pool[t]? with
      | some ⟨_, .call o _, _⟩ => some (t, o, ch)
      | _ => none
  | _ => none

/-- Nothing fails, attempts are within their limits, and no two tokens are alike. -/
def Ordinary (c : Config (signInMachine lib key password))
    (m : Move (M := signInMachine lib key password)) : Prop :=
  ∀ x ∈ operation c m, ordinaryOp c.shared.records x.2.1 x.2.2 = true

/-- The hash of the account is replaced by another. -/
def replacesHash (whom : Whom) (r : SignInRecords) :
    Service.Op signInBackend signInOutside → Bool
  | .commit [.replace .account _ written _] => written.passwordHash ≠ hashNow whom r
  | _ => false

/-- The hash is replaced only while no other sign-in goes by one. -/
def Undisturbed (whom : Whom) (c : Config (signInMachine lib key password))
    (m : Move (M := signInMachine lib key password)) : Prop :=
  ∀ x ∈ operation c m, replacesHash whom c.shared.records x.2.1 = true →
    ∀ th ∈ c.pool.eraseIdx x.1, (relied th.past).pending = false

instance (c : Config (signInMachine lib key password))
    (m : Move (M := signInMachine lib key password)) : Decidable (Ordinary c m) := by
  unfold Ordinary
  infer_instance

instance (whom : Whom) (c : Config (signInMachine lib key password))
    (m : Move (M := signInMachine lib key password)) : Decidable (Undisturbed whom c m) := by
  unfold Undisturbed
  infer_instance

theorem operation_act {c : Config (signInMachine lib key password)} {t : Nat} {ch : SignInChoice}
    {k : Request lib key} {o : Service.Op signInBackend signInOutside}
    {f : (iface signInBackend signInOutside).Answer o → SignInProc Unit} {past : SignInPast}
    (hp : c.pool[t]? = some ⟨k, .call o f, past⟩) : operation c (.act t ch) = some (t, o, ch) := by
  simp only [operation, hp]

/-- The account can be signed in to, and every sign-in is sure of its hash and on its way. -/
structure OnTheWay (whom : Whom) (c : Config (signInMachine lib key password)) : Prop where
  ready : Ready lib key password whom c.shared.records
  sure : ∀ th ∈ c.pool, Sure (hashNow whom c.shared.records) (relied th.past)
  keeps : ∀ th ∈ c.pool,
    wp (contract lib key password whom) RefusedOnlyMismatched th.rest th.past

/-- Other sign-ins stay sure of their hash while it is replaced by nobody else. -/
theorem Sure.other {now now' : Option String} {past : SignInPast} (h : Sure now (relied past))
    (hkept : now' ≠ now → (relied past).pending = false) : Sure now' (relied past) := by
  by_cases hsame : now' = now
  · exact hsame ▸ h
  · have hpending := hkept hsame
    cases hrelied : relied past with
    | nothing => trivial
    | on hash =>
        rw [hrelied] at hpending
        cases hpending
    | opened hash =>
        rw [hrelied] at hpending
        cases hpending
    | confirmed hash found =>
        rw [hrelied] at h
        exact h

variable {whom : Whom} {w₀ : World signInBackend signInOutside}
  {c c' : Config (signInMachine lib key password)} {m : Move (M := signInMachine lib key password)}

theorem OnTheWay.next (h : OnTheWay whom c)
    (htold : ∀ th ∈ c.pool, Told c.shared.records th.past) (hordinary : Ordinary c m)
    (hundisturbed : Undisturbed whom c m) (hf : fire c m = some c') : OnTheWay whom c' := by
  obtain ⟨k, rfl, -, rfl⟩ | ⟨t, ch, k, o, f, past, r, s, rfl, hp, hx, rfl⟩ | ⟨t, rfl, rfl⟩ |
    ⟨e, s, rfl, hs, rfl⟩ := fire_cases hf
  · refine ⟨h.ready, fun th hth => ?_, fun th hth => ?_⟩
    · rcases List.mem_append.mp hth with hth | hth
      · exact h.sure th hth
      · rw [List.mem_singleton.mp hth]
        trivial
    · rcases List.mem_append.mp hth with hth | hth
      · exact h.keeps th hth
      · rw [List.mem_singleton.mp hth]
        exact signIn_ends k
  · have hmem := List.mem_of_getElem? hp
    have hpermits := (h.keeps _ hmem).1
    have hop := hordinary _ (operation_act hp)
    have hstep := ready_step h.ready (htold _ hmem) hpermits hx
    have hothers : ∀ i th, i ≠ t → c.pool[i]? = some th →
        Sure (hashNow whom s.records) (relied th.past) := by
      intro i th hi hth
      refine (h.sure th (List.mem_of_getElem? hth)).other fun hne => ?_
      obtain hsame | ⟨written, version, rfl, hnew, -⟩ := hstep.2
      · exact absurd hsame hne
      · refine hundisturbed _ (operation_act hp) ?_ th
          (List.mem_eraseIdx_iff_getElem?.mpr ⟨i, hi, hth⟩)
        exact decide_eq_true (hnew ▸ hne)
    have hown := (h.sure _ hmem).own h.ready (htold _ hmem) hpermits hop hx
    have hlt := (List.getElem?_eq_some_iff.mp hp).1
    refine ⟨hstep.1, fun th hth => ?_, fun th hth => ?_⟩
    · obtain ⟨i, hi⟩ := List.getElem?_of_mem hth
      simp only [Config.answered] at hi
      by_cases hit : i = t
      · subst hit
        rw [List.getElem?_set_self hlt] at hi
        obtain rfl := Option.some.inj hi
        exact hown
      · rw [List.getElem?_set_ne (Ne.symm hit)] at hi
        exact hothers i th hit hi
    · rcases List.mem_or_eq_of_mem_set hth with hth | rfl
      · exact h.keeps th hth
      · exact (h.keeps _ hmem).2 r (trusted_of_exec h.ready hpermits hop hx)
  · exact ⟨h.ready, fun th hth => h.sure th (List.mem_of_mem_eraseIdx hth),
      fun th hth => h.keeps th (List.mem_of_mem_eraseIdx hth)⟩
  · exact Empty.elim e

theorem onTheWay (h₀ : Ready lib key password whom w₀.records)
    (hr : Run (fun c m => Ordinary c m ∧ Undisturbed whom c m) ⟨w₀, []⟩ c) : OnTheWay whom c :=
  Run.invariant (P := OnTheWay whom)
    ⟨h₀, fun _ hth => absurd hth List.not_mem_nil, fun _ hth => absurd hth List.not_mem_nil⟩
    (fun _ _ _ hbefore hold hgood hf => hold.next (told_of_run hbefore) hgood.1 hgood.2 hf) hr

/-- A sign-in that has ended was not refused. -/
def NotRefused (c : Config (signInMachine lib key password)) : Prop :=
  ∀ th ∈ c.pool, ∀ e, th.rest ≠ .raise e

/-- No sign-in with the right password is refused in a run in which the hash is replaced only
while no other sign-in goes by it. -/
theorem none_refused (h₀ : Ready lib key password whom w₀.records)
    (hr : Run (fun c m => Ordinary c m ∧ Undisturbed whom c m) ⟨w₀, []⟩ c) : NotRefused c := by
  intro th hth e hraised
  have h := onTheWay h₀ hr
  have hends := h.keeps th hth
  rw [hraised] at hends
  obtain ⟨hash, found, hrelied, hother⟩ := hends
  have hsure := h.sure th hth
  rw [hrelied] at hsure
  exact hother hsure

end Runs

/-! ## Two runs -/

/-- `int` of digits. -/
def intOfDigits (text : List Char) : Option Int :=
  if text ≠ [] ∧ text.all Char.isDigit = true then
    some (Int.ofNat (Nat.ofDigitChars 10 text 0))
  else none

theorem intOfDigits_toDigits (n : Nat) : intOfDigits (Nat.toDigits 10 n) = some ↑n := by
  have hdigits : (Nat.toDigits 10 n).all Char.isDigit = true :=
    List.all_eq_true.mpr fun c hc => Nat.isDigit_of_mem_toDigits (by decide) (by decide) hc
  unfold intOfDigits
  rw [if_pos ⟨Nat.toDigits_ne_nil, hdigits⟩, Nat.ofDigitChars_ten_toDigits]
  rfl

/-- A derivation that shows what went into it. -/
def sampleLibrary : SignInLibrary where
  scrypt := fun _ salt n _ _ => some (UInt8.ofNat n.toNat :: salt)
  int := intOfDigits
  int_digits := intOfDigits_toDigits
  normalizeEmail := id
  addressKey := id
  tokenHash := id

/-- A hash from before the parameters were raised. -/
def oldHash : String :=
  String.ofList (['$'].intercalate ["scrypt".toList, "1024".toList, "8".toList, "1".toList,
    Base64.encode [7], Base64.encode [0, 7]])

theorem owner_named : "u-1" ≠ "" := by decide

theorem owner_found : some "a@x.com" ≠ none ∨ (none : Option String) ≠ none :=
  .inl (Option.some_ne_none _)

def owner : Account :=
  { accountId := "u-1", tenantId := "t-1", email := some "a@x.com", passwordHash := some oldHash
    createdAt := 0, updatedAt := 0, named := owner_named, found := owner_found }

def ownerOf : Whom := ⟨"u-1", "t-1", 0⟩

/-- An account with an old hash, its index and its tenant. -/
def oldAccount : World signInBackend signInOutside where
  records := ((Repository.empty.append .accountEmail "a@x.com" "u-1").append .tenant "t-1"
    ⟨"t-1", .active⟩).append .account "u-1" owner
  outside := ()

theorem oldAccount_ready :
    Ready sampleLibrary "a@x.com" "correct horse" ownerOf oldAccount.records where
  index := by decide +kernel
  tenant := ⟨⟨"t-1", .active⟩, by decide +kernel, rfl⟩
  account := ⟨owner, by decide +kernel, rfl, rfl, rfl, rfl, by decide +kernel⟩
  stamps := by decide +kernel

abbrev SampleMove : Type := Move (M := signInMachine sampleLibrary "a@x.com" "correct horse")

/-- One sign-in, of whatever spelling of the address of its browser. -/
def browser : Request sampleLibrary "a@x.com" := ⟨"a@x.com", "192.0.2.1", rfl⟩

/-- A sign-in up to the account it reads. -/
def reads (t : Nat) : List SampleMove :=
  [.act t (.ext (.flag true)), .act t (.ext (.flag true)), .act t .done, .act t .done,
    .act t (.ext .done), .act t (.ext .done)]

/-- The old hash is replaced. -/
def replaces (t : Nat) : List SampleMove :=
  [.act t (.ext (.bytes [9])), .act t .done, .act t (.clock 100), .act t .done]

/-- The account is found changed before the hash is replaced. -/
def comesLate (t : Nat) : List SampleMove := [.act t (.ext (.bytes [11])), .act t .done]

/-- A session is opened, and the account read to confirm it. -/
def opens (t : Nat) (token : String) : List SampleMove :=
  [.act t .done, .act t (.clock 200), .act t (.name token), .act t (.name "csrf"), .act t .done,
    .act t .done]

/-- The time of the sign-in is written. -/
def stamps (t : Nat) : List SampleMove := [.act t .done, .act t (.clock 300), .act t .done]

/-- How a process has ended. -/
def outcome : SignInProc Unit → Option (Option SignInExc)
  | .ret _ => some none
  | .raise e => some (some e)
  | .call _ _ => none

def outcomes (c : Config (signInMachine sampleLibrary "a@x.com" "correct horse")) :
    List (Option (Option SignInExc)) := c.pool.map fun th => outcome th.rest

/-- One sign-in after the other. -/
def oneByOne : List SampleMove :=
  [.spawn browser] ++ reads 0 ++ replaces 0 ++ opens 0 "token-0" ++ stamps 0 ++
    [.spawn browser] ++ reads 1 ++ opens 1 "token-1" ++ stamps 1

theorem none_refused_oneByOne : ∃ c : Config (signInMachine sampleLibrary "a@x.com" "correct horse"),
    outcomes c = [some none, some none] ∧ NotRefused c := by
  have h : (firesIf (fun c m => Ordinary c m ∧ Undisturbed ownerOf c m) ⟨oldAccount, []⟩
      oneByOne).map outcomes = some [some none, some none] := by
    decide +kernel
  obtain ⟨c, hc, houtcomes⟩ := Option.map_eq_some_iff.mp h
  exact ⟨c, houtcomes, none_refused oldAccount_ready (Run.of_good_moves hc)⟩

/-- Two sign-ins read the old hash, and one of them replaces it. -/
def bothAtOnce : List SampleMove :=
  [.spawn browser, .spawn browser] ++ reads 0 ++ reads 1 ++ replaces 0 ++ comesLate 1 ++
    opens 0 "token-0" ++ stamps 0 ++ opens 1 "token-1" ++ [.act 1 .done]

/-- The other one is refused, though its password is right. -/
theorem rightPassword_refused :
    ∃ c : Config (signInMachine sampleLibrary "a@x.com" "correct horse"),
      Ready sampleLibrary "a@x.com" "correct horse" ownerOf oldAccount.records ∧
        Run Ordinary ⟨oldAccount, []⟩ c ∧ ¬NotRefused c := by
  have h : (firesIf Ordinary ⟨oldAccount, []⟩ bothAtOnce).map outcomes =
      some [some none, some (some genericRefusal)] := by
    decide +kernel
  obtain ⟨c, hc, houtcomes⟩ := Option.map_eq_some_iff.mp h
  refine ⟨c, oldAccount_ready, Run.of_good_moves hc, fun hnone => ?_⟩
  have hmem : some (some genericRefusal) ∈ outcomes c := by
    rw [houtcomes]
    exact List.mem_cons_of_mem _ List.mem_cons_self
  obtain ⟨th, hth, hout⟩ := List.mem_map.mp hmem
  cases hrest : th.rest with
  | ret a =>
      rw [hrest] at hout
      cases hout
  | raise e => exact hnone th hth e hrest
  | call o f =>
      rw [hrest] at hout
      cases hout

end SeoAgent.SignIn
