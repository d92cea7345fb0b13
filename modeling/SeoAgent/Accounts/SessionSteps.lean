import SeoAgent.Accounts.Sessions
import SeoAgent.Verified.Asks

/-!
# What sign-ins, requests and commands do

A changed copy of an account is written only with the stamp of the copy that was read, and a
session over a version its writer has read or made itself. A session carries the generation
of an account that was read, and a request is served on what it has read last of all.

## Main results

* `session_kept` — what each process writes, and when a session is accepted.
* `signOut_ends` — what a sign-out has done when it returns.
-/

namespace SeoAgent.Sessions

open SeoAgent.Verified Prog Machine
open Service (iface Terms)
open SeoAgent.Accounts (Account AccountStatus laterThan)
open SeoAgent.SignIn (Tenant TenantStatus)

/-! ## The terms -/

/-- A process has read an account. -/
def Found (past : SessionPast) (i : String) (account : Account) (n : Nat) : Prop :=
  (⟨.find .account i, .ok (some (account, n))⟩ : SessionEvent) ∈ past

/-- A process knows a version of a session: it has read it, or made it. -/
def Knows (past : SessionPast) (i : String) (session : Session) (n : Nat) : Prop :=
  (⟨.find .session i, .ok (some (session, n))⟩ : SessionEvent) ∈ past ∨
    (n = 1 ∧ (⟨.commit [.create .session i session], .ok ()⟩ : SessionEvent) ∈ past)

/-- Two versions of one session. -/
def SameSession (a b : Session) : Prop :=
  b = { a with lastSeenAt := b.lastSeenAt, revokedAt := b.revokedAt }

/-- The transactions, and what was read before. -/
inductive SessionCommit (past : SessionPast) : SessionWrites → Prop
  | opened {session : Session} (account : Account) (n : Nat)
      (read : Found past session.accountId account n)
      (generation : account.sessionGeneration = session.generation)
      (fresh : session.revokedAt = none)
      (lifetime : session.expiresAt = session.createdAt + sessionLifetime) :
      SessionCommit past [.create .session session.tokenHash session]
  | next {i : String} {session later : Session} {n : Nat} (read : Knows past i session n)
      (fresh : session.revokedAt = none) (same : SameSession session later) :
      SessionCommit past [.replace .session i later n]
  | changed {i : String} {current written : Account} {m n : Nat} (copy : Account)
      (copyRead : Found past i copy m) (currentRead : Found past i current n)
      (unchanged : current.updatedAt = copy.updatedAt)
      (stamp : copy.updatedAt < written.updatedAt)
      (generation : copy.sessionGeneration ≤ written.sessionGeneration) :
      SessionCommit past [.replace .account i written n]
  | created {i : String} (account : Account) : SessionCommit past [.create .account i account]
  | tenant {w : Repository.Write SessionType SessionType.Payload} (about : w.target.1 = .tenant) :
      SessionCommit past [w]

/-- What a request has read when a session is accepted. -/
structure Recognised (past : SessionPast) (hash : String) (accepted : Accepted) : Prop where
  session : ∃ (session : Session) (version : Nat) (at_ : Int),
    (⟨.find .session hash, .ok (some (session, version))⟩ : SessionEvent) ∈ past ∧
    (⟨.now, .ok at_⟩ : SessionEvent) ∈ past ∧ session.ended at_ = false ∧
    (accepted.session = session ∨ accepted.session = { session with lastSeenAt := at_ })
  account : ∃ n, Found past accepted.session.accountId accepted.account n
  active : accepted.account.status = .active
  generation : accepted.session.generation = accepted.account.sessionGeneration
  tenant : ∃ (tenant : Tenant) (n : Nat),
    (⟨.find .tenant accepted.session.tenantId, .ok (some (tenant, n))⟩ : SessionEvent) ∈ past ∧
    tenant.status = .active

section Library
variable (lib : SessionLibrary)

def sessionPermits (k : SessionKind) (past : SessionPast) :
    Service.Op sessionBackend sessionOutside → Prop
  | .commit ws => SessionCommit past ws
  | .ext (.serve accepted) =>
      ∃ token, k = .request (some token) ∧ Recognised past (lib.tokenHash token) accepted
  | _ => True

/-- Accounts and sessions are stored under their own id. -/
def sessionValid : (t : SessionType) → String → t.Payload → Prop
  | .account, i, account => account.accountId = i
  | .session, i, session => session.tokenHash = i
  | .tenant, _, _ => True

@[reducible] def sessionTerms : Terms (sessionProcesses lib) where
  Valid := sessionValid
  permits := sessionPermits lib

end Library

/-! ## Writes of accounts -/

section Writes
variable {lib : SessionLibrary} {k : SessionKind} {past past' : SessionPast} {i : String}
  {account : Account} {n : Nat}

theorem Found.mono (h : Found past i account n) (hs : past <:+ past') : Found past' i account n :=
  hs.subset h

theorem lt_laterThan (previous at_ : Int) : previous < laterThan previous at_ := by
  unfold laterThan
  split <;> omega

/-- A changed copy is written over what it is a copy of. -/
theorem update_keeps (copy : Account) (hread : Found past account.accountId copy n)
    (hstamp : copy.updatedAt = account.updatedAt)
    (hgeneration : copy.sessionGeneration ≤ account.sessionGeneration) :
    wp ((sessionTerms lib).contract k) (Returns fun _ written =>
      written = { account with updatedAt := written.updatedAt }) (update account) past := by
  refine wp_ask_bind ⟨trivial, trivial⟩ (fun found hfound => ?_) fun e _ => trivial
  rcases found with _ | ⟨current, version⟩
  · trivial
  · dsimp only
    split
    · trivial
    · next hsame =>
        refine wp_ask_bind ⟨trivial, trivial⟩ (fun at_ _ => ?_) fun e _ => trivial
        refine returns_bind (P := fun _ _ => True) ?_ fun _ _ _ _ => rfl
        refine wp_try (Q := fun _ _ => True) (wp_ask ⟨?_, fun w hw => ?_⟩ fun _ _ => trivial)
          (fun _ _ _ _ => trivial) fun _ e _ _ => ?_
        · refine .changed copy (List.mem_cons_of_mem _ (List.mem_cons_of_mem _ hread))
            (List.mem_cons_of_mem _ List.mem_cons_self)
            ((not_not.mp hsame).trans hstamp.symm) ?_ hgeneration
          rw [hstamp]
          exact lt_laterThan _ _
        · rw [List.mem_singleton.mp hw]
          rfl
        · unfold onChanged
          split <;> trivial

/-- An account that was linked has the generation of a copy that was read. -/
theorem bindGoogle_keeps (accountId subject : String) (tries : Nat) :
    wp ((sessionTerms lib).contract k) (Returns fun past written => written.accountId = accountId ∧
      ∃ copy n, Found past accountId copy n ∧ copy.sessionGeneration = written.sessionGeneration)
      (bindGoogle accountId subject tries) past := by
  induction tries generalizing past with
  | zero => trivial
  | succ tries ih =>
      refine wp_try (Q := Returns fun past written => written.accountId = accountId ∧
        ∃ copy n, Found past accountId copy n ∧
          copy.sessionGeneration = written.sessionGeneration) ?_ (fun _ _ _ h => h)
        fun past' e _ _ => ?_
      · refine wp_ask_bind ⟨trivial, trivial⟩ (fun found hfound => ?_) fun e _ => trivial
        rcases found with _ | ⟨current, version⟩
        · trivial
        · dsimp only
          split
          · obtain rfl : current.accountId = accountId := hfound
            refine wp_mono (fun past' r hs hr => ?_)
              (update_keeps current List.mem_cons_self rfl le_rfl)
            cases r with
            | error e => trivial
            | ok written =>
                have hwritten : written = { current with
                  googleSubject := some subject, updatedAt := written.updatedAt } := hr
                rw [hwritten]
                exact ⟨rfl, current, version, hs.subset List.mem_cons_self, rfl⟩
          · trivial
      · split
        · exact ih
        · trivial

/-! ## Sign-ins -/

theorem tenantActive_keeps (tenantId : String) :
    wp ((sessionTerms lib).contract k) (Returns fun past active => active = true →
      ∃ (tenant : Tenant) (n : Nat),
        (⟨.find .tenant tenantId, .ok (some (tenant, n))⟩ : SessionEvent) ∈ past ∧
        tenant.status = .active) (tenantActive tenantId) past := by
  refine wp_ask_bind ⟨trivial, trivial⟩ (fun found _ => ?_) fun e _ => trivial
  split
  · next id n heq =>
      intro _
      exact ⟨⟨id, .active⟩, n, List.mem_cons_self, rfl⟩
  · intro h
    cases h

theorem requireActiveTenant_keeps (account : Account) :
    wp ((sessionTerms lib).contract k) (Returns fun _ _ => True) (requireActiveTenant account)
      past := by
  refine returns_bind (tenantActive_keeps account.tenantId) fun past' active _ _ => ?_
  split <;> trivial

theorem refuse_keeps {session : Session} {at_ : Int}
    (hknown : Knows past session.tokenHash session 1) (hfresh : session.revokedAt = none) :
    wp ((sessionTerms lib).contract k) (Returns fun _ _ => True) (refuse session at_) past := by
  refine wp_ask_bind ⟨.next hknown hfresh rfl, fun w hw => ?_⟩ (fun _ _ => trivial)
    fun e _ => trivial
  rw [List.mem_singleton.mp hw]
  rfl

theorem confirm_keeps {session : Session} {token : String} {stillValid : Account → Bool}
    (hmade : (⟨.commit [.create .session session.tokenHash session], .ok ()⟩ : SessionEvent) ∈ past)
    (hfresh : session.revokedAt = none) :
    wp ((sessionTerms lib).contract k) (Returns fun _ _ => True)
      (confirm session token stillValid) past := by
  refine wp_ask_bind ⟨trivial, trivial⟩ (fun found hfound => ?_) fun e _ => trivial
  have hknown : Knows (⟨.find .account session.accountId, .ok found⟩ :: past)
      session.tokenHash session 1 := .inr ⟨rfl, List.mem_cons_of_mem _ hmade⟩
  rcases found with _ | ⟨current, version⟩
  · exact refuse_keeps hknown hfresh
  · dsimp only
    split
    · have hread : Found (⟨.find .account session.accountId, .ok (some (current, version))⟩ :: past)
          current.accountId current version := by
        have hid : current.accountId = session.accountId := hfound
        rw [hid]
        exact List.mem_cons_self
      refine returns_bind (P := fun _ _ => True) ?_ fun _ _ _ _ => trivial
      refine wp_try (Q := fun _ _ => True) (wp_void (wp_mono (fun _ _ _ _ => trivial)
        (update_keeps current hread rfl le_rfl))) (fun _ _ _ _ => trivial) fun _ e _ _ => ?_
      split <;> trivial
    · exact refuse_keeps hknown hfresh

theorem openSession_keeps {method : LoginMethod} {stillValid : Account → Bool} (copy : Account)
    (hread : Found past account.accountId copy n)
    (hgeneration : copy.sessionGeneration = account.sessionGeneration) :
    wp ((sessionTerms lib).contract k) (Returns fun _ _ => True)
      (openSession lib account method stillValid) past := by
  refine returns_bind (requireActiveTenant_keeps account) fun past₁ _ hs _ => ?_
  refine wp_ask_bind ⟨trivial, trivial⟩ (fun at_ _ => ?_) fun e _ => trivial
  refine wp_ask_bind ⟨trivial, trivial⟩ (fun token _ => ?_) fun e _ => trivial
  refine wp_ask_bind ⟨trivial, trivial⟩ (fun csrfToken _ => ?_) fun e _ => trivial
  refine wp_ask_bind ⟨.opened copy n ?_ hgeneration rfl rfl, fun w hw => ?_⟩
    (fun u _ => ?_) fun e _ => trivial
  · exact (((hread.mono hs).mono (List.suffix_cons _ _)).mono (List.suffix_cons _ _)).mono
      (List.suffix_cons _ _)
  · rw [List.mem_singleton.mp hw]
    rfl
  · exact confirm_keeps List.mem_cons_self rfl

/-- What the sign-in goes on with after a new hash. -/
def SameGeneration (account kept : Account) : Prop :=
  kept.accountId = account.accountId ∧ kept.sessionGeneration = account.sessionGeneration

theorem rehashed_keeps {password : String} (hread : Found past account.accountId account n) :
    wp ((sessionTerms lib).contract k) (Returns fun _ kept => SameGeneration account kept)
      (rehashed lib account password) past := by
  unfold rehashed
  split
  · refine wp_try (Q := Returns fun _ kept => SameGeneration account kept) ?_ (fun _ _ _ h => h)
      fun _ e _ _ => ?_
    · refine wp_ask_bind ⟨trivial, trivial⟩ (fun stored _ => ?_) fun e _ => trivial
      refine returns_mono (fun _ written hwritten => ?_)
        (update_keeps account (hread.mono (List.suffix_cons _ _)) rfl le_rfl)
      rw [hwritten]
      exact ⟨rfl, rfl⟩
    · split
      · exact ⟨rfl, rfl⟩
      · exact ⟨rfl, rfl⟩
      · trivial
  · exact ⟨rfl, rfl⟩

theorem signInWithPassword_keeps (accountId password : String) :
    wp ((sessionTerms lib).contract k) (Returns fun _ _ => True)
      (signInWithPassword lib accountId password) past := by
  refine wp_ask_bind ⟨trivial, trivial⟩ (fun found hfound => ?_) fun e _ => trivial
  rcases found with _ | ⟨account, n⟩
  · trivial
  · obtain rfl : account.accountId = accountId := hfound
    have hread : Found (⟨.find .account account.accountId, .ok (some (account, n))⟩ :: past)
        account.accountId account n := List.mem_cons_self
    dsimp only
    split
    · trivial
    · refine returns_bind (rehashed_keeps hread) fun past' kept hs ⟨hid, hgeneration⟩ => ?_
      exact openSession_keeps account (hid.symm ▸ hread.mono hs) hgeneration.symm

theorem linked_keeps {subject : String} :
    wp ((sessionTerms lib).contract k) (Returns fun past kept =>
      ∃ copy n, Found past kept.accountId copy n ∧
        copy.sessionGeneration = kept.sessionGeneration) (linked account subject) past := by
  unfold linked
  split
  · trivial
  split
  · trivial
  split
  · trivial
  · refine returns_bind (requireActiveTenant_keeps account) fun past' _ hs _ => ?_
    refine wp_try (Q := Returns fun past (kept : Account) => ∃ copy n, Found past kept.accountId copy n ∧
      copy.sessionGeneration = kept.sessionGeneration) ?_ (fun _ _ _ h => h) fun _ e _ _ => ?_
    · refine returns_mono (fun _ written ⟨hid, copy, m, hfound, hsame⟩ => ?_)
        (bindGoogle_keeps account.accountId subject 3)
      exact ⟨copy, m, hid.symm ▸ hfound, hsame⟩
    · split <;> trivial

theorem signInWithGoogle_keeps (accountId subject : String) (byEmail : Bool) :
    wp ((sessionTerms lib).contract k) (Returns fun _ _ => True)
      (signInWithGoogle lib accountId subject byEmail) past := by
  refine wp_ask_bind ⟨trivial, trivial⟩ (fun found hfound => ?_) fun e _ => trivial
  rcases found with _ | ⟨account, n⟩
  · trivial
  · obtain rfl : account.accountId = accountId := hfound
    refine returns_bind (P := fun past (kept : Account) => ∃ copy n, Found past kept.accountId copy n ∧
      copy.sessionGeneration = kept.sessionGeneration) ?_ fun past' kept _ hkept => ?_
    · unfold identified
      split
      · exact linked_keeps
      · exact ⟨account, n, List.mem_cons_self, rfl⟩
    · obtain ⟨copy, m, hread, hgeneration⟩ := hkept
      dsimp only
      split
      · trivial
      · exact openSession_keeps copy hread hgeneration

theorem signInWithMobile_keeps (accountId mobile : String) :
    wp ((sessionTerms lib).contract k) (Returns fun _ _ => True)
      (signInWithMobile lib accountId mobile) past := by
  refine wp_ask_bind ⟨trivial, trivial⟩ (fun found hfound => ?_) fun e _ => trivial
  rcases found with _ | ⟨account, n⟩
  · trivial
  · obtain rfl : account.accountId = accountId := hfound
    dsimp only
    split
    · trivial
    · exact openSession_keeps account List.mem_cons_self rfl

theorem signIn_keeps (accountId : String) (login : Login) :
    wp ((sessionTerms lib).contract k) (fun _ _ => True) (signIn lib accountId login).void past := by
  refine wp_void (wp_mono (Q := Returns fun _ _ => True) (fun _ _ _ _ => trivial) ?_)
  cases login with
  | password password => exact signInWithPassword_keeps accountId password
  | google subject byEmail => exact signInWithGoogle_keeps accountId subject byEmail
  | sms mobile => exact signInWithMobile_keeps accountId mobile

/-! ## Requests -/

theorem Session.ended_fresh {session : Session} {at_ : Int} (h : session.ended at_ = false) :
    session.revokedAt = none := by
  unfold Session.ended at h
  simp only [Bool.or_eq_false_iff] at h
  exact Option.isSome_eq_false_iff.mp h.1.1 |> Option.isNone_iff_eq_none.mp

/-- A session seen again is the one that was read, but for the stamp. -/
theorem touch_keeps {session : Session} (at_ : Int)
    (hknown : Knows past session.tokenHash session n) (hfresh : session.revokedAt = none) :
    wp ((sessionTerms lib).contract k) (Returns fun _ kept =>
      kept = session ∨ kept = { session with lastSeenAt := at_ }) (touch session n at_) past := by
  unfold touch
  split
  · refine wp_try (Q := Returns fun _ kept => kept = session ∨
      kept = { session with lastSeenAt := at_ }) ?_ (fun _ _ _ h => h) fun _ e _ _ => ?_
    · refine wp_ask_bind ⟨.next hknown hfresh rfl, fun w hw => ?_⟩ (fun _ _ => .inr rfl)
        fun e _ => trivial
      rw [List.mem_singleton.mp hw]
      rfl
    · split
      · exact .inl rfl
      · trivial
  · exact .inl rfl

/-- What was read when a session is recognised. -/
theorem recognise_keeps (session : Session) (n : Nat)
    (hread : (⟨.find .session session.tokenHash, .ok (some (session, n))⟩ : SessionEvent) ∈ past) :
    wp ((sessionTerms lib).contract k) (Returns fun past found => ∀ kept account,
      found = some (kept, account) → Recognised past session.tokenHash ⟨kept, account⟩)
      (recognise session n) past := by
  refine wp_ask_bind ⟨trivial, trivial⟩ (fun at_ _ => ?_) fun e _ => trivial
  split
  · exact fun _ _ h => by cases h
  · next hlive =>
      have hended : session.ended at_ = false := Bool.not_eq_true _ ▸ hlive
      refine wp_ask_bind ⟨trivial, trivial⟩ (fun found hfound => ?_) fun e _ => trivial
      rcases found with _ | ⟨account, m⟩
      · exact fun _ _ h => by cases h
      · dsimp only
        split
        · exact fun _ _ h => by cases h
        · next hactive =>
            split
            · exact fun _ _ h => by cases h
            · next hgeneration =>
                refine returns_bind (tenantActive_keeps session.tenantId)
                  fun past₁ active hs₁ htenant => ?_
                split
                · exact fun _ _ h => by cases h
                · next hactiveTenant =>
                    refine returns_bind (touch_keeps at_ (.inl (hs₁.subset
                      (List.mem_cons_of_mem _ (List.mem_cons_of_mem _ hread))))
                      (Session.ended_fresh hended)) fun past₂ kept hs₂ hkept => ?_
                    intro kept' account' heq
                    cases heq
                    have hsame : kept.accountId = session.accountId ∧
                        kept.generation = session.generation ∧
                        kept.tenantId = session.tenantId := by
                      rcases hkept with rfl | rfl <;> exact ⟨rfl, rfl, rfl⟩
                    obtain ⟨hid, hgen, hten⟩ := hsame
                    obtain ⟨tenant, l, hmem, hstatus⟩ := htenant (by simpa using hactiveTenant)
                    exact {
                      session := ⟨session, n, at_, hs₂.subset (hs₁.subset
                          (List.mem_cons_of_mem _ (List.mem_cons_of_mem _ hread))),
                        hs₂.subset (hs₁.subset (List.mem_cons_of_mem _ List.mem_cons_self)),
                        hended, hkept⟩
                      account := ⟨m, hid ▸ hs₂.subset (hs₁.subset List.mem_cons_self)⟩
                      active := not_not.mp hactive
                      generation := hgen.trans (not_not.mp hgeneration)
                      tenant := ⟨tenant, l, hten ▸ hs₂.subset hmem, hstatus⟩ }

theorem request_keeps (token : Option String) :
    wp ((sessionTerms lib).contract (.request token)) (fun _ _ => True) (request lib token) [] := by
  have h : wp ((sessionTerms lib).contract (.request token)) (Returns fun _ _ => True)
      (request lib token) [] := by
    refine returns_bind (P := fun past found => ∀ kept account, found = some (kept, account) →
      ∃ text, token = some text ∧ Recognised past (lib.tokenHash text) ⟨kept, account⟩) ?_
      fun past found _ hfound => ?_
    · cases token with
      | none => exact fun _ _ h => by cases h
      | some text =>
          dsimp only [sessionFor]
          split
          · exact fun _ _ h => by cases h
          · refine wp_ask_bind ⟨trivial, trivial⟩ (fun found hfound => ?_) fun e _ => trivial
            rcases found with _ | ⟨session, n⟩
            · exact fun _ _ h => by cases h
            · have hid : session.tokenHash = lib.tokenHash text := hfound
              refine returns_mono (fun past found h kept account heq => ⟨text, rfl, ?_⟩)
                (recognise_keeps session n ?_)
              · exact hid ▸ h kept account heq
              · rw [hid]
                exact List.mem_cons_self
    · rcases found with _ | ⟨kept, account⟩
      · trivial
      · obtain ⟨text, rfl, hrecognised⟩ := hfound kept account rfl
        refine wp_ask ⟨⟨text, rfl, hrecognised⟩, trivial⟩ fun r _ => ?_
        cases r <;> trivial
  exact wp_mono (fun _ _ _ _ => trivial) h

/-- A session that was read is revoked when the sign-out has come to its end. -/
def SignsOut (past : SessionPast) (i : String) : Prop :=
  ∀ session n, (⟨.find .session i, .ok (some (session, n))⟩ : SessionEvent) ∈ past →
    session.revokedAt ≠ none ∨ ∃ at_, (⟨.commit [.replace .session i
      { session with revokedAt := some at_ } n], .ok ()⟩ : SessionEvent) ∈ past

theorem signOut_ends (text : String) :
    wp ((sessionTerms lib).contract k)
      (Returns fun past _ => SignsOut past (lib.tokenHash text)) (signOut lib (some text)) [] := by
  dsimp only [signOut]
  split
  · exact fun _ _ h => absurd h List.not_mem_nil
  · refine wp_ask_bind ⟨trivial, trivial⟩ (fun found hfound => ?_) fun e _ => trivial
    rcases found with _ | ⟨session, n⟩
    · intro session n hmem
      rcases List.mem_singleton.mp hmem
    · have hid : session.tokenHash = lib.tokenHash text := hfound
      dsimp only
      split
      · next hrevoked =>
          intro session' n' hmem
          cases List.mem_singleton.mp hmem
          exact .inl (Option.isSome_iff_ne_none.mp hrevoked)
      · next hopen =>
          have hfresh : session.revokedAt = none := by simpa using hopen
          refine wp_ask_bind ⟨trivial, trivial⟩ (fun at_ _ => ?_) fun e _ => trivial
          refine wp_ask ⟨.next (.inl ?_) hfresh rfl, fun w hw => ?_⟩ fun r _ => ?_
          · rw [hid]
            exact List.mem_cons_of_mem _ List.mem_cons_self
          · rw [List.mem_singleton.mp hw]
            rfl
          · cases r with
            | error e => trivial
            | ok u =>
                intro session' n' hmem
                obtain ⟨rfl, rfl⟩ : session' = session ∧ n' = n := by
                  simpa using hmem
                exact .inr ⟨at_, by rw [hid]; exact List.mem_cons_self⟩

theorem signOut_keeps (token : Option String) :
    wp ((sessionTerms lib).contract k) (fun _ _ => True) (signOut lib token) [] := by
  cases token with
  | none => trivial
  | some text => exact wp_mono (fun _ _ _ _ => trivial) (signOut_ends text)

/-! ## Commands -/

theorem Command.apply_same (account : Account) (newHash : String) (command : Command) :
    (command.apply account newHash).accountId = account.accountId ∧
      (command.apply account newHash).updatedAt = account.updatedAt ∧
      account.sessionGeneration ≤ (command.apply account newHash).sessionGeneration := by
  cases command <;> simp [Command.apply, endSessions]

theorem operate_keeps (accountId : String) (command : Command) :
    wp ((sessionTerms lib).contract k) (fun _ _ => True) (operate accountId command) past := by
  have h : wp ((sessionTerms lib).contract k) (Returns fun _ _ => True) (operate accountId command)
      past := by
    refine returns_bind (P := fun _ _ => True) ?_ fun past' newHash _ _ => ?_
    · cases command with
      | setPassword password => exact wp_ask ⟨trivial, trivial⟩ fun r _ => by cases r <;> trivial
      | _ => trivial
    · refine wp_ask_bind ⟨trivial, trivial⟩ (fun found hfound => ?_) fun e _ => trivial
      rcases found with _ | ⟨account, n⟩
      · trivial
      · obtain rfl : account.accountId = accountId := hfound
        obtain ⟨hid, hstamp, hgeneration⟩ := command.apply_same account newHash
        refine returns_bind (update_keeps account (n := n) ?_ hstamp.symm hgeneration)
          fun _ _ _ _ => trivial
        rw [hid]
        exact List.mem_cons_self
  exact wp_mono (fun _ _ _ _ => trivial) h

theorem putTenant_keeps (tenant : Tenant) :
    wp ((sessionTerms lib).contract k) (fun _ _ => True) (putTenant tenant) past := by
  refine wp_ask_bind ⟨trivial, trivial⟩ (fun found _ => ?_) fun e _ => trivial
  rcases found with _ | ⟨stored, n⟩
  · refine wp_ask ⟨.tenant rfl, fun w hw => ?_⟩ fun _ _ => trivial
    rw [List.mem_singleton.mp hw]
    trivial
  · refine wp_ask ⟨.tenant rfl, fun w hw => ?_⟩ fun _ _ => trivial
    rw [List.mem_singleton.mp hw]
    trivial

/-- What each process writes, and when a session is accepted. -/
theorem session_kept : (sessionTerms lib).Kept := by
  intro k
  cases k with
  | signIn accountId login => exact signIn_keeps accountId login
  | request token => exact request_keeps token
  | signOut token => exact signOut_keeps token
  | operate accountId command => exact operate_keeps accountId command
  | createAccount account =>
      refine wp_ask ⟨.created account, fun w hw => ?_⟩ fun _ _ => trivial
      rw [List.mem_singleton.mp hw]
      rfl
  | putTenant tenant => exact putTenant_keeps tenant

end Writes

end SeoAgent.Sessions
