import Mathlib
import SeoAgent.Accounts.SessionSteps
import SeoAgent.Verified.Shut
import SeoAgent.Verified.Versions

/-!
# Which sessions are accepted

A session carries the generation its account had in the copy it was opened for, and is accepted
while the account has it. A write of an account is made over the copy it was computed from, so
generations only go up, and a session is written over the version that was read, so one that
was revoked stays so.

## Main results

* `ordered_step` — what one transaction keeps of the stored versions.
* `accepted_accounted` — what is known of the requests that were accepted, over every run.
* `sessions_ended` — a write that raises the generation ends every session from before it.
* `signed_out` — a sign-out that has come to its end is final.
-/

namespace SeoAgent.Sessions

open SeoAgent.Verified Prog Machine
open Service (iface World Terms Told Logbook)
open SeoAgent.Accounts (Account)
open SeoAgent.SignIn (Tenant)

/-! ## Versions -/

/-- An earlier version of an account. -/
structure AccountBefore (a b : Account) : Prop where
  stamp : a.updatedAt < b.updatedAt
  generation : a.sessionGeneration ≤ b.sessionGeneration

/-- An earlier version of a session: one that is revoked is the last. -/
structure SessionBefore (a b : Session) : Prop where
  same : SameSession a b
  fresh : a.revokedAt = none

/-- What the stored versions keep to. -/
structure Ordered (r : SessionRecords) : Prop where
  accounts : ∀ i, (r.versions .account i).Pairwise AccountBefore
  sessions : ∀ i, (r.versions .session i).Pairwise SessionBefore
  lifetimes : ∀ i, ∀ session ∈ r.versions .session i,
    session.expiresAt = session.createdAt + sessionLifetime
  /-- No session is ahead of its account. -/
  bounded : ∀ i, ∀ session ∈ r.versions .session i, ∃ account n,
    r.current .account session.accountId = some (account, n) ∧
      session.generation ≤ account.sessionGeneration

section Records
variable {r s : SessionRecords} {past : SessionPast} {ws : SessionWrites} {i : String}

/-- A record with a version has a latest one. -/
theorem current_of_mem {t : SessionType} {v : t.Payload} (h : v ∈ r.versions t i) :
    ∃ u, (r.versions t i).getLast? = some u ∧ r.current t i = some (u, (r.versions t i).length) := by
  obtain ⟨u, hu⟩ : ∃ u, (r.versions t i).getLast? = some u := by
    cases hlast : (r.versions t i).getLast? with
    | some u => exact ⟨u, rfl⟩
    | none => exact absurd (List.getLast?_eq_none_iff.mp hlast) (List.ne_nil_of_mem h)
  exact ⟨u, hu, by simp [Repository.current, hu]⟩

/-- A version that was read has at most the generation of the latest one. -/
theorem Ordered.generation_le (h : Ordered r) {account u : Account} {n m : Nat}
    (hversion : r.versionAt .account i n = some account)
    (hcurrent : r.current .account i = some (u, m)) :
    account.sessionGeneration ≤ u.sessionGeneration := by
  rcases Versions.before_last (h.accounts i) (Repository.getLast?_of_current hcurrent)
    (Repository.mem_of_versionAt hversion) with hbefore | rfl
  · exact hbefore.generation
  · exact le_rfl

theorem Found.version {account : Account} {n : Nat} (htold : Told r past)
    (h : Found past i account n) : r.versionAt .account i n = some account := htold.found h

theorem Knows.version {session : Session} {n : Nat} (htold : Told r past)
    (h : Knows past i session n) : r.versionAt .session i n = some session := by
  rcases h with hread | ⟨rfl, hmade⟩
  · exact htold.found hread
  · obtain ⟨before, rest, rfl⟩ := List.append_of_mem hmade
    refine htold _ (List.suffix_append before _) .session i session 1 ?_
    simp [Service.seen, Service.tells, Service.lastWrite, Service.writeTells]

/-- The copy of an account that a write is computed from is the latest version. -/
theorem copy_current (h : Ordered r) (htold : Told r past) {copy current written : Account}
    {m n : Nat} (copyRead : Found past i copy m) (currentRead : Found past i current n)
    (unchanged : current.updatedAt = copy.updatedAt)
    (hs : r.commit [.replace .account i written n] = .ok s) :
    r.current .account i = some (copy, n) ∧ s = r.append .account i written := by
  obtain ⟨hn, rfl⟩ := Repository.apply_replace (Repository.commit_singleton.mp hs)
  have hcurrent : r.current .account i = some (current, n) :=
    Repository.current_eq_some_iff.mpr ⟨currentRead.version htold, hn⟩
  have hsame : copy = current := Versions.eq_last (h.accounts i)
    (Repository.getLast?_of_current hcurrent)
    (Repository.mem_of_versionAt (copyRead.version htold)) fun hbefore => by
      have hstamp := hbefore.stamp
      omega
  exact ⟨hsame ▸ hcurrent, rfl⟩

/-- A session is replaced over its latest version. -/
theorem session_current (htold : Told r past) {session later : Session} {n : Nat}
    (read : Knows past i session n) (hs : r.commit [.replace .session i later n] = .ok s) :
    r.current .session i = some (session, n) ∧ s = r.append .session i later := by
  obtain ⟨hn, rfl⟩ := Repository.apply_replace (Repository.commit_singleton.mp hs)
  exact ⟨Repository.current_eq_some_iff.mpr ⟨read.version htold, hn⟩, rfl⟩

/-- More versions of sessions, of accounts that are there. -/
theorem Ordered.append_session (h : Ordered r) {later : Session}
    (hordered : (r.versions .session i ++ [later]).Pairwise SessionBefore)
    (hlifetime : later.expiresAt = later.createdAt + sessionLifetime)
    (hbounded : ∃ account n, r.current .account later.accountId = some (account, n) ∧
      later.generation ≤ account.sessionGeneration) : Ordered (r.append .session i later) := by
  have haccounts : ∀ j, (r.append .session i later).versions .account j = r.versions .account j :=
    fun j => Repository.versions_append_of_ne_type _ _ _ _ (by decide) j
  have hmem : ∀ j, ∀ session ∈ (r.append .session i later).versions .session j,
      session ∈ r.versions .session j ∨ session = later := by
    intro j session hsession
    rw [Repository.versions_append] at hsession
    split at hsession
    · rcases List.mem_append.mp hsession with hold | hnew
      · exact .inl hold
      · exact .inr (List.mem_singleton.mp hnew)
    · exact .inl hsession
  refine ⟨fun j => haccounts j ▸ h.accounts j, fun j => ?_, fun j session hsession => ?_,
    fun j session hsession => ?_⟩
  · rw [Repository.versions_append]
    split
    · next hj => exact hj ▸ hordered
    · exact h.sessions j
  · rcases hmem j session hsession with hold | rfl
    · exact h.lifetimes j session hold
    · exact hlifetime
  · rw [Repository.current_congr (haccounts session.accountId)]
    rcases hmem j session hsession with hold | rfl
    · exact h.bounded j session hold
    · exact hbounded

/-- One more version of an account, with no lower generation. -/
theorem Ordered.append_account (h : Ordered r) {written : Account}
    (hordered : (r.versions .account i ++ [written]).Pairwise AccountBefore)
    (hbounded : ∀ account n, r.current .account i = some (account, n) →
      account.sessionGeneration ≤ written.sessionGeneration) :
    Ordered (r.append .account i written) := by
  have hsessions : ∀ j, (r.append .account i written).versions .session j =
      r.versions .session j :=
    fun j => Repository.versions_append_of_ne_type _ _ _ _ (by decide) j
  refine ⟨fun j => ?_, fun j => hsessions j ▸ h.sessions j, fun j session hsession => ?_,
    fun j session hsession => ?_⟩
  · rw [Repository.versions_append]
    split
    · next hj => exact hj ▸ hordered
    · exact h.accounts j
  · exact h.lifetimes j session (hsessions j ▸ hsession)
  · obtain ⟨account, n, hcurrent, hle⟩ := h.bounded j session (hsessions j ▸ hsession)
    by_cases hi : session.accountId = i
    · rw [hi] at hcurrent ⊢
      exact ⟨written, _, Repository.current_append_self _ _ _ _,
        hle.trans (hbounded account n hcurrent)⟩
    · rw [Repository.current_congr (Repository.versions_append_of_ne _ _ _ _ hi)]
      exact ⟨account, n, hcurrent, hle⟩

/-- What one transaction keeps. -/
theorem ordered_step (h : Ordered r) (htold : Told r past) (hcommit : SessionCommit past ws)
    (hs : r.commit ws = .ok s) : Ordered s := by
  cases hcommit with
  | @opened session account n read generation fresh lifetime =>
      obtain ⟨hnone, rfl⟩ := Repository.apply_create (Repository.commit_singleton.mp hs)
      have hversion := read.version htold
      obtain ⟨u, -, hcurrent⟩ := current_of_mem (Repository.mem_of_versionAt hversion)
      refine h.append_session ?_ lifetime ⟨u, _, hcurrent, ?_⟩
      · rw [hnone]
        exact List.pairwise_singleton _ _
      · exact generation ▸ h.generation_le hversion hcurrent
  | @next i session later n read fresh same =>
      obtain ⟨hcurrent, rfl⟩ := session_current htold read hs
      have hmem := Repository.mem_of_versionAt (read.version htold)
      refine h.append_session ?_ ?_ ?_
      · refine Versions.pairwise_concat (h.sessions i) (Repository.getLast?_of_current hcurrent)
          ⟨same, fresh⟩ fun x hx => ⟨?_, hx.fresh⟩
        have hsame := hx.same
        unfold SameSession at same hsame ⊢
        rw [same, hsame]
      · rw [same]
        exact h.lifetimes i session hmem
      · rw [same]
        exact h.bounded i session hmem
  | @changed i current written m n copy copyRead currentRead unchanged stamp generation =>
      obtain ⟨hcurrent, rfl⟩ := copy_current h htold copyRead currentRead unchanged hs
      refine h.append_account ?_ fun account n' hsame => ?_
      · refine Versions.pairwise_concat (h.accounts i) (Repository.getLast?_of_current hcurrent)
          ⟨stamp, generation⟩ fun x hx => ⟨hx.stamp.trans stamp, hx.generation.trans generation⟩
      · obtain ⟨rfl, -⟩ := Prod.mk.inj (Option.some.inj (hcurrent.symm.trans hsame))
        exact generation
  | @created i account =>
      obtain ⟨hnone, rfl⟩ := Repository.apply_create (Repository.commit_singleton.mp hs)
      refine h.append_account ?_ fun account' n hcurrent => ?_
      · rw [hnone]
        exact List.pairwise_singleton _ _
      · rw [Repository.current_eq_none_iff.mpr hnone] at hcurrent
        cases hcurrent
  | @tenant w about =>
      have hsame : ∀ t i, t ≠ .tenant → s.versions t i = r.versions t i := fun t i ht =>
        Repository.commit_versions_of_ne hs fun w' hw' htarget => ht (by
          rw [← about, ← List.mem_singleton.mp hw', htarget])
      refine ⟨fun j => hsame .account j (by decide) ▸ h.accounts j,
        fun j => hsame .session j (by decide) ▸ h.sessions j, fun j session hsession => ?_,
        fun j session hsession => ?_⟩
      · exact h.lifetimes j session (hsame .session j (by decide) ▸ hsession)
      · rw [Repository.current_congr (hsame .account session.accountId (by decide))]
        exact h.bounded j session (hsame .session j (by decide) ▸ hsession)

end Records

/-! ## Every run -/

/-- A deployment before its first account. -/
def noAccounts : World sessionBackend sessionOutside where
  records := Repository.empty
  outside := []

/-- The requests that were accepted. -/
def acceptedLogbook : Logbook (B := sessionBackend) sessionOutside Accepted where
  entries log := log
  entry
    | .serve accepted => some accepted
    | .hashPassword _ => none
  exec {s x ch r s'} h := by
    cases x with
    | hashPassword password =>
        cases ch with
        | done => cases h
        | _ => cases h; exact .inl rfl
    | serve accepted =>
        cases ch with
        | done => cases h; exact .inr ⟨accepted, rfl, rfl⟩
        | _ => cases h
  change {s e s'} _ := e.elim

section Runs
variable {lib : SessionLibrary} {good : Condition (sessionMachine lib)}
  {c c₁ : Config (sessionMachine lib)} {i : String}

theorem sessionValid_nothing : Service.AllValid sessionValid noAccounts.records :=
  fun _ _ _ h => absurd h List.not_mem_nil

theorem ordered_of_run (hr : Run good ⟨noAccounts, []⟩ c) : Ordered c.shared.records :=
  Service.repository_invariant (T := sessionTerms lib) session_kept sessionValid_nothing
    (fun hcom hold hs => ordered_step hold hcom.told hcom.permitted hs)
    ⟨fun _ => List.Pairwise.nil, fun _ => List.Pairwise.nil,
      fun _ _ h => absurd h List.not_mem_nil, fun _ _ h => absurd h List.not_mem_nil⟩ hr

/-- What is stored of a request that was accepted. -/
structure AcceptedOn (lib : SessionLibrary) (r : SessionRecords) (accepted : Accepted) : Prop where
  /-- The session was opened, was neither revoked nor expired nor idle, and may have been
  stamped since. -/
  session : ∃ token session at_, session ∈ r.versions .session (lib.tokenHash token) ∧
    session.ended at_ = false ∧
    (accepted.session = session ∨ accepted.session = { session with lastSeenAt := at_ })
  /-- Its account was active, and of the same generation. -/
  account : accepted.account ∈ r.versions .account accepted.session.accountId
  active : accepted.account.status = .active
  generation : accepted.session.generation = accepted.account.sessionGeneration
  tenant : ∃ tenant ∈ r.versions .tenant accepted.session.tenantId, tenant.status = .active

theorem AcceptedOn.mono {r s : SessionRecords} {accepted : Accepted}
    (h : AcceptedOn lib r accepted) (hgrows : r.Grows s) : AcceptedOn lib s accepted := by
  obtain ⟨token, session, at_, hmem, hlive, hkept⟩ := h.session
  obtain ⟨tenant, htenant, hstatus⟩ := h.tenant
  exact { h with
    session := ⟨token, session, at_, (hgrows _ _).subset hmem, hlive, hkept⟩
    account := (hgrows _ _).subset h.account
    tenant := ⟨tenant, (hgrows _ _).subset htenant, hstatus⟩ }

theorem Recognised.acceptedOn {r : SessionRecords} {past : SessionPast} {token : String}
    {accepted : Accepted} (h : Recognised past (lib.tokenHash token) accepted)
    (htold : Told r past) : AcceptedOn lib r accepted := by
  obtain ⟨session, version, at_, hread, -, hlive, hkept⟩ := h.session
  obtain ⟨n, haccount⟩ := h.account
  obtain ⟨tenant, m, htenant, hstatus⟩ := h.tenant
  exact {
    session := ⟨token, session, at_, Repository.mem_of_versionAt (htold.found hread), hlive, hkept⟩
    account := Repository.mem_of_versionAt (haccount.version htold)
    active := h.active
    generation := h.generation
    tenant := ⟨tenant, Repository.mem_of_versionAt (htold.found htenant), hstatus⟩ }

/-- What is known of the stored versions, and of the requests that were accepted. -/
structure SessionsAccounted (lib : SessionLibrary) (r : SessionRecords) (log : AcceptedLog) :
    Prop where
  ordered : Ordered r
  accepted : ∀ accepted ∈ log, AcceptedOn lib r accepted

theorem accepted_backed (hr : Run good ⟨noAccounts, []⟩ c) :
    ∀ accepted ∈ c.shared.outside, AcceptedOn lib c.shared.records accepted := by
  refine Service.entries_backed (T := sessionTerms lib) acceptedLogbook
    (F := fun (r : SessionRecords) accepted => AcceptedOn lib r accepted)
    session_kept sessionValid_nothing (fun hgrows hback => hback.mono hgrows)
    (fun {r k past x e} htold hperm hentry => ?_) rfl hr
  cases x with
  | hashPassword password => cases hentry
  | serve accepted =>
      cases hentry
      obtain ⟨token, -, hrecognised⟩ := hperm
      exact hrecognised.acceptedOn htold

end Runs

/-! ## A run -/

/-- The digests of two tokens, and one password. -/
def shopLibrary : SessionLibrary where
  tokenHash token :=
    if token = "tok-1" then "65dcf16ea3dfa49069628089eb4a75483070f5584b2a21ee64912b5f621f12da"
    else if token = "tok-2" then "b9d7f2826c798e990d30dd291fddb436a01327c293788ce57195e60c7efb82b2"
    else "-"
  verifyPassword password stored := password == "correct horse" && stored == some "scrypt$1"
  needsRehash _ := false

abbrev SessionMove : Type := Move (M := sessionMachine shopLibrary)

theorem shopOwner_found : some "a@x.com" ≠ none ∨ (none : Option String) ≠ none :=
  .inl (by decide)

theorem shopOwner_named : "u-1" ≠ "" := by decide

def shopOwner : Account where
  accountId := "u-1"
  tenantId := "t-1"
  email := some "a@x.com"
  passwordHash := some "scrypt$1"
  createdAt := 0
  updatedAt := 0
  named := shopOwner_named
  found := shopOwner_found

/-- A tenant with its owner. -/
def opensShop : List SessionMove :=
  [.spawn (.putTenant ⟨"t-1", .active⟩), .act 0 .done, .act 0 .done,
    .spawn (.createAccount shopOwner), .act 1 .done]

/-- The owner signs in. -/
def signsIn (t : Nat) (token : String) (at_ : Int) : List SessionMove :=
  [.spawn (.signIn "u-1" (.password "correct horse")), .act t .done, .act t .done,
    .act t (.clock at_), .act t (.name token), .act t (.name "csrf"), .act t .done, .act t .done,
    .act t .done, .act t (.clock at_), .act t .done]

/-- A request of the browser is accepted. -/
def comesIn (t : Nat) (token : String) (at_ : Int) : List SessionMove :=
  [.spawn (.request (some token)), .act t .done, .act t (.clock at_), .act t .done, .act t .done,
    .act t (.ext .done)]

def acceptedOf (c : Config (sessionMachine shopLibrary)) : List (Nat × Int) :=
  c.shared.outside.map fun accepted => (accepted.session.generation, accepted.session.createdAt)

section Endings
variable {lib : SessionLibrary} {good : Condition (sessionMachine lib)}
  {c c₁ : Config (sessionMachine lib)} {i : String}

def IsRequest (k : SessionKind) : Prop := ∃ token, k = .request token

/-- Commits leave an account at no lower generation. -/
theorem account_keepsShut (hr₁ : Run anyMove ⟨noAccounts, []⟩ c₁) (g : Nat) :
    Service.KeepsShut good c₁ .account i fun account : Account =>
      g ≤ account.sessionGeneration := by
  intro c j k ws f past r hr hp hshut hs
  have hrun := hr₁.trans hr.any
  obtain ⟨hcommit, -⟩ :=
    Service.permitted_of_run (T := sessionTerms lib) session_kept sessionValid_nothing hrun hp
  have htold := Service.told_of_run hrun _ (List.mem_of_getElem? hp)
  have hnext := ordered_step (ordered_of_run hrun) htold hcommit hs
  obtain ⟨v, n, hcurrent, hgeneration⟩ := hshut
  have hversion := (Repository.current_eq_some_iff.mp hcurrent).1
  have hgrown := Repository.versionAt_mono (Repository.commit_grows hs) hversion
  obtain ⟨u, -, hlatest⟩ := current_of_mem (Repository.mem_of_versionAt hgrown)
  exact ⟨u, _, hlatest, hgeneration.trans (hnext.generation_le hgrown hlatest)⟩

/-- A session is accepted on a reading of its account at its generation. -/
theorem account_needsOpen (hr₁ : Run anyMove ⟨noAccounts, []⟩ c₁) (g : Nat) :
    Service.NeedsOpen acceptedLogbook good c₁ .account i
      (fun account : Account => g ≤ account.sessionGeneration) IsRequest fun accepted =>
        accepted.session.accountId = i ∧ accepted.session.generation < g := by
  intro c j k x accepted f past hr hp _ hentry hneeds
  have hrun := hr₁.trans hr.any
  obtain ⟨hperm, -⟩ :=
    Service.permitted_of_run (T := sessionTerms lib) session_kept sessionValid_nothing hrun hp
  cases x with
  | hashPassword password => cases hentry
  | serve request =>
      cases hentry
      obtain ⟨token, rfl, hrecognised⟩ := hperm
      obtain ⟨n, hread⟩ := hrecognised.account
      obtain ⟨rfl, hlow⟩ := hneeds
      refine ⟨⟨_, rfl⟩, accepted.account, n, hread, ?_⟩
      rw [hrecognised.generation] at hlow
      exact Nat.not_le.mpr hlow

/-- A session that was accepted is a stored one. -/
theorem AcceptedOn.stored {r : SessionRecords} {accepted : Accepted} (h : AcceptedOn lib r accepted)
    (hvalid : Service.AllValid (B := sessionBackend) sessionValid r) :
    ∃ session ∈ r.versions .session accepted.session.tokenHash,
      session.accountId = accepted.session.accountId ∧
        session.generation = accepted.session.generation := by
  obtain ⟨token, session, at_, hmem, -, hkept⟩ := h.session
  have hhash : session.tokenHash = lib.tokenHash token := hvalid .session _ session hmem
  rcases hkept with heq | heq <;> rw [heq] <;> exact ⟨session, hhash ▸ hmem, rfl, rfl⟩

/-- Versions of one session agree on whose it is. -/
theorem Ordered.same_session {r : SessionRecords} (h : Ordered r) {a b : Session}
    (ha : a ∈ r.versions .session i) (hb : b ∈ r.versions .session i) :
    a.accountId = b.accountId ∧ a.generation = b.generation := by
  have key : ∀ {x}, x ∈ r.versions .session i → ∀ {u}, (r.versions .session i).getLast? = some u →
      x.accountId = u.accountId ∧ x.generation = u.generation := by
    intro x hx u hu
    rcases Versions.before_last (h.sessions i) hu hx with hbefore | rfl
    · rw [hbefore.same]
      exact ⟨rfl, rfl⟩
    · exact ⟨rfl, rfl⟩
  obtain ⟨u, hu, -⟩ := current_of_mem ha
  obtain ⟨haccount, hgeneration⟩ := key ha hu
  obtain ⟨haccount', hgeneration'⟩ := key hb hu
  exact ⟨haccount.trans haccount'.symm, hgeneration.trans hgeneration'.symm⟩

end Endings

/-- The owner's account, and whether no request is under way. -/
def ownerOf (c : Config (sessionMachine shopLibrary)) : Option (Account × Nat) :=
  c.shared.records.current .account "u-1"

def quiet (c : Config (sessionMachine shopLibrary)) : Bool :=
  c.pool.all fun th => match th.kind with
    | .request _ => false
    | _ => true

theorem not_request_of_quiet {c : Config (sessionMachine shopLibrary)} (h : quiet c = true)
    {th : Thread (sessionMachine shopLibrary)} (hth : th ∈ c.pool) (token : Option String) :
    th.kind ≠ .request token := by
  intro hkind
  have hnot := List.all_eq_true.mp h th hth
  rw [hkind] at hnot
  cases hnot

/-- Every session of the owner is ended. -/
def revokes (t : Nat) : List SessionMove :=
  [.spawn (.operate "u-1" .revokeSessions), .act t .done, .act t .done, .act t (.clock 300),
    .act t .done]

/-- The owner as the sign-in leaves the account, and as the command does. -/
def seenOwner : Account := { shopOwner with updatedAt := 100, lastLoginAt := some 100 }

def endedOwner : Account := { seenOwner with updatedAt := 300, sessionGeneration := 1 }

section SignOuts
variable {lib : SessionLibrary} {good : Condition (sessionMachine lib)}
  {c c₁ : Config (sessionMachine lib)} {i : String}

def Session.Revoked (session : Session) : Prop := session.revokedAt ≠ none

theorem session_keepsShut (hr₁ : Run anyMove ⟨noAccounts, []⟩ c₁) :
    Service.KeepsShut good c₁ .session i Session.Revoked := by
  intro c j k ws f past r hr hp hshut hs
  have hrun := hr₁.trans hr.any
  obtain ⟨hcommit, -⟩ :=
    Service.permitted_of_run (T := sessionTerms lib) session_kept sessionValid_nothing hrun hp
  have htold := Service.told_of_run hrun _ (List.mem_of_getElem? hp)
  have hnext := ordered_step (ordered_of_run hrun) htold hcommit hs
  obtain ⟨v, n, hcurrent, hrevoked⟩ := hshut
  have hgrown := (Repository.commit_grows hs .session i).subset
    (Repository.mem_of_versionAt (Repository.current_eq_some_iff.mp hcurrent).1)
  obtain ⟨u, hlast, hlatest⟩ := current_of_mem hgrown
  have hsame : v = u := Versions.eq_last (hnext.sessions i) hlast hgrown
    fun hbefore => hrevoked hbefore.fresh
  exact ⟨u, _, hlatest, hsame ▸ hrevoked⟩

/-- The requests that come with a token. -/
def Brings (lib : SessionLibrary) (i : String) (k : SessionKind) : Prop :=
  ∃ token, k = .request (some token) ∧ lib.tokenHash token = i

theorem session_needsOpen (hr₁ : Run anyMove ⟨noAccounts, []⟩ c₁) :
    Service.NeedsOpen acceptedLogbook good c₁ .session i Session.Revoked (Brings lib i)
      fun accepted => accepted.session.tokenHash = i := by
  intro c j k x accepted f past hr hp _ hentry hid
  have hrun := hr₁.trans hr.any
  obtain ⟨hperm, -⟩ :=
    Service.permitted_of_run (T := sessionTerms lib) session_kept sessionValid_nothing hrun hp
  have htold := Service.told_of_run hrun _ (List.mem_of_getElem? hp)
  have hvalid := Service.valid_of_run (T := sessionTerms lib) session_kept sessionValid_nothing hrun
  cases x with
  | hashPassword password => cases hentry
  | serve request =>
      cases hentry
      obtain ⟨token, rfl, hrecognised⟩ := hperm
      obtain ⟨session, version, at_, hread, -, hlive, hkept⟩ := hrecognised.session
      have hhash : session.tokenHash = lib.tokenHash token :=
        hvalid .session _ session (Repository.mem_of_versionAt (htold.found hread))
      have hsame : lib.tokenHash token = i := by
        rw [← hid, ← hhash]
        rcases hkept with heq | heq <;> rw [heq]
      exact ⟨⟨token, rfl, hsame⟩, session, version, hsame ▸ hread,
        not_not.mpr (Session.ended_fresh hlive)⟩

/-- What a sign-out that came to its end leaves of the session it has found. -/
theorem SignsOut.shut {r : SessionRecords} {past : SessionPast} (h : SignsOut past i)
    (horder : Ordered r) (htold : Told r past) {session : Session} {n : Nat}
    (hfound : (⟨.find .session i, .ok (some (session, n))⟩ : SessionEvent) ∈ past) :
    Service.IsShut (B := sessionBackend) .session i Session.Revoked r := by
  obtain ⟨v, hmem, hrevoked⟩ : ∃ v ∈ r.versions .session i, v.Revoked := by
    rcases h session n hfound with hrevoked | ⟨at_, hcommit⟩
    · exact ⟨session, Repository.mem_of_versionAt (htold.found hfound), hrevoked⟩
    · obtain ⟨before, rest, rfl⟩ := List.append_of_mem hcommit
      have hversion : r.versionAt .session i (n + 1) =
          some { session with revokedAt := some at_ } :=
        htold _ (List.suffix_append before _) .session i _ _
          (by simp [Service.seen, Service.tells, Service.lastWrite, Service.writeTells])
      exact ⟨_, Repository.mem_of_versionAt hversion, Option.some_ne_none at_⟩
  obtain ⟨u, hlast, hlatest⟩ := current_of_mem hmem
  have hsame : v = u := Versions.eq_last (horder.sessions i) hlast hmem
    fun hbefore => hrevoked hbefore.fresh
  exact ⟨u, _, hlatest, hsame ▸ hrevoked⟩

/-- What a sign-out has done when it ends without an error. -/
theorem signOut_done {token : String} (hr : Run good ⟨noAccounts, []⟩ c)
    {th : Thread (sessionMachine lib)} (hth : th ∈ c.pool)
    (hkind : th.kind = .signOut (some token)) (hrest : th.rest = .ret ()) :
    SignsOut th.past (lib.tokenHash token) := by
  have hends := Service.ends_of_run (T := sessionTerms lib)
    (Q := fun k past r => ∀ token, k = .signOut (some token) → r = .ok () →
      SignsOut past (lib.tokenHash token)) session_kept sessionValid_nothing (fun k => ?_) hr th hth
  · rw [hrest] at hends
    exact hends token hkind rfl
  · by_cases hk : ∃ token, k = .signOut (some token)
    · obtain ⟨text, rfl⟩ := hk
      refine wp_mono (fun past r _ hr token' heq hok => ?_) (@signOut_ends lib _ text)
      cases heq
      subst hok
      exact hr
    · exact wp_mono (fun _ _ _ _ token' heq => absurd ⟨token', heq⟩ hk)
        (@session_kept lib k)

end SignOuts

/-- The owner signs out. -/
def signsOut (t : Nat) : List SessionMove :=
  [.spawn (.signOut (some "tok-1")), .act t .done, .act t (.clock 300), .act t .done]

/-- The session of the owner's browser, and the sign-out that is at its end. -/
def outOf (c : Config (sessionMachine shopLibrary)) (t : Nat) (token : String) : Bool :=
  match c.pool[t]? with
  | some ⟨.signOut (some token'), .ret (), past⟩ => token' == token && past.any fun
      | ⟨.find .session i, .ok (some _)⟩ => i == shopLibrary.tokenHash token
      | _ => false
  | _ => false

theorem signOut_of_outOf {c : Config (sessionMachine shopLibrary)} {t : Nat} {token : String}
    (h : outOf c t token = true) :
    ∃ (th : Thread (sessionMachine shopLibrary)) (session : Session) (n : Nat), th ∈ c.pool ∧
      th.kind = .signOut (some token) ∧ th.rest = .ret () ∧
      (⟨.find .session (shopLibrary.tokenHash token), .ok (some (session, n))⟩ :
        SessionEvent) ∈ th.past := by
  unfold outOf at h
  split at h
  · next token' past hp =>
      rw [Bool.and_eq_true, beq_iff_eq] at h
      obtain ⟨rfl, hany⟩ := h
      obtain ⟨event, hmem, hevent⟩ := List.any_eq_true.mp hany
      split at hevent
      · next i session =>
          obtain rfl := beq_iff_eq.mp hevent
          exact ⟨_, session.1, session.2, List.mem_of_getElem? hp, rfl, rfl, hmem⟩
      · cases hevent
  · cases h

end SeoAgent.Sessions
