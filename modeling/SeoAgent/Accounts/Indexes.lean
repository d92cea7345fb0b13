import Mathlib.Data.List.Chain
import SeoAgent.Accounts.Store

/-!
# The indexes of the accounts

The Google index and the field of the accounts are two partial functions, each the
inverse of the other (`Linked`). `AccountCommit` says which transactions the calls make
and what was read before; the one a copy is written over is the stored version whenever
its stamp is, because stamps increase.

## Main results

* `accountTerms_kept` — every call keeps the terms.
* `indexed_of_commit` — a permitted transaction keeps the invariant.
* `accounts_indexed` — in every reachable state of any interleaving.
-/

namespace SeoAgent.Accounts

open SeoAgent.Verified Machine
open Service (iface World Terms Committing Witnessed)

/-! ## Two partial functions, inverse to each other -/

section Linked
variable {α β : Type} [DecidableEq α] [DecidableEq β] {f : α → Option β} {g : β → Option α}
  {a : α} {b : β}

/-- `f` has `b` at `a` exactly when `g` has `a` at `b`. -/
def Linked (f : α → Option β) (g : β → Option α) : Prop := ∀ a b, f a = some b ↔ g b = some a

/-- Two free ends are joined. -/
theorem Linked.join (h : Linked f g) (ha : f a = none) (hb : g b = none) :
    Linked (Function.update f a (some b)) (Function.update g b (some a)) := by
  intro a' b'
  by_cases haa : a' = a
  · subst haa
    rw [Function.update_self]
    by_cases hbb : b' = b
    · subst hbb
      simp
    · rw [Function.update_of_ne hbb, ← h a' b', ha]
      simp [Ne.symm hbb]
  · rw [Function.update_of_ne haa]
    by_cases hbb : b' = b
    · subst hbb
      rw [Function.update_self, h a' b', hb]
      simp [Ne.symm haa]
    · rw [Function.update_of_ne hbb]
      exact h a' b'

/-- Two joined ends are parted. -/
theorem Linked.part (h : Linked f g) (ha : f a = some b) :
    Linked (Function.update f a none) (Function.update g b none) := by
  have hb : g b = some a := (h a b).mp ha
  intro a' b'
  by_cases haa : a' = a
  · subst haa
    rw [Function.update_self]
    by_cases hbb : b' = b
    · subst hbb
      simp
    · rw [Function.update_of_ne hbb, ← h a' b', ha]
      simp [Ne.symm hbb]
  · rw [Function.update_of_ne haa]
    by_cases hbb : b' = b
    · subst hbb
      rw [Function.update_self, h a' b', hb]
      simp [Ne.symm haa]
    · rw [Function.update_of_ne hbb]
      exact h a' b'

end Linked

/-! ## The invariant -/

abbrev AccountRecords : Type := Repository AccountType AccountType.Payload

/-- The Google identity an account has. -/
def subjectOf (r : AccountRecords) (accountId : String) : Option String :=
  (r.latest .account accountId).bind Account.googleSubject

/-- The account a Google identity points to. -/
def ownerOf (r : AccountRecords) (subject : String) : Option String :=
  (r.latest .accountGoogle subject).join

/-- One version of an account after another: its stamp is later, and it has a Google
identity only if it had it or was allowed to take one. -/
structure Follows (u v : Account) : Prop where
  stamp : u.updatedAt < v.updatedAt
  gains : ∀ subject, v.googleSubject = some subject →
    u.googleSubject = some subject ∨ u.googleLinkAllowed = true

/-- What holds of the versions of accounts and of the indexes that are never moved. -/
structure Versioned (r : AccountRecords) : Prop where
  email : ∀ accountId, ∀ v ∈ r.versions .account accountId, ∀ email, v.email = some email →
    r.versions .accountEmail email = [some accountId]
  mobile : ∀ accountId, ∀ v ∈ r.versions .account accountId, ∀ mobile,
    v.mobile = some mobile → r.versions .accountMobile mobile = [some accountId]
  stamps : ∀ accountId, (r.versions .account accountId).Pairwise
    fun u v => u.updatedAt < v.updatedAt
  follows : ∀ accountId, (r.versions .account accountId).IsChain Follows

structure Indexed (r : AccountRecords) : Prop where
  google : Linked (subjectOf r) (ownerOf r)
  versioned : Versioned r

section Append
variable {r : AccountRecords} {accountId subject : String} {u w : Account}

theorem subjectOf_append : subjectOf (r.append .account accountId w) =
    Function.update (subjectOf r) accountId w.googleSubject := by
  funext i
  unfold subjectOf Repository.latest
  rw [Repository.versions_append]
  by_cases h : i = accountId
  · subst h
    rw [if_pos rfl, List.getLast?_concat, Function.update_self]
    rfl
  · rw [if_neg h, Function.update_of_ne h]

theorem ownerOf_append (owner : Option String) :
    ownerOf (r.append .accountGoogle subject owner) =
      Function.update (ownerOf r) subject owner := by
  funext i
  unfold ownerOf Repository.latest
  rw [Repository.versions_append]
  by_cases h : i = subject
  · subst h
    rw [if_pos rfl, List.getLast?_concat, Function.update_self]
    rfl
  · rw [if_neg h, Function.update_of_ne h]

theorem ownerOf_append_account :
    ownerOf (r.append .account accountId w) = ownerOf r := by
  funext i
  unfold ownerOf Repository.latest
  rw [Repository.versions_append_of_ne_type r .account accountId w (by decide)]

theorem subjectOf_append_google (owner : Option String) :
    subjectOf (r.append .accountGoogle subject owner) = subjectOf r := by
  funext i
  unfold subjectOf Repository.latest
  rw [Repository.versions_append_of_ne_type r .accountGoogle subject owner (by decide)]

theorem Versioned.append_google (h : Versioned r) (owner : Option String) :
    Versioned (r.append .accountGoogle subject owner) := by
  have hkept : ∀ t, t ≠ .accountGoogle → ∀ i,
      (r.append .accountGoogle subject owner).versions t i = r.versions t i :=
    fun t ht i => Repository.versions_append_of_ne_type r .accountGoogle subject owner ht i
  refine ⟨fun i v hv e he => ?_, fun i v hv m hm => ?_, fun i => ?_, fun i => ?_⟩
  · rw [hkept .account (by decide)] at hv
    rw [hkept .accountEmail (by decide)]
    exact h.email i v hv e he
  · rw [hkept .account (by decide)] at hv
    rw [hkept .accountMobile (by decide)]
    exact h.mobile i v hv m hm
  · rw [hkept .account (by decide)]
    exact h.stamps i
  · rw [hkept .account (by decide)]
    exact h.follows i

/-- One more version of an account with the keys it had. -/
theorem Versioned.append_account (h : Versioned r)
    (hlast : (r.versions .account accountId).getLast? = some u)
    (hemail : w.email = u.email) (hmobile : w.mobile = u.mobile) (hfollows : Follows u w) :
    Versioned (r.append .account accountId w) := by
  have hu : u ∈ r.versions .account accountId := List.mem_of_getLast? hlast
  have hkept : ∀ t, t ≠ .account → ∀ i,
      (r.append .account accountId w).versions t i = r.versions t i :=
    fun t ht i => Repository.versions_append_of_ne_type r .account accountId w ht i
  have hmem : ∀ i, ∀ v ∈ (r.append .account accountId w).versions .account i,
      v ∈ r.versions .account i ∨ (i = accountId ∧ v = w) := by
    intro i v hv
    rw [Repository.versions_append] at hv
    split at hv
    · next hi =>
        rcases List.mem_append.mp hv with hv | hv
        · exact .inl hv
        · exact .inr ⟨hi, List.mem_singleton.mp hv⟩
    · exact .inl hv
  refine ⟨fun i v hv e he => ?_, fun i v hv m hm => ?_, fun i => ?_, fun i => ?_⟩
  · rw [hkept .accountEmail (by decide)]
    rcases hmem i v hv with hv | ⟨rfl, rfl⟩
    · exact h.email i v hv e he
    · exact h.email _ u hu e (hemail.symm.trans he)
  · rw [hkept .accountMobile (by decide)]
    rcases hmem i v hv with hv | ⟨rfl, rfl⟩
    · exact h.mobile i v hv m hm
    · exact h.mobile _ u hu m (hmobile.symm.trans hm)
  · rw [Repository.versions_append]
    split
    · next hi =>
        subst hi
        refine List.pairwise_append.mpr ⟨h.stamps i, List.pairwise_singleton _ _,
          fun x hx y hy => ?_⟩
        rw [List.mem_singleton.mp hy]
        obtain ⟨front, hfront⟩ := List.getLast?_eq_some_iff.mp hlast
        have hstamps := h.stamps i
        rw [hfront] at hx hstamps
        rcases List.mem_append.mp hx with hx | hx
        · have hxu : x.updatedAt < u.updatedAt :=
            (List.pairwise_append.mp hstamps).2.2 x hx u (List.mem_singleton_self u)
          exact hxu.trans hfollows.stamp
        · rw [List.mem_singleton.mp hx]
          exact hfollows.stamp
    · exact h.stamps i
  · rw [Repository.versions_append]
    split
    · next hi =>
        subst hi
        refine List.isChain_append.mpr ⟨h.follows i, List.isChain_singleton _,
          fun x hx y hy => ?_⟩
        obtain rfl := Option.some.inj (hlast.symm.trans hx)
        obtain rfl := Option.some.inj hy
        exact hfollows
    · exact h.follows i

end Append

/-! ## Terms -/

abbrev seen (t : AccountType) (i : String) (past : AccountPast) : Option (t.Payload × Nat) :=
  Service.seen (B := accountBackend) t i past

/-- A call has read a copy of an account, at some time. -/
def HasRead (past : AccountPast) (copy : Account) : Prop :=
  ∃ rest version, rest <:+ past ∧ seen .account copy.accountId rest = some (copy, version)

/-- An account is written over the version a call has read last, from a copy with the
same stamp. -/
structure Rewrites (past : AccountPast) (copy written : Account) (version : Nat) : Prop where
  read : HasRead past copy
  current : ∃ current, seen .account copy.accountId past = some (current, version) ∧
    current.updatedAt = copy.updatedAt
  keys : written.accountId = copy.accountId ∧ written.email = copy.email ∧
    written.mobile = copy.mobile
  later : copy.updatedAt < written.updatedAt

/-- The index record of a Google identity, read after a copy of an account. -/
def ReadAfter (past : AccountPast) (copy : Account) (subject : String)
    (index : Option (Option String × Nat)) : Prop :=
  ∃ rest, (⟨.find .accountGoogle subject, .ok index⟩ :: rest : AccountPast) <:+ past ∧
    HasRead rest copy

/-- The transactions of the calls. -/
inductive AccountCommit (past : AccountPast) : AccountWrites → Prop
  | created {account : Account} (unlinked : account.googleSubject = none) :
      AccountCommit past (createWrites account)
  | updated {copy written : Account} {version : Nat}
      (rewrites : Rewrites past copy written version)
      (same : written.googleSubject = copy.googleSubject) :
      AccountCommit past [.replace .account written.accountId written version]
  | bound {copy written : Account} {version : Nat} {subject : String}
      {index : Option (Option String × Nat)} {claim : AccountWrites}
      (rewrites : Rewrites past copy written version) (may : copy.mayTake subject)
      (read : ReadAfter past copy subject index)
      (claimed : claimGoogle copy.accountId subject index = .ok claim)
      (took : written.googleSubject = some subject) :
      AccountCommit past (claim ++ [.replace .account written.accountId written version])
  | unlinked {copy written : Account} {version : Nat} {subject : String}
      {index : Option (Option String × Nat)} (rewrites : Rewrites past copy written version)
      (had : copy.googleSubject = some subject) (read : ReadAfter past copy subject index)
      (cut : written.googleSubject = none) :
      AccountCommit past (releaseGoogle copy.accountId subject index ++
        [.replace .account written.accountId written version])

/-- An account is stored under its id, and no Google identity is empty. -/
def accountValid : (t : AccountType) → String → t.Payload → Prop
  | .account, i, account => account.accountId = i ∧ account.googleSubject ≠ some ""
  | .accountGoogle, subject, _ => subject ≠ ""
  | _, _, _ => True

@[reducible] def accountTerms : Terms accountProcesses where
  Valid := accountValid
  permits := fun _ => Service.commitsOnly AccountCommit

/-- The contract of a call. -/
@[reducible] def accountContract : Prog.Contract (iface accountBackend nothingElse) :=
  Service.commitContract accountValid AccountCommit

/-! ## The calls keep the terms -/

section Calls
variable {past : AccountPast}

/-- A call whose outcome does not matter keeps the contract. -/
abbrev Keeps {α : Type} (p : AccountProc α) (past : AccountPast) : Prop :=
  Prog.wp accountContract (fun _ _ => True) p past

theorem HasRead.mono {past past' : AccountPast} {copy : Account} (h : HasRead past copy)
    (hs : past <:+ past') : HasRead past' copy := by
  obtain ⟨rest, version, hrest, hseen⟩ := h
  exact ⟨rest, version, hrest.trans hs, hseen⟩

theorem hasRead_found {copy : Account} {version : Nat} {accountId : String}
    (hid : copy.accountId = accountId) :
    HasRead (⟨.find .account accountId, .ok (some (copy, version))⟩ :: past) copy := by
  subst hid
  exact ⟨_, version, List.suffix_refl _, Service.seen_find (B := accountBackend) (t := .account) _⟩

theorem lt_laterThan (previous now : Int) : previous < laterThan previous now := by
  unfold laterThan
  split <;> omega

theorem createWrites_carries {account : Account} (unlinked : account.googleSubject = none) :
    ∀ w ∈ createWrites account, w.Carries accountValid := by
  intro w hw
  simp only [createWrites, List.mem_append, List.mem_map, Option.mem_toList,
    List.mem_singleton] at hw
  rcases hw with (⟨email, -, rfl⟩ | ⟨mobile, -, rfl⟩) | rfl
  · trivial
  · trivial
  · refine ⟨rfl, fun h => ?_⟩
    rw [unlinked] at h
    cases h

theorem create_keeps {account : Account} (unlinked : account.googleSubject = none) :
    Keeps (create account) past := by
  unfold create
  rw [Keeps, Prog.wp_tryCatch]
  refine Service.commit_wp (.created unlinked) (createWrites_carries unlinked) fun r => ?_
  cases r with
  | ok _ => trivial
  | error e =>
      rw [Prog.recovering_error]
      split <;> trivial

theorem onChanged_keeps {α : Type} (accountId : String) (e : AccountExc) (past : AccountPast) :
    Keeps (onChanged (α := α) accountId e) past := by
  cases e <;> trivial

/-- An update after other writes, when the transaction is one that may be made. -/
theorem updateAfter_keeps {before : AccountWrites} {account copy : Account}
    {Q : AccountPast → Except AccountExc Account → Prop} (hread : HasRead past copy)
    (hkeys : account.accountId = copy.accountId ∧ account.email = copy.email ∧
      account.mobile = copy.mobile) (hstamp : account.updatedAt = copy.updatedAt)
    (hsubject : account.googleSubject ≠ some "") (hbefore : ∀ w ∈ before, w.Carries accountValid)
    (hcommit : ∀ past' version written, past <:+ past' →
      Rewrites past' copy written version → written.googleSubject = account.googleSubject →
      AccountCommit past' (before ++ [.replace .account written.accountId written version]))
    (hQ : ∀ past' r, Q past' r) : Prog.wp accountContract Q (updateAfter before account) past := by
  unfold updateAfter
  refine Service.find_bind (fun current version hvalid => ?_) (hQ _ _) fun _ => hQ _ _
  dsimp only
  split
  · exact hQ _ _
  · next hsame =>
      refine Service.now_bind (fun at_ => ?_) fun _ => hQ _ _
      have hpast : past <:+ (⟨.now, .ok at_⟩ ::
          ⟨.find .account account.accountId, .ok (some (current, version))⟩ :: past) :=
        (List.suffix_cons _ _).trans (List.suffix_cons _ _)
      have hrewrites : Rewrites (⟨.now, .ok at_⟩ ::
          ⟨.find .account account.accountId, .ok (some (current, version))⟩ :: past) copy
          { account with updatedAt := laterThan account.updatedAt at_ } version := by
        refine ⟨hread.mono hpast, ⟨current, ?_, ?_⟩, hkeys, ?_⟩
        · rw [seen, Service.seen_now, ← hkeys.1]
          exact Service.seen_find (B := accountBackend) (t := .account) _
        · exact (not_not.mp hsame).trans hstamp
        · exact hstamp ▸ lt_laterThan _ _
      refine Service.commit_bind (hcommit _ _ _ hpast hrewrites rfl) (fun w hw => ?_) (hQ _ _)
        fun _ => hQ _ _
      rcases List.mem_append.mp hw with hw | hw
      · exact hbefore w hw
      · rw [List.mem_singleton.mp hw]
        exact ⟨rfl, hsubject⟩

theorem modelCopy_kept (account : Account) (changes : AccountChanges) :
    (account.modelCopy changes).accountId = account.accountId ∧
      (account.modelCopy changes).email = account.email ∧
      (account.modelCopy changes).mobile = account.mobile ∧
      (account.modelCopy changes).updatedAt = account.updatedAt ∧
      (account.modelCopy changes).googleSubject = account.googleSubject :=
  ⟨rfl, rfl, rfl, rfl, rfl⟩

theorem update_keeps {copy : Account} (changes : AccountChanges) (hread : HasRead past copy)
    (hsubject : copy.googleSubject ≠ some "") :
    Keeps (update (copy.modelCopy changes)) past := by
  unfold update
  rw [Keeps, Prog.wp_tryCatch]
  refine updateAfter_keeps hread ⟨rfl, rfl, rfl⟩ rfl hsubject (fun _ h => by cases h)
    (fun past' version written _ hrewrites hsame => .updated hrewrites hsame) fun past' r => ?_
  cases r with
  | ok _ => trivial
  | error e => exact onChanged_keeps _ e past'

theorem claimGoogle_ne {accountId subject : String} {index : Option (Option String × Nat)}
    {claim : AccountWrites} (h : claimGoogle accountId subject index = .ok claim)
    (hindex : index ≠ none → subject ≠ "") : subject ≠ "" := by
  unfold claimGoogle at h
  split at h
  · cases h
  · exact hindex (Option.some_ne_none _)
  · split at h
    · cases h
    · next hne => exact hne

theorem claimGoogle_carries {accountId subject : String} {index : Option (Option String × Nat)}
    {claim : AccountWrites} (h : claimGoogle accountId subject index = .ok claim)
    (hne : subject ≠ "") : ∀ w ∈ claim, w.Carries accountValid := by
  intro w hw
  unfold claimGoogle at h
  split at h
  · cases h
  · cases h
    rw [List.mem_singleton.mp hw]
    exact hne
  · rw [if_neg hne] at h
    cases h
    rw [List.mem_singleton.mp hw]
    exact hne

/-- An account that takes a Google identity, whatever is made of an exception. -/
theorem bindClaimed_keeps {accountId subject : String} {current : Account} {version : Nat}
    {index : Option (Option String × Nat)} {handler : AccountExc → AccountProc Account}
    (hid : current.accountId = accountId) (hmay : current.mayTake subject = true)
    (hindex : index ≠ none → subject ≠ "") (hhandler : ∀ e past', Keeps (handler e) past') :
    Keeps (do
      let claim ← Prog.ofExcept (claimGoogle accountId subject index)
      tryCatch (updateAfter claim { current with googleSubject := some subject }) handler)
      (⟨.find .accountGoogle subject, .ok index⟩ ::
        ⟨.find .account accountId, .ok (some (current, version))⟩ :: past) := by
  refine Prog.wp_ofExcept_bind (fun claim hclaim => ?_) fun _ _ => trivial
  have hne := claimGoogle_ne hclaim hindex
  rw [Prog.wp_tryCatch]
  have hread : HasRead (⟨.find .account accountId, .ok (some (current, version))⟩ :: past)
    current := hasRead_found hid
  refine updateAfter_keeps (hread.mono (List.suffix_cons _ _)) ⟨rfl, rfl, rfl⟩ rfl
    (fun h => hne (Option.some.inj h)) (claimGoogle_carries hclaim hne)
    (fun past' version' written hpast hrewrites hsame => ?_) fun past' r => ?_
  · refine .bound hrewrites hmay ⟨_, hpast, hread⟩ ?_ hsame
    rw [hid]
    exact hclaim
  · cases r with
    | ok _ => trivial
    | error e =>
        rw [Prog.recovering_error]
        exact hhandler e past'

theorem bindOnce_keeps (accountId subject : String) : Keeps (bindOnce accountId subject) past := by
  unfold bindOnce
  refine Service.find_bind (fun current version hvalid => ?_) trivial fun _ => trivial
  dsimp only
  split
  · trivial
  · next hmay =>
      have hmay : current.mayTake subject = true := by simpa using hmay
      have hchanged : ∀ e past', Keeps (throw e : AccountProc Account) past' := fun _ _ => trivial
      refine Service.find_bind (fun owner version hne => ?_) ?_ fun _ => trivial
      · refine bindClaimed_keeps hvalid.1 hmay (fun _ => hne) fun e past' => ?_
        split
        · exact hchanged _ past'
        · exact onChanged_keeps _ _ past'
      · refine bindClaimed_keeps hvalid.1 hmay (fun h => absurd rfl h) fun e past' => ?_
        split
        · exact hchanged _ past'
        · exact onChanged_keeps _ _ past'

theorem bindGoogle_keeps (accountId subject : String) (tries : Nat) :
    Keeps (bindGoogle accountId subject tries) past := by
  induction tries generalizing past with
  | zero => trivial
  | succ tries ih =>
      unfold bindGoogle
      refine Prog.wp_try (bindOnce_keeps accountId subject) (fun _ _ _ _ => trivial)
        fun past' e _ _ => ?_
      split
      · exact ih
      · trivial

theorem releaseGoogle_carries {accountId subject : String}
    (index : Option (Option String × Nat)) (hne : subject ≠ "") :
    ∀ w ∈ releaseGoogle accountId subject index, w.Carries accountValid := by
  intro w hw
  unfold releaseGoogle at hw
  split at hw
  · split at hw
    · rw [List.mem_singleton.mp hw]
      exact hne
    · cases hw
  · cases hw

theorem unlinkGoogle_keeps {copy : Account} (changes : AccountChanges)
    (hread : HasRead past copy) (hsubject : copy.googleSubject ≠ some "") :
    Keeps (unlinkGoogle copy changes) past := by
  have hend : ∀ (past' : AccountPast) (r : Except AccountExc Account),
      Prog.recovering accountContract (fun _ _ => True) (onChanged copy.accountId) past' r := by
    intro past' r
    cases r with
    | ok _ => trivial
    | error e => exact onChanged_keeps _ e past'
  have hcut : (copy.unlinked changes).googleSubject ≠ some "" := fun h => by cases h
  unfold unlinkGoogle
  rw [Keeps, Prog.wp_tryCatch]
  cases hgoogle : copy.googleSubject with
  | none =>
      rw [Option.filter_none]
      refine updateAfter_keeps hread ⟨rfl, rfl, rfl⟩ rfl hcut (fun _ h => by cases h)
        (fun past' version written _ hrewrites hsame => .updated hrewrites ?_) hend
      rw [hsame, hgoogle]
      rfl
  | some subject =>
      have hne : subject ≠ "" := fun h => hsubject (h ▸ hgoogle)
      rw [Option.filter_some_pos (by simpa using hne)]
      have hrest : ∀ index, Prog.wp accountContract
          (Prog.recovering accountContract (fun _ _ => True) (onChanged copy.accountId))
          (updateAfter (releaseGoogle copy.accountId subject index) (copy.unlinked changes))
          (⟨.find .accountGoogle subject, .ok index⟩ :: past) := fun index =>
        updateAfter_keeps (hread.mono (List.suffix_cons _ _)) ⟨rfl, rfl, rfl⟩ rfl hcut
          (releaseGoogle_carries index hne)
          (fun past' version written hpast hrewrites hsame =>
            .unlinked hrewrites hgoogle ⟨past, hpast, hread⟩ (hsame.trans rfl)) hend
      exact Service.find_bind (fun owner version _ => hrest _) (hrest none) fun e => hend _ _

theorem withCopy_keeps {accountId : String} {p : Account → AccountProc Account}
    (h : ∀ copy past', HasRead past' copy → copy.googleSubject ≠ some "" → Keeps (p copy) past') :
    Keeps (withCopy accountId p) past := by
  unfold withCopy
  refine Service.find_bind (fun copy version hvalid => ?_) trivial fun _ => trivial
  exact Prog.wp_void (h copy _ (hasRead_found hvalid.1) hvalid.2)

/-- Every call keeps the terms. -/
theorem accountTerms_kept : accountTerms.Kept := by
  intro k
  cases k with
  | create account unlinked => exact create_keeps unlinked
  | bindGoogle accountId subject => exact Prog.wp_void (bindGoogle_keeps accountId subject 3)
  | unlinkGoogle accountId changes =>
      exact withCopy_keeps fun copy past' hread hne => unlinkGoogle_keeps _ hread hne
  | update accountId changes =>
      exact withCopy_keeps fun copy past' hread hne => update_keeps _ hread hne

end Calls

/-! ## Every transaction keeps the indexes -/

section Commits
variable {r r' : AccountRecords} {past : AccountPast} {copy written : Account}
  {version : Nat} {subject : String}

abbrev Told (r : AccountRecords) (past : AccountPast) : Prop :=
  Service.Told (B := accountBackend) (X := nothingElse) r past

/-- Versions of one stamp are one version. -/
theorem Versioned.stamp_inj (h : Versioned r) {accountId : String} {u v : Account} {n m : Nat}
    (hu : r.versionAt .account accountId n = some u)
    (hv : r.versionAt .account accountId m = some v) (hstamp : u.updatedAt = v.updatedAt) :
    n = m := by
  cases n with
  | zero => cases hu
  | succ n =>
      cases m with
      | zero => cases hv
      | succ m =>
          obtain ⟨hn, rfl⟩ := List.getElem?_eq_some_iff.mp hu
          obtain ⟨hm, rfl⟩ := List.getElem?_eq_some_iff.mp hv
          have hordered := List.pairwise_iff_getElem.mp (h.stamps accountId)
          rcases Nat.lt_trichotomy n m with hlt | heq | hlt
          · exact absurd hstamp (hordered n m hn hm hlt).ne
          · rw [heq]
          · exact absurd hstamp (hordered m n hm hn hlt).ne'

/-- The copy an account is written from is the version it is written over. -/
theorem Rewrites.over (h : Rewrites past copy written version) (htold : Told r past)
    (hv : Versioned r) : r.versionAt .account copy.accountId version = some copy := by
  obtain ⟨rest, n, hrest, hseen⟩ := h.read
  obtain ⟨current, hcurrent, hstamp⟩ := h.current
  have hread := htold rest hrest _ _ _ _ hseen
  have hnow := htold.seen hcurrent
  rw [hv.stamp_inj hnow hread hstamp]
  exact hread

/-- The write of an account, after others that leave the accounts alone. -/
theorem Rewrites.apply (h : Rewrites past copy written version) (htold : Told r past)
    (hv : Versioned r) {r₁ : AccountRecords} (hkept : ∀ i, r₁.versions .account i =
      r.versions .account i)
    (happ : r₁.apply (.replace .account written.accountId written version) = .ok r') :
    (r₁.versions .account written.accountId).getLast? = some copy ∧
      r' = r₁.append .account written.accountId written := by
  obtain ⟨hlen, rfl⟩ := Repository.apply_replace happ
  refine ⟨?_, rfl⟩
  rw [h.keys.1] at hlen ⊢
  rw [hkept] at hlen ⊢
  exact Repository.getLast?_of_current
    (Repository.current_eq_some_iff.mpr ⟨h.over htold hv, hlen⟩)

theorem subjectOf_of_last {accountId : String}
    (hlast : (r.versions .account accountId).getLast? = some copy) :
    subjectOf r accountId = copy.googleSubject := by
  rw [subjectOf, Repository.latest, hlast]
  rfl

theorem ownerOf_of_last {owner : Option String}
    (hlast : (r.versions .accountGoogle subject).getLast? = some owner) :
    ownerOf r subject = owner := by
  rw [ownerOf, Repository.latest, hlast]
  rfl

theorem indexed_of_update (h : Indexed r) (htold : Told r past)
    (hrewrites : Rewrites past copy written version)
    (hsame : written.googleSubject = copy.googleSubject)
    (hcommit : r.commit [.replace .account written.accountId written version] = .ok r') :
    Indexed r' := by
  obtain ⟨hlast, rfl⟩ := hrewrites.apply htold h.versioned (fun _ => rfl)
    (Repository.commit_singleton.mp hcommit)
  refine ⟨?_, h.versioned.append_account hlast hrewrites.keys.2.1 hrewrites.keys.2.2
    ⟨hrewrites.later, fun _ hs => .inl (hsame ▸ hs)⟩⟩
  rw [subjectOf_append, ownerOf_append_account, hsame, ← subjectOf_of_last hlast,
    Function.update_eq_self]
  exact h.google

/-- The index record a free Google identity has is written over. -/
theorem claim_apply {index : Option (Option String × Nat)} {claim : AccountWrites}
    {accountId : String} (htold : ∀ owner n, index = some (owner, n) →
      r.versionAt .accountGoogle subject n = some owner)
    (hclaim : claimGoogle accountId subject index = .ok claim) (hcommit : r.commit claim = .ok r') :
    ownerOf r subject = none ∧ r' = r.append .accountGoogle subject (some accountId) := by
  unfold claimGoogle at hclaim
  split at hclaim
  · cases hclaim
  · next n =>
      cases hclaim
      obtain ⟨hlen, rfl⟩ := Repository.apply_replace (Repository.commit_singleton.mp hcommit)
      have hcur := Repository.current_eq_some_iff.mpr ⟨htold none n rfl, hlen⟩
      exact ⟨ownerOf_of_last (Repository.getLast?_of_current hcur), rfl⟩
  · split at hclaim
    · cases hclaim
    · cases hclaim
      obtain ⟨hfresh, rfl⟩ := Repository.apply_create (Repository.commit_singleton.mp hcommit)
      refine ⟨?_, rfl⟩
      rw [ownerOf, Repository.latest, hfresh]
      rfl

theorem ReadAfter.versionAt {index : Option (Option String × Nat)}
    (h : ReadAfter past copy subject index) (htold : Told r past) {owner : Option String}
    {n : Nat} (hindex : index = some (owner, n)) :
    r.versionAt .accountGoogle subject n = some owner := by
  obtain ⟨rest, hrest, -⟩ := h
  refine htold _ hrest .accountGoogle subject owner n ?_
  rw [hindex]
  exact Service.seen_find (B := accountBackend) (t := .accountGoogle) _

theorem indexed_of_bind (h : Indexed r) (htold : Told r past)
    (hrewrites : Rewrites past copy written version) (hmay : copy.mayTake subject)
    {index : Option (Option String × Nat)} {claim : AccountWrites}
    (hread : ReadAfter past copy subject index)
    (hclaim : claimGoogle copy.accountId subject index = .ok claim)
    (htook : written.googleSubject = some subject)
    (hcommit : r.commit (claim ++ [.replace .account written.accountId written version]) =
      .ok r') : Indexed r' := by
  obtain ⟨r₁, hfirst, hsecond⟩ := Repository.commit_append.mp hcommit
  obtain ⟨hfree, rfl⟩ := claim_apply (fun _ _ => hread.versionAt htold) hclaim hfirst
  have hkept : ∀ i, (r.append .accountGoogle subject (some copy.accountId)).versions .account i =
      r.versions .account i := fun i =>
    Repository.versions_append_of_ne_type r .accountGoogle subject _ (by decide) i
  obtain ⟨hlast, rfl⟩ := hrewrites.apply htold h.versioned hkept
    (Repository.commit_singleton.mp hsecond)
  simp only [Account.mayTake, Bool.and_eq_true, Bool.or_eq_true, decide_eq_true_eq] at hmay
  obtain ⟨⟨-, hallowed⟩, hsubject⟩ := hmay
  have hsubjectOf : subjectOf r copy.accountId = copy.googleSubject := by
    rw [hkept, hrewrites.keys.1] at hlast
    exact subjectOf_of_last hlast
  -- An account that had the identity would be where its index points.
  have hnone : subjectOf r copy.accountId = none := by
    rcases hsubject with hnone | hsome
    · exact hsubjectOf.trans hnone
    · have howner := (h.google _ _).mp (hsubjectOf.trans hsome)
      rw [hfree] at howner
      cases howner
  refine ⟨?_, (h.versioned.append_google _).append_account hlast hrewrites.keys.2.1
    hrewrites.keys.2.2 ⟨hrewrites.later, fun _ _ => .inr hallowed⟩⟩
  rw [subjectOf_append, ownerOf_append_account, subjectOf_append_google, ownerOf_append, htook,
    hrewrites.keys.1]
  exact h.google.join hnone hfree

/-- The index record of an identity an account has, read after the account, points to it
as long as the account is not written. -/
theorem points_of_read (hv : Versioned r) (htold : Told r past)
    (hwitness : Witnessed Indexed r past) (hrewrites : Rewrites past copy written version)
    (hlen : (r.versions .account copy.accountId).length = version)
    (hhad : copy.googleSubject = some subject) {index : Option (Option String × Nat)}
    (hread : ReadAfter past copy subject index) : ∃ n, index = some (some copy.accountId, n) := by
  obtain ⟨rest, hrest, rest', n, hrest', hseen⟩ := hread
  obtain ⟨r₀, hindexed, hgrows, htold₀, hcurrent⟩ := hwitness _ _ hrest
  have hat₀ : r₀.versionAt .account copy.accountId n = some copy :=
    htold₀ rest' (hrest'.trans (List.suffix_cons _ _)) _ _ _ _ hseen
  have hn : n = version := hv.stamp_inj (Repository.versionAt_mono hgrows hat₀)
    (hrewrites.over htold hv) rfl
  have hlen₀ : (r₀.versions .account copy.accountId).length = n :=
    le_antisymm (hn ▸ hlen ▸ (hgrows .account copy.accountId).length_le)
      (Repository.le_length_of_versionAt hat₀)
  have hlast := Repository.getLast?_of_current
    (Repository.current_eq_some_iff.mpr ⟨hat₀, hlen₀⟩)
  have howner := (hindexed.google _ _).mp ((subjectOf_of_last hlast).trans hhad)
  have hindex : r₀.current .accountGoogle subject = index := hcurrent
  rw [ownerOf, Repository.latest, Option.join_eq_some_iff] at howner
  rw [← hindex, Repository.current, howner]
  exact ⟨_, rfl⟩

theorem indexed_of_unlink (h : Indexed r) (htold : Told r past)
    (hwitness : Witnessed Indexed r past) (hrewrites : Rewrites past copy written version)
    (hhad : copy.googleSubject = some subject) {index : Option (Option String × Nat)}
    (hread : ReadAfter past copy subject index) (hcut : written.googleSubject = none)
    (hcommit : r.commit (releaseGoogle copy.accountId subject index ++
      [.replace .account written.accountId written version]) = .ok r') : Indexed r' := by
  obtain ⟨r₁, hfirst, hsecond⟩ := Repository.commit_append.mp hcommit
  have hkept : ∀ i, r₁.versions .account i = r.versions .account i := fun i => by
    refine Repository.commit_versions_of_ne hfirst fun w hw => ?_
    unfold releaseGoogle at hw
    split at hw
    · split at hw
      · rw [List.mem_singleton.mp hw]
        exact fun h => by cases h
      · cases hw
    · cases hw
  obtain ⟨hlast, rfl⟩ := hrewrites.apply htold h.versioned hkept
    (Repository.commit_singleton.mp hsecond)
  have hlen : (r.versions .account copy.accountId).length = version := by
    have happ := Repository.apply_replace (Repository.commit_singleton.mp hsecond)
    rw [← hkept, ← hrewrites.keys.1]
    exact happ.1
  obtain ⟨n, rfl⟩ := points_of_read h.versioned htold hwitness hrewrites hlen hhad hread
  rw [releaseGoogle, if_pos rfl] at hfirst
  obtain ⟨-, rfl⟩ := Repository.apply_replace (Repository.commit_singleton.mp hfirst)
  have hsubjectOf : subjectOf r copy.accountId = some subject := by
    rw [hkept, hrewrites.keys.1] at hlast
    exact (subjectOf_of_last hlast).trans hhad
  refine ⟨?_, (h.versioned.append_google _).append_account hlast hrewrites.keys.2.1
    hrewrites.keys.2.2 ⟨hrewrites.later, fun _ hs => ?_⟩⟩
  · rw [subjectOf_append, ownerOf_append_account, subjectOf_append_google, ownerOf_append, hcut,
      hrewrites.keys.1]
    exact h.google.part hsubjectOf
  · rw [hcut] at hs
    cases hs

/-- The index record of a key an account may have. -/
theorem commit_key {t : AccountType} {key : Option String} {v : t.Payload}
    (h : r.commit (key.toList.map fun i => .create t i v) = .ok r') :
    (∀ i, key = some i → r.versions t i = []) ∧
      (∀ i, r'.versions t i = if key = some i then [v] else r.versions t i) ∧
      ∀ t', t' ≠ t → ∀ i, r'.versions t' i = r.versions t' i := by
  cases key with
  | none =>
      obtain rfl := Except.ok.inj h
      exact ⟨fun _ h => (by cases h), fun _ => (if_neg (by simp)).symm, fun _ _ _ => rfl⟩
  | some k =>
      obtain ⟨hfresh, rfl⟩ := Repository.apply_create (Repository.commit_singleton.mp h)
      refine ⟨fun i hi => Option.some.inj hi ▸ hfresh, fun i => ?_, fun t' ht i =>
        Repository.versions_append_of_ne_type r t k v ht i⟩
      rw [Repository.versions_append]
      by_cases hi : i = k
      · subst hi
        rw [if_pos rfl, if_pos rfl, hfresh]
        rfl
      · rw [if_neg hi, if_neg fun hk => hi (Option.some.inj hk).symm]

/-- A new account and its index records. -/
structure Created (account : Account) (r r' : AccountRecords) : Prop where
  fresh : r.versions .account account.accountId = []
  emailFresh : ∀ email, account.email = some email → r.versions .accountEmail email = []
  mobileFresh : ∀ mobile, account.mobile = some mobile → r.versions .accountMobile mobile = []
  accounts : ∀ i, r'.versions .account i =
    if i = account.accountId then [account] else r.versions .account i
  emails : ∀ i, r'.versions .accountEmail i =
    if account.email = some i then [some account.accountId] else r.versions .accountEmail i
  mobiles : ∀ i, r'.versions .accountMobile i =
    if account.mobile = some i then [some account.accountId] else r.versions .accountMobile i
  googles : ∀ i, r'.versions .accountGoogle i = r.versions .accountGoogle i

theorem created_of_commit {account : Account}
    (hcommit : r.commit (createWrites account) = .ok r') : Created account r r' := by
  obtain ⟨r₂, hkeys, hlast⟩ := Repository.commit_append.mp hcommit
  obtain ⟨r₁, hemail, hmobile⟩ := Repository.commit_append.mp hkeys
  obtain ⟨hfreshE, hsetE, hotherE⟩ := commit_key (t := .accountEmail) hemail
  obtain ⟨hfreshM, hsetM, hotherM⟩ := commit_key (t := .accountMobile) hmobile
  obtain ⟨hfresh, rfl⟩ := Repository.apply_create (Repository.commit_singleton.mp hlast)
  have hkept : ∀ t, t ≠ .account → ∀ i, (r₂.append .account account.accountId account).versions
      t i = r₂.versions t i :=
    fun t ht i => Repository.versions_append_of_ne_type r₂ .account _ account ht i
  have haccount : ∀ i, r₂.versions .account i = r.versions .account i := fun i => by
    rw [hotherM .account (by decide), hotherE .account (by decide)]
  rw [haccount] at hfresh
  refine ⟨hfresh, hfreshE, fun m hm => ?_, fun i => ?_, fun i => ?_, fun i => ?_, fun i => ?_⟩
  · rw [← hotherE .accountMobile (by decide)]
    exact hfreshM m hm
  · rw [Repository.versions_append, haccount]
    split
    · next hi => rw [hi, hfresh, List.nil_append]
    · rfl
  · rw [hkept .accountEmail (by decide), hotherM .accountEmail (by decide)]
    exact hsetE i
  · rw [hkept .accountMobile (by decide), hsetM, hotherE .accountMobile (by decide)]
  · rw [hkept .accountGoogle (by decide), hotherM .accountGoogle (by decide),
      hotherE .accountGoogle (by decide)]

theorem Created.versioned {account : Account} (h : Created account r r') (hv : Versioned r) :
    Versioned r' := by
  refine ⟨fun i v hmem e he => ?_, fun i v hmem m hm => ?_, fun i => ?_, fun i => ?_⟩
  · rw [h.accounts] at hmem
    rw [h.emails]
    split at hmem
    · next hi =>
        rw [List.mem_singleton.mp hmem] at he
        rw [if_pos he, hi]
    · have hold := hv.email i v hmem e he
      split
      · next hnew => rw [h.emailFresh e hnew] at hold; cases hold
      · exact hold
  · rw [h.accounts] at hmem
    rw [h.mobiles]
    split at hmem
    · next hi =>
        rw [List.mem_singleton.mp hmem] at hm
        rw [if_pos hm, hi]
    · have hold := hv.mobile i v hmem m hm
      split
      · next hnew => rw [h.mobileFresh m hnew] at hold; cases hold
      · exact hold
  · rw [h.accounts]
    split
    · exact List.pairwise_singleton _ _
    · exact hv.stamps i
  · rw [h.accounts]
    split
    · exact List.isChain_singleton _
    · exact hv.follows i

theorem indexed_of_create {account : Account} (h : Indexed r)
    (hunlinked : account.googleSubject = none)
    (hcommit : r.commit (createWrites account) = .ok r') : Indexed r' := by
  have hcreated := created_of_commit hcommit
  have hsubject : subjectOf r' = subjectOf r := by
    funext i
    unfold subjectOf Repository.latest
    rw [hcreated.accounts]
    split
    · next hi =>
        rw [hi, hcreated.fresh]
        exact hunlinked
    · rfl
  have howner : ownerOf r' = ownerOf r := by
    funext i
    unfold ownerOf Repository.latest
    rw [hcreated.googles]
  exact ⟨by rw [hsubject, howner]; exact h.google, hcreated.versioned h.versioned⟩

/-- Every permitted transaction keeps the indexes. -/
theorem indexed_of_commit {ws : AccountWrites} (hpermitted : AccountCommit past ws)
    (htold : Told r past) (hwitness : Witnessed Indexed r past) (h : Indexed r)
    (hcommit : r.commit ws = .ok r') : Indexed r' := by
  cases hpermitted with
  | created unlinked => exact indexed_of_create h unlinked hcommit
  | updated rewrites same => exact indexed_of_update h htold rewrites same hcommit
  | bound rewrites may read claimed took =>
      exact indexed_of_bind h htold rewrites may read claimed took hcommit
  | unlinked rewrites had read cut =>
      exact indexed_of_unlink h htold hwitness rewrites had read cut hcommit

end Commits

/-! ## Every run -/

theorem indexed_empty : Indexed Repository.empty where
  google := fun _ _ => ⟨fun h => (by cases h), fun h => by cases h⟩
  versioned :=
    { email := fun _ _ h => absurd h List.not_mem_nil
      mobile := fun _ _ h => absurd h List.not_mem_nil
      stamps := fun _ => List.Pairwise.nil
      follows := fun _ => List.IsChain.nil }

theorem indexed_of_run {c : Config accountMachine} (hr : Run anyMove ⟨noAccounts, []⟩ c) :
    Indexed c.shared.records :=
  Service.witnessed_invariant (K := Indexed) accountTerms_kept
    (fun _ _ _ h => absurd h List.not_mem_nil)
    (fun hcom hwitness h hc => indexed_of_commit hcom.permitted hcom.told hwitness h hc)
    indexed_empty hr

/-- What the accounts and their Google index are to each other. -/
structure AccountsIndexed (r : AccountRecords) : Prop where
  google : ∀ accountId subject, subjectOf r accountId = some subject ↔
    ownerOf r subject = some accountId
  subjects : ∀ a b v w n m, r.current .account a = some (v, n) → r.current .account b = some (w, m) →
    ∀ subject, v.googleSubject = some subject → w.googleSubject = some subject → a = b
  emails : ∀ a b v w n m, r.current .account a = some (v, n) → r.current .account b = some (w, m) →
    ∀ email, v.email = some email → w.email = some email → a = b
  mobiles : ∀ a b v w n m, r.current .account a = some (v, n) → r.current .account b = some (w, m) →
    ∀ mobile, v.mobile = some mobile → w.mobile = some mobile → a = b
  never : ∀ accountId n u v, r.versionAt .account accountId n = some u →
    r.versionAt .account accountId (n + 1) = some v → u.googleLinkAllowed = false →
    v.googleSubject ≠ none → u.googleSubject = v.googleSubject

theorem mem_of_current {r : AccountRecords} {accountId : String} {v : Account} {n : Nat}
    (h : r.current .account accountId = some (v, n)) : v ∈ r.versions .account accountId :=
  Repository.mem_of_versionAt (Repository.current_eq_some_iff.mp h).1

/-- In every reachable state of any interleaving of the calls the Google index and the
accounts point to each other, no two accounts have one key, and no account gained a
Google identity it was not allowed to take. -/
theorem accounts_indexed {c : Config accountMachine} (hr : Run anyMove ⟨noAccounts, []⟩ c) :
    AccountsIndexed c.shared.records := by
  obtain ⟨hgoogle, hv⟩ := indexed_of_run hr
  refine ⟨hgoogle, ?_, ?_, ?_, ?_⟩
  · intro a b v w n m ha hb subject hva hwb
    have hsa := (hgoogle a subject).mp
      ((subjectOf_of_last (Repository.getLast?_of_current ha)).trans hva)
    have hsb := (hgoogle b subject).mp
      ((subjectOf_of_last (Repository.getLast?_of_current hb)).trans hwb)
    exact Option.some.inj (hsa.symm.trans hsb)
  · intro a b v w n m ha hb email hva hwb
    have hea := hv.email a v (mem_of_current ha) email hva
    have heb := hv.email b w (mem_of_current hb) email hwb
    exact Option.some.inj (List.cons.inj (hea.symm.trans heb)).1
  · intro a b v w n m ha hb mobile hva hwb
    have hma := hv.mobile a v (mem_of_current ha) mobile hva
    have hmb := hv.mobile b w (mem_of_current hb) mobile hwb
    exact Option.some.inj (List.cons.inj (hma.symm.trans hmb)).1
  · intro accountId n u v hu hnext hforbidden hsome
    cases n with
    | zero => cases hu
    | succ n =>
        obtain ⟨subject, hsubject⟩ := Option.ne_none_iff_exists'.mp hsome
        obtain ⟨hn, rfl⟩ := List.getElem?_eq_some_iff.mp hu
        obtain ⟨hm, rfl⟩ := List.getElem?_eq_some_iff.mp hnext
        have hfollows := List.isChain_iff_getElem.mp (hv.follows accountId) n hm
        rcases hfollows.gains subject hsubject with hhad | hallowed
        · exact hhad.trans hsubject.symm
        · rw [hforbidden] at hallowed
          cases hallowed

/-! ## A run -/

/-- An account with an e-mail. -/
def accountOf (accountId email : String) (h : accountId ≠ "") : Account :=
  { accountId, tenantId := "t-1", email := some email, createdAt := 0, updatedAt := 0
    named := h, found := .inl (Option.some_ne_none email) }

/-- A Google identity is linked to an account, cut off, and linked to another one. -/
def linkMoved : List (Move (M := accountMachine)) :=
  [.spawn (.create (accountOf "u-1" "a@example.com" (by decide)) rfl), .act 0 .done,
    .spawn (.create (accountOf "u-2" "b@example.com" (by decide)) rfl), .act 1 .done,
    .spawn (.bindGoogle "u-1" "g"), .act 2 .done, .act 2 .done, .act 2 .done,
    .act 2 (.clock 5), .act 2 .done,
    .spawn (.unlinkGoogle "u-1" fun _ => {}), .act 3 .done, .act 3 .done, .act 3 .done,
    .act 3 (.clock 5), .act 3 .done,
    .spawn (.bindGoogle "u-2" "g"), .act 4 .done, .act 4 .done, .act 4 .done,
    .act 4 (.clock 6), .act 4 .done]

set_option maxRecDepth 20000 in
theorem accounts_indexed_linkMoved : ∃ c : Config accountMachine,
    (subjectOf c.shared.records "u-1", subjectOf c.shared.records "u-2",
      ownerOf c.shared.records "g") = (none, some "g", some "u-2") ∧
      AccountsIndexed c.shared.records := by
  have h : (fires ⟨noAccounts, []⟩ linkMoved).map (fun c =>
      (subjectOf c.shared.records "u-1", subjectOf c.shared.records "u-2",
        ownerOf c.shared.records "g")) = some (none, some "g", some "u-2") := by decide
  obtain ⟨c, hc, hs⟩ := Option.map_eq_some_iff.mp h
  exact ⟨c, hs, accounts_indexed (Run.of_moves hc)⟩

end SeoAgent.Accounts
