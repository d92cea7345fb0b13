import Mathlib.Data.List.MinMax
import Mathlib.Data.List.Nodup
import SeoAgent.Accounts.Otp

/-!
# The limits of one-time codes

`OtpCommit` says what the requests write over what they read, `OtpPermits` that an
outside operation of the log follows the write of its version. From it the versions of a
number's record are a `History`: of two versions of one code the later one has no fewer
tries and the earlier one was not used up, different codes are at least `resendAfter`
apart, and a record has the moments of its last day.

## Main results

* `otpTerms_kept` — every request keeps the terms.
* `history_of_run` — the versions of every record.
* `otp_limits` — in every reachable state, whatever the interleaving: the tries of a
  code, its use, and the codes sent to a number.
-/

namespace SeoAgent.Accounts.Otp

open SeoAgent.Verified Machine
open Service (iface World Terms Ticket justWrote)

/-! ## Terms -/

section Terms
variable {hash : String → String → String}

abbrev seen (mobile : String) (past : OtpPast hash) : Option (OtpChallenge × Nat) :=
  Service.seen (B := otpBackend) .otpChallenge mobile past

/-- What a request read of a number's record; `none` with version 0 when there was none. -/
def Found (past : OtpPast hash) (mobile : String) (current : Option OtpChallenge)
    (version : Nat) : Prop :=
  (∃ challenge, current = some challenge ∧ seen mobile past = some (challenge, version)) ∨
    (current = none ∧ version = 0)

/-- What a request writes over what it read. -/
inductive OtpCommit (past : OtpPast hash) : OtpChallenge → Nat → Prop
  | sent {challenge : OtpChallenge} {current : Option OtpChallenge} {version : Nat} {at_ : Int}
      (found : Found past challenge.mobile current version)
      (moments : challenge.sent = recent at_ ((current.map OtpChallenge.sent).getD []) ++ [at_])
      (allowed : sendRefusal at_ (recent at_ ((current.map OtpChallenge.sent).getD [])) = none)
      (fresh : challenge.tries = 0 ∧ challenge.used = false) :
      OtpCommit past challenge version
  | tried {current : OtpChallenge} {version : Nat}
      (found : seen current.mobile past = some (current, version))
      (unused : current.used = false) (left : current.tries < triesPerCode) :
      OtpCommit past current.tried version
  | passed {current : OtpChallenge} {version : Nat} {consume : Bool} {at_ : Int}
      (found : seen current.mobile past = some (current.tried, version))
      (unused : current.used = false) :
      OtpCommit past (current.tried.passed consume at_) version

/-- The write a logged operation follows. -/
inductive OtpWrote : OtpPast hash → OtpEntry → Prop
  | codeSent {rest : OtpPast hash} {challenge : OtpChallenge} {current : Option OtpChallenge}
      {version : Nat} {at_ : Int} (found : Found rest challenge.mobile current version)
      (moments : challenge.sent = recent at_ ((current.map OtpChallenge.sent).getD []) ++ [at_])
      (allowed : sendRefusal at_ (recent at_ ((current.map OtpChallenge.sent).getD [])) = none)
      (fresh : challenge.tries = 0 ∧ challenge.used = false) :
      OtpWrote (⟨.commit [saveChallenge challenge version], .ok ()⟩ :: rest)
        (.codeSent challenge (version + 1))
  | compared {rest : OtpPast hash} {current : OtpChallenge} {version : Nat}
      (found : seen current.mobile rest = some (current, version))
      (unused : current.used = false) (left : current.tries < triesPerCode) :
      OtpWrote (⟨.commit [saveChallenge current.tried version], .ok ()⟩ :: rest)
        (.compared current.tried (version + 1))
  | accepted {rest : OtpPast hash} {current : OtpChallenge} {version : Nat} {consume : Bool}
      {at_ : Int} (found : seen current.mobile rest = some (current.tried, version))
      (unused : current.used = false) :
      OtpWrote (⟨.commit [saveChallenge (current.tried.passed consume at_) version], .ok ()⟩ :: rest)
        (.accepted consume (current.tried.passed consume at_) (version + 1))

/-- What a request may ask for. -/
def otpPermits (past : OtpPast hash) : Service.Op otpBackend (otpOutside hash) → Prop
  | .commit ws => ∃ challenge version, ws = [saveChallenge challenge version] ∧
      OtpCommit past challenge version
  | .ext x => ∀ e, x.entry = some e → OtpWrote past e
  | _ => True

/-- A challenge is stored under its number. -/
def otpValid (_ : OtpType) (i : String) (challenge : OtpChallenge) : Prop :=
  challenge.mobile = i

variable (hash) in
@[reducible] def otpTerms : Terms (otpProcesses hash) where
  Valid := otpValid
  permits := fun _ => otpPermits

variable (hash) in
/-- The contract of a request. -/
@[reducible] def otpContract : Prog.Contract (iface otpBackend (otpOutside hash)) where
  permits past o := otpPermits past o ∧ Service.writesValid otpValid o
  trusts := Service.readsValid otpValid

theorem passed_mobile (challenge : OtpChallenge) (consume : Bool) (at_ : Int) :
    (challenge.passed consume at_).mobile = challenge.mobile := by
  unfold OtpChallenge.passed
  split <;> rfl

theorem saveChallenge_carries (challenge : OtpChallenge) (version : Nat) :
    (saveChallenge challenge version).Carries otpValid := by
  unfold saveChallenge
  split
  · rfl
  · rfl

/-- What a request has saved is what it last saw. -/
theorem seen_saved {past : OtpPast hash} (challenge : OtpChallenge) (version : Nat) :
    seen challenge.mobile (⟨.commit [saveChallenge challenge version], .ok ()⟩ :: past) =
      some (challenge, version + 1) := by
  unfold saveChallenge
  by_cases h : version = 0
  · subst h
    simp [seen, Service.seen, Service.tells, Service.lastWrite, Service.writeTells]
  · rw [if_neg h]
    simp [seen, Service.seen, Service.tells, Service.lastWrite, Service.writeTells]

/-! ## The requests keep the terms -/

/-- A request whose outcome does not matter keeps the contract. -/
abbrev Keeps {α : Type} (p : OtpProc hash α) (past : OtpPast hash) : Prop :=
  Prog.wp (otpContract hash) (fun _ _ => True) p past

variable {past : OtpPast hash}

theorem readChallenge_bind {α : Type} {mobile : String}
    {f : Option OtpChallenge × Nat → OtpProc hash α}
    (hsome : ∀ challenge version, challenge.mobile = mobile → Keeps (f (some challenge, version))
      (⟨.find .otpChallenge mobile, .ok (some (challenge, version))⟩ :: past))
    (hnone : Keeps (f (none, 0)) (⟨.find .otpChallenge mobile, .ok none⟩ :: past)) :
    Keeps (readChallenge hash mobile >>= f) past := by
  unfold readChallenge
  rw [Keeps, Prog.wp_bind]
  refine Prog.wp_ask_bind ⟨trivial, trivial⟩ (fun found hfound => ?_) fun _ _ => trivial
  rw [Prog.wp_pure, Prog.after_ok]
  rcases found with _ | ⟨challenge, version⟩
  · exact hnone
  · exact hsome challenge version hfound

/-- A write that may be made, and what follows it. -/
theorem save_keeps {challenge : OtpChallenge} {version : Nat}
    {Q : OtpPast hash → Except OtpExc Unit → Prop} (h : OtpCommit past challenge version)
    (hok : Q (⟨.commit [saveChallenge challenge version], .ok ()⟩ :: past) (.ok ()))
    (herr : ∀ e, Q (⟨.commit [saveChallenge challenge version], .error e⟩ :: past) (.error e)) :
    Prog.wp (otpContract hash) Q (save hash challenge version) past := by
  refine Prog.wp_ask ⟨⟨challenge, version, rfl, h⟩, fun w hw => ?_⟩ fun r _ => ?_
  · rw [List.mem_singleton.mp hw]
    exact saveChallenge_carries challenge version
  · cases r with
    | ok _ => exact hok
    | error e => exact herr e

theorem saveUnlessConflict_bind {α : Type} {challenge : OtpChallenge} {version : Nat}
    {f : Bool → OtpProc hash α} (h : OtpCommit past challenge version)
    (hsaved : Keeps (f true) (⟨.commit [saveChallenge challenge version], .ok ()⟩ :: past))
    (hconflict : ∀ past', Keeps (f false) past') :
    Keeps (saveUnlessConflict hash challenge version >>= f) past := by
  unfold saveUnlessConflict
  rw [Keeps, Prog.wp_bind, Prog.wp_tryCatch, Prog.wp_bind]
  refine save_keeps h ?_ fun e => ?_
  · rw [Prog.after_ok, Prog.wp_pure, Prog.recovering_ok, Prog.after_ok]
    exact hsaved
  · rw [Prog.after_error, Prog.recovering_error]
    cases e with
    | persistenceConflictError =>
        rw [Prog.wp_pure, Prog.after_ok]
        exact hconflict _
    | _ => trivial

theorem unlogged_bind {α : Type} {x : OtpOp} {f : x.Res → OtpProc hash α}
    (hx : x.entry = none) (h : ∀ a, Keeps (f a) (⟨.ext x, .ok a⟩ :: past)) :
    Keeps (otpExt hash x >>= f) past :=
  Prog.wp_ask_bind ⟨fun _ he => (by rw [hx] at he; cases he), trivial⟩
    (fun a _ => h a) fun _ _ => trivial

/-- An operation of the log, after the write of its version. -/
theorem logged_keeps {x : OtpOp} {e : OtpEntry} {Q : OtpPast hash → Except OtpExc x.Res → Prop}
    (hx : x.entry = some e) (h : OtpWrote past e) (hQ : ∀ r, Q (⟨.ext x, r⟩ :: past) r) :
    Prog.wp (otpContract hash) Q (otpExt hash x) past :=
  Prog.wp_ask ⟨fun e' he => (by rw [hx] at he; exact Option.some.inj he ▸ h), trivial⟩
    fun r _ => hQ r

theorem saveAndSend_keeps {challenge : OtpChallenge} {current : Option OtpChallenge}
    {version : Nat} {code : Fin 1000000} {at_ : Int}
    (found : Found past challenge.mobile current version)
    (moments : challenge.sent = recent at_ ((current.map OtpChallenge.sent).getD []) ++ [at_])
    (allowed : sendRefusal at_ (recent at_ ((current.map OtpChallenge.sent).getD [])) = none)
    (fresh : challenge.tries = 0 ∧ challenge.used = false) :
    Keeps (saveAndSend hash challenge version code) past := by
  unfold saveAndSend
  rw [Keeps, Prog.wp_bind, Prog.wp_tryCatch]
  refine save_keeps (.sent found moments allowed fresh) ?_ fun e => ?_
  · rw [Prog.recovering_ok, Prog.after_ok, Prog.wp_tryCatch]
    refine logged_keeps rfl (.codeSent found moments allowed fresh) fun r => ?_
    cases r with
    | ok _ => trivial
    | error e =>
        rw [Prog.recovering_error]
        cases e <;> trivial
  · rw [Prog.recovering_error]
    cases e <;> trivial

theorem send_keeps (mobile address : String) : Keeps (send hash mobile address) past := by
  unfold send
  refine Prog.wp_ask_bind ⟨trivial, trivial⟩ (fun at_ _ => ?_) fun _ _ => trivial
  -- The code is sent over what was read, whatever the limiters answered between.
  have hallowed : ∀ (current : Option OtpChallenge) (version : Nat) (past' : OtpPast hash),
      (∀ x y z, Found (⟨.ext .draw, x⟩ :: ⟨.ext (.attempt .all "all"), y⟩ ::
        ⟨.ext (.attempt .perAddress address), z⟩ :: past') mobile current version) →
      sendRefusal at_ (recent at_ ((current.map OtpChallenge.sent).getD [])) = none →
      Keeps (do
        if !(← otpExt hash (.attempt .perAddress address)) then
          throw (.otpError "Too many codes requested. Try again later.")
        else if !(← otpExt hash (.attempt .all "all")) then
          throw (.otpError "Too many codes requested. Try again later.")
        else do
          let drawn ← otpExt hash .draw
          saveAndSend hash (newChallenge hash mobile at_
            (recent at_ ((current.map OtpChallenge.sent).getD [])) drawn.1 drawn.2)
            version drawn.1) past' := by
    intro current version past' hfound hallowed
    refine unlogged_bind rfl fun yes => ?_
    cases yes with
    | false => trivial
    | true =>
        refine unlogged_bind rfl fun yes => ?_
        cases yes with
        | false => trivial
        | true =>
            refine unlogged_bind rfl fun drawn => ?_
            exact saveAndSend_keeps (hfound _ _ _) rfl hallowed ⟨rfl, rfl⟩
  refine readChallenge_bind (fun challenge version _ => ?_) ?_
  · dsimp only
    split
    · trivial
    · next hnone =>
        refine hallowed (some challenge) version _ (fun _ _ _ => .inl ⟨challenge, rfl, ?_⟩) hnone
        simp only [seen, Service.seen_ext]
        exact Service.seen_find (B := otpBackend) (X := otpOutside hash) _
  · dsimp only
    split
    · trivial
    · next hnone => exact hallowed none 0 _ (fun _ _ _ => .inr ⟨rfl, rfl⟩) hnone

theorem tryCode_keeps {code : String} {consume : Bool} {at_ : Int} {current : OtpChallenge}
    {version : Nat} (found : seen current.mobile past = some (current, version))
    (unused : current.used = false) (left : current.tries < triesPerCode) :
    Keeps (tryCode hash code consume at_ current version) past := by
  have hcounted : seen current.tried.mobile
      (⟨.commit [saveChallenge current.tried version], .ok ()⟩ :: past) =
        some (current.tried, version + 1) := seen_saved _ _
  unfold tryCode
  refine saveUnlessConflict_bind (.tried found unused left) ?_ fun _ => trivial
  refine (Prog.wp_bind _ _).mpr (logged_keeps rfl (.compared found unused left) fun r => ?_)
  cases r with
  | error e => trivial
  | ok same =>
      cases same with
      | false => trivial
      | true =>
          have hseen : seen current.tried.mobile
              (⟨.ext (.compareDigest (givenDigits code) current.tried (version + 1)), .ok true⟩ ::
                ⟨.commit [saveChallenge current.tried version], .ok ()⟩ :: past) =
              some (current.tried, version + 1) := by
            simpa only [seen, Service.seen_ext] using hcounted
          refine saveUnlessConflict_bind (.passed hseen unused) ?_ fun _ => trivial
          exact logged_keeps rfl (.accepted hseen unused) fun _ => trivial

theorem check_keeps (mobile code address : String) (consume : Bool) :
    Keeps (check hash mobile code address consume) past := by
  unfold check
  refine unlogged_bind rfl fun yes => ?_
  cases yes with
  | false => trivial
  | true =>
      refine readChallenge_bind (fun challenge version hmobile => ?_) ?_
      · refine Prog.wp_ask_bind ⟨trivial, trivial⟩ (fun at_ _ => ?_) fun _ _ => trivial
        dsimp only
        split
        · next hopen =>
            simp only [OtpChallenge.stillOpen, Bool.and_eq_true, Bool.not_eq_true',
              decide_eq_true_eq] at hopen
            refine tryCode_keeps ?_ hopen.1.1 hopen.2
            simp only [seen, hmobile, Service.seen_now]
            exact Service.seen_find (B := otpBackend) (X := otpOutside hash) _
        · trivial
      · exact Prog.wp_ask_bind ⟨trivial, trivial⟩ (fun _ _ => trivial) fun _ _ => trivial

variable (hash) in
/-- Every request keeps the terms. -/
theorem otpTerms_kept : (otpTerms hash).Kept := by
  intro k
  cases k with
  | send mobile address => exact send_keeps mobile address
  | check mobile code address consume => exact check_keeps mobile code address consume

end Terms

/-! ## The versions of a record -/

section History
variable {u v x : OtpChallenge} {at_ : Int}

/-- What the version after another one is. -/
inductive Next (u v : OtpChallenge) : Prop
  | sent {at_ : Int} (moments : v.sent = recent at_ u.sent ++ [at_])
      (allowed : sendRefusal at_ (recent at_ u.sent) = none)
      (fresh : v.tries = 0 ∧ v.used = false)
  | tried (after : v = u.tried) (unused : u.used = false) (left : u.tries < triesPerCode)
  | passed {consume : Bool} {at_ : Int} (after : v = u.passed consume at_)
      (tried : 1 ≤ u.tries) (unused : u.used = false)

/-- What each version is. -/
structure Limited (v : OtpChallenge) : Prop where
  sent : v.sent ≠ []
  few : v.sent.length ≤ codesPerDay
  tries : v.tries ≤ triesPerCode

/-- What an earlier version is to a later one. -/
structure Earlier (u v : OtpChallenge) : Prop where
  code : u.sentAt + resendAfter ≤ v.sentAt ∨
    (u.sentAt = v.sentAt ∧ u.tries ≤ v.tries ∧ 1 ≤ v.tries ∧ u.used = false)
  day : v.sentAt - u.sentAt < oneDay → u.sentAt ∈ v.sent

/-- The versions of a number's record. -/
structure History (vs : List OtpChallenge) : Prop where
  limited : ∀ v ∈ vs, Limited v
  ordered : vs.Pairwise Earlier

theorem sentAt_of_sent {sent : List Int} (h : v.sent = sent ++ [at_]) : v.sentAt = at_ := by
  rw [OtpChallenge.sentAt, h, List.getLastD_concat]

theorem sentAt_mem (h : v.sent ≠ []) : v.sentAt ∈ v.sent := by
  unfold OtpChallenge.sentAt
  rw [List.getLastD_eq_getLast?, List.getLast?_eq_getLast_of_ne_nil h, Option.getD_some]
  exact List.getLast_mem h

theorem sendRefusal_none {sent : List Int} (h : sendRefusal at_ sent = none) :
    sent.length < codesPerDay ∧ ∀ last, sent.getLast? = some last → last + resendAfter ≤ at_ := by
  unfold sendRefusal at h
  cases hlast : sent.getLast? with
  | none =>
      rw [List.getLast?_eq_none_iff.mp hlast]
      exact ⟨by decide, fun _ h => by cases h⟩
  | some last =>
      rw [hlast] at h
      dsimp only at h
      split at h
      · cases h
      · next hlate =>
          split at h
          · cases h
          · next hfew =>
              refine ⟨not_le.mp hfew, fun l hl => ?_⟩
              obtain rfl := Option.some.inj hl
              omega

/-- A new code comes long enough after the last one. -/
theorem sent_apart (hsent : u.sent ≠ [])
    (h : sendRefusal at_ (recent at_ u.sent) = none) : u.sentAt + resendAfter ≤ at_ := by
  obtain ⟨front, last, hsplit⟩ := (List.eq_nil_or_concat' u.sent).resolve_left hsent
  have hlast : u.sentAt = last := sentAt_of_sent hsplit
  by_cases hday : at_ - last < oneDay
  · have hfilter : recent at_ u.sent = recent at_ front ++ [last] := by
      rw [hsplit, recent, List.filter_append]
      simp [recent, hday]
    rw [hlast]
    exact (sendRefusal_none h).2 last (by rw [hfilter, List.getLast?_concat])
  · have : resendAfter ≤ oneDay := by decide
    omega

theorem passed_eq (u : OtpChallenge) (consume : Bool) (at_ : Int) :
    (u.passed consume at_).sent = u.sent ∧ (u.passed consume at_).tries = u.tries := by
  unfold OtpChallenge.passed
  split <;> exact ⟨rfl, rfl⟩

/-- A version of the same code. -/
theorem earlier_of_same (hcode : u.sent = v.sent) (htries : u.tries ≤ v.tries)
    (h : Earlier x u) : Earlier x v := by
  have hat : u.sentAt = v.sentAt := by rw [OtpChallenge.sentAt, OtpChallenge.sentAt, hcode]
  refine ⟨?_, fun hday => hcode ▸ h.day (hat ▸ hday)⟩
  rcases h.code with hapart | ⟨hsame, hle, hone, hunused⟩
  · exact .inl (hat ▸ hapart)
  · exact .inr ⟨hsame.trans hat, hle.trans htries, hone.trans htries, hunused⟩

theorem Earlier.sentAt_le (h : Earlier u v) : u.sentAt ≤ v.sentAt := by
  rcases h.code with hapart | ⟨hsame, -⟩
  · have : 0 ≤ resendAfter := by decide
    omega
  · exact hsame.le

/-- The next version of a code not used up, over the versions before. -/
theorem same_next (hu : Limited u) (hcode : u.sent = v.sent) (hlow : u.tries ≤ v.tries)
    (hone : 1 ≤ v.tries) (hhigh : v.tries ≤ triesPerCode) (hunused : u.used = false) :
    Limited v ∧ Earlier u v ∧ ∀ x, Earlier x u → Earlier x v := by
  have hat : u.sentAt = v.sentAt := by rw [OtpChallenge.sentAt, OtpChallenge.sentAt, hcode]
  refine ⟨⟨hcode ▸ hu.sent, hcode ▸ hu.few, hhigh⟩, ⟨.inr ⟨hat, hlow, hone, hunused⟩, fun _ => ?_⟩,
    fun x => earlier_of_same hcode hlow⟩
  rw [← hcode]
  exact sentAt_mem hu.sent

/-- The next version, over the versions before. -/
theorem Next.step (h : Next u v) (hu : Limited u) :
    Limited v ∧ Earlier u v ∧ ∀ x, Earlier x u → Earlier x v := by
  cases h with
  | @sent at_ moments allowed fresh =>
      have hat : v.sentAt = at_ := sentAt_of_sent moments
      have hapart := sent_apart hu.sent allowed
      have hfew := (sendRefusal_none allowed).1
      -- What is less than a day before the new code is kept, if the record had it.
      have hkeep : ∀ m ∈ u.sent, v.sentAt - m < oneDay → m ∈ v.sent := by
        intro m hm hday
        rw [hat] at hday
        rw [moments]
        exact List.mem_append_left _ (List.mem_filter.mpr ⟨hm, decide_eq_true hday⟩)
      refine ⟨⟨?_, ?_, ?_⟩, ⟨.inl (hat ▸ hapart), hkeep _ (sentAt_mem hu.sent)⟩, fun x hx => ?_⟩
      · rw [moments]
        exact List.append_ne_nil_of_right_ne_nil _ (List.cons_ne_nil _ _)
      · rw [moments, List.length_append, List.length_singleton]
        omega
      · rw [fresh.1]
        exact Nat.zero_le _
      · have hle := hx.sentAt_le
        have : 0 ≤ resendAfter := by decide
        refine ⟨.inl (by omega), fun hday => hkeep _ (hx.day (by omega)) hday⟩
  | tried after unused left =>
      subst after
      exact same_next hu rfl (Nat.le_succ _) (Nat.succ_pos _) left unused
  | @passed consume at_ after tried unused =>
      subst after
      obtain ⟨hsent, htries⟩ := passed_eq u consume at_
      exact same_next hu hsent.symm htries.ge (htries ▸ tried) (htries ▸ hu.tries) unused

/-- One more version. -/
theorem History.append {vs : List OtpChallenge} (h : History vs)
    (hlast : vs.getLast? = some u) (hnext : Next u v) : History (vs ++ [v]) := by
  obtain ⟨front, rfl⟩ := List.getLast?_eq_some_iff.mp hlast
  obtain ⟨hv, huv, hbefore⟩ := hnext.step (h.limited u (by simp))
  refine ⟨fun x hx => ?_, ?_⟩
  · rcases List.mem_append.mp hx with hx | hx
    · exact h.limited x hx
    · exact List.mem_singleton.mp hx ▸ hv
  · refine List.pairwise_append.mpr ⟨h.ordered, List.pairwise_singleton _ _, fun x hx y hy => ?_⟩
    rw [List.mem_singleton.mp hy]
    rcases List.mem_append.mp hx with hx | hx
    · refine hbefore x ?_
      exact (List.pairwise_append.mp h.ordered).2.2 x hx u (List.mem_singleton_self u)
    · exact List.mem_singleton.mp hx ▸ huv

end History

/-! ## Every run -/

section Runs
variable {hash : String → String → String} {c : Config (otpMachine hash)}

theorem otpValid_empty :
    Service.AllValid (B := otpBackend) otpValid Repository.empty :=
  fun _ _ _ h => absurd h List.not_mem_nil

theorem saveChallenge_create {challenge challenge' : OtpChallenge} {version : Nat} {i : String}
    (h : .create .otpChallenge i challenge' = saveChallenge challenge version) :
    challenge' = challenge ∧ i = challenge.mobile ∧ version = 0 := by
  unfold saveChallenge at h
  split at h
  · next hzero =>
      cases h
      exact ⟨rfl, rfl, hzero⟩
  · cases h

theorem saveChallenge_replace {challenge challenge' : OtpChallenge} {version n : Nat}
    {i : String} (h : .replace .otpChallenge i challenge' n = saveChallenge challenge version) :
    challenge' = challenge ∧ i = challenge.mobile ∧ n = version ∧ version ≠ 0 := by
  unfold saveChallenge at h
  split at h
  · cases h
  · next hpos =>
      cases h
      exact ⟨rfl, rfl, rfl, hpos⟩

/-- What is written over a version that was read, is a next version. -/
theorem OtpCommit.next {past : OtpPast hash} {challenge : OtpChallenge} {version : Nat}
    (h : OtpCommit past challenge version) (hversion : version ≠ 0) :
    ∃ u, seen challenge.mobile past = some (u, version) ∧ Next u challenge := by
  cases h with
  | sent found moments allowed fresh =>
      rcases found with ⟨u, rfl, hseen⟩ | ⟨-, hzero⟩
      · exact ⟨u, hseen, .sent moments allowed fresh⟩
      · exact absurd hzero hversion
  | tried found unused left => exact ⟨_, found, .tried rfl unused left⟩
  | passed found unused =>
      rw [passed_mobile]
      exact ⟨_, found, .passed rfl (Nat.succ_pos _) unused⟩

/-- What is written where nothing was read, is a first version. -/
theorem OtpCommit.first {past : OtpPast hash} {challenge : OtpChallenge}
    (h : OtpCommit past challenge 0)
    (hread : ∀ mobile u, seen mobile past ≠ some (u, 0)) : History [challenge] := by
  cases h with
  | sent found moments allowed fresh =>
      rcases found with ⟨u, -, hseen⟩ | ⟨rfl, -⟩
      · exact absurd hseen (hread _ u)
      · refine ⟨fun v hv => ?_, List.pairwise_singleton _ _⟩
        rw [List.mem_singleton.mp hv]
        have hsent : challenge.sent = [_] := moments
        refine ⟨?_, ?_, ?_⟩
        · rw [hsent]
          exact List.cons_ne_nil _ _
        · rw [hsent]
          exact (by decide : 1 ≤ codesPerDay)
        · rw [fresh.1]
          exact Nat.zero_le _
  | tried found unused left => exact absurd found (hread _ _)
  | passed found unused => exact absurd found (hread _ _)

/-- In every reachable state the versions of every number's record are a history. -/
theorem history_of_run (hr : Run anyMove ⟨noCodes hash, []⟩ c) (mobile : String) :
    History (c.shared.records.versions .otpChallenge mobile) := by
  have hrule : Service.RecordRule (otpTerms hash) anyMove (noCodes hash) .otpChallenge
      (fun _ vs => History vs) := by
    constructor
    · intro c ch k past ws i v hcom hmem
      obtain ⟨challenge, version, rfl, hcommit⟩ := hcom.permitted
      have hwrite : .create .otpChallenge i v = saveChallenge challenge version := by
        rcases hmem with hmem | hmem
        · exact List.mem_singleton.mp hmem
        · have hensure := List.mem_singleton.mp hmem
          unfold saveChallenge at hensure
          split at hensure <;> cases hensure
      obtain ⟨rfl, -, rfl⟩ := saveChallenge_create hwrite
      refine hcommit.first fun mobile u hseen => ?_
      cases hcom.told.seen hseen
    · intro c ch k past ws i v vs hcom hmem hne hprefix hhistory
      obtain ⟨challenge, version, rfl, hcommit⟩ := hcom.permitted
      obtain ⟨rfl, rfl, rfl, hpos⟩ := saveChallenge_replace (List.mem_singleton.mp hmem)
      obtain ⟨u, hseen, hnext⟩ := hcommit.next hpos
      have hat := hcom.told.seen hseen
      refine hhistory.append ?_ hnext
      obtain ⟨n, hn⟩ := Nat.exists_eq_succ_of_ne_zero hpos
      rw [hn] at hat
      rw [List.getLast?_eq_getElem?, hn, Nat.succ_sub_one]
      obtain ⟨hlt, hget⟩ := List.getElem?_eq_some_iff.mp hat
      exact (List.prefix_iff_getElem?.mp hprefix n hlt).trans (congrArg some hget)
  exact Service.record_invariant (otpTerms_kept hash) otpValid_empty hrule
    (fun _ => ⟨fun _ h => absurd h List.not_mem_nil, List.Pairwise.nil⟩) hr mobile

/-! ## The log -/

/-- The version an entry follows. -/
def OtpEntry.ticket (e : OtpEntry) : Ticket otpBackend :=
  (.otpChallenge, e.challenge.mobile, e.version)

theorem justWrote_save {rest : OtpPast hash} (challenge : OtpChallenge) (version : Nat) :
    justWrote (⟨.commit [saveChallenge challenge version], .ok ()⟩ :: rest) =
      some (.otpChallenge, challenge.mobile, version + 1) := by
  unfold saveChallenge
  by_cases h : version = 0
  · subst h
    rfl
  · rw [if_neg h]
    rfl

theorem entries_ticketed :
    Service.Ticketed (otpTerms hash) (otpLog hash) OtpEntry.ticket := by
  intro k past x e hpermits hentry
  cases hpermits e hentry with
  | codeSent found moments allowed fresh => exact justWrote_save _ _
  | compared found unused left => exact justWrote_save _ _
  | accepted found unused => exact justWrote_save _ _

/-- What is stored of an entry. -/
structure Backed (r : Repository OtpType fun _ => OtpChallenge) (e : OtpEntry) : Prop where
  stored : r.versionAt .otpChallenge e.challenge.mobile e.version = some e.challenge
  codeSent : ∀ challenge version, e = .codeSent challenge version → challenge.tries = 0
  compared : ∀ challenge version, e = .compared challenge version → ∃ u,
    r.versionAt .otpChallenge challenge.mobile (version - 1) = some u ∧ challenge = u.tried
  accepted : ∀ consume challenge version, e = .accepted consume challenge version →
    challenge.used = consume

theorem passed_used {challenge : OtpChallenge} (h : challenge.used = false) (consume : Bool)
    (at_ : Int) : (challenge.passed consume at_).used = consume := by
  unfold OtpChallenge.passed
  cases consume with
  | true => rfl
  | false => exact h

theorem told_saved {r : Repository OtpType fun _ => OtpChallenge} {rest : OtpPast hash}
    {challenge : OtpChallenge} {version : Nat}
    (htold : Service.Told (B := otpBackend) (X := otpOutside hash) r
      (⟨.commit [saveChallenge challenge version], .ok ()⟩ :: rest)) :
    r.versionAt .otpChallenge challenge.mobile (version + 1) = some challenge :=
  htold.seen (seen_saved challenge version)

theorem backed_of_wrote {r : Repository OtpType fun _ => OtpChallenge} {past : OtpPast hash}
    {e : OtpEntry} (htold : Service.Told (B := otpBackend) (X := otpOutside hash) r past)
    (h : OtpWrote past e) : Backed r e := by
  cases h with
  | codeSent found moments allowed fresh =>
      refine ⟨told_saved htold, fun _ _ h => ?_, fun _ _ h => (by cases h), fun _ _ _ h => by cases h⟩
      cases h
      exact fresh.1
  | compared found unused left =>
      refine ⟨told_saved htold, fun _ _ h => (by cases h), fun _ _ h => ?_, fun _ _ _ h => by cases h⟩
      cases h
      exact ⟨_, htold.tail.seen found, rfl⟩
  | @accepted rest current version consume at_ found unused =>
      refine ⟨told_saved htold, fun _ _ h => (by cases h), fun _ _ h => (by cases h),
        fun _ _ _ h => ?_⟩
      cases h
      have hunused : current.tried.used = false := unused
      exact passed_used hunused _ _

theorem Backed.mono {r s : Repository OtpType fun _ => OtpChallenge} {e : OtpEntry}
    (hg : r.Grows s) (h : Backed r e) : Backed s e :=
  ⟨Repository.versionAt_mono hg h.stored, h.codeSent,
    fun challenge version he => by
      obtain ⟨u, hu, htried⟩ := h.compared challenge version he
      exact ⟨u, Repository.versionAt_mono hg hu, htried⟩, h.accepted⟩

theorem backed_of_run (hr : Run anyMove ⟨noCodes hash, []⟩ c) :
    ∀ e ∈ c.shared.outside, Backed c.shared.records e :=
  Service.entries_backed (otpLog hash) (F := Backed) (otpTerms_kept hash) otpValid_empty
    Backed.mono (fun htold hpermits hentry => backed_of_wrote htold (hpermits _ hentry)) rfl hr

theorem tickets_of_run (hr : Run anyMove ⟨noCodes hash, []⟩ c) :
    (c.shared.outside.map OtpEntry.ticket).Nodup :=
  Service.tickets_nodup (otpLog hash) (otpTerms_kept hash) otpValid_empty entries_ticketed rfl hr

/-! ## What is claimed -/

/-- The guesses compared against the code sent to a number at some moment. -/
def comparisons (log : List OtpEntry) (mobile : String) (moment : Int) : List OtpEntry :=
  log.filter fun
    | .compared challenge _ => challenge.mobile = mobile && challenge.sentAt = moment
    | _ => false

/-- The checks of that code that succeeded, by the version each was decided with. -/
def acceptances (log : List OtpEntry) (mobile : String) (moment : Int) : List (Bool × Nat) :=
  log.filterMap fun
    | .accepted consume challenge version =>
        if challenge.mobile = mobile ∧ challenge.sentAt = moment then some (consume, version)
        else none
    | _ => none

/-- When codes were sent to a number. -/
def moments (log : List OtpEntry) (mobile : String) : List Int :=
  log.filterMap fun
    | .codeSent challenge _ =>
        if challenge.mobile = mobile then some challenge.sentAt else none
    | _ => none

/-- The limits of the codes of one number. A check is decided by its last write; what
succeeds after another check has a later version. -/
structure OtpLimits (log : List OtpEntry) (mobile : String) : Prop where
  tries : ∀ moment, (comparisons log mobile moment).length ≤ triesPerCode
  once : ∀ moment, ((acceptances log mobile moment).filter Prod.fst).length ≤ 1
  last : ∀ moment version, (true, version) ∈ acceptances log mobile moment →
    ∀ other ∈ acceptances log mobile moment, other.2 ≤ version
  perDay : ∀ start, ((moments log mobile).filter fun moment =>
    start ≤ moment ∧ moment < start + oneDay).length ≤ codesPerDay
  apart : (moments log mobile).Pairwise fun a b => a + resendAfter ≤ b ∨ b + resendAfter ≤ a

/-! ## The limits, from the versions and the log -/

/-- A repository and a log that a run leaves. -/
structure Logged (r : Repository OtpType fun _ => OtpChallenge) (log : List OtpEntry) :
    Prop where
  history : ∀ mobile, History (r.versions .otpChallenge mobile)
  backed : ∀ e ∈ log, Backed r e
  tickets : (log.map OtpEntry.ticket).Nodup

variable {r : Repository OtpType fun _ => OtpChallenge} {log : List OtpEntry}
  {mobile : String} {u v : OtpChallenge} {n m : Nat}

theorem Logged.earlier (h : Logged r log) (hu : r.versionAt .otpChallenge mobile n = some u)
    (hv : r.versionAt .otpChallenge mobile m = some v) (hlt : n < m) : Earlier u v := by
  cases n with
  | zero => cases hu
  | succ n =>
      cases m with
      | zero => cases hv
      | succ m =>
          obtain ⟨hn, rfl⟩ := List.getElem?_eq_some_iff.mp hu
          obtain ⟨hm, rfl⟩ := List.getElem?_eq_some_iff.mp hv
          exact List.pairwise_iff_getElem.mp (h.history mobile).ordered n m hn hm (by omega)

theorem Logged.limited (h : Logged r log) (hv : r.versionAt .otpChallenge mobile n = some v) :
    Limited v :=
  (h.history mobile).limited v (Repository.mem_of_versionAt hv)

/-- Entries of one number about different versions. -/
theorem Logged.versions_ne (h : Logged r log) :
    log.Pairwise fun e e' => e ∈ log ∧ e' ∈ log ∧
      (e.challenge.mobile = e'.challenge.mobile → e.version ≠ e'.version) := by
  have hne : log.Pairwise fun e e' => e.ticket ≠ e'.ticket :=
    List.pairwise_map.mp h.tickets
  refine hne.imp_of_mem fun {e e'} he he' hticket => ⟨he, he', fun hmobile hversion => ?_⟩
  exact hticket (by rw [OtpEntry.ticket, OtpEntry.ticket, hmobile, hversion])

theorem apart_irrefl {a b : Int} (h : a + resendAfter ≤ b) (hle : b ≤ a) : False := by
  have : 0 < resendAfter := by decide
  omega

/-- An earlier version of the same code. -/
theorem Earlier.same (h : Earlier u v) (hcode : u.sentAt = v.sentAt) :
    u.tries ≤ v.tries ∧ 1 ≤ v.tries ∧ u.used = false := by
  rcases h.code with hapart | ⟨-, hsame⟩
  · exact (apart_irrefl hapart hcode.ge).elim
  · exact hsame

theorem mem_comparisons {moment : Int} {e : OtpEntry} (h : e ∈ comparisons log mobile moment) :
    e ∈ log ∧ e.challenge.mobile = mobile ∧ e.challenge.sentAt = moment ∧
      e = .compared e.challenge e.version := by
  obtain ⟨hmem, hf⟩ := List.mem_filter.mp h
  cases e with
  | compared challenge version =>
      simp only [Bool.and_eq_true, decide_eq_true_eq] at hf
      exact ⟨hmem, hf.1, hf.2, rfl⟩
  | codeSent challenge version => cases hf
  | accepted consume challenge version => cases hf

/-- A later comparison of one code has counted more tries. -/
theorem Logged.tries_lt (h : Logged r log) {moment : Int} {e e' : OtpEntry}
    (he : e ∈ comparisons log mobile moment) (he' : e' ∈ comparisons log mobile moment)
    (hlt : e.version < e'.version) : e.challenge.tries < e'.challenge.tries := by
  obtain ⟨hmem, hmobile, hmoment, hkind⟩ := mem_comparisons he
  obtain ⟨hmem', hmobile', hmoment', hkind'⟩ := mem_comparisons he'
  have hstored := (h.backed e hmem).stored
  obtain ⟨u, hu, htried⟩ := (h.backed e' hmem').compared _ _ hkind'
  rw [hmobile] at hstored
  rw [hmobile'] at hu
  have hcode : e.challenge.sentAt = u.sentAt := by
    rw [hmoment, ← hmoment', htried]
    rfl
  have hle : e.challenge.tries ≤ u.tries := by
    rcases Nat.lt_or_ge e.version (e'.version - 1) with hbefore | hat
    · exact ((h.earlier hstored hu hbefore).same hcode).1
    · have hsame : e.version = e'.version - 1 := by omega
      rw [hsame, hu] at hstored
      rw [Option.some.inj hstored]
  rw [htried]
  exact Nat.lt_succ_of_le hle

theorem Logged.comparisons_le (h : Logged r log) (moment : Int) :
    (comparisons log mobile moment).length ≤ triesPerCode := by
  have hlog : log.Nodup := h.tickets.of_map
  have hnodup : ((comparisons log mobile moment).map fun e => e.challenge.tries).Nodup := by
    refine List.Nodup.map_on (fun e he e' he' htries => ?_) (hlog.filter _)
    obtain ⟨hmem, hmobile, -, -⟩ := mem_comparisons he
    obtain ⟨hmem', hmobile', -, -⟩ := mem_comparisons he'
    rcases Nat.lt_trichotomy e.version e'.version with hlt | heq | hlt
    · exact absurd htries (h.tries_lt he he' hlt).ne
    · refine List.inj_on_of_nodup_map h.tickets hmem hmem' ?_
      rw [OtpEntry.ticket, OtpEntry.ticket, hmobile, hmobile', heq]
    · exact absurd htries (h.tries_lt he' he hlt).ne'
  have hsub : ((comparisons log mobile moment).map fun e => e.challenge.tries) ⊆
      (List.range triesPerCode).map Nat.succ := by
    intro tries htries
    obtain ⟨e, he, rfl⟩ := List.mem_map.mp htries
    obtain ⟨hmem, -, -, hkind⟩ := mem_comparisons he
    have hlimit := (h.limited (h.backed e hmem).stored).tries
    obtain ⟨u, -, htried⟩ := (h.backed e hmem).compared _ _ hkind
    have hcount : e.challenge.tries = u.tries + 1 := by rw [htried]; rfl
    exact List.mem_map.mpr ⟨u.tries, List.mem_range.mpr (by omega), hcount.symm⟩
  have hlen := (List.subperm_of_subset hnodup hsub).length_le
  rwa [List.length_map, List.length_map, List.length_range] at hlen

theorem mem_acceptances {moment : Int} {a : Bool × Nat}
    (h : a ∈ acceptances log mobile moment) : ∃ e ∈ log, ∃ challenge,
      e = .accepted a.1 challenge a.2 ∧ challenge.mobile = mobile ∧
        challenge.sentAt = moment := by
  obtain ⟨e, hmem, hf⟩ := List.mem_filterMap.mp h
  cases e with
  | accepted consume challenge version =>
      dsimp only at hf
      split at hf
      · next hcode =>
          obtain rfl := Option.some.inj hf
          exact ⟨_, hmem, challenge, rfl, hcode⟩
      · cases hf
  | codeSent challenge version => cases hf
  | compared challenge version => cases hf

/-- After a code was used up no check of it succeeds. -/
theorem Logged.used_last (h : Logged r log) {moment : Int} {version : Nat}
    (hused : (true, version) ∈ acceptances log mobile moment) {other : Bool × Nat}
    (hother : other ∈ acceptances log mobile moment) : other.2 ≤ version := by
  obtain ⟨e, hmem, challenge, rfl, hmobile, hmoment⟩ := mem_acceptances hused
  obtain ⟨e', hmem', challenge', rfl, hmobile', hmoment'⟩ := mem_acceptances hother
  have hstored : r.versionAt .otpChallenge challenge.mobile version = some challenge :=
    (h.backed _ hmem).stored
  have hstored' : r.versionAt .otpChallenge challenge'.mobile other.2 = some challenge' :=
    (h.backed _ hmem').stored
  have hconsumed : challenge.used = true := (h.backed _ hmem).accepted _ _ _ rfl
  rw [hmobile] at hstored
  rw [hmobile'] at hstored'
  by_contra hlt
  have hunused := ((h.earlier hstored hstored' (not_le.mp hlt)).same
    (hmoment.trans hmoment'.symm)).2.2
  rw [hconsumed] at hunused
  cases hunused

theorem Logged.acceptances_ne (h : Logged r log) (moment : Int) :
    (acceptances log mobile moment).Pairwise fun a b => a.2 ≠ b.2 := by
  refine h.versions_ne.filterMap _ fun e e' hne a ha b hb => ?_
  cases e with
  | accepted consume challenge version =>
      cases e' with
      | accepted consume' challenge' version' =>
          dsimp only at ha hb
          split at ha
          · next hcode =>
              split at hb
              · next hcode' =>
                  cases ha
                  cases hb
                  exact hne.2.2 (hcode.1.trans hcode'.1.symm)
              · cases hb
          · cases ha
      | codeSent challenge' version' => cases hb
      | compared challenge' version' => cases hb
  | codeSent challenge version => cases ha
  | compared challenge version => cases ha

theorem Logged.consumed_le (h : Logged r log) (moment : Int) :
    ((acceptances log mobile moment).filter Prod.fst).length ≤ 1 := by
  have hne : ((acceptances log mobile moment).filter Prod.fst).Pairwise fun a b => a.2 ≠ b.2 :=
    (h.acceptances_ne moment).filter _
  have hmem : ∀ a ∈ (acceptances log mobile moment).filter Prod.fst,
      (true, a.2) ∈ acceptances log mobile moment := fun a ha => by
    obtain ⟨hin, hconsume⟩ := List.mem_filter.mp ha
    rwa [← hconsume]
  generalize (acceptances log mobile moment).filter Prod.fst = consumed at hne hmem
  match consumed, hne, hmem with
  | [], _, _ => exact Nat.zero_le _
  | [_], _, _ => exact le_rfl
  | a :: b :: rest, hne, hmem =>
      have ha := hmem a (by simp)
      have hb := hmem b (by simp)
      have hle := h.used_last ha hb
      have hge := h.used_last hb ha
      exact absurd (le_antisymm hge hle) ((List.pairwise_cons.mp hne).1 b (by simp))

theorem mem_moments {moment : Int} (h : moment ∈ moments log mobile) :
    ∃ challenge version, .codeSent challenge version ∈ log ∧ challenge.mobile = mobile ∧
      challenge.sentAt = moment := by
  obtain ⟨e, hmem, hf⟩ := List.mem_filterMap.mp h
  cases e with
  | codeSent challenge version =>
      dsimp only at hf
      split at hf
      · next hmobile => exact ⟨challenge, version, hmem, hmobile, Option.some.inj hf⟩
      · cases hf
  | accepted consume challenge version => cases hf
  | compared challenge version => cases hf

/-- Codes sent with different versions are long enough apart. -/
theorem Logged.sent_apart (h : Logged r log) {challenge challenge' : OtpChallenge}
    {version version' : Nat} (he : .codeSent challenge version ∈ log)
    (he' : .codeSent challenge' version' ∈ log) (hmobile : challenge.mobile = challenge'.mobile)
    (hlt : version < version') : challenge.sentAt + resendAfter ≤ challenge'.sentAt := by
  have hstored := (h.backed _ he).stored
  have hstored' := (h.backed _ he').stored
  simp only [OtpEntry.challenge, OtpEntry.version] at hstored hstored'
  rw [hmobile] at hstored
  rcases (h.earlier hstored hstored' hlt).code with hapart | ⟨-, -, hone, -⟩
  · exact hapart
  · have hzero := (h.backed _ he').codeSent _ _ rfl
    omega

theorem Logged.moments_apart (h : Logged r log) :
    (moments log mobile).Pairwise fun a b => a + resendAfter ≤ b ∨ b + resendAfter ≤ a := by
  refine h.versions_ne.filterMap _ fun e e' ⟨hmem, hmem', hne⟩ a ha b hb => ?_
  cases e with
  | codeSent challenge version =>
      cases e' with
      | codeSent challenge' version' =>
          dsimp only at ha hb
          split at ha
          · next hmobile =>
              split at hb
              · next hmobile' =>
                  cases ha
                  cases hb
                  have hsame := hmobile.trans hmobile'.symm
                  rcases Nat.lt_or_gt_of_ne (hne hsame) with hlt | hlt
                  · exact .inl (h.sent_apart hmem hmem' hsame hlt)
                  · exact .inr (h.sent_apart hmem' hmem hsame.symm hlt)
              · cases hb
          · cases ha
      | accepted consume' challenge' version' => cases hb
      | compared challenge' version' => cases hb
  | accepted consume challenge version => cases ha
  | compared challenge version => cases ha

theorem Logged.perDay_le (h : Logged r log) (start : Int) :
    ((moments log mobile).filter fun moment =>
      start ≤ moment ∧ moment < start + oneDay).length ≤ codesPerDay := by
  have hapart : ((moments log mobile).filter fun moment =>
      start ≤ moment ∧ moment < start + oneDay).Pairwise
        fun a b => a + resendAfter ≤ b ∨ b + resendAfter ≤ a := h.moments_apart.filter _
  have hnodup : ((moments log mobile).filter fun moment =>
      start ≤ moment ∧ moment < start + oneDay).Nodup :=
    hapart.imp fun {a b} hab heq => by
      subst heq
      rcases hab with hab | hab
      · exact apart_irrefl hab le_rfl
      · exact apart_irrefl hab le_rfl
  have hmem : ∀ moment ∈ (moments log mobile).filter (fun moment =>
      start ≤ moment ∧ moment < start + oneDay),
        moment ∈ moments log mobile ∧ start ≤ moment ∧ moment < start + oneDay :=
    fun moment hm => by simpa using hm
  generalize (moments log mobile).filter (fun moment =>
    start ≤ moment ∧ moment < start + oneDay) = window at hnodup hmem
  cases htop : window.argmax id with
  | none =>
      rw [List.argmax_eq_none.mp htop]
      exact Nat.zero_le _
  | some top =>
      -- The record of the last code in the window has the moments of all of them.
      obtain ⟨hin, -, hend⟩ := hmem top (List.argmax_mem htop)
      obtain ⟨challenge, version, he, hmobile, hat⟩ := mem_moments hin
      have hstored : r.versionAt .otpChallenge challenge.mobile version = some challenge :=
        (h.backed _ he).stored
      have hlimit := h.limited hstored
      have hsub : window ⊆ challenge.sent := by
        intro moment hm
        obtain ⟨hin', hstart, -⟩ := hmem moment hm
        have hle : moment ≤ top := List.le_of_mem_argmax hm htop
        obtain ⟨challenge', version', he', hmobile', hat'⟩ := mem_moments hin'
        have hstored' : r.versionAt .otpChallenge challenge'.mobile version' =
          some challenge' := (h.backed _ he').stored
        rw [hmobile', ← hmobile] at hstored'
        rcases Nat.lt_trichotomy version' version with hlt | heq | hlt
        · have hday := (h.earlier hstored' hstored hlt).day
          rw [hat, hat'] at hday
          exact hday (by omega)
        · rw [heq, hstored] at hstored'
          rw [← hat', ← Option.some.inj hstored']
          exact sentAt_mem hlimit.sent
        · have hafter := h.sent_apart he he' (hmobile.trans hmobile'.symm) hlt
          rw [hat, hat'] at hafter
          exact (apart_irrefl hafter hle).elim
      exact ((List.subperm_of_subset hnodup hsub).length_le).trans hlimit.few

end Runs

/-! ## A run -/

/-- A hash that shows its input. -/
def plainHash (salt code : String) : String := salt ++ ":" ++ code

/-- A code is sent, guessed wrong, guessed right and used up. -/
def codeUsed : List (Move (M := otpMachine plainHash)) :=
  [.spawn (.send "09120000000" "a"), .act 0 (.clock 0), .act 0 .done,
    .act 0 (.ext (.allowed true)), .act 0 (.ext (.allowed true)), .act 0 (.ext (.drawn 42 "s")),
    .act 0 .done, .act 0 (.ext .done),
    .spawn (.check "09120000000" "1" "b" true), .act 1 (.ext (.allowed true)), .act 1 .done,
    .act 1 (.clock 1000000), .act 1 .done, .act 1 (.ext .done),
    .spawn (.check "09120000000" "۰۰۰۰۴۲" "c" true), .act 2 (.ext (.allowed true)), .act 2 .done,
    .act 2 (.clock 2000000), .act 2 .done, .act 2 (.ext .done), .act 2 .done, .act 2 (.ext .done)]

end SeoAgent.Accounts.Otp
