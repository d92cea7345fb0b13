import SeoAgent.Onboarding.GoogleDetach

/-!
# Runs of disconnections

What the requests of one tenant do to its connection and its sites while they overlap: what a
disconnection that has listed the sites knows of them, when the connection in use ends, and who
has to detach a site that still refers to the grant.

## Main results

* `attended_step` — while no connection is in use, somebody has to detach each site that still
  refers to the grant.
* `disconnect_detaches` — after an orderly run a disconnection that has returned leaves no site
  with the grant, and no site is detached behind a connection in use.
* `connected_late` — a site is connected between the look and the write of its request.
-/

namespace SeoAgent.Onboarding

open SeoAgent.Verified Machine
open Service (iface World Terms)

section Tenant
variable {U : Url.Unicode} {tenantId : String}

/-! ## What a disconnection knows -/

/-- What was listed is no newer than what is stored, and older once it was written. -/
def Follows (records : SiteRecords) (past : OnboardingPast) : Prop :=
  ∀ sites, listedIn past = some sites → ∀ entry ∈ sites.entries,
    entry.2.2 ≤ (records.versions .site entry.1).length ∧
      (entry.1 ∈ detachedIn past → entry.2.2 < (records.versions .site entry.1).length)

/-- An answer is a listing of sites, the write of a site, or about neither. -/
theorem listing_cases (ev : (iface onboardingBackend onboardingOutside).Event)
    (past : OnboardingPast) :
    (∃ sites, ev = ⟨.list .site, .ok sites⟩) ∨
      (∃ siteId site n, ev = ⟨.commit [.replace .site siteId site n], .ok ()⟩) ∨
        (listedIn (ev :: past) = listedIn past ∧ detachedIn (ev :: past) = detachedIn past) := by
  by_cases hlist : ∃ sites, ev = ⟨.list .site, .ok sites⟩
  · exact .inl hlist
  · by_cases hwrite : ∃ siteId site n, ev = ⟨.commit [.replace .site siteId site n], .ok ()⟩
    · exact .inr (.inl hwrite)
    · refine .inr (.inr ⟨?_, ?_⟩)
      · rw [listedIn.eq_def]
        dsimp only
        split
        · next heq => cases heq
        · next heq =>
            obtain ⟨rfl, rfl⟩ := List.cons.inj heq
            exact absurd ⟨_, rfl⟩ hlist
        · next heq =>
            obtain ⟨rfl, rfl⟩ := List.cons.inj heq
            rfl
      · rw [detachedIn.eq_def]
        dsimp only
        split
        · next heq =>
            obtain ⟨rfl, rfl⟩ := List.cons.inj heq
            exact absurd ⟨_, rfl⟩ hlist
        · next heq =>
            obtain ⟨rfl, rfl⟩ := List.cons.inj heq
            exact absurd ⟨_, _, _, rfl⟩ hwrite
        · next heq =>
            obtain ⟨rfl, rfl⟩ := List.cons.inj heq
            rfl
        · next heq => cases heq

theorem Follows.mono {records records' : SiteRecords} {past : OnboardingPast}
    (h : Follows records past) (hgrows : records.Grows records') : Follows records' past := by
  intro sites hsites entry hentry
  have hle := (hgrows .site entry.1).length_le
  obtain ⟨hold, hwritten⟩ := h sites hsites entry hentry
  exact ⟨hold.trans hle, fun hmem => (hwritten hmem).trans_le hle⟩

theorem Follows.step {w w' : GrantWorld} {o : GrantOp} {ch : GrantChoice}
    {r : Except OnboardingExc o.Res} {past : OnboardingPast} (h : Follows w.records past)
    (hx : Service.exec w o ch = some (r, w')) : Follows w'.records (⟨o, r⟩ :: past) := by
  have hkept := h.mono (Service.exec_grows hx)
  obtain ⟨sites, hev⟩ | ⟨siteId, site, n, hev⟩ | ⟨hlisted, hdone⟩ := listing_cases ⟨o, r⟩ past
  · obtain ⟨rfl, hr⟩ := Interface.Event.mk.inj hev
    obtain rfl := eq_of_heq hr
    obtain ⟨rfl, rfl⟩ := Service.exec_list_ok hx
    rintro sites' hsites entry hentry
    obtain rfl := Option.some.inj hsites
    have hcurrent := Repository.mem_list_iff.mp hentry
    exact ⟨(Repository.current_eq_some_iff.mp hcurrent).2.ge,
      fun hmem => absurd hmem List.not_mem_nil⟩
  · obtain ⟨rfl, hr⟩ := Interface.Event.mk.inj hev
    obtain rfl := eq_of_heq hr
    obtain ⟨hlength, happend⟩ := Repository.apply_replace
      (Repository.commit_singleton.mp (Service.exec_commit_ok hx).1)
    intro sites hsites entry hentry
    obtain ⟨hold, hwritten⟩ := h sites hsites entry hentry
    obtain ⟨hold', hwritten'⟩ := hkept sites hsites entry hentry
    refine ⟨hold', fun hmem => ?_⟩
    rcases List.mem_cons.mp hmem with heq | hmem
    · have hlonger : (w'.records.versions .site entry.1).length =
          (w.records.versions .site entry.1).length + 1 := by
        rw [happend, heq, Repository.versions_append_self, List.length_append,
          List.length_singleton]
      omega
    · exact hwritten' hmem
  · intro sites hsites entry hentry
    rw [hdone]
    exact hkept sites (hlisted ▸ hsites) entry hentry

theorem isSome_listedIn_cons {past : OnboardingPast}
    (ev : (iface onboardingBackend onboardingOutside).Event) (h : (listedIn past).isSome = true) :
    (listedIn (ev :: past)).isSome = true := by
  obtain ⟨sites, rfl⟩ | ⟨siteId, site, n, rfl⟩ | ⟨hlisted, -⟩ := listing_cases ev past
  · rfl
  · exact h
  · rw [hlisted]
    exact h

/-- Who has looked at the connection has listed the sites. -/
theorem listedIn_of_checked {past : OnboardingPast} (h : checked tenantId past = true) :
    (listedIn past).isSome = true := by
  induction past with
  | nil => cases h
  | cons ev past ih =>
      rw [checked.eq_def] at h
      dsimp only at h
      split at h
      · next heq =>
          obtain ⟨rfl, rfl⟩ := List.cons.inj heq
          rw [Bool.and_eq_true] at h
          exact isSome_listedIn_cons _ h.2
      · cases h
      · next heq =>
          obtain ⟨rfl, rfl⟩ := List.cons.inj heq
          exact isSome_listedIn_cons _ (ih h)
      · cases h

/-! ## The connection in use -/

/-- No write of a transaction that records no connection in use brings one. -/
theorem connectionOf_commit {w w' : GrantWorld} {ws : OnboardingWrites}
    (hmade : w.records.commit ws = .ok w'.records) (hnone : connectionOf w tenantId = none)
    (h : connects tenantId ws = false) : connectionOf w' tenantId = none := by
  have hbefore : liveConnection (w.records.current .googleConnection tenantId) = none := hnone
  show liveConnection (w'.records.current .googleConnection tenantId) = none
  refine Repository.commit_preserves (P := fun u =>
    liveConnection (u.current .googleConnection tenantId) = none)
      (fun write hw u u' _ hu happ => ?_) hbefore hmade
  by_cases htarget : write.target = (.googleConnection, tenantId)
  · have hoff := List.any_eq_false.mp h write hw
    cases Repository.applied_of_apply happ with
    | @create t i v fresh =>
        obtain ⟨rfl, rfl⟩ := Prod.mk.inj htarget
        rw [Repository.current_append_self]
        simpa [liveConnection] using hoff
    | @replace t i v n present expected =>
        obtain ⟨rfl, rfl⟩ := Prod.mk.inj htarget
        rw [Repository.current_append_self]
        simpa [liveConnection] using hoff
    | @ensure t i v fresh =>
        obtain ⟨rfl, rfl⟩ := Prod.mk.inj htarget
        rw [Repository.current_append_self]
        simpa [liveConnection] using hoff
    | same => exact hu
  · rw [Repository.current_congr (Repository.apply_versions_of_ne happ htarget)]
    exact hu

/-- Without a transaction about the connection it stays as it is. -/
theorem connectionOf_congr {w w' : GrantWorld} {ws : OnboardingWrites}
    (hmade : w.records.commit ws = .ok w'.records)
    (h : ∀ write ∈ ws, write.target ≠ (.googleConnection, tenantId)) :
    connectionOf w' tenantId = connectionOf w tenantId :=
  congrArg liveConnection (Repository.current_congr (Repository.commit_versions_of_ne hmade h))

section Step
variable {w w' : GrantWorld} {k : DetachKind} {o : GrantOp} {ch : GrantChoice}
  {r : Except OnboardingExc o.Res} {past : OnboardingPast} {siteId : String}

/-- An operation that records no connection in use brings none. -/
theorem connectionOf_step (hx : Service.exec w o ch = some (r, w'))
    (hnone : connectionOf w tenantId = none)
    (h : ∀ ws, o = .commit ws → connects tenantId ws = false) :
    connectionOf w' tenantId = none := by
  rcases Service.exec_records hx with hsame | ⟨ws, rfl, hmade⟩
  · rw [connectionOf, hsame]
    exact hnone
  · exact connectionOf_commit hmade hnone (h ws rfl)

/-- The connection in use ends with the transaction of a disconnection that has not listed the
sites. -/
theorem unlisted_of_disconnected (hpermits : (detachTerms U tenantId).permits k past o)
    (hx : Service.exec w o ch = some (r, w')) (hlive : connectionOf w tenantId ≠ none)
    (hnone : connectionOf w' tenantId = none) :
    k = .googleDisconnect ∧ listedIn past = none := by
  rcases Service.exec_records hx with hsame | ⟨ws, rfl, hmade⟩
  · rw [connectionOf, hsame] at hnone
    exact absurd hnone hlive
  · have hchanged : ¬∀ write ∈ ws, write.target ≠ (.googleConnection, tenantId) := fun h =>
      hlive ((connectionOf_congr hmade h).symm.trans hnone)
    cases k with
    | googleDisconnect =>
        rcases hpermits with ⟨hlisted, -⟩ | ⟨siteId, site, n, rfl, -⟩
        · exact ⟨rfl, hlisted⟩
        · exact absurd (by simp [Repository.Write.target]) hchanged
    | googleCallback stateId code error browserNonce =>
        obtain ⟨write, rfl, hsecret | hstate | ⟨connection, current, hin, rfl⟩⟩ := hpermits
        · exact absurd (by simp [Prod.ext_iff, hsecret]) hchanged
        · exact absurd (by simp [Prod.ext_iff, hstate]) hchanged
        · by_cases howner : connection.tenantId = tenantId
          · subst howner
            rw [connectionOf, Service.append_of_overWrite hmade, Repository.current_append_self,
              liveConnection, if_pos hin] at hnone
            cases hnone
          · refine absurd (fun write hw heq => howner ?_) hchanged
            rw [List.mem_singleton.mp hw, Service.overWrite_target (B := onboardingBackend)] at heq
            exact (Prod.mk.inj heq).2
    | configureGsc hasLister siteId request =>
        obtain ⟨siteId, site, n, rfl, -⟩ := hpermits
        exact absurd (by simp [Repository.Write.target]) hchanged

/-- A site that refers to the grant did before, or a request has just connected it. -/
theorem attached_before (hpermits : (detachTerms U tenantId).permits k past o)
    (hx : Service.exec w o ch = some (r, w')) (h : Attached tenantId w'.records siteId) :
    w'.records.versions .site siteId = w.records.versions .site siteId ∨
      k ≠ .googleDisconnect ∧ connectionOf w' tenantId = connectionOf w tenantId ∧
        ∃ ws, o = .commit ws ∧ grants tenantId ws = true := by
  rcases Service.exec_records hx with hsame | ⟨ws, rfl, hmade⟩
  · rw [hsame]
    exact .inl rfl
  · have hne : (∀ write ∈ ws, write.target.1 ≠ .site) →
        w'.records.versions .site siteId = w.records.versions .site siteId := fun hsite =>
      Repository.commit_versions_of_ne hmade fun write hw heq => hsite write hw (by rw [heq])
    cases k with
    | googleDisconnect =>
        rcases hpermits with ⟨-, hsite⟩ | ⟨i, site, n, rfl, hgsc, -⟩
        · exact .inl (hne hsite)
        · have happend := (Repository.apply_replace (Repository.commit_singleton.mp hmade)).2
          by_cases hi : siteId = i
          · subst hi
            obtain ⟨site', n', hcurrent, -, hgrant⟩ := h
            rw [happend, Repository.current_append_self] at hcurrent
            obtain ⟨rfl, -⟩ := Prod.mk.inj (Option.some.inj hcurrent)
            rw [readsGrant, hgsc] at hgrant
            cases hgrant
          · rw [happend]
            exact .inl (Repository.versions_append_of_ne _ _ _ _ hi)
    | googleCallback stateId code error browserNonce =>
        obtain ⟨write, rfl, hwrite⟩ := hpermits
        refine .inl (hne fun write' hw heq => ?_)
        rw [List.mem_singleton.mp hw] at heq
        rcases hwrite with hsecret | hstate | ⟨connection, current, -, rfl⟩
        · rw [heq] at hsecret
          cases hsecret
        · rw [heq] at hstate
          cases hstate
        · rw [Service.overWrite_target (B := onboardingBackend)] at heq
          cases heq
    | configureGsc hasLister i' request =>
        obtain ⟨i, site, n, rfl, -⟩ := hpermits
        have happend := (Repository.apply_replace (Repository.commit_singleton.mp hmade)).2
        by_cases hi : siteId = i
        · subst hi
          obtain ⟨site', n', hcurrent, howner, hgrant⟩ := h
          rw [happend, Repository.current_append_self] at hcurrent
          obtain ⟨rfl, -⟩ := Prod.mk.inj (Option.some.inj hcurrent)
          refine .inr ⟨(fun heq => by cases heq), ?_, _, rfl, ?_⟩
          · exact connectionOf_congr hmade (by simp [Repository.Write.target])
          · simp [grants, howner, hgrant]
        · rw [happend]
          exact .inl (Repository.versions_append_of_ne _ _ _ _ hi)

end Step

/-! ## The invariant -/

/-- A disconnection that is about to detach a site found what is so, and while no connection is
in use, once a disconnection has started, somebody has to detach each site that refers to the
grant. -/
structure Attended (c : Config (detachMachine U tenantId)) : Prop where
  follows : ∀ th ∈ c.pool, Follows c.shared.records th.past
  informed : ∀ th ∈ c.pool, armed U tenantId th = true → connectionOf c.shared tenantId = none
  covered : connectionOf c.shared tenantId = none →
    (∃ th ∈ c.pool, th.kind = .googleDisconnect) → ∀ siteId,
      Attached tenantId c.shared.records siteId →
        ∃ th ∈ c.pool, HasToDetach U tenantId c.shared.records siteId th

theorem HasToDetach.congr {records records' : SiteRecords} {siteId : String}
    {th : Thread (detachMachine U tenantId)} (h : HasToDetach U tenantId records siteId th)
    (hsame : records'.versions .site siteId = records.versions .site siteId) :
    HasToDetach U tenantId records' siteId th :=
  ⟨h.disconnects, h.underWay, fun sites hsites => by
    rw [Repository.current_congr hsame]
    exact h.listed sites hsites⟩

section Act
variable {c : Config (detachMachine U tenantId)} {t : Nat} {ch : GrantChoice} {k : DetachKind}
  {o : GrantOp} {f : Except OnboardingExc o.Res → OnboardingProc Unit} {past : OnboardingPast}
  {r : Except OnboardingExc o.Res} {s : GrantWorld} {siteId : String}

/-- What a process at another place has to do, it still has to. -/
theorem others_have_to {u : Nat} {th : Thread (detachMachine U tenantId)} (hne : u ≠ t)
    (hth : c.pool[u]? = some th) (h : HasToDetach U tenantId c.shared.records siteId th)
    (hsame : s.records.versions .site siteId = c.shared.records.versions .site siteId) :
    ∃ th' ∈ (c.answered t k past r f s).pool,
      HasToDetach U tenantId (c.answered t k past r f s).shared.records siteId th' := by
  refine ⟨th, List.mem_of_getElem? (i := u) ?_, h.congr hsame⟩
  rw [Config.answered, List.getElem?_set_ne hne.symm]
  exact hth

/-- A site that a disconnection had to detach is as it listed it, if it has listed the sites by
now. -/
theorem listed_answered (hx : Service.exec c.shared o ch = some (r, s))
    (h : HasToDetach U tenantId c.shared.records siteId ⟨k, .call o f, past⟩)
    (hattached : Attached tenantId s.records siteId)
    (hsame : s.records.versions .site siteId = c.shared.records.versions .site siteId) :
    ∀ sites, listedIn (⟨o, r⟩ :: past) = some sites →
      ∃ x, (siteId, x) ∈ sites.entries ∧ s.records.current .site siteId = some x := by
  intro sites hsites
  have hbefore : listedIn past = some sites →
      ∃ x, (siteId, x) ∈ sites.entries ∧ s.records.current .site siteId = some x := fun hold => by
    rw [Repository.current_congr hsame]
    exact h.listed sites hold
  obtain ⟨sites', hev⟩ | ⟨i, site, n, hev⟩ | ⟨hlisted, -⟩ := listing_cases ⟨o, r⟩ past
  · obtain ⟨rfl, hr⟩ := Interface.Event.mk.inj hev
    obtain rfl := eq_of_heq hr
    obtain ⟨rfl, rfl⟩ := Service.exec_list_ok hx
    obtain rfl := Option.some.inj hsites
    obtain ⟨site, n, hcurrent, -, -⟩ := hattached
    exact ⟨(site, n), Repository.mem_list_iff.mpr hcurrent, hcurrent⟩
  · obtain ⟨rfl, hr⟩ := Interface.Event.mk.inj hev
    obtain rfl := eq_of_heq hr
    exact hbefore hsites
  · exact hbefore (hlisted ▸ hsites)

/-- A disconnection does not return before it has done what it had to. -/
theorem not_finished (hx : Service.exec c.shared o ch = some (r, s))
    (hfollows : Follows c.shared.records past)
    (h : HasToDetach U tenantId c.shared.records siteId ⟨k, .call o f, past⟩)
    (hattached : Attached tenantId s.records siteId)
    (hsame : s.records.versions .site siteId = c.shared.records.versions .site siteId)
    (hnone : connectionOf s tenantId = none) : ¬Finished tenantId (⟨o, r⟩ :: past) := by
  rintro (hsaw | ⟨sites, hsites, hdone⟩)
  · cases o with
    | find t i =>
        cases t with
        | googleConnection =>
            cases r with
            | error e => cases hsaw
            | ok found =>
                simp only [sawConnection, Bool.and_eq_true, decide_eq_true_eq] at hsaw
                obtain ⟨rfl, hlive⟩ := hsaw
                obtain ⟨hfound, rfl⟩ := Service.exec_find_ok hx
                rw [connectionOf, hfound] at hnone
                rw [hnone] at hlive
                cases hlive
        | _ => cases hsaw
    | _ => cases hsaw
  · obtain ⟨x, hx', hcurrent⟩ := listed_answered hx h hattached hsame sites hsites
    obtain ⟨site, n, hcurrent', howner, hgrant⟩ := hattached
    obtain rfl := Option.some.inj (hcurrent'.symm.trans hcurrent)
    have hwritten := ((hfollows.step hx) sites hsites _ hx').2 (hdone _ hx' howner hgrant)
    have hlength := (Repository.current_eq_some_iff.mp hcurrent).2
    exact absurd hwritten (by rw [hlength]; exact lt_irrefl _)

end Act

variable {w₀ : GrantWorld}

theorem covered_answered (hV : Service.AllValid (detachTerms U tenantId).Valid w₀.records)
    {c : Config (detachMachine U tenantId)} {t : Nat} {ch : GrantChoice} {k : DetachKind}
    {o : GrantOp} {f : Except OnboardingExc o.Res → OnboardingProc Unit} {past : OnboardingPast}
    {r : Except OnboardingExc o.Res} {s : GrantWorld} {siteId : String}
    (hr : Run (Orderly U tenantId) ⟨w₀, []⟩ c) (hA : Attended c)
    (hgood : Orderly U tenantId c (.act t ch)) (hp : c.pool[t]? = some ⟨k, .call o f, past⟩)
    (hx : Service.exec c.shared o ch = some (r, s)) (hnone : connectionOf s tenantId = none)
    (hstarted : ∃ th ∈ c.pool, th.kind = .googleDisconnect)
    (hattached : Attached tenantId s.records siteId) :
    ∃ th ∈ (c.answered t k past r f s).pool,
      HasToDetach U tenantId (c.answered t k past r f s).shared.records siteId th := by
  have hpermits := (Service.permitted_of_run detach_kept hV hr hp).1
  rcases attached_before hpermits hx hattached with hsame | ⟨hk, hconnection, ws, rfl, hgrants⟩
  · -- The site was attached before.
    have hbefore : ∃ th ∈ c.pool, HasToDetach U tenantId c.shared.records siteId th := by
      by_cases hlive : connectionOf c.shared tenantId = none
      · refine hA.covered hlive hstarted siteId ?_
        obtain ⟨site, n, hcurrent, hgrant⟩ := hattached
        exact ⟨site, n, (Repository.current_congr hsame).symm.trans hcurrent, hgrant⟩
      · obtain ⟨rfl, hunlisted⟩ := unlisted_of_disconnected hpermits hx hlive hnone
        exact ⟨_, List.mem_of_getElem? hp, rfl, rfl, fun sites hsites => by
          rw [hunlisted] at hsites
          cases hsites⟩
    obtain ⟨th, hth, hhas⟩ := hbefore
    obtain ⟨u, hu⟩ := List.getElem?_of_mem hth
    by_cases hut : u = t
    · subst hut
      obtain rfl := Option.some.inj (hp.symm.trans hu)
      have hfire : fire c (.act u ch) = some (c.answered u k past r f s) := by
        simp only [fire, hp, hx, Option.map_some]
      have hnew : (c.answered u k past r f s).pool[u]? = some ⟨k, f r, ⟨o, r⟩ :: past⟩ :=
        List.getElem?_set_self (List.getElem?_eq_some_iff.mp hp).1
      cases hrest : f r with
      | call o' f' =>
          refine ⟨_, List.mem_of_getElem? hnew, hhas.disconnects, ?_,
            listed_answered hx hhas hattached hsame⟩
          simp [underWay, hrest, Prog.next?]
      | ret a =>
          have hends := Service.ends_of_run detach_kept hV (detach_ends (U := U))
            (.move _ hr hgood hfire) _ (List.mem_of_getElem? hnew)
          obtain rfl : k = .googleDisconnect := hhas.disconnects
          rw [hrest] at hends
          exact absurd hends (not_finished hx (hA.follows _ (List.mem_of_getElem? hp)) hhas
            hattached hsame hnone)
      | raise e =>
          obtain ⟨v, th', hne, hv, hhas'⟩ := hgood.2.2 _ u _ hfire hnone hp
            (.inr ⟨ch, _, e, rfl, hnew, hrest⟩) siteId hattached hhas
          exact others_have_to hne hv hhas' hsame
    · exact others_have_to hut hu hhas hsame
  · -- The site has just been connected, in time.
    rcases eachOp_act hgood.1 hp hgrants with hlive | ⟨th, hth, hdisconnects, hunderWay, hunlisted⟩
    · rw [← hconnection, hnone] at hlive
      cases hlive
    · obtain ⟨u, hu⟩ := List.getElem?_of_mem hth
      have hne : u ≠ t := by
        rintro rfl
        obtain rfl := Option.some.inj (hp.symm.trans hu)
        exact hk hdisconnects
      refine ⟨th, List.mem_of_getElem? (i := u) ?_, hdisconnects, hunderWay, fun sites hsites => ?_⟩
      · rw [Config.answered, List.getElem?_set_ne hne.symm]
        exact hu
      · rw [hunlisted] at hsites
        cases hsites

/-- A disconnection that is about to detach a site found what is still so. -/
theorem informed_answered {c : Config (detachMachine U tenantId)} {t : Nat} {ch : GrantChoice}
    {k : DetachKind} {o : GrantOp} {f : Except OnboardingExc o.Res → OnboardingProc Unit}
    {past : OnboardingPast} {r : Except OnboardingExc o.Res} {s : GrantWorld} (hA : Attended c)
    (hgood : Orderly U tenantId c (.act t ch)) (hp : c.pool[t]? = some ⟨k, .call o f, past⟩)
    (hx : Service.exec c.shared o ch = some (r, s)) :
    ∀ th ∈ (c.answered t k past r f s).pool, armed U tenantId th = true →
      connectionOf s tenantId = none := by
  -- A process that was armed before still is right.
  have hkept : ∀ th ∈ c.pool, armed U tenantId th = true → connectionOf s tenantId = none := by
    intro th hth harmed
    refine connectionOf_step hx (hA.informed th hth harmed) fun ws heq => ?_
    subst heq
    by_contra hconnects
    have haside := eachOp_act hgood.2.1 hp ((Bool.not_eq_false _).mp hconnects) th hth
    rw [haside] at harmed
    cases harmed
  intro th hth harmed
  rcases List.mem_or_eq_of_mem_set hth with hth | rfl
  · exact hkept th hth harmed
  · have hmem := List.mem_of_getElem? hp
    have hchecked : k = .googleDisconnect ∧ checked tenantId (⟨o, r⟩ :: past) = true := by
      cases k with
      | googleDisconnect =>
          refine ⟨rfl, ?_⟩
          simp only [armed] at harmed
          split at harmed
          · cases harmed
          · exact harmed
          · cases harmed
      | googleCallback stateId code error browserNonce => cases harmed
      | configureGsc hasLister siteId request => cases harmed
    obtain ⟨rfl, hchecked⟩ := hchecked
    have hbefore : checked tenantId past = true → (∀ i, o ≠ .find .googleConnection i) →
        connectionOf s tenantId = none := fun hold hother => by
      refine hkept _ hmem ?_
      cases o with
      | find t i =>
          cases t with
          | googleConnection => exact absurd rfl (hother i)
          | _ => exact hold
      | _ => exact hold
    cases o with
    | find t i =>
        cases t with
        | googleConnection =>
            cases r with
            | error e => cases hchecked
            | ok found =>
                simp only [checked, Bool.and_eq_true, decide_eq_true_eq,
                  Option.isNone_iff_eq_none] at hchecked
                obtain ⟨⟨rfl, hnone⟩, -⟩ := hchecked
                obtain ⟨hfound, rfl⟩ := Service.exec_find_ok hx
                rw [connectionOf, hfound]
                exact hnone
        | _ => exact hbefore hchecked fun _ heq => by cases heq
    | _ => exact hbefore hchecked fun _ heq => by cases heq

/-- The invariant is kept by every move of an orderly run. -/
theorem attended_step (hV : Service.AllValid (detachTerms U tenantId).Valid w₀.records)
    {c c' : Config (detachMachine U tenantId)} {m : Move (M := detachMachine U tenantId)}
    (hr : Run (Orderly U tenantId) ⟨w₀, []⟩ c) (hA : Attended c) (hgood : Orderly U tenantId c m)
    (hf : fire c m = some c') : Attended c' := by
  have hfire := hf
  obtain ⟨k, rfl, -, rfl⟩ | ⟨t, ch, k, o, f, past, r, s, rfl, hp, hx, rfl⟩ | ⟨t, rfl, rfl⟩ |
    ⟨e, -⟩ := fire_cases hf
  · refine ⟨fun th hth => ?_, fun th hth harmed => ?_, fun hnone hstarted siteId hattached => ?_⟩
    · rcases List.mem_append.mp hth with hth | hth
      · exact hA.follows th hth
      · rw [List.mem_singleton.mp hth]
        exact fun sites hsites => by cases hsites
    · rcases List.mem_append.mp hth with hth | hth
      · exact hA.informed th hth harmed
      · rw [List.mem_singleton.mp hth] at harmed
        cases k with
        | googleDisconnect =>
            simp only [armed] at harmed
            split at harmed <;> cases harmed
        | googleCallback stateId code error browserNonce => cases harmed
        | configureGsc hasLister siteId request => cases harmed
    · by_cases hbefore : ∃ th ∈ c.pool, th.kind = .googleDisconnect
      · obtain ⟨th, hth, hhas⟩ := hA.covered hnone hbefore siteId hattached
        exact ⟨th, List.mem_append_left _ hth, hhas⟩
      · obtain ⟨th, hth, hdisconnects⟩ := hstarted
        rcases List.mem_append.mp hth with hth' | hth'
        · exact absurd ⟨th, hth', hdisconnects⟩ hbefore
        · rw [List.mem_singleton.mp hth'] at hdisconnects hth
          obtain rfl : k = .googleDisconnect := hdisconnects
          exact ⟨_, hth, rfl, rfl, fun sites hsites => by cases hsites⟩
  · refine ⟨fun th hth => ?_, informed_answered hA hgood hp hx,
      fun hnone hstarted siteId hattached => ?_⟩
    · rcases List.mem_or_eq_of_mem_set hth with hth | rfl
      · exact (hA.follows th hth).mono (Service.exec_grows hx)
      · exact (hA.follows _ (List.mem_of_getElem? hp)).step hx
    · refine covered_answered hV hr hA hgood hp hx hnone ?_ hattached
      obtain ⟨th, hth, hdisconnects⟩ := hstarted
      rcases List.mem_or_eq_of_mem_set hth with hth | rfl
      · exact ⟨th, hth, hdisconnects⟩
      · exact ⟨_, List.mem_of_getElem? hp, hdisconnects⟩
  · refine ⟨fun th hth => hA.follows th (List.mem_of_mem_eraseIdx hth),
      fun th hth => hA.informed th (List.mem_of_mem_eraseIdx hth),
      fun hnone hstarted siteId hattached => ?_⟩
    obtain ⟨started, hstarted, hdisconnects⟩ := hstarted
    obtain ⟨th, hth, hhas⟩ := hA.covered hnone
      ⟨started, List.mem_of_mem_eraseIdx hstarted, hdisconnects⟩ siteId hattached
    obtain ⟨u, hu⟩ := List.getElem?_of_mem hth
    by_cases hut : u = t
    · subst hut
      obtain ⟨v, th', hne, hv, hhas'⟩ := hgood.2.2 _ u th hfire hnone hu (.inl rfl) siteId hattached
        hhas
      exact ⟨th', List.mem_eraseIdx_iff_getElem?.mpr ⟨v, hne, hv⟩, hhas'⟩
    · exact ⟨th, List.mem_eraseIdx_iff_getElem?.mpr ⟨u, hut, hu⟩, hhas⟩
  · exact e.elim

theorem attended_of_run (hV : Service.AllValid (detachTerms U tenantId).Valid w₀.records)
    {c : Config (detachMachine U tenantId)} (hr : Run (Orderly U tenantId) ⟨w₀, []⟩ c) :
    Attended c :=
  Run.invariant (P := Attended) ⟨fun _ hth => absurd hth List.not_mem_nil,
    fun _ hth => absurd hth List.not_mem_nil,
    fun _ ⟨_, hth, _⟩ => absurd hth List.not_mem_nil⟩
    (fun _ _ _ hr hA hgood hf => attended_step hV hr hA hgood hf) hr

/-! ## Every run -/

/-- The move takes the connection to Search Console from a site. -/
def Detaches (c c' : Config (detachMachine U tenantId)) (siteId : String) : Prop :=
  (∃ site n, c.shared.records.current .site siteId = some (site, n) ∧ site.gsc.isSome = true) ∧
    ∃ site n, c'.shared.records.current .site siteId = some (site, n) ∧ site.gsc = none

variable (U tenantId) in
/-- Once a disconnection has returned, with no connection in use and no request under way, no
site refers to the grant; and a site is detached only while no connection is in use. -/
structure DisconnectDetaches (c : Config (detachMachine U tenantId)) : Prop where
  returned : (∃ th ∈ c.pool, th.kind = .googleDisconnect ∧ th.rest = .ret ()) →
    connectionOf c.shared tenantId = none → (∀ th ∈ c.pool, underWay U tenantId th = false) →
      ∀ siteId, ¬Attached tenantId c.shared.records siteId
  behind : ∀ m c' siteId, fire c m = some c' → Detaches c c' siteId →
    connectionOf c.shared tenantId = none

/-- The write that detaches a site is that of a disconnection which found no connection in use. -/
theorem armed_of_detaches (hV : Service.AllValid (detachTerms U tenantId).Valid w₀.records)
    {c c' : Config (detachMachine U tenantId)} {m : Move (M := detachMachine U tenantId)}
    {siteId : String} (hr : Run (Orderly U tenantId) ⟨w₀, []⟩ c) (hf : fire c m = some c')
    (h : Detaches c c' siteId) : ∃ th ∈ c.pool, armed U tenantId th = true := by
  obtain ⟨⟨before, n, hbefore, hhad⟩, ⟨after, n', hafter, hgone⟩⟩ := h
  have hsame : c'.shared.records.versions .site siteId = c.shared.records.versions .site siteId →
      ∃ th ∈ c.pool, armed U tenantId th = true := fun heq => by
    rw [Repository.current_congr heq, hbefore] at hafter
    obtain ⟨rfl, -⟩ := Prod.mk.inj (Option.some.inj hafter)
    rw [hgone] at hhad
    cases hhad
  obtain ⟨k, rfl, -, rfl⟩ | ⟨t, ch, k, o, f, past, r, s, rfl, hp, hx, rfl⟩ | ⟨t, rfl, rfl⟩ |
    ⟨e, -⟩ := fire_cases hf
  · exact hsame rfl
  · have hpermits := (Service.permitted_of_run detach_kept hV hr hp).1
    rcases Service.exec_records hx with hrecords | ⟨ws, rfl, hmade⟩
    · exact hsame (by rw [Config.answered, hrecords])
    · have hother : (∀ write ∈ ws, write.target.1 ≠ .site) →
          ∃ th ∈ c.pool, armed U tenantId th = true := fun hne =>
        hsame (Repository.commit_versions_of_ne hmade fun write hw heq =>
          hne write hw (by rw [heq]))
      cases k with
      | googleDisconnect =>
          rcases hpermits with ⟨-, hne⟩ | ⟨i, site, m, rfl, -, hchecked⟩
          · exact hother hne
          · exact ⟨_, List.mem_of_getElem? hp, hchecked⟩
      | googleCallback stateId code error browserNonce =>
          obtain ⟨write, rfl, hwrite⟩ := hpermits
          refine hother fun write' hw heq => ?_
          rw [List.mem_singleton.mp hw] at heq
          rcases hwrite with hsecret | hstate | ⟨connection, current, -, rfl⟩
          · rw [heq] at hsecret
            cases hsecret
          · rw [heq] at hstate
            cases hstate
          · rw [Service.overWrite_target (B := onboardingBackend)] at heq
            cases heq
      | configureGsc hasLister i' request =>
          obtain ⟨i, site, m, rfl, hgsc⟩ := hpermits
          have happend := (Repository.apply_replace (Repository.commit_singleton.mp hmade)).2
          by_cases hi : siteId = i
          · subst hi
            rw [Config.answered, happend, Repository.current_append_self] at hafter
            obtain ⟨rfl, -⟩ := Prod.mk.inj (Option.some.inj hafter)
            rw [hgone] at hgsc
            cases hgsc
          · refine hsame ?_
            rw [Config.answered, happend]
            exact Repository.versions_append_of_ne _ _ _ _ hi
  · exact hsame rfl
  · exact e.elim

/-- Over any interleaving of disconnections, sign-ins and requests that connect a site, in which
no site is connected late, no sign-in completes between the look and the write of a disconnection
and none of these is cut short with a site nobody else has to detach, disconnecting detaches. -/
theorem disconnect_detaches (hV : Service.AllValid (detachTerms U tenantId).Valid w₀.records)
    {c : Config (detachMachine U tenantId)} (hr : Run (Orderly U tenantId) ⟨w₀, []⟩ c) :
    DisconnectDetaches U tenantId c := by
  have hA := attended_of_run hV hr
  refine ⟨fun ⟨th, hth, hdisconnects, _⟩ hnone hidle siteId hattached => ?_,
    fun m c' siteId hf hdetaches => ?_⟩
  · obtain ⟨th', hth', hhas⟩ := hA.covered hnone ⟨th, hth, hdisconnects⟩ siteId hattached
    have hunderWay := hhas.underWay
    rw [hidle th' hth'] at hunderWay
    cases hunderWay
  · obtain ⟨th, hth, harmed⟩ := armed_of_detaches hV hr hf hdetaches
    exact hA.informed th hth harmed

end Tenant

/-! ## A disconnection alone -/

/-- The process has raised. -/
def hasRaised {I : Interface} : Prog I Unit → Bool
  | .raise _ => true
  | _ => false

/-- The operation connects neither the tenant nor a site of it. -/
def connectsNothing : GrantOp → Bool
  | .commit ws => !grants "t-1" ws && !connects "t-1" ws
  | _ => true

/-- The move takes no process away and makes none raise. -/
def endsNothing (c : Config (detachMachine Url.ascii "t-1")) :
    Move (M := detachMachine Url.ascii "t-1") → Bool
  | .stop _ => false
  | .act t ch =>
      (fire c (.act t ch)).all fun c' => c'.pool[t]?.all fun th => !hasRaised th.rest
  | _ => true

/-- Runs in which both is so. -/
def Calm : Condition (detachMachine Url.ascii "t-1") := fun c m =>
  eachOp (fun _ _ _ o _ => connectsNothing o = true) c m ∧ endsNothing c m = true

instance (c : Config (detachMachine Url.ascii "t-1"))
    (m : Move (M := detachMachine Url.ascii "t-1")) : Decidable (Calm c m) := by
  unfold Calm
  infer_instance

theorem orderly_of_calm (c : Config (detachMachine Url.ascii "t-1"))
    (m : Move (M := detachMachine Url.ascii "t-1")) (h : Calm c m) :
    Orderly Url.ascii "t-1" c m := by
  refine ⟨eachOp_mono (fun c k past o ch hcalm => ?_) h.1,
    eachOp_mono (fun c k past o ch hcalm => ?_) h.1, ?_⟩
  · cases o with
    | commit ws =>
        intro hgrants
        rw [connectsNothing, hgrants] at hcalm
        cases hcalm
    | _ => trivial
  · cases o with
    | commit ws =>
        intro hconnects
        rw [connectsNothing, hconnects, Bool.not_true, Bool.and_false] at hcalm
        cases hcalm
    | _ => trivial
  · rintro c' t th hfire - - (rfl | ⟨ch, th', e, rfl, hth', hraise⟩)
    · cases h.2
    · have hends := h.2
      rw [endsNothing, hfire, Option.all_some, hth', Option.all_some, hraise] at hends
      cases hends

/-- A site of the tenant, without a connection. -/
def homeSite : Site :=
  { siteId := "s-1", principalId := "t-1", name := "Home", baseUrl := homeUrl, createdAt := 1,
    updatedAt := 1 }

/-- Its property, through the grant. -/
def homeProperty : GSCConnectionConfig :=
  { propertyUrl := "sc-domain:home.example", credentialRef := tenantCredentialRef "t-1",
    authMode := googleAccountAuthMode, rowLimit := 25000 }

def connectedHome : Site := { homeSite with gsc := some homeProperty }

def homeConnection : GoogleConnection :=
  { tenantId := "t-1", scopes := [searchConsoleReadonly],
    credentialRef := tenantCredentialRef "t-1", connectedAt := 1 }

/-- A tenant with a connection in use and one site. -/
def tenantWith (site : Site) : GrantWorld :=
  ⟨((Repository.empty.append .site "s-1" site).append .googleConnection "t-1" homeConnection).append
    .siteSecret (tokenKey "t-1") (newSecret "t-1" (tenantSlot "t-1") refreshTokenName "r-1"), {}⟩

theorem valid_tenantWith {site : Site} (h : site.siteId = "s-1") :
    Service.AllValid detachValid (tenantWith site).records := by
  intro t i v hv
  cases t with
  | site =>
      have hsite : v ∈ ((Repository.empty : SiteRecords).append .site "s-1" site).versions
          .site i := hv
      rw [Repository.versions_append] at hsite
      split at hsite
      · next hi =>
          obtain rfl : v = site := by simpa [Repository.empty] using hsite
          exact h.trans hi.symm
      · exact absurd hsite (by simp [Repository.empty])
  | siteSecret => trivial
  | googleOauthState => trivial
  | googleConnection => trivial

/-- A disconnection up to its listing of the sites, as the process `t`. -/
def disconnecting (t : Nat) : List (Move (M := detachMachine Url.ascii "t-1")) :=
  [.spawn .googleDisconnect, .act t .done, .act t .done, .act t .done, .act t (.ext .done),
    .act t (.ext (.status 200)), .act t .done, .act t .done, .act t (.clock 2), .act t .done,
    .act t .done, .act t .done]

/-- A disconnection that has returned. -/
def hasDisconnected (th : Thread (detachMachine Url.ascii "t-1")) : Bool :=
  match th.kind, th.rest with
  | .googleDisconnect, .ret _ => true
  | _, _ => false

/-- What can be seen of a state: which processes are disconnections that have returned and which
are under way, whether a connection is in use, and which sites refer to the grant. -/
def seenOf (c : Config (detachMachine Url.ascii "t-1")) :
    List (Bool × Bool) × Bool × List Bool :=
  (c.pool.map fun th => (hasDisconnected th, underWay Url.ascii "t-1" th),
    (connectionOf c.shared "t-1").isSome,
    (c.shared.records.list .site).entries.map fun entry =>
      entry.2.1.principalId = "t-1" && readsGrant "t-1" entry.2.1)

set_option maxRecDepth 20000 in
theorem disconnect_detaches_home : ∃ c, seenOf c = ([(true, false)], false, [false]) ∧
    DisconnectDetaches Url.ascii "t-1" c := by
  have h : (firesIf Calm ⟨tenantWith connectedHome, []⟩ (disconnecting 0 ++
      [.act 0 .done, .act 0 .done, .act 0 (.clock 3), .act 0 .done])).map seenOf =
        some ([(true, false)], false, [false]) := by
    decide +kernel
  obtain ⟨c, hc, hs⟩ := Option.map_eq_some_iff.mp h
  exact ⟨c, hs, disconnect_detaches (valid_tenantWith rfl)
    ((Run.of_good_moves hc).mono orderly_of_calm)⟩

/-! ## A site connected late -/

/-- A request to connect the site through the grant, up to its look at the connection. -/
def connecting : List (Move (M := detachMachine Url.ascii "t-1")) :=
  [.spawn (.configureGsc false "s-1"
    { propertyUrl := "sc-domain:home.example", useGoogleAccount := true }),
    .act 0 .done, .act 0 .done]

set_option maxRecDepth 20000 in
/-- A disconnection returns between the look of another request and its write, which connects
the site. -/
theorem connected_late : ¬∀ w₀ c, Service.AllValid detachValid w₀.records →
    Run (M := detachMachine Url.ascii "t-1") anyMove ⟨w₀, []⟩ c →
      DisconnectDetaches Url.ascii "t-1" c := by
  intro hall
  have h : (fires ⟨tenantWith homeSite, []⟩ (connecting ++ disconnecting 1 ++
      [.act 1 .done, .act 0 .done, .act 0 (.clock 3), .act 0 .done])).map seenOf =
        some ([(false, false), (true, false)], false, [true]) := by
    decide +kernel
  obtain ⟨c, hc, hs⟩ := Option.map_eq_some_iff.mp h
  obtain ⟨hpool, hs⟩ := Prod.mk.inj hs
  obtain ⟨hconnection, hsites⟩ := Prod.mk.inj hs
  have hdetaches := hall _ c (valid_tenantWith rfl) (Run.of_moves hc)
  have hreturned : ∃ th ∈ c.pool, th.kind = .googleDisconnect ∧ th.rest = .ret () := by
    have hmem : (true, false) ∈ c.pool.map fun th =>
        (hasDisconnected th, underWay Url.ascii "t-1" th) := by
      rw [hpool]
      decide
    obtain ⟨⟨kind, rest, past⟩, hth, hseen⟩ := List.mem_map.mp hmem
    have hdone := (Prod.mk.inj hseen).1
    simp only [hasDisconnected] at hdone
    split at hdone
    · exact ⟨_, hth, rfl, rfl⟩
    · cases hdone
  have hidle : ∀ th ∈ c.pool, underWay Url.ascii "t-1" th = false := by
    intro th hth
    have hmem := List.mem_map_of_mem (f := fun th =>
      (hasDisconnected th, underWay Url.ascii "t-1" th)) hth
    rw [hpool] at hmem
    rcases List.mem_cons.mp hmem with heq | hmem
    · exact (Prod.mk.inj heq).2
    · exact (Prod.mk.inj (List.mem_singleton.mp hmem)).2
  obtain ⟨⟨siteId, site, n⟩, hentry, hattached⟩ : ∃ entry ∈ (c.shared.records.list .site).entries,
      (entry.2.1.principalId = "t-1" && readsGrant "t-1" entry.2.1) = true := by
    have hmem : true ∈ (c.shared.records.list .site).entries.map fun entry =>
        (entry.2.1.principalId = "t-1" && readsGrant "t-1" entry.2.1 : Bool) := by
      rw [hsites]
      decide
    exact List.mem_map.mp hmem
  rw [Bool.and_eq_true, decide_eq_true_eq] at hattached
  exact hdetaches.returned hreturned (Option.not_isSome_iff_eq_none.mp
    (by rw [hconnection]; exact Bool.false_ne_true)) hidle siteId
      ⟨site, n, Repository.mem_list_iff.mp hentry, hattached⟩

end SeoAgent.Onboarding
