import SeoAgent.Onboarding.SiteEndpoints
import SeoAgent.Verified.Asks

/-!
# The operator's Search Console credential

`SharedProven` is the rule about one site record: with the operator's credential it is
proven and has its own property. Every request makes its write from a copy of a record
that was stored, so the rule holds of what it writes, however old the copy is; the
readers of Search Console work on stored records too.

## Main results

* `onboarding_kept` — every request stores only sites that keep the rule, and names and
  reads only properties that it allows.
* `shared_credential_proven` — in every reachable state of any interleaving.
-/

namespace SeoAgent.Onboarding

open SeoAgent.Verified Url Prog Machine
open Service (iface World Terms)

section Shared
variable (U : Unicode)

/-! ## The rule -/

/-- A proven site and a property of its own. -/
def Proven (site : Site) (property : String) : Prop :=
  site.ownershipVerifiedAt ≠ none ∧
    propertyMatchesSite U property site.baseUrl.text = some true

/-- With the operator's credential a site is proven and has its own property. -/
def SharedProven (site : Site) : Prop :=
  ∀ gsc, site.gsc = some gsc → credentialIsShared gsc.credentialRef = true →
    Proven U site gsc.propertyUrl

/-- What is named or read with the operator's credential is the site's own. -/
def ReadingProven (reading : Reading) : Prop :=
  credentialIsShared reading.credential = true → Proven U reading.site reading.property

/-- What may be stored. -/
def onboardingValid : (t : OnboardingType) → String → t.Payload → Prop
  | .site, i, site => site.siteId = i ∧ SharedProven U site
  | .googleConnection, i, connection =>
      connection.tenantId = i ∧ connection.credentialRef.provider = .database
  | .siteSecret, _, _ => True
  | .googleOauthState, i, state => state.stateId = i

/-- What may be asked for. -/
def onboardingPermits : Service.Op onboardingBackend onboardingOutside → Prop
  | .ext (.listed site credential properties) =>
      ∀ property ∈ properties, ReadingProven U ⟨site, credential, property⟩
  | .ext (.fetch site gsc) => ReadingProven U ⟨site, gsc.credentialRef, gsc.propertyUrl⟩
  | _ => True

@[reducible] def onboardingTerms : Terms (onboardingProcesses U) where
  Valid := onboardingValid U
  permits := fun _ _ => onboardingPermits U

@[reducible] def onboardingContract : Contract (iface onboardingBackend onboardingOutside) where
  permits _ o := onboardingPermits U o ∧ Service.writesValid (onboardingValid U) o
  trusts := Service.readsValid (onboardingValid U)

/-- A request that keeps the terms, and what its value has. -/
abbrev Keeps {α : Type} (G : α → Prop) (p : OnboardingProc α) : Prop :=
  Gives (onboardingContract U) G p

variable {U}

/-! ## Operations -/

theorem findRecord_keeps {t : OnboardingType} {i : String} :
    Keeps U (fun found : Option (t.Payload × Nat) =>
      ∀ v n, found = some (v, n) → onboardingValid U t i v) (findRecord t i) := by
  refine gives_ask (fun _ => ⟨trivial, trivial⟩) fun found hfound v n heq => ?_
  rw [heq] at hfound
  exact hfound

theorem commitAll_keeps {ws : OnboardingWrites} (h : ∀ w ∈ ws, w.Carries (onboardingValid U)) :
    Keeps U (fun _ => True) (commitAll ws) :=
  gives_ask (fun _ => ⟨trivial, h⟩) fun _ _ => trivial

theorem commitOne_keeps {w : Repository.Write OnboardingType OnboardingType.Payload}
    (h : w.Carries (onboardingValid U)) : Keeps U (fun _ => True) (commitAll [w]) :=
  commitAll_keeps fun _ hw => List.mem_singleton.mp hw ▸ h

theorem saveOver_keeps {t : OnboardingType} {i : String} {v : t.Payload}
    (h : onboardingValid U t i v) : Keeps U (fun _ => True) (saveOver t i v) :=
  gives_bind findRecord_keeps fun current _ =>
    commitOne_keeps (Service.overWrite_carries (B := onboardingBackend) h current)

theorem readClock_keeps : Keeps U (fun _ => True) readClock :=
  gives_ask (fun _ => ⟨trivial, trivial⟩) fun _ _ => trivial

theorem makeId_keeps : Keeps U (fun _ => True) makeId :=
  gives_ask (fun _ => ⟨trivial, trivial⟩) fun _ _ => trivial

theorem askOutside_keeps {x : OnboardingOp} (h : onboardingPermits U (.ext x)) :
    Keeps U (fun _ => True) (askOutside x) :=
  gives_ask (fun _ => ⟨h, trivial⟩) fun _ _ => trivial

/-- A copy of a stored site. -/
theorem ownedSite_keeps {siteId principalId : String} :
    Keeps U (fun site => SharedProven U site) (ownedSite siteId principalId) := by
  refine gives_bind findRecord_keeps fun found hfound => ?_
  rcases found with _ | ⟨site, n⟩
  · exact gives_throw
  · dsimp only
    split
    · exact gives_throw
    · split
      · exact gives_throw
      · exact gives_pure (hfound site n rfl).2

theorem updateAfter_keeps {before : OnboardingWrites} {site : Site} (h : SharedProven U site)
    (hbefore : ∀ w ∈ before, w.Carries (onboardingValid U)) :
    Keeps U (fun _ => True) (updateAfter before site) := by
  refine gives_bind findRecord_keeps fun found _ => ?_
  rcases found with _ | ⟨current, version⟩
  · exact gives_throw
  · dsimp only
    split
    · exact gives_throw
    · refine gives_bind readClock_keeps fun at_ _ => commitAll_keeps fun w hw => ?_
      rcases List.mem_append.mp hw with hw | hw
      · exact hbefore w hw
      · rw [List.mem_singleton.mp hw]
        exact ⟨rfl, h⟩

theorem updateSite_keeps {site : Site} (h : SharedProven U site) :
    Keeps U (fun _ => True) (updateSite site) :=
  updateAfter_keeps h fun _ hw => absurd hw List.not_mem_nil

theorem listAllSites_keeps :
    Keeps U (fun sites => ∀ site ∈ sites, SharedProven U site) listAllSites := by
  have hlist : Keeps U (fun found : Listing (Site × Nat) =>
      ∀ entry ∈ found.entries, SharedProven U entry.2.1)
      (Service.list (B := onboardingBackend) (X := onboardingOutside) .site) :=
    gives_ask (fun _ => ⟨trivial, trivial⟩) fun found hfound entry hmem => (hfound entry hmem).2
  refine gives_bind hlist fun found hfound => gives_pure fun site hsite => ?_
  obtain ⟨entry, hentry, rfl⟩ := List.mem_map.mp hsite
  exact hfound entry hentry

theorem listForTenant_keeps {tenantId : String} :
    Keeps U (fun sites => ∀ site ∈ sites, SharedProven U site) (listForTenant tenantId) :=
  gives_bind listAllSites_keeps fun _ hfound =>
    gives_pure fun site hsite => hfound site (List.mem_filter.mp hsite).1

/-! ## Google -/

theorem vaultPut_keeps {tenantId siteId name value : String} :
    Keeps U (fun ref => ref.provider = .database) (vaultPut tenantId siteId name value) := by
  unfold vaultPut
  split
  · exact gives_throw
  · exact gives_bind (saveOver_keeps trivial) fun _ _ => gives_pure rfl

theorem vaultGet_keeps {aggregateId : String} : Keeps U (fun _ => True) (vaultGet aggregateId) := by
  refine gives_bind findRecord_keeps fun found _ => ?_
  rcases found with _ | ⟨stored, n⟩
  · exact gives_throw
  · dsimp only
    split
    · exact gives_throw
    · exact askOutside_keeps trivial

theorem vaultErase_keeps {aggregateId : String} :
    Keeps U (fun _ => True) (vaultErase aggregateId) := by
  refine gives_bind findRecord_keeps fun found _ => ?_
  rcases found with _ | ⟨stored, n⟩
  · exact gives_pure trivial
  · exact commitOne_keeps trivial

/-- The credential of a connection is the tenant's. -/
theorem readConnection_keeps {tenantId : String} :
    Keeps U (fun found => ∀ connection, found = some connection →
      onboardingValid U .googleConnection tenantId connection) (readConnection tenantId) := by
  refine gives_bind findRecord_keeps fun found hfound => gives_pure fun connection heq => ?_
  rcases found with _ | ⟨stored, n⟩
  · cases heq
  · unfold liveConnection at heq
    split at heq
    · next heq' =>
        split at heq
        · cases heq
          exact hfound _ _ heq'
        · cases heq
    · cases heq

theorem revokeHeld_keeps {key : String} {held : Bool} :
    Keeps U (fun _ => True) (revokeHeld key held) := by
  cases held with
  | false => exact gives_pure trivial
  | true =>
      refine gives_bind (gives_tryCatch vaultGet_keeps fun _ => gives_throw) fun token _ => ?_
      refine gives_bind (gives_tryCatch (askOutside_keeps trivial) fun _ => gives_throw)
        fun status _ => ?_
      split
      · exact gives_pure trivial
      · exact gives_throw

theorem oauthDisconnect_keeps {tenantId : String} :
    Keeps U (fun _ => True) (oauthDisconnect tenantId) := by
  have hholds : ∀ key, Keeps U (fun _ => True) (vaultHolds key) := fun key =>
    gives_bind findRecord_keeps fun _ _ => gives_pure trivial
  refine gives_bind readConnection_keeps fun found hfound => ?_
  cases found with
  | none => exact gives_pure trivial
  | some connection =>
      refine gives_bind (hholds _) fun held _ => ?_
      refine gives_bind revokeHeld_keeps fun revoked _ => ?_
      refine gives_bind vaultErase_keeps fun _ _ => ?_
      refine gives_bind readClock_keeps fun at_ _ => ?_
      exact gives_bind (saveOver_keeps ⟨rfl, (hfound connection rfl).2⟩) fun _ _ =>
        gives_pure trivial

theorem readState_keeps {stateId : String} : Keeps U (fun _ => True) (readState stateId) := by
  refine gives_bind findRecord_keeps fun found _ => ?_
  rcases found with _ | ⟨state, version⟩
  · exact gives_throw
  · refine gives_bind readClock_keeps fun at_ _ => ?_
    split
    · exact gives_throw
    · exact gives_pure trivial

theorem oauthStart_keeps {tenantId : String} : Keeps U (fun _ => True) (oauthStart tenantId) :=
  gives_bind makeId_keeps fun _ _ => gives_bind makeId_keeps fun _ _ =>
    gives_bind makeId_keeps fun _ _ => gives_bind readClock_keeps fun _ _ =>
      commitOne_keeps rfl

theorem oauthBegin_keeps {stateId : String} : Keeps U (fun _ => True) (oauthBegin stateId) := by
  refine gives_bind readState_keeps fun ⟨state, version⟩ _ => ?_
  dsimp only
  split
  · exact gives_throw
  · exact commitOne_keeps rfl

theorem connect_keeps {tenantId token : String} {email : Option String} {scopes : List String} :
    Keeps U (fun _ => True) (connect tenantId token email scopes) :=
  gives_bind vaultPut_keeps fun _ href => gives_bind readClock_keeps fun _ _ =>
    saveOver_keeps ⟨rfl, href⟩

theorem oauthComplete_keeps {stateId : String} {code error browserNonce : Option String} :
    Keeps U (fun _ => True) (oauthComplete stateId code error browserNonce) := by
  refine gives_bind readState_keeps fun ⟨state, version⟩ _ => ?_
  dsimp only
  split
  · exact gives_throw
  · refine gives_bind (commitOne_keeps rfl) fun _ _ => ?_
    split
    · exact gives_throw
    · split
      · exact gives_throw
      · refine gives_bind (askOutside_keeps trivial) fun ⟨status, body⟩ _ => ?_
        exact gives_bind (gives_ofExcept fun _ _ => trivial) fun _ _ => connect_keeps

/-! ## Sites -/

theorem createSite_keeps {principalId name : String} {baseUrl : HttpUrl} :
    Keeps U (fun _ => True) (createSite principalId name baseUrl) := by
  refine gives_bind listForTenant_keeps fun existing _ => ?_
  refine gives_bind (askOutside_keeps trivial) fun _ _ => ?_
  refine gives_bind makeId_keeps fun siteId _ => gives_bind readClock_keeps fun at_ _ => ?_
  exact gives_tryCatch (commitOne_keeps ⟨rfl, fun gsc hgsc => by cases hgsc⟩) fun _ => gives_throw

theorem getOwnership_keeps {siteId principalId : String} :
    Keeps U (fun _ => True) (getOwnership siteId principalId) := by
  refine gives_bind ownedSite_keeps fun site hsite => ?_
  split
  · exact gives_bind makeId_keeps fun token _ => updateSite_keeps hsite
  · exact gives_pure trivial

theorem verifyOwnership_keeps {siteId principalId : String} :
    Keeps U (fun _ => True) (verifyOwnership siteId principalId) := by
  refine gives_bind ownedSite_keeps fun site hsite => ?_
  refine gives_bind (askOutside_keeps trivial) fun proof _ => ?_
  cases proof with
  | none => exact gives_pure trivial
  | some method =>
      exact gives_bind readClock_keeps fun at_ _ => updateSite_keeps fun gsc hgsc hshared =>
        ⟨Option.some_ne_none _, (hsite gsc hgsc hshared).2⟩

theorem removeSite_keeps {siteId principalId : String} :
    Keeps U (fun _ => True) (removeSite siteId principalId) := by
  refine gives_bind ownedSite_keeps fun site hsite => ?_
  refine gives_bind (askOutside_keeps trivial) fun underWay _ => ?_
  split
  · exact gives_throw
  · exact updateSite_keeps hsite

theorem gscCredential_keeps {request : ConfigureGSCRequest} {tenantId : String} :
    Keeps U (fun _ => True) (gscCredential request tenantId) := by
  unfold gscCredential
  split
  · refine gives_bind readConnection_keeps fun found _ => ?_
    cases found with
    | none => exact gives_throw
    | some connection => exact gives_pure trivial
  · split
    · exact gives_throw
    · exact gives_pure trivial

/-- A shared credential is used for a proven site only. -/
theorem requireOwnership_ok {site : Site} {credential : SecretRef} {shared : Bool}
    (h : requireOwnership site credential = .ok shared) :
    shared = credentialIsShared credential ∧ (shared = true → site.ownershipVerifiedAt ≠ none) := by
  unfold requireOwnership at h
  split at h
  · next hown =>
      obtain rfl := Except.ok.inj h
      rw [Bool.not_eq_true'] at hown
      exact ⟨hown.symm, fun hfalse => by cases hfalse⟩
  · next hshared =>
      split at h
      · cases h
      · next hproven =>
          obtain rfl := Except.ok.inj h
          rw [Bool.not_eq_true', Bool.not_eq_false] at hshared
          exact ⟨hshared.symm, fun _ => hproven⟩

theorem listProperties_keeps {authMode : String} {reference : SecretRef} :
    Keeps U (fun _ => True) (listProperties authMode reference) :=
  gives_tryCatch (askOutside_keeps trivial) fun e => by
    cases e <;> exact gives_throw

theorem ownProperties_ok {site : Site} {properties own : List GSCProperty}
    (h : ownProperties U site properties = .ok own) :
    ∀ item ∈ own, propertyMatchesSite U item.siteUrl site.baseUrl.text = some true := by
  induction properties generalizing own with
  | nil =>
      obtain rfl := Except.ok.inj h
      exact fun _ hmem => absurd hmem List.not_mem_nil
  | cons first rest ih =>
      unfold ownProperties at h
      split at h
      · cases h
      · next keep hkeep =>
          cases hrest : ownProperties U site rest with
          | error e =>
              rw [hrest] at h
              cases h
          | ok others =>
              rw [hrest] at h
              obtain rfl := Except.ok.inj h
              intro item hmem
              split at hmem
              · next hk =>
                  rcases List.mem_cons.mp hmem with rfl | hmem
                  · rw [hkeep, hk]
                  · exact ih hrest item hmem
              · exact ih hrest item hmem

/-- An answer names only properties that may be named. -/
theorem answerWith_keeps {site : Site} {credential : SecretRef} {properties : List GSCProperty}
    (h : credentialIsShared credential = true → ∀ item ∈ properties, Proven U site item.siteUrl) :
    Keeps U (fun _ => True) (answerWith site credential properties) := by
  refine askOutside_keeps fun property hmem hshared => ?_
  obtain ⟨item, hitem, rfl⟩ := List.mem_map.mp hmem
  exact h hshared item hitem

theorem visibleProperties_ok {site : Site} {credential : SecretRef} {shared : Bool}
    {properties visible : List GSCProperty} (hshared : requireOwnership site credential = .ok shared)
    (h : visibleProperties U shared site properties = .ok visible) :
    credentialIsShared credential = true → ∀ item ∈ visible, Proven U site item.siteUrl := by
  obtain ⟨rfl, hproven⟩ := requireOwnership_ok hshared
  intro hcred item hitem
  unfold visibleProperties at h
  rw [if_pos hcred] at h
  exact ⟨hproven hcred, ownProperties_ok h item hitem⟩

theorem availableGscProperties_keeps {siteId principalId : String}
    {request : ConfigureGSCRequest} :
    Keeps U (fun _ => True) (availableGscProperties U siteId principalId request) := by
  refine gives_bind ownedSite_keeps fun site hsite => ?_
  refine gives_bind gscCredential_keeps fun ⟨credential, authMode⟩ _ => ?_
  refine gives_bind (gives_ofExcept fun _ h => h) fun shared hshared => ?_
  refine gives_bind listProperties_keeps fun properties _ => ?_
  refine gives_bind (gives_ofExcept fun _ h => h) fun visible hvisible => ?_
  exact answerWith_keeps (visibleProperties_ok hshared hvisible)

theorem requireListed_keeps {site : Site} {credential : SecretRef} {shared : Bool}
    {authMode : String} {request : ConfigureGSCRequest}
    (hshared : requireOwnership site credential = .ok shared)
    (hfits : fitsSite U shared request.propertyUrl site = some true) :
    Keeps U (fun _ => True) (requireListed U shared site credential authMode request) := by
  refine gives_bind listProperties_keeps fun properties _ => ?_
  refine gives_bind (gives_ofExcept fun _ h => h) fun visible hvisible => ?_
  split
  · exact gives_bind (answerWith_keeps (visibleProperties_ok hshared hvisible)) fun _ _ => gives_throw
  · next chosen hchosen =>
      split
      · exact gives_pure trivial
      · refine gives_bind (answerWith_keeps fun hcred item hitem => ?_) fun _ _ => gives_throw
        obtain ⟨rfl, hproven⟩ := requireOwnership_ok hshared
        have hname := List.find?_some hchosen
        rw [decide_eq_true_iff] at hname
        rw [List.mem_singleton.mp hitem, hname]
        unfold fitsSite at hfits
        rw [if_pos hcred] at hfits
        exact ⟨hproven hcred, hfits⟩

theorem configureGsc_keeps {hasLister : Bool} {siteId principalId : String}
    {request : ConfigureGSCRequest} :
    Keeps U (fun _ => True) (configureGsc U hasLister siteId principalId request) := by
  refine gives_bind ownedSite_keeps fun site hsite => ?_
  refine gives_bind gscCredential_keeps fun ⟨credential, authMode⟩ _ => ?_
  refine gives_bind (gives_ofExcept fun _ h => h) fun shared hshared => ?_
  split
  · exact gives_throw
  · exact gives_throw
  · next hfits =>
      have hlisted : Keeps U (fun _ => True)
          (requireListedIf U hasLister shared site credential authMode request) := by
        unfold requireListedIf
        split
        · exact requireListed_keeps hshared hfits
        · exact gives_pure trivial
      refine gives_bind hlisted fun _ _ => ?_
      refine gives_bind (gives_ofExcept fun _ h => h) fun propertyUrl hproperty => ?_
      refine updateSite_keeps fun gsc hgsc hcred => ?_
      obtain rfl := Option.some.inj hgsc
      obtain ⟨rfl, hproven⟩ := requireOwnership_ok hshared
      unfold fitsSite at hfits
      rw [if_pos hcred] at hfits
      refine ⟨hproven hcred, propertyMatchesSite_validated hfits ?_⟩
      cases hvalid : validatePropertyUrl request.propertyUrl with
      | error e =>
          rw [hvalid] at hproperty
          cases hproperty
      | ok stored =>
          rw [hvalid] at hproperty
          exact congrArg _ (Except.ok.inj hproperty)

theorem putSecrets_keeps {site : Site} {secrets : List (String × String)} :
    Keeps U (fun put => ∀ w ∈ put.1, w.Carries (onboardingValid U)) (putSecrets site secrets) := by
  induction secrets with
  | nil => exact gives_pure fun _ hw => absurd hw List.not_mem_nil
  | cons secret rest ih =>
      obtain ⟨name, value⟩ := secret
      unfold putSecrets
      split
      · exact gives_throw
      · split
        · exact gives_throw
        · refine gives_bind findRecord_keeps fun current _ => ?_
          refine gives_bind ih fun ⟨writes, refs⟩ hwrites => gives_pure fun w hw => ?_
          rcases List.mem_cons.mp hw with rfl | hw
          · exact Service.overWrite_carries (B := onboardingBackend) (V := onboardingValid U)
              (t := .siteSecret) trivial current
          · exact hwrites w hw

theorem configureSiteAdapter_keeps {siteId principalId : String}
    {request : ConfigureSiteAdapterRequest} :
    Keeps U (fun _ => True) (configureSiteAdapter siteId principalId request) := by
  refine gives_bind ownedSite_keeps fun site hsite => ?_
  split
  · exact gives_throw
  · split
    · exact gives_throw
    · refine gives_bind putSecrets_keeps fun ⟨writes, stored⟩ hwrites => ?_
      refine gives_bind (gives_tryCatch (askOutside_keeps trivial) fun _ => gives_throw)
        fun _ _ => ?_
      exact updateAfter_keeps hsite hwrites

theorem detachSites_keeps {tenantId : String} {sites : List Site}
    (h : ∀ site ∈ sites, SharedProven U site) :
    Keeps U (fun _ => True) (detachSites tenantId sites) := by
  induction sites with
  | nil => exact gives_pure trivial
  | cons site rest ih =>
      have hrest := ih fun other hmem => h other (List.mem_cons_of_mem site hmem)
      refine gives_bind readConnection_keeps fun connection _ => ?_
      split
      · exact gives_pure trivial
      · split
        · exact gives_bind (updateSite_keeps fun gsc hgsc => by cases hgsc) fun _ _ => hrest
        · exact hrest

theorem googleDisconnect_keeps {tenantId : String} :
    Keeps U (fun _ => True) (googleDisconnect tenantId) := by
  refine gives_bind (gives_tryCatch oauthDisconnect_keeps fun e => ?_) fun _ _ =>
    gives_bind listForTenant_keeps fun sites hsites => detachSites_keeps hsites
  cases e <;> exact gives_throw

/-! ## Readers -/

theorem analyse_keeps {siteId : String} : Keeps U (fun _ => True) (analyse siteId) := by
  refine gives_bind findRecord_keeps fun found hfound => ?_
  rcases found with _ | ⟨site, n⟩
  · exact gives_throw
  · dsimp only
    split
    · exact gives_throw
    · split
      · exact gives_throw
      · next gsc hgsc => exact askOutside_keeps ((hfound site n rfl).2 gsc hgsc)

theorem syncSites_keeps {sites : List Site} (h : ∀ site ∈ sites, SharedProven U site) :
    Keeps U (fun _ => True) (syncSites U sites) := by
  induction sites with
  | nil => exact gives_pure trivial
  | cons site rest ih =>
      have hrest := ih fun other hmem => h other (List.mem_cons_of_mem site hmem)
      unfold syncSites
      split
      · exact gives_throw
      · next gsc hgsc _ =>
          have hfetch := askOutside_keeps (U := U) (x := .fetch site gsc)
            (h site List.mem_cons_self gsc hgsc)
          exact gives_bind (gives_tryCatch hfetch fun _ => gives_pure trivial) fun _ _ => hrest
      · exact hrest

theorem syncRound_keeps : Keeps U (fun _ => True) (syncRound U) :=
  gives_bind listAllSites_keeps fun _ hsites => syncSites_keeps hsites

/-! ## Every run -/

theorem onboarding_kept : (onboardingTerms U).Kept := by
  intro k
  cases k with
  | createSite principalId name baseUrl => exact createSite_keeps.keeps
  | getOwnership siteId principalId => exact getOwnership_keeps.keeps
  | verifyOwnership siteId principalId => exact verifyOwnership_keeps.keeps
  | removeSite siteId principalId => exact removeSite_keeps.keeps
  | availableGscProperties siteId principalId request => exact availableGscProperties_keeps.keeps
  | configureGsc hasLister siteId principalId request => exact configureGsc_keeps.keeps
  | configureSiteAdapter siteId principalId request => exact configureSiteAdapter_keeps.keeps
  | oauthStart tenantId => exact oauthStart_keeps.keeps
  | oauthBegin stateId => exact oauthBegin_keeps.keeps
  | oauthComplete stateId code error browserNonce => exact oauthComplete_keeps.keeps
  | googleDisconnect tenantId => exact googleDisconnect_keeps.keeps
  | analyse siteId => exact analyse_keeps.keeps
  | syncRound => exact syncRound_keeps.keeps

/-- What is named or read is recorded as it was permitted. -/
theorem readings_exec {s s' : OnboardingState} {x : OnboardingOp} {ch : OnboardingChoice}
    {r : Except OnboardingExc x.Res} (hp : onboardingPermits U (.ext x))
    (he : onboardingExec s x ch = some (r, s'))
    (h : ∀ reading ∈ s.readings, ReadingProven U reading) :
    ∀ reading ∈ s'.readings, ReadingProven U reading := by
  unfold onboardingExec at he
  split at he
  case h_10 =>
      cases he
      intro reading hmem
      rcases List.mem_append.mp hmem with hmem | hmem
      · obtain ⟨property, hproperty, rfl⟩ := List.mem_map.mp hmem
        exact hp property hproperty
      · exact h reading hmem
  case h_11 =>
      cases he
      intro reading hmem
      rcases List.mem_cons.mp hmem with rfl | hmem
      · exact hp
      · exact h reading hmem
  case h_3 =>
      cases he
      split
      · exact h
      · exact h
  all_goals
    cases he
    try exact h

/-- In every reachable state of any interleaving of the requests, every stored site with
the operator's credential is proven and has its own property, and so had every property
that was named to a tenant or read for one with that credential. -/
theorem shared_credential_proven {c : Config (onboardingMachine U)}
    (hr : Run anyMove ⟨nothingStored, []⟩ c) :
    (∀ siteId, ∀ site ∈ c.shared.records.versions .site siteId, SharedProven U site) ∧
      ∀ reading ∈ c.shared.outside.readings, ReadingProven U reading := by
  have hstart : Service.AllValid (onboardingTerms U).Valid (nothingStored).records :=
    fun _ _ _ h => absurd h List.not_mem_nil
  refine ⟨fun siteId site hmem => ?_, ?_⟩
  · exact (Service.valid_of_run onboarding_kept hstart hr .site siteId site hmem).2
  · exact Service.outside_permitted (J := fun s => ∀ reading ∈ s.readings, ReadingProven U reading)
      onboarding_kept hstart (fun hp he h => readings_exec hp he h) (fun h => by nomatch h)
      (fun _ h => absurd h List.not_mem_nil) hr

end Shared

/-! ## A run -/

def shopUrl : HttpUrl where
  text := "https://shop.example/"
  plain := by simp [HasSpace, Text.isSpace]

/-- The domain property of the shop, through a credential of the server. -/
def shopRequest : ConfigureGSCRequest :=
  { propertyUrl := "sc-domain:shop.example", credentialRef := some "GOOGLE_KEY" }

/-- A site is made, proven, connected with the operator's credential and synced. -/
def connected : List (Move (M := onboardingMachine ascii)) :=
  [.spawn (.createSite "t-1" "Shop" shopUrl), .act 0 .done, .act 0 (.ext .done),
    .act 0 (.name "s-1"), .act 0 (.clock 1), .act 0 .done,
    .spawn (.verifyOwnership "s-1" "t-1"), .act 1 .done, .act 1 (.ext (.method (some "meta_tag"))),
    .act 1 (.clock 2), .act 1 .done, .act 1 (.clock 3), .act 1 .done,
    .spawn (.configureGsc false "s-1" "t-1" shopRequest), .act 2 .done, .act 2 .done,
    .act 2 (.clock 4), .act 2 .done,
    .spawn .syncRound, .act 3 .done, .act 3 (.ext .done)]

set_option maxRecDepth 20000 in
theorem shared_credential_proven_connected : ∃ c : Config (onboardingMachine ascii),
    c.shared.outside.readings.map Reading.property = ["sc-domain:shop.example"] ∧
      (∀ siteId, ∀ site ∈ c.shared.records.versions .site siteId, SharedProven ascii site) ∧
      ∀ reading ∈ c.shared.outside.readings, ReadingProven ascii reading := by
  have h : (fires ⟨nothingStored, []⟩ connected).map (fun c =>
      c.shared.outside.readings.map Reading.property) = some ["sc-domain:shop.example"] := by
    decide +kernel
  obtain ⟨c, hc, hs⟩ := Option.map_eq_some_iff.mp h
  exact ⟨c, hs, shared_credential_proven (Run.of_moves hc)⟩

end SeoAgent.Onboarding
