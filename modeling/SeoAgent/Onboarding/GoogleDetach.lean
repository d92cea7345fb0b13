import SeoAgent.Onboarding.GoogleGrant
import SeoAgent.Onboarding.Parts
import SeoAgent.Onboarding.SiteRoom

/-!
# Detaching sites from Google

`google_disconnect` revokes the grant of a tenant, records that and detaches the sites that
read through it (`app/api/app.py`); `google_callback` completes a sign-in and `configure_gsc`
connects a site. The connection and every site are records of their own, so a request that has
read one works on what it read while the others go on.

A disconnection *has a site to detach* until it has listed the sites, and after that while the
site is still as it was listed. Three things break what it does, and a run is `Orderly` without
them: a site that is connected late, after every disconnection has listed; a sign-in that
completes between a disconnection's look at the connection and its write; and a disconnection
that is cut short with a site nobody else has to detach.

## Main results

* `detachSites_ends` — a disconnection returns when it saw a connection in use, or has written
  every site that was listed with the grant.
* `detach_kept` — what the requests write, and after which answers.
-/

namespace SeoAgent.Onboarding

open SeoAgent.Verified Machine
open Service (iface World Terms)

/-! ## The machine -/

/-- The requests of one tenant. -/
inductive DetachKind
  | googleDisconnect
  | googleCallback (stateId : String) (code error browserNonce : Option String)
  | configureGsc (hasLister : Bool) (siteId : String) (request : ConfigureGSCRequest)

section Tenant
variable (U : Url.Unicode) (tenantId : String)

def detachBody : DetachKind → OnboardingProc Unit
  | .googleDisconnect => googleDisconnect tenantId
  | .googleCallback stateId code error browserNonce => oauthComplete stateId code error browserNonce
  | .configureGsc hasLister siteId request => configureGsc U hasLister siteId tenantId request

/-- Any number of them at once. -/
@[reducible] def detachProcesses : Service.Processes onboardingBackend onboardingOutside where
  Kind := DetachKind
  body := detachBody U tenantId
  admits := fun _ _ => true

@[reducible] def detachMachine : Machine (iface onboardingBackend onboardingOutside) :=
  Service.machine (detachProcesses U tenantId)

/-- The site reads Search Console through the grant of the tenant. -/
def readsGrant (site : Site) : Bool := site.gsc.any (·.credentialRef = tenantCredentialRef tenantId)

/-- A site of the tenant that refers to its grant. -/
def Attached (records : SiteRecords) (siteId : String) : Prop :=
  ∃ site n, records.current .site siteId = some (site, n) ∧ site.principalId = tenantId ∧
    readsGrant tenantId site = true

/-! ## What a disconnection was answered -/

/-- The sites that were written since the sites were listed. -/
def detachedIn : OnboardingPast → List String
  | ⟨.list .site, .ok _⟩ :: _ => []
  | ⟨.commit [.replace .site siteId _ _], .ok _⟩ :: past => siteId :: detachedIn past
  | _ :: past => detachedIn past
  | [] => []

/-- The last look at the connection, after the sites were listed, found none in use. -/
def checked : OnboardingPast → Bool
  | ⟨.find .googleConnection i, .ok found⟩ :: past =>
      i = tenantId && (liveConnection found).isNone && (listedIn past).isSome
  | ⟨.find .googleConnection _, .error _⟩ :: _ => false
  | _ :: past => checked past
  | [] => false

/-- The connection in use that the last answer was. -/
def sawConnection : OnboardingPast → Bool
  | ⟨.find .googleConnection i, .ok found⟩ :: _ => i = tenantId && (liveConnection found).isSome
  | _ => false

/-- A request that is under way. -/
def underWay (th : Thread (detachMachine U tenantId)) : Bool := th.rest.next?.isSome

/-- A disconnection that found no connection in use and is about to detach a site. -/
def armed (th : Thread (detachMachine U tenantId)) : Bool :=
  match th.kind, th.rest.next? with
  | .googleDisconnect, some (.find .googleConnection _) => false
  | .googleDisconnect, some _ => checked tenantId th.past
  | _, _ => false

/-- A disconnection under way that has not listed the sites, or has listed this one as it
still is. -/
structure HasToDetach (records : SiteRecords) (siteId : String)
    (th : Thread (detachMachine U tenantId)) : Prop where
  disconnects : th.kind = .googleDisconnect
  underWay : underWay U tenantId th = true
  listed : ∀ sites, listedIn th.past = some sites →
    ∃ x, (siteId, x) ∈ sites.entries ∧ records.current .site siteId = some x

/-! ## Conditions on a run -/

/-- The transaction makes a site of the tenant refer to its grant. -/
def grants (ws : OnboardingWrites) : Bool :=
  ws.any fun
    | .create .site _ site => site.principalId = tenantId && readsGrant tenantId site
    | .replace .site _ site _ => site.principalId = tenantId && readsGrant tenantId site
    | .ensure .site _ site => site.principalId = tenantId && readsGrant tenantId site
    | _ => false

/-- The transaction records a connection in use. -/
def connects (ws : OnboardingWrites) : Bool :=
  ws.any fun
    | .create .googleConnection i connection => i = tenantId && connection.disconnectedAt.isNone
    | .replace .googleConnection i connection _ => i = tenantId && connection.disconnectedAt.isNone
    | .ensure .googleConnection i connection => i = tenantId && connection.disconnectedAt.isNone
    | _ => false

/-- A site is connected while the connection is in use, or before some disconnection has listed
the sites. -/
def ConnectsInTime : Condition (detachMachine U tenantId) :=
  eachOp fun c _ _ o _ =>
    match o with
    | .commit ws => grants tenantId ws = true → (connectionOf c.shared tenantId).isSome = true ∨
        ∃ th ∈ c.pool, th.kind = .googleDisconnect ∧ underWay U tenantId th = true ∧
          listedIn th.past = none
    | _ => True

/-- No sign-in records its connection while a disconnection is about to detach a site. -/
def ConnectsAside : Condition (detachMachine U tenantId) :=
  eachOp fun c _ _ o _ =>
    match o with
    | .commit ws => connects tenantId ws = true → ∀ th ∈ c.pool, armed U tenantId th = false
    | _ => True

/-- The move ends the process at `t` early: it is taken away, or raises. -/
def CutShort (m : Move (M := detachMachine U tenantId)) (t : Nat)
    (c' : Config (detachMachine U tenantId)) : Prop :=
  m = .stop t ∨ ∃ ch th e, m = .act t ch ∧ c'.pool[t]? = some th ∧ th.rest = .raise e

/-- A disconnection that ends early, with no connection in use, leaves the sites it had to
detach to another one. -/
def LeavesToOthers : Condition (detachMachine U tenantId) := fun c m =>
  ∀ c' t th, fire c m = some c' → connectionOf c'.shared tenantId = none →
    c.pool[t]? = some th → CutShort U tenantId m t c' → ∀ siteId,
      Attached tenantId c'.shared.records siteId →
      HasToDetach U tenantId c.shared.records siteId th →
        ∃ u th', u ≠ t ∧ c.pool[u]? = some th' ∧
          HasToDetach U tenantId c.shared.records siteId th'

/-- None of the three. -/
def Orderly : Condition (detachMachine U tenantId) := fun c m =>
  ConnectsInTime U tenantId c m ∧ ConnectsAside U tenantId c m ∧ LeavesToOthers U tenantId c m

/-! ## What the requests write -/

/-- A site is stored under its id. -/
def detachValid : (t : OnboardingType) → String → t.Payload → Prop
  | .site, siteId, site => site.siteId = siteId
  | _, _, _ => True

/-- The writes of a sign-in. -/
def SignInWrite (w : Repository.Write OnboardingType OnboardingType.Payload) : Prop :=
  w.target.1 = .siteSecret ∨ w.target.1 = .googleOauthState ∨
    ∃ (connection : GoogleConnection) (current : Option (GoogleConnection × Nat)),
      connection.disconnectedAt = none ∧ w = Service.overWrite (B := onboardingBackend)
        .googleConnection connection.tenantId connection current

/-- The transactions of the requests, and what was read before. -/
def DetachCommit : DetachKind → OnboardingPast → OnboardingWrites → Prop
  | .googleDisconnect, past, ws =>
      (listedIn past = none ∧ ∀ w ∈ ws, w.target.1 ≠ .site) ∨
        ∃ siteId site n, ws = [.replace .site siteId site n] ∧ site.gsc = none ∧
          checked tenantId past = true
  | .googleCallback _ _ _ _, _, ws => ∃ w, ws = [w] ∧ SignInWrite w
  | .configureGsc _ _ _, _, ws =>
      ∃ siteId site n, ws = [.replace .site siteId site n] ∧ site.gsc.isSome = true

@[reducible] def detachTerms : Terms (detachProcesses U tenantId) where
  Valid := detachValid
  permits := fun k past o =>
    match o with
    | .commit ws => DetachCommit tenantId k past ws
    | _ => True

/-- A disconnection returns when it saw a connection in use, or has written every site that
was listed with the grant. -/
def Finished (past : OnboardingPast) : Prop :=
  sawConnection tenantId past = true ∨ ∃ sites, listedIn past = some sites ∧
    ∀ entry ∈ sites.entries, entry.2.1.principalId = tenantId →
      readsGrant tenantId entry.2.1 = true → entry.1 ∈ detachedIn past

def detachEnds : DetachKind → OnboardingPast → Except OnboardingExc Unit → Prop
  | .googleDisconnect => Prog.Returns fun past _ => Finished tenantId past
  | _ => fun _ _ => True

/-! ## The requests keep the terms -/

variable {U tenantId}

/-- Only sites have to be stored under their ids. -/
theorem carries_detachValid {w : Repository.Write OnboardingType OnboardingType.Payload}
    (h : w.target.1 ≠ .site) : w.Carries detachValid := by
  cases w with
  | create t i v => cases t <;> first | exact absurd rfl h | trivial
  | replace t i v n => cases t <;> first | exact absurd rfl h | trivial
  | ensure t i v => cases t <;> first | exact absurd rfl h | trivial

/-- A disconnection of Google is not about sites. -/
theorem oauthDisconnect_unlisted {past : OnboardingPast} (h : listedIn past = none) :
    Prog.wp ((detachTerms U tenantId).contract .googleDisconnect)
      (Prog.Returns fun past' _ => listedIn past' = none) (oauthDisconnect tenantId) past := by
  have htouches : Touches (fun t => t = .siteSecret ∨ t = .googleConnection) (fun _ => True)
      (oauthDisconnect tenantId) :=
    oauthDisconnect_touches (.inl rfl) (.inr rfl) (fun _ => trivial) fun _ => trivial
  refine Prog.returns_mono (fun _ _ hq => hq.2) (Prog.wp_within (F := fun past' =>
    listedIn past' = none) h (fun past' o hnone ho => ?_) (fun _ _ _ => trivial) (htouches past))
  cases o with
  | list t =>
      refine ⟨⟨trivial, trivial⟩, fun r => ?_⟩
      rcases ho with rfl | rfl
      · cases r <;> exact hnone
      · cases r <;> exact hnone
  | commit ws =>
      have hne : ∀ w ∈ ws, w.target.1 ≠ .site := fun w hw heq => by
        rcases ho w hw with h' | h'
        · rw [heq] at h'
          cases h'
        · rw [heq] at h'
          cases h'
      exact ⟨⟨.inl ⟨hnone, hne⟩, fun w hw => carries_detachValid (hne w hw)⟩, fun _ => hnone⟩
  | find t i => exact ⟨⟨trivial, trivial⟩, fun _ => hnone⟩
  | now => exact ⟨⟨trivial, trivial⟩, fun _ => hnone⟩
  | newId => exact ⟨⟨trivial, trivial⟩, fun _ => hnone⟩
  | ext x => exact ⟨⟨trivial, trivial⟩, fun _ => hnone⟩

/-- The sites that are still to be looked at are the listed ones that were not written. -/
structure LeftToDetach (tenantId : String) (rest : List Site) (past : OnboardingPast)
    (sites : Sites) : Prop where
  listed : listedIn past = some sites
  named : ∀ entry ∈ sites.entries, entry.2.1.siteId = entry.1
  left : ∀ entry ∈ sites.entries, entry.2.1.principalId = tenantId →
    readsGrant tenantId entry.2.1 = true → entry.2.1 ∈ rest ∨ entry.1 ∈ detachedIn past

/-- The write of a site that is detached, after a look at the connection. -/
theorem updateDetached {site : Site} {past : OnboardingPast} (h : checked tenantId past = true) :
    Prog.wp ((detachTerms U tenantId).contract .googleDisconnect)
      (Prog.Returns fun past' _ => listedIn past' = listedIn past ∧
        detachedIn past' = site.siteId :: detachedIn past)
      (updateSite { site with gsc := none }) past := by
  unfold updateSite updateAfter
  refine Prog.wp_ask_bind ⟨trivial, trivial⟩ (fun found _ => ?_) fun _ _ => trivial
  rcases found with _ | ⟨current, version⟩
  · trivial
  · dsimp only
    split
    · trivial
    · refine Prog.wp_ask_bind ⟨trivial, trivial⟩ (fun at_ _ => ?_) fun _ _ => trivial
      refine Prog.wp_ask ⟨.inr ⟨_, _, _, rfl, rfl, h⟩, fun w hw => ?_⟩ fun r _ => ?_
      · obtain rfl := List.mem_singleton.mp hw
        rfl
      · cases r with
        | ok _ => exact ⟨rfl, rfl⟩
        | error _ => trivial

/-- Sites are detached one after the other, each after a look at the connection. -/
theorem detachSites_ends {rest : List Site} {past : OnboardingPast} {sites : Sites}
    (h : LeftToDetach tenantId rest past sites) :
    Prog.wp ((detachTerms U tenantId).contract .googleDisconnect)
      (Prog.Returns fun past' _ => Finished tenantId past') (detachSites tenantId rest) past := by
  induction rest generalizing past with
  | nil =>
      exact .inr ⟨sites, h.listed, fun entry hentry howner hgrant =>
        (h.left entry hentry howner hgrant).resolve_left List.not_mem_nil⟩
  | cons site rest ih =>
      unfold detachSites readConnection
      rw [Prog.wp_bind, Prog.wp_bind]
      refine Prog.wp_ask ⟨trivial, trivial⟩ fun found _ => ?_
      cases found with
      | error e => trivial
      | ok found =>
          rw [Prog.after_ok, Prog.wp_pure, Prog.after_ok]
          cases hlive : liveConnection found with
          | some connection =>
              refine .inl ?_
              simp [sawConnection, hlive]
          | none =>
              rw [Option.isSome_none, if_neg Bool.false_ne_true]
              have hchecked : checked tenantId
                  (⟨.find .googleConnection tenantId, .ok found⟩ :: past) = true := by
                simp [checked, hlive, h.listed]
              split
              · next hgrant =>
                  refine Prog.returns_bind (updateDetached hchecked)
                    fun past' _ _ ⟨hlisted, hdone⟩ => ?_
                  refine ih ⟨hlisted.trans h.listed, h.named, fun entry hentry howner hreads => ?_⟩
                  rw [hdone]
                  rcases h.left entry hentry howner hreads with hmem | hbefore
                  · rcases List.mem_cons.mp hmem with rfl | hmem
                    · refine .inr ?_
                      rw [h.named entry hentry]
                      exact List.mem_cons_self
                    · exact .inl hmem
                  · exact .inr (List.mem_cons_of_mem _ hbefore)
              · next hgrant =>
                  refine ih ⟨h.listed, h.named, fun entry hentry howner hreads => ?_⟩
                  rcases h.left entry hentry howner hreads with hmem | hdone
                  · refine .inl ((List.mem_cons.mp hmem).resolve_left fun heq => hgrant ?_)
                    rw [← heq]
                    exact hreads
                  · exact .inr hdone

theorem googleDisconnect_ends :
    Prog.wp ((detachTerms U tenantId).contract .googleDisconnect)
      (Prog.Returns fun past _ => Finished tenantId past) (googleDisconnect tenantId) [] := by
  unfold googleDisconnect
  refine Prog.returns_bind (P := fun past' _ => listedIn past' = none)
    (Prog.wp_try (oauthDisconnect_unlisted rfl) (fun _ _ _ hq => hq) fun past' e _ _ => ?_)
    fun past _ _ hnone => ?_
  · split <;> trivial
  unfold listForTenant listAllSites
  rw [Prog.wp_bind, Prog.wp_bind, Prog.wp_bind]
  refine Prog.wp_ask ⟨trivial, trivial⟩ fun listed hlisted => ?_
  cases listed with
  | error e => trivial
  | ok sites =>
      rw [Prog.after_ok, Prog.wp_pure, Prog.after_ok, Prog.wp_pure, Prog.after_ok]
      refine detachSites_ends ⟨rfl, fun entry hentry => hlisted entry hentry,
        fun entry hentry howner _ => .inl ?_⟩
      exact List.mem_filter.mpr ⟨List.mem_map_of_mem hentry, decide_eq_true howner⟩

section SignIn
variable {stateId : String} {code error browserNonce : Option String}

/-- A part of a sign-in. -/
abbrev SignsIn (U : Url.Unicode) (tenantId stateId : String)
    (code error browserNonce : Option String) {α : Type} (p : OnboardingProc α) : Prop :=
  Prog.Gives ((detachTerms U tenantId).contract (.googleCallback stateId code error browserNonce))
    (fun _ => True) p

theorem commit_signsIn {w : Repository.Write OnboardingType OnboardingType.Payload}
    (h : SignInWrite w) (hsite : w.target.1 ≠ .site) :
    SignsIn U tenantId stateId code error browserNonce (commitAll [w]) :=
  Prog.gives_ask (fun _ => ⟨⟨w, rfl, h⟩, fun _ hw =>
    List.mem_singleton.mp hw ▸ carries_detachValid hsite⟩) fun _ _ => trivial

theorem find_signsIn {t : OnboardingType} {i : String} :
    SignsIn U tenantId stateId code error browserNonce (findRecord t i) :=
  Prog.gives_ask (fun _ => ⟨trivial, trivial⟩) fun _ _ => trivial

theorem readClock_signsIn : SignsIn U tenantId stateId code error browserNonce readClock :=
  Prog.gives_ask (fun _ => ⟨trivial, trivial⟩) fun _ _ => trivial

theorem saveOver_signsIn {t : OnboardingType} {i : String} {v : t.Payload} (hsite : t ≠ .site)
    (h : ∀ current, SignInWrite (Service.overWrite (B := onboardingBackend) t i v current)) :
    SignsIn U tenantId stateId code error browserNonce (saveOver t i v) := by
  refine Prog.gives_bind find_signsIn fun current _ => commit_signsIn (h current) ?_
  rw [Service.overWrite_target (B := onboardingBackend)]
  exact hsite

theorem vaultPut_signsIn {owner siteId name value : String} :
    SignsIn U tenantId stateId code error browserNonce (vaultPut owner siteId name value) := by
  unfold vaultPut
  split
  · exact Prog.gives_throw
  · refine Prog.gives_bind (saveOver_signsIn (fun h => by cases h) fun current => .inl ?_)
      fun _ _ => Prog.gives_pure trivial
    rw [Service.overWrite_target (B := onboardingBackend)]

theorem connect_signsIn {owner token : String} {email : Option String} {scopes : List String} :
    SignsIn U tenantId stateId code error browserNonce (connect owner token email scopes) := by
  refine Prog.gives_bind vaultPut_signsIn fun credentialRef _ => ?_
  refine Prog.gives_bind readClock_signsIn fun connectedAt _ => ?_
  exact saveOver_signsIn (fun h => by cases h) fun current => .inr (.inr
    ⟨{ tenantId := owner, email, scopes, credentialRef, connectedAt }, current, rfl, rfl⟩)

theorem readState_signsIn {id : String} :
    SignsIn U tenantId stateId code error browserNonce (readState id) := by
  refine Prog.gives_bind find_signsIn fun found _ => ?_
  rcases found with _ | ⟨state, version⟩
  · exact Prog.gives_throw
  · refine Prog.gives_bind readClock_signsIn fun at_ _ => ?_
    split
    · exact Prog.gives_throw
    · exact Prog.gives_pure trivial

theorem oauthComplete_signsIn :
    SignsIn U tenantId stateId code error browserNonce
      (oauthComplete stateId code error browserNonce) := by
  refine Prog.gives_bind readState_signsIn fun ⟨state, version⟩ _ => ?_
  dsimp only
  split
  · exact Prog.gives_throw
  · refine Prog.gives_bind (commit_signsIn (.inr (.inl rfl)) fun h => by cases h) fun _ _ => ?_
    split
    · exact Prog.gives_throw
    · split
      · exact Prog.gives_throw
      · refine Prog.gives_bind (G := fun _ => True)
          (Prog.gives_ask (fun _ => ⟨trivial, trivial⟩) fun _ _ => trivial) fun _ _ => ?_
        exact Prog.gives_bind (Prog.gives_ofExcept fun _ _ => trivial) fun _ _ => connect_signsIn

end SignIn

section Configure
variable {hasLister : Bool} {siteId : String} {request : ConfigureGSCRequest}

/-- A part of `configure_gsc`. -/
abbrev Configures (U : Url.Unicode) (tenantId : String) (hasLister : Bool) (siteId : String)
    (request : ConfigureGSCRequest) {α : Type} (p : OnboardingProc α) : Prop :=
  Prog.Gives ((detachTerms U tenantId).contract (.configureGsc hasLister siteId request))
    (fun _ => True) p

theorem find_configures {t : OnboardingType} {i : String} :
    Configures U tenantId hasLister siteId request (findRecord t i) :=
  Prog.gives_ask (fun _ => ⟨trivial, trivial⟩) fun _ _ => trivial

theorem ask_configures {x : OnboardingOp} :
    Configures U tenantId hasLister siteId request (askOutside x) :=
  Prog.gives_ask (fun _ => ⟨trivial, trivial⟩) fun _ _ => trivial

theorem ownedSite_configures {i principalId : String} :
    Configures U tenantId hasLister siteId request (ownedSite i principalId) := by
  refine Prog.gives_bind find_configures fun found _ => ?_
  rcases found with _ | ⟨site, n⟩
  · exact Prog.gives_throw
  · dsimp only
    split
    · exact Prog.gives_throw
    · split
      · exact Prog.gives_throw
      · exact Prog.gives_pure trivial

theorem gscCredential_configures {asked : ConfigureGSCRequest} {owner : String} :
    Configures U tenantId hasLister siteId request (gscCredential asked owner) := by
  unfold gscCredential
  split
  · refine Prog.gives_bind (G := fun _ => True)
      (Prog.gives_bind find_configures fun _ _ => Prog.gives_pure trivial) fun found _ => ?_
    cases found with
    | none => exact Prog.gives_throw
    | some connection => exact Prog.gives_pure trivial
  · split
    · exact Prog.gives_throw
    · exact Prog.gives_pure trivial

theorem requireListedIf_configures {shared : Bool} {site : Site} {credential : SecretRef}
    {authMode : String} :
    Configures U tenantId hasLister siteId request
      (requireListedIf U hasLister shared site credential authMode request) := by
  unfold requireListedIf
  split
  · have hlist : Configures U tenantId hasLister siteId request
        (listProperties authMode credential) :=
      Prog.gives_tryCatch ask_configures fun e => by cases e <;> exact Prog.gives_throw
    refine Prog.gives_bind hlist fun properties _ => ?_
    refine Prog.gives_bind (Prog.gives_ofExcept fun _ _ => trivial) fun visible _ => ?_
    split
    · exact Prog.gives_bind ask_configures fun _ _ => Prog.gives_throw
    · split
      · exact Prog.gives_pure trivial
      · exact Prog.gives_bind ask_configures fun _ _ => Prog.gives_throw
  · exact Prog.gives_pure trivial

/-- What `configure_gsc` writes is a site with a connection. -/
theorem updateSite_configures {site : Site} (h : site.gsc.isSome = true) :
    Configures U tenantId hasLister siteId request (updateSite site) := by
  unfold updateSite updateAfter
  refine Prog.gives_bind find_configures fun found _ => ?_
  rcases found with _ | ⟨current, version⟩
  · exact Prog.gives_throw
  · dsimp only
    split
    · exact Prog.gives_throw
    · refine Prog.gives_bind (G := fun _ => True)
        (Prog.gives_ask (fun _ => ⟨trivial, trivial⟩) fun _ _ => trivial) fun at_ _ => ?_
      refine Prog.gives_ask (fun _ => ⟨⟨_, _, _, rfl, h⟩, fun w hw => ?_⟩) fun _ _ => trivial
      obtain rfl := List.mem_singleton.mp hw
      rfl

theorem configureGsc_configures :
    Configures U tenantId hasLister siteId request
      (configureGsc U hasLister siteId tenantId request) := by
  refine Prog.gives_bind ownedSite_configures fun site _ => ?_
  refine Prog.gives_bind gscCredential_configures fun ⟨credential, authMode⟩ _ => ?_
  refine Prog.gives_bind (Prog.gives_ofExcept fun _ _ => trivial) fun shared _ => ?_
  split
  · exact Prog.gives_throw
  · exact Prog.gives_throw
  · refine Prog.gives_bind requireListedIf_configures fun _ _ => ?_
    exact Prog.gives_bind (Prog.gives_ofExcept fun _ _ => trivial) fun propertyUrl _ =>
      updateSite_configures rfl

end Configure

/-- Every request keeps the terms, and a disconnection returns as it should. -/
theorem detach_ends (k : DetachKind) :
    Prog.wp ((detachTerms U tenantId).contract k) (detachEnds tenantId k) (detachBody U tenantId k)
      [] := by
  cases k with
  | googleDisconnect => exact googleDisconnect_ends
  | googleCallback stateId code error browserNonce => exact oauthComplete_signsIn.keeps
  | configureGsc hasLister siteId request => exact configureGsc_configures.keeps

theorem detach_kept : (detachTerms U tenantId).Kept := fun k =>
  Prog.wp_mono (fun _ _ _ _ => trivial) (detach_ends k)

end Tenant

end SeoAgent.Onboarding
