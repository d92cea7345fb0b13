import SeoAgent.Onboarding.Parts
import SeoAgent.Onboarding.SharedCredential

/-!
# Updates of a site

Every request that edits a site works on the first copy it reads and saves through
`SiteStore.update`, which reads the site again and compares time stamps. Equal stamps stand
for equal versions as long as no two versions of a site carry the same one.

## Main results

* `site_updates_kept` — a request reads a site twice before it updates it, and the two
  copies have the same stamp.
* `accepted_current` — with distinct stamps the store accepts an update only over the copy
  it was computed from.
* `no_lost_update` — in every run whose clock gives each update a new stamp.
* `update_lost` — in a run whose clock stands still an update is lost.
-/

namespace SeoAgent.Onboarding

open SeoAgent.Verified Url Prog Machine
open Service (iface World Terms Told)

/-! ## What a process has read of a site -/

/-- The version of a site that an answer shows. -/
def siteRead (i : String) :
    (iface onboardingBackend onboardingOutside).Event → Option (Site × Nat)
  | ⟨.find .site j, .ok found⟩ => if j = i then found else none
  | ⟨.list .site, .ok found⟩ => found.entries.lookup i
  | _ => none

/-- The versions of a site that were read, the last one first. -/
def siteReads (past : OnboardingPast) (i : String) : List (Site × Nat) :=
  past.filterMap (siteRead i)

/-- The copy of a site that a process works on: the first one it read. -/
def copyOf (past : OnboardingPast) (i : String) : Option (Site × Nat) :=
  (siteReads past i).getLast?

theorem siteReads_of_leaves {o : OnboardingOperation} (h : touches (· ≠ .site) (fun _ => True) o) (past : OnboardingPast)
    (r : (iface onboardingBackend onboardingOutside).Answer o) :
    siteReads (⟨o, r⟩ :: past) = siteReads past := by
  funext i
  have hnone : siteRead i ⟨o, r⟩ = none := by
    cases o with
    | find t j => cases t <;> first | exact absurd rfl h | rfl
    | list t => cases t <;> first | exact absurd rfl h | rfl
    | commit ws => rfl
    | now => rfl
    | newId => rfl
    | ext x => rfl
  rw [siteReads, List.filterMap_cons_none hnone]
  rfl

/-- What was read of a site is a version of it. -/
theorem siteRead_told {r : OnboardingRecords} {past : OnboardingPast} (h : Told r past) {i : String}
    {site : Site} {n : Nat} (hmem : (site, n) ∈ siteReads past i) :
    r.versionAt .site i n = some site := by
  obtain ⟨ev, hev, hread⟩ := List.mem_filterMap.mp hmem
  obtain ⟨before, rest, rfl⟩ := List.append_of_mem hev
  refine h _ (List.suffix_append before _) .site i site n ?_
  unfold siteRead at hread
  split at hread
  · next j found =>
      split at hread
      · next hij =>
          subst hij
          rw [Service.seen_find]
          exact hread
      · cases hread
  · rw [Service.seen_list]
    exact hread
  · cases hread

/-! ## The terms -/

/-- The transactions: a new site, a site in the place of what was read again, with the
stamp of the copy it was computed from, or nothing of sites. -/
inductive SiteCommit (past : OnboardingPast) : OnboardingWrites → Prop
  | other {ws : OnboardingWrites} (leaves : ∀ w ∈ ws, w.target.1 ≠ .site) : SiteCommit past ws
  | create {i : String} {site : Site} : SiteCommit past [.create .site i site]
  | update {before : OnboardingWrites} {site copy current : Site} {m n : Nat} {at_ : Int}
      (read : siteReads past site.siteId = [(current, n), (copy, m)])
      (copied : site.updatedAt = copy.updatedAt) (unchanged : current.updatedAt = copy.updatedAt)
      (leaves : ∀ w ∈ before, w.target.1 ≠ .site) :
      SiteCommit past
        (before ++ [.replace .site site.siteId { site with updatedAt := at_ } n])

def sitePermits (past : OnboardingPast) : OnboardingOperation → Prop
  | .commit ws => SiteCommit past ws
  | _ => True

/-- What may be stored. -/
def siteValid : (t : OnboardingType) → String → t.Payload → Prop
  | .site, i, site => site.siteId = i
  | _, _, _ => True

theorem carries_of_leaves {w : Repository.Write OnboardingType OnboardingType.Payload}
    (h : w.target.1 ≠ .site) : w.Carries siteValid := by
  cases w with
  | create t i v => cases t <;> first | exact absurd rfl h | trivial
  | replace t i v n => cases t <;> first | exact absurd rfl h | trivial
  | ensure t i v => cases t <;> first | exact absurd rfl h | trivial

@[reducible] def siteContract : Contract (iface onboardingBackend onboardingOutside) where
  permits past o := sitePermits past o ∧ Service.writesValid siteValid o
  trusts := Service.readsValid siteValid

abbrev quietContract : Contract (iface onboardingBackend onboardingOutside) :=
  touching (· ≠ .site) fun _ => True

/-- A part that is not about sites. -/
abbrev Quiet {α : Type} (p : OnboardingProc α) : Prop := Gives quietContract (fun _ => True) p

/-- A part that keeps the terms after `past`. -/
abbrev KeepsSites {α : Type} (past : OnboardingPast) (G : OnboardingPast → α → Prop)
    (p : OnboardingProc α) : Prop := wp siteContract (Returns G) p past

/-- A part that is not about sites leaves what was read of them. -/
theorem quiet_reads {α : Type} {G : α → Prop} {p : OnboardingProc α}
    (h : Gives quietContract G p) (past : OnboardingPast) :
    KeepsSites past (fun past' a => G a ∧ siteReads past' = siteReads past) p := by
  refine wp_framed (C := quietContract) (D := siteContract) (F := siteReads)
    (fun past o ho => ⟨⟨?_, ?_⟩, siteReads_of_leaves ho past⟩) (fun _ _ _ => trivial) (h past)
  · cases o with
    | commit ws => exact .other ho
    | _ => trivial
  · cases o with
    | commit ws => exact fun w hw => carries_of_leaves (ho w hw)
    | _ => trivial

theorem Quiet.reads {α : Type} {p : OnboardingProc α} (h : Quiet p) (past : OnboardingPast) :
    KeepsSites past (fun past' _ => siteReads past' = siteReads past) p :=
  returns_mono (fun _ _ ha => ha.2) (quiet_reads h past)

/-! ## Parts that are not about sites -/

theorem readState_quiet {stateId : String} : Quiet (readState stateId) := by
  refine gives_bind (findRecord_touches (by decide)) fun found _ => ?_
  rcases found with _ | ⟨state, version⟩
  · exact gives_throw
  · refine gives_bind readClock_touches fun at_ _ => ?_
    split
    · exact gives_throw
    · exact gives_pure trivial

theorem oauthStart_quiet {tenantId : String} : Quiet (oauthStart tenantId) :=
  gives_bind makeId_touches fun _ _ => gives_bind makeId_touches fun _ _ =>
    gives_bind makeId_touches fun _ _ => gives_bind readClock_touches fun _ _ =>
      commitOne_touches fun h => by cases h

theorem oauthBegin_quiet {stateId : String} : Quiet (oauthBegin stateId) := by
  refine gives_bind readState_quiet fun ⟨state, version⟩ _ => ?_
  dsimp only
  split
  · exact gives_throw
  · exact commitOne_touches fun h => by cases h

theorem oauthComplete_quiet {stateId : String} {code error browserNonce : Option String} :
    Quiet (oauthComplete stateId code error browserNonce) := by
  refine gives_bind readState_quiet fun ⟨state, version⟩ _ => ?_
  dsimp only
  split
  · exact gives_throw
  · refine gives_bind (commitOne_touches fun h => by cases h) fun _ _ => ?_
    split
    · exact gives_throw
    · split
      · exact gives_throw
      · refine gives_bind (askOutside_touches trivial) fun ⟨status, body⟩ _ => ?_
        refine gives_bind (gives_ofExcept fun _ _ => trivial) fun _ _ => ?_
        exact connect_touches (by decide) (by decide)

theorem oauthDisconnect_quiet {tenantId : String} : Quiet (oauthDisconnect tenantId) :=
  oauthDisconnect_touches (by decide) (by decide) (fun _ => trivial) fun _ => trivial

theorem gscCredential_quiet {request : ConfigureGSCRequest} {tenantId : String} :
    Quiet (gscCredential request tenantId) := by
  unfold gscCredential
  split
  · refine gives_bind (readConnection_touches (by decide)) fun found _ => ?_
    cases found with
    | none => exact gives_throw
    | some connection => exact gives_pure trivial
  · split
    · exact gives_throw
    · exact gives_pure trivial

theorem listProperties_quiet {authMode : String} {reference : SecretRef} :
    Quiet (listProperties authMode reference) :=
  gives_tryCatch (askOutside_touches trivial) fun e => by
    cases e <;> exact gives_throw

theorem putSecrets_quiet {site : Site} {secrets : List (String × String)} :
    Gives quietContract (fun put => ∀ w ∈ put.1, w.target.1 ≠ .site) (putSecrets site secrets) := by
  induction secrets with
  | nil => exact gives_pure fun _ hw => absurd hw List.not_mem_nil
  | cons secret rest ih =>
      obtain ⟨name, value⟩ := secret
      unfold putSecrets
      split
      · exact gives_throw
      · split
        · exact gives_throw
        · refine gives_bind (findRecord_touches (by decide)) fun current _ => ?_
          refine gives_bind ih fun put hput => ?_
          obtain ⟨writes, refs⟩ := put
          refine gives_pure fun w hw => ?_
          rcases List.mem_cons.mp hw with rfl | hw
          · rw [Service.overWrite_target (B := onboardingBackend)]
            exact fun h => by cases h
          · exact hput w hw

section Unicode
variable {U : Unicode}

theorem requireListedIf_quiet {hasLister shared : Bool} {site : Site} {credential : SecretRef}
    {authMode : String} {request : ConfigureGSCRequest} :
    Quiet (requireListedIf U hasLister shared site credential authMode request) := by
  unfold requireListedIf
  split
  · refine gives_bind listProperties_quiet fun properties _ => ?_
    refine gives_bind (gives_ofExcept fun _ _ => trivial) fun visible _ => ?_
    split
    · exact gives_bind (askOutside_touches trivial) fun _ _ => gives_throw
    · split
      · exact gives_pure trivial
      · exact gives_bind (askOutside_touches trivial) fun _ _ => gives_throw
  · exact gives_pure trivial

end Unicode

/-! ## Reading and updating -/

/-- A process that begins with a site works on the copy it read. -/
theorem ownedSite_reads {siteId principalId : String} :
    KeepsSites [] (fun past site => ∃ n, siteReads past site.siteId = [(site, n)])
      (ownedSite siteId principalId) := by
  refine returns_bind (P := fun past found => ∀ site n, found = some (site, n) →
    siteReads past site.siteId = [(site, n)]) ?_ fun past found _ hfound => ?_
  · refine wp_ask ⟨trivial, trivial⟩ fun r hr => ?_
    cases r with
    | error e => trivial
    | ok found =>
        intro site n heq
        subst heq
        obtain rfl : site.siteId = siteId := hr
        simp [siteReads, siteRead]
  · rcases found with _ | ⟨site, n⟩
    · trivial
    · dsimp only
      split
      · trivial
      · split
        · trivial
        · exact ⟨n, hfound site n rfl⟩

/-- An update of the copy that was read, under its stamp; of other sites nothing is read. -/
theorem updateAfter_reads {past : OnboardingPast} {before : OnboardingWrites} {site : Site}
    (copy : Site) {m : Nat} (hread : siteReads past site.siteId = [(copy, m)])
    (hcopied : site.updatedAt = copy.updatedAt) (hbefore : ∀ w ∈ before, w.target.1 ≠ .site) :
    KeepsSites past (fun past' _ => ∀ i, i ≠ site.siteId → siteReads past' i = siteReads past i)
      (updateAfter before site) := by
  refine returns_bind (P := fun past' found => siteReads past' site.siteId =
      found.toList ++ [(copy, m)] ∧ ∀ i, i ≠ site.siteId → siteReads past' i = siteReads past i)
    (wp_ask ⟨trivial, trivial⟩ fun r _ => ?_) fun past₁ found _ ⟨hreads, hothers⟩ => ?_
  · cases r with
    | error e => trivial
    | ok found =>
        refine ⟨?_, fun i hi => ?_⟩
        · cases found <;> simp [siteReads, siteRead, ← hread]
        · simp [siteReads, siteRead, hi.symm]
  · rcases found with _ | ⟨current, n⟩
    · trivial
    · dsimp only
      split
      · trivial
      · next hstamp =>
          have hclock : KeepsSites past₁ (fun past' _ => siteReads past' = siteReads past₁)
              readClock := Quiet.reads readClock_touches past₁
          refine returns_bind hclock fun past₂ at_ _ hsame => ?_
          have hreads' : siteReads past₂ site.siteId = [(current, n), (copy, m)] := by
            rw [hsame]
            exact hreads
          have hunchanged : current.updatedAt = copy.updatedAt := by
            rw [← hcopied]
            exact (not_not.mp hstamp).symm
          refine wp_ask ⟨.update hreads' hcopied hunchanged hbefore, fun w hw => ?_⟩ fun r _ => ?_
          · rcases List.mem_append.mp hw with hw | hw
            · exact carries_of_leaves (hbefore w hw)
            · rw [List.mem_singleton.mp hw]
              rfl
          · cases r with
            | error e => trivial
            | ok a =>
                intro i hi
                rw [← hothers i hi, ← hsame]
                rfl

theorem updateSite_reads {past : OnboardingPast} {site : Site} (copy : Site) {m : Nat}
    (hread : siteReads past site.siteId = [(copy, m)]) (hcopied : site.updatedAt = copy.updatedAt) :
    KeepsSites past (fun past' _ => ∀ i, i ≠ site.siteId → siteReads past' i = siteReads past i)
      (updateSite site) :=
  updateAfter_reads copy hread hcopied fun _ hw => absurd hw List.not_mem_nil

/-! ## The requests -/

/-- A part of which nothing more is said. -/
abbrev KeepsAll {α : Type} (past : OnboardingPast) (p : OnboardingProc α) : Prop :=
  KeepsSites past (fun _ _ => True) p

theorem Quiet.keepsAll {α : Type} {p : OnboardingProc α} (h : Quiet p) {past : OnboardingPast} :
    KeepsAll past p :=
  returns_mono (fun _ _ _ => trivial) (h.reads past)

/-- A part that is not about sites, before the rest. -/
theorem Quiet.bind {α β : Type} {p : OnboardingProc α} {f : α → OnboardingProc β}
    {past : OnboardingPast} (h : Quiet p)
    (hf : ∀ past' a, siteReads past' = siteReads past → KeepsAll past' (f a)) :
    KeepsAll past (p >>= f) :=
  returns_bind (h.reads past) fun past' a _ hsame => hf past' a hsame

section Unicode
variable {U : Unicode}

theorem createSite_reads {principalId name : String} {baseUrl : HttpUrl} :
    KeepsAll [] (createSite principalId name baseUrl) := by
  have hlist : Gives siteContract (fun _ => True) (listForTenant principalId) :=
    gives_bind (G := fun _ => True)
      (gives_bind (gives_ask (G := fun _ => True) (fun _ => ⟨trivial, trivial⟩) fun _ _ => trivial)
        fun _ _ => gives_pure trivial) fun _ _ => gives_pure trivial
  refine returns_bind (hlist []) fun past₁ existing _ _ => ?_
  refine Quiet.bind (askOutside_touches trivial) fun past₂ _ _ => Quiet.bind makeId_touches fun past₃ siteId _ => ?_
  refine Quiet.bind readClock_touches fun past₄ at_ _ => ?_
  have hcreate : Gives siteContract (fun _ => True) (tryCatch (commitAll [.create .site siteId
      { siteId, principalId, name, baseUrl, createdAt := at_, updatedAt := at_ }]) fun _ =>
        throw (.httpException 409 "Unable to create site.")) := by
    refine gives_tryCatch (gives_ask (fun _ => ⟨.create, fun w hw => ?_⟩) fun _ _ => trivial)
      fun _ => gives_throw
    rw [List.mem_singleton.mp hw]
    rfl
  exact hcreate past₄

theorem getOwnership_reads {siteId principalId : String} :
    KeepsAll [] (getOwnership siteId principalId) := by
  refine returns_bind ownedSite_reads fun past site _ ⟨n, hread⟩ => ?_
  split
  · refine Quiet.bind makeId_touches fun past' token hsame => ?_
    exact returns_mono (fun _ _ _ => trivial) (updateSite_reads site (hsame ▸ hread) rfl)
  · trivial

theorem verifyOwnership_reads {siteId principalId : String} :
    KeepsAll [] (verifyOwnership siteId principalId) := by
  refine returns_bind ownedSite_reads fun past site _ ⟨n, hread⟩ => ?_
  refine Quiet.bind (askOutside_touches trivial) fun past₁ proof hsame => ?_
  cases proof with
  | none => trivial
  | some method =>
      refine Quiet.bind readClock_touches fun past₂ at_ hsame' => ?_
      exact returns_mono (fun _ _ _ => trivial)
        (updateSite_reads site (hsame'.trans hsame ▸ hread) rfl)

theorem removeSite_reads {siteId principalId : String} :
    KeepsAll [] (removeSite siteId principalId) := by
  refine returns_bind ownedSite_reads fun past site _ ⟨n, hread⟩ => ?_
  refine Quiet.bind (askOutside_touches trivial) fun past₁ underWay hsame => ?_
  split
  · trivial
  · exact returns_mono (fun _ _ _ => trivial) (updateSite_reads site (hsame ▸ hread) rfl)

theorem availableGscProperties_reads {siteId principalId : String}
    {request : ConfigureGSCRequest} :
    KeepsAll [] (availableGscProperties U siteId principalId request) := by
  refine returns_bind ownedSite_reads fun past site _ _ => ?_
  refine gscCredential_quiet.bind fun past₁ ⟨credential, authMode⟩ _ => ?_
  refine returns_ofExcept_bind fun shared _ => listProperties_quiet.bind fun past₂ _ _ => ?_
  exact returns_ofExcept_bind fun visible _ => Quiet.keepsAll (askOutside_touches trivial)

theorem configureGsc_reads {hasLister : Bool} {siteId principalId : String}
    {request : ConfigureGSCRequest} :
    KeepsAll [] (configureGsc U hasLister siteId principalId request) := by
  refine returns_bind ownedSite_reads fun past site _ ⟨n, hread⟩ => ?_
  refine gscCredential_quiet.bind fun past₁ ⟨credential, authMode⟩ hsame => ?_
  refine returns_ofExcept_bind fun shared _ => ?_
  split
  · trivial
  · trivial
  · refine requireListedIf_quiet.bind fun past₂ _ hsame' => ?_
    refine returns_ofExcept_bind fun propertyUrl _ => ?_
    exact returns_mono (fun _ _ _ => trivial)
      (updateSite_reads site (hsame'.trans hsame ▸ hread) rfl)

theorem configureSiteAdapter_reads {siteId principalId : String}
    {request : ConfigureSiteAdapterRequest} :
    KeepsAll [] (configureSiteAdapter siteId principalId request) := by
  refine returns_bind ownedSite_reads fun past site _ ⟨n, hread⟩ => ?_
  split
  · trivial
  · split
    · trivial
    · refine returns_bind (quiet_reads putSecrets_quiet past)
        fun past₁ ⟨writes, stored⟩ _ ⟨hwrites, hsame⟩ => ?_
      refine Quiet.bind (gives_tryCatch (askOutside_touches trivial) fun _ => gives_throw)
        fun past₂ _ hsame' => ?_
      exact returns_mono (fun _ _ _ => trivial)
        (updateAfter_reads site (hsame'.trans hsame ▸ hread) rfl hwrites)

/-- The sites that were listed, each read once. -/
theorem detachSites_reads {tenantId : String} {sites : List Site} :
    ∀ {past : OnboardingPast}, (sites.map (·.siteId)).Nodup →
      (∀ site ∈ sites, ∃ n, siteReads past site.siteId = [(site, n)]) →
      KeepsAll past (detachSites tenantId sites) := by
  induction sites with
  | nil => exact fun _ _ => trivial
  | cons site rest ih =>
      intro past hnodup hread
      rw [List.map_cons, List.nodup_cons] at hnodup
      obtain ⟨n, hsite⟩ := hread site List.mem_cons_self
      refine Quiet.bind (readConnection_touches (by decide)) fun past₁ connection hsame => ?_
      have hrest : ∀ other ∈ rest, ∃ n, siteReads past₁ other.siteId = [(other, n)] := by
        rw [hsame]
        exact fun other hmem => hread other (List.mem_cons_of_mem site hmem)
      split
      · trivial
      · split
        · refine returns_bind (updateSite_reads site (hsame ▸ hsite) rfl) fun past₂ _ _ hothers => ?_
          refine ih hnodup.2 fun other hmem => ?_
          rw [hothers _ fun heq => hnodup.1 (heq ▸ List.mem_map_of_mem hmem)]
          exact hrest other hmem
        · exact ih hnodup.2 hrest

/-- The entries of a listing are read once each. -/
theorem listed_reads {found : Listing (Site × Nat)} {past : OnboardingPast}
    (hnone : ∀ i, siteReads past i = []) (hvalid : ∀ e ∈ found.entries, e.2.1.siteId = e.1)
    {entry : String × Site × Nat} (h : entry ∈ found.entries) :
    siteReads (⟨.list .site, .ok found⟩ :: past) entry.2.1.siteId = [entry.2] := by
  have hlookup : found.entries.lookup entry.1 = some entry.2 := Service.Listing.lookup_of_mem found.nodup h
  have hread : siteRead entry.1 ⟨.list .site, .ok found⟩ = some entry.2 := hlookup
  rw [hvalid entry h, siteReads, List.filterMap_cons_some hread]
  exact congrArg _ (hnone entry.1)

theorem listForTenant_reads {tenantId : String} {past : OnboardingPast}
    (hnone : ∀ i, siteReads past i = []) :
    KeepsSites past (fun past' sites => (sites.map (·.siteId)).Nodup ∧
      ∀ site ∈ sites, ∃ n, siteReads past' site.siteId = [(site, n)]) (listForTenant tenantId) := by
  have hall : KeepsSites past (fun past' sites => (sites.map (·.siteId)).Nodup ∧
      ∀ site ∈ sites, ∃ n, siteReads past' site.siteId = [(site, n)]) listAllSites := by
    refine returns_bind (P := fun past' found =>
      (∀ e ∈ (found : Listing (Site × Nat)).entries, e.2.1.siteId = e.1) ∧
        ∀ e ∈ found.entries, siteReads past' e.2.1.siteId = [e.2])
      (wp_ask ⟨trivial, trivial⟩ fun r hr => ?_) fun past' found _ ⟨hvalid, hreads⟩ => ⟨?_, ?_⟩
    · cases r with
      | error e => trivial
      | ok found => exact ⟨hr, fun e he => listed_reads hnone hr he⟩
    · rw [List.map_map]
      have hids : found.entries.map ((·.siteId) ∘ fun entry => entry.2.1) =
          found.entries.map Prod.fst := List.map_congr_left hvalid
      rw [hids]
      exact found.nodup
    · intro site hsite
      obtain ⟨entry, hentry, rfl⟩ := List.mem_map.mp hsite
      exact ⟨entry.2.2, hreads entry hentry⟩
  refine returns_bind hall fun past' sites _ ⟨hnodup, hreads⟩ => ⟨?_, fun site hsite => ?_⟩
  · exact hnodup.sublist (List.filter_sublist.map _)
  · exact hreads site (List.mem_filter.mp hsite).1

theorem googleDisconnect_reads {tenantId : String} :
    KeepsAll [] (googleDisconnect tenantId) := by
  refine Quiet.bind (gives_tryCatch oauthDisconnect_quiet fun e => ?_) fun past₁ _ hsame => ?_
  · cases e <;> exact gives_throw
  · exact returns_bind (listForTenant_reads fun i => congrFun hsame i)
      fun past₂ sites _ ⟨hnodup, hreads⟩ => detachSites_reads hnodup hreads

/-- The readers of Search Console write nothing. -/
theorem analyse_reads {siteId : String} : KeepsAll [] (analyse siteId) := by
  have hfind : Gives siteContract (fun _ => True) (findRecord .site siteId) :=
    gives_ask (fun _ => ⟨trivial, trivial⟩) fun _ _ => trivial
  refine returns_bind (hfind []) fun past found _ _ => ?_
  rcases found with _ | ⟨site, n⟩
  · trivial
  · dsimp only
    split
    · trivial
    · split
      · trivial
      · exact Quiet.keepsAll (askOutside_touches trivial)

theorem syncSites_quiet {sites : List Site} : Quiet (syncSites U sites) := by
  induction sites with
  | nil => exact gives_pure trivial
  | cons site rest ih =>
      unfold syncSites
      split
      · exact gives_throw
      · exact gives_bind (gives_tryCatch (askOutside_touches trivial) fun _ => gives_pure trivial) fun _ _ => ih
      · exact ih

theorem syncRound_reads : KeepsAll [] (syncRound U) := by
  have hlist : Gives siteContract (fun _ => True) listAllSites :=
    gives_bind (G := fun _ => True) (gives_ask (fun _ => ⟨trivial, trivial⟩) fun _ _ => trivial)
      fun _ _ => gives_pure trivial
  exact returns_bind (hlist []) fun past sites _ _ => syncSites_quiet.keepsAll

/-! ## Every run -/

@[reducible] def siteTerms (U : Unicode) : Terms (onboardingProcesses U) where
  Valid := siteValid
  permits := fun _ => sitePermits

/-- Every request reads a site twice before it updates it, with one stamp. -/
theorem site_updates_kept : (siteTerms U).Kept := by
  intro k
  have hkeeps {p : OnboardingProc Unit} (h : KeepsAll [] p) :
      wp siteContract (fun _ _ => True) p [] :=
    wp_mono (fun _ _ _ _ => trivial) h
  cases k with
  | createSite principalId name baseUrl => exact hkeeps createSite_reads
  | getOwnership siteId principalId => exact hkeeps getOwnership_reads
  | verifyOwnership siteId principalId => exact hkeeps verifyOwnership_reads
  | removeSite siteId principalId => exact hkeeps removeSite_reads
  | availableGscProperties siteId principalId request =>
      exact hkeeps availableGscProperties_reads
  | configureGsc hasLister siteId principalId request => exact hkeeps configureGsc_reads
  | configureSiteAdapter siteId principalId request => exact hkeeps configureSiteAdapter_reads
  | oauthStart tenantId => exact hkeeps oauthStart_quiet.keepsAll
  | oauthBegin stateId => exact hkeeps oauthBegin_quiet.keepsAll
  | oauthComplete stateId code error browserNonce => exact hkeeps oauthComplete_quiet.keepsAll
  | googleDisconnect tenantId => exact hkeeps googleDisconnect_reads
  | analyse siteId => exact hkeeps analyse_reads
  | syncRound => exact hkeeps syncRound_reads

/-! ## Stamps -/

def DistinctStamps (r : OnboardingRecords) : Prop :=
  ∀ i, ((r.versions .site i).map (·.updatedAt)).Nodup

/-- The site that a write puts in the place of another version. -/
def siteUpdate : Repository.Write OnboardingType OnboardingType.Payload → Option (String × Site)
  | .replace .site i site _ => some (i, site)
  | _ => none

/-- The stamp of an update is not that of a stored version. -/
def stampIsNew (r : OnboardingRecords) : OnboardingOperation → Bool
  | .commit ws => (ws.filterMap siteUpdate).all fun x =>
      (r.versions .site x.1).all fun stored => stored.updatedAt != x.2.updatedAt
  | _ => true

/-- The clock has not shown the reading of an update to a version of the site before. -/
def NewStamps (U : Unicode) : Condition (onboardingMachine U) :=
  eachOp fun c _ _ o _ => stampIsNew c.shared.records o = true

instance (c : Config (onboardingMachine U)) (m : Move (M := onboardingMachine U)) :
    Decidable (NewStamps U c m) :=
  inferInstanceAs (Decidable (eachOp _ c m))

/-- Versions with one stamp are one version. -/
theorem DistinctStamps.eq {r : OnboardingRecords} (h : DistinctStamps r) {i : String} {m n : Nat}
    {copy current : Site} (hcopy : r.versionAt .site i m = some copy)
    (hcurrent : r.versionAt .site i n = some current)
    (hstamp : current.updatedAt = copy.updatedAt) : m = n := by
  cases m with
  | zero => cases hcopy
  | succ m =>
      cases n with
      | zero => cases hcurrent
      | succ n =>
          have hlt : m < ((r.versions .site i).map (·.updatedAt)).length := by
            rw [List.length_map]
            exact (List.getElem?_eq_some_iff.mp hcopy).1
          have hcopy' : (r.versions .site i)[m]? = some copy := hcopy
          have hcurrent' : (r.versions .site i)[n]? = some current := hcurrent
          have hsame : ((r.versions .site i).map (·.updatedAt))[m]? =
              ((r.versions .site i).map (·.updatedAt))[n]? := by
            rw [List.getElem?_map, List.getElem?_map, hcopy', hcurrent', Option.map_some,
              Option.map_some, hstamp]
          rw [(List.getElem?_inj hlt (h i)).mp hsame]

/-- What an update leaves of a site: one more version. -/
theorem update_versions {r s : OnboardingRecords} {before : OnboardingWrites} {i : String}
    {site : Site} {n : Nat} (hbefore : ∀ w ∈ before, w.target.1 ≠ .site)
    (hs : r.commit (before ++ [.replace .site i site n]) = .ok s) :
    (r.versions .site i).length = n ∧
      ∀ j, s.versions .site j =
        if j = i then r.versions .site j ++ [site] else r.versions .site j := by
  obtain ⟨u, hu, hs⟩ := Repository.commit_append.mp hs
  have hkept (j : String) : u.versions .site j = r.versions .site j :=
    Repository.commit_versions_of_ne hu fun w hw htarget => hbefore w hw (by rw [htarget])
  obtain ⟨hn, rfl⟩ := Repository.apply_replace (Repository.commit_singleton.mp hs)
  refine ⟨hkept i ▸ hn, fun j => ?_⟩
  rw [Repository.versions_append, hkept]

theorem stamps_step {past : OnboardingPast} {r s : OnboardingRecords} {ws : OnboardingWrites}
    (hcommit : SiteCommit past ws) (hnew : stampIsNew r (.commit ws) = true)
    (hs : r.commit ws = .ok s) (h : DistinctStamps r) : DistinctStamps s := by
  intro j
  cases hcommit with
  | other leaves =>
      rw [Repository.commit_versions_of_ne hs fun w hw htarget => leaves w hw (by rw [htarget])]
      exact h j
  | @create i site =>
      obtain ⟨hfresh, rfl⟩ := Repository.apply_create (Repository.commit_singleton.mp hs)
      rw [Repository.versions_append]
      split
      · next hj =>
          rw [hj, hfresh]
          exact List.nodup_singleton _
      · exact h j
  | @update before site copy current m n at_ read copied unchanged leaves =>
      rw [(update_versions leaves hs).2 j]
      split
      · next hj =>
          subst hj
          rw [List.map_append, List.map_singleton, List.nodup_append]
          refine ⟨h _, List.nodup_singleton _, fun stamp hstamp stamp' hstamp' heq => ?_⟩
          obtain ⟨stored, hstored, rfl⟩ := List.mem_map.mp hstamp
          rw [List.mem_singleton.mp hstamp'] at heq
          have hall : (r.versions .site site.siteId).all (fun stored => stored.updatedAt != at_) =
              true := by
            rw [stampIsNew, List.all_eq_true] at hnew
            refine hnew (site.siteId, { site with updatedAt := at_ }) ?_
            exact List.mem_filterMap.mpr ⟨_, List.mem_append_right _ List.mem_cons_self, rfl⟩
          exact bne_iff_ne.mp (List.all_eq_true.mp hall stored hstored) heq
      · exact h j

/-! ## Every run -/

/-- A process is about to update a site, of which it has read version `m` first, and the store
accepts the update. -/
def Accepted (c : Config (onboardingMachine U)) (t : Nat) (i : String) (m : Nat) : Prop :=
  ∃ (k : OnboardingKind) (ws : OnboardingWrites) (f : Except OnboardingExc Unit →
      OnboardingProc Unit) (past : OnboardingPast) (site copy : Site) (n : Nat)
      (r : OnboardingRecords), c.pool[t]? = some ⟨k, .call (.commit ws) f, past⟩ ∧
    .replace .site i site n ∈ ws ∧ copyOf past i = some (copy, m) ∧
    c.shared.records.commit ws = .ok r

/-- Every update that the store accepts was computed from the stored version. -/
def UpdatesCurrent (c : Config (onboardingMachine U)) : Prop :=
  ∀ (t : Nat) (k : OnboardingKind) (ws : OnboardingWrites)
    (f : Except OnboardingExc Unit → OnboardingProc Unit) (past : OnboardingPast) (i : String)
    (site : Site) (n : Nat) (r : OnboardingRecords),
    c.pool[t]? = some ⟨k, .call (.commit ws) f, past⟩ → .replace .site i site n ∈ ws →
    c.shared.records.commit ws = .ok r →
    ∃ copy, copyOf past i = some (copy, (c.shared.records.versions .site i).length)

theorem distinct_stamps {c : Config (onboardingMachine U)}
    (hr : Run (NewStamps U) ⟨nothingStored, []⟩ c) : DistinctStamps c.shared.records := by
  have hstart : Service.AllValid (siteTerms U).Valid nothingStored.records :=
    fun _ _ _ h => absurd h List.not_mem_nil
  refine Service.repository_invariant (K := DistinctStamps) site_updates_kept hstart
    (fun hcom hold hs => ?_) (fun _ => List.nodup_nil) hr
  obtain ⟨t, hgood, f, hp⟩ := hcom.ok
  exact stamps_step hcom.permitted (eachOp_act hgood hp) hs hold

/-- With distinct stamps the store accepts an update only over the copy it was computed
from. -/
theorem accepted_current {past : OnboardingPast} {r s : OnboardingRecords} {ws : OnboardingWrites}
    {i : String} {site : Site} {n : Nat} (hstamps : DistinctStamps r) (htold : Told r past)
    (hcommit : SiteCommit past ws) (hmem : .replace .site i site n ∈ ws)
    (hs : r.commit ws = .ok s) :
    (∃ copy, copyOf past i = some (copy, (r.versions .site i).length)) ∧
      (s.versions .site i).length = (r.versions .site i).length + 1 := by
  cases hcommit with
  | other leaves => exact absurd rfl (leaves _ hmem)
  | create => cases List.mem_singleton.mp hmem
  | @update before updated copy current m n' at_ read copied unchanged leaves =>
      rcases List.mem_append.mp hmem with hmem | hmem
      · exact absurd rfl (leaves _ hmem)
      · cases List.mem_singleton.mp hmem
        obtain ⟨hn, hversions⟩ := update_versions leaves hs
        have hcurrent := siteRead_told htold (read ▸ List.mem_cons_self)
        have hcopy := siteRead_told htold (read ▸ List.mem_cons_of_mem _ List.mem_cons_self)
        have hm : m = n := hstamps.eq hcopy hcurrent unchanged
        refine ⟨⟨copy, ?_⟩, ?_⟩
        · rw [copyOf, read, hn, ← hm]
          rfl
        · rw [hversions, if_pos rfl, List.length_append, List.length_singleton]

theorem updates_current {c : Config (onboardingMachine U)}
    (hr : Run (NewStamps U) ⟨nothingStored, []⟩ c) : UpdatesCurrent c := by
  have hstart : Service.AllValid (siteTerms U).Valid nothingStored.records :=
    fun _ _ _ h => absurd h List.not_mem_nil
  intro t k ws f past i site n r hp hmem hs
  have htold := Service.told_of_run hr _ (List.mem_of_getElem? hp)
  exact (accepted_current (distinct_stamps hr) htold
    (Service.permitted_of_run site_updates_kept hstart hr hp).1 hmem hs).1

/-- The version that an accepted update was computed from. -/
theorem UpdatesCurrent.version {c : Config (onboardingMachine U)} (h : UpdatesCurrent c) {t : Nat}
    {i : String} {m : Nat} (ha : Accepted c t i m) :
    m = (c.shared.records.versions .site i).length := by
  obtain ⟨k, ws, f, past, site, copy, n, r, hp, hmem, hcopied, hs⟩ := ha
  obtain ⟨copy', hcurrent⟩ := h t k ws f past i site n r hp hmem hs
  exact (Prod.mk.inj (Option.some.inj (hcopied.symm.trans hcurrent))).2

/-- In every run whose clock gives each update of a site a new stamp, the store accepts an
update only if it was computed from the stored version, and once it was made, no other one
that was computed from the same version. -/
theorem no_lost_update {c : Config (onboardingMachine U)}
    (hr : Run (NewStamps U) ⟨nothingStored, []⟩ c) :
    UpdatesCurrent c ∧ ∀ t i m, Accepted c t i m → ∀ ch c', NewStamps U c (.act t ch) →
      fire c (.act t ch) = some c' → c'.shared.records ≠ c.shared.records →
      ∀ c'', Run (NewStamps U) c' c'' → ∀ t', ¬Accepted c'' t' i m := by
  refine ⟨updates_current hr, fun t i m ha ch c' hnew hf hmade c'' hr'' t' ha' => ?_⟩
  have hm := (updates_current hr).version ha
  have hr' : Run (NewStamps U) ⟨nothingStored, []⟩ c' := .move _ hr hnew hf
  have hm' := (updates_current (hr'.trans hr'')).version ha'
  have hstart : Service.AllValid (siteTerms U).Valid nothingStored.records :=
    fun _ _ _ h => absurd h List.not_mem_nil
  obtain ⟨k, ws, f, past, site, copy, n, r, hp, hmem, -, hs⟩ := ha
  obtain ⟨k', o, f', past', answer, w, hp', hx, rfl⟩ := fire_act hf
  cases hp.symm.trans hp'
  have hgrown : (w.records.versions .site i).length = m + 1 := by
    obtain ⟨-, ⟨hsame, -⟩ | ⟨hcommitted, -⟩⟩ := Service.exec_commit hx
    · exact absurd (congrArg World.records hsame) hmade
    · have htold := Service.told_of_run hr _ (List.mem_of_getElem? hp)
      rw [(accepted_current (distinct_stamps hr) htold
        (Service.permitted_of_run site_updates_kept hstart hr hp).1 hmem hcommitted).2, hm]
  have hlater := (Service.grows_of_run hr'' .site i).length_le
  have hshared : (c.answered t k past answer f w).shared.records = w.records := rfl
  rw [hshared] at hlater
  omega

end Unicode

/-! ## Two runs -/

abbrev SiteMove : Type := Move (M := onboardingMachine ascii)

/-- A site is made, at the reading 4. -/
def makesSite : List SiteMove :=
  [.spawn (.createSite "t-1" "Shop" shopUrl), .act 0 .done, .act 0 (.ext .done),
    .act 0 (.name "s-1"), .act 0 (.clock 4), .act 0 .done]

/-- Its owner proves the site, up to the transaction of the update, which is stamped with
this reading. -/
def provesSite (t : Nat) (clock : Int) : List SiteMove :=
  [.spawn (.verifyOwnership "s-1" "t-1"), .act t .done, .act t (.ext (.method (some "meta_tag"))),
    .act t (.clock clock), .act t .done, .act t (.clock clock)]

def stampsOf (c : Config (onboardingMachine ascii)) : List (Int × Option String) :=
  (c.shared.records.versions .site "s-1").map fun site => (site.updatedAt, site.ownershipMethod)

set_option maxRecDepth 20000 in
theorem no_lost_update_proven : ∃ c : Config (onboardingMachine ascii),
    stampsOf c = [(4, none), (5, some "meta_tag")] ∧ UpdatesCurrent c := by
  have h : (firesIf (NewStamps ascii) ⟨nothingStored, []⟩
      (makesSite ++ provesSite 1 5 ++ [.act 1 .done])).map stampsOf =
      some [(4, none), (5, some "meta_tag")] := by
    decide +kernel
  obtain ⟨c, hc, hs⟩ := Option.map_eq_some_iff.mp h
  exact ⟨c, hs, (no_lost_update (Run.of_good_moves hc)).1⟩

/-- A process is about to replace a site that it did not work on the stored version of, and
the store would let it. -/
def losesUpdate (c : Config (onboardingMachine ascii)) (t : Nat) (i : String) : Bool :=
  match c.pool[t]? with
  | some ⟨_, .call (.commit ws) _, past⟩ =>
      (ws.filterMap siteUpdate).any (·.1 == i) &&
        (copyOf past i).map Prod.snd != some (c.shared.records.versions .site i).length &&
        (c.shared.records.commit ws).isOk
  | _ => false

theorem not_current_of_loses {c : Config (onboardingMachine ascii)} {t : Nat} {i : String}
    (h : losesUpdate c t i = true) : ¬UpdatesCurrent c := by
  intro hcurrent
  unfold losesUpdate at h
  split at h
  · next k ws f past hp =>
      rw [Bool.and_eq_true, Bool.and_eq_true, bne_iff_ne, List.any_eq_true] at h
      obtain ⟨⟨⟨⟨i', site⟩, hmem, hi⟩, hcopy⟩, hok⟩ := h
      obtain ⟨w, hw, hupdate⟩ := List.mem_filterMap.mp hmem
      obtain rfl : i' = i := beq_iff_eq.mp hi
      obtain ⟨r, hr⟩ : ∃ r, c.shared.records.commit ws = .ok r := by
        cases hcommit : c.shared.records.commit ws with
        | ok r => exact ⟨r, rfl⟩
        | error e =>
            rw [hcommit] at hok
            cases hok
      unfold siteUpdate at hupdate
      split at hupdate
      · next n =>
          cases hupdate
          obtain ⟨copy, hsame⟩ := hcurrent t k ws f past i' site n r hp hw hr
          rw [hsame] at hcopy
          exact hcopy rfl
      · cases hupdate
  · cases h

set_option maxRecDepth 20000 in
/-- The owner removes a site while its proof comes in, all at one reading of the clock: the
removal is saved from the copy of before the proof. -/
theorem update_lost : ∃ c : Config (onboardingMachine ascii),
    Run anyMove ⟨nothingStored, []⟩ c ∧ ¬UpdatesCurrent c := by
  have h : (fires ⟨nothingStored, []⟩ (makesSite ++ [.spawn (.removeSite "s-1" "t-1"),
      .act 1 .done, .act 1 (.ext (.flag false))] ++ provesSite 2 4 ++
      [.act 2 .done, .act 1 .done, .act 1 (.clock 4)])).map (losesUpdate · 1 "s-1") =
      some true := by
    decide +kernel
  obtain ⟨c, hc, hs⟩ := Option.map_eq_some_iff.mp h
  exact ⟨c, Run.of_moves hc, not_current_of_loses hs⟩

end SeoAgent.Onboarding
