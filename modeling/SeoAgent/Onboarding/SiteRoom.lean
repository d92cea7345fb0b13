import SeoAgent.Billing.Models
import SeoAgent.Onboarding.SiteEndpoints

/-!
# Room for another site

`create_site` counts the sites its tenant has, has the count checked against the plan
(`require_site_room` of `app/api/account_routes.py` and of `app/billing/service.py`) and stores
the new site. The check is made on the count, and nothing ties the count to the write: a
request writes whatever the others have written since it counted.

A request is *overtaken* by the sites of its tenant that were written after it counted. What
the plan allows is exceeded by requests that were overtaken where the plan had no room left
for both, and by no others.

## Main results

* `siteCount_eq` — what is stored of a tenant is what a request counted and what was written
  since.
* `room_kept` — no plan is exceeded in a run whose overtaken requests had room.
-/

namespace SeoAgent.Billing

/-! ## What a tenant may do -/

/-- `Entitlement`. -/
structure Entitlement where
  plan : Option PlanId
  active : Bool
  endsAt : Option Int
  sites : Option Nat
  deriving DecidableEq, Repr

section Entitled
variable (plans : PlanId → Plan) (subscription : Option (Subscription Int)) (now : Int)

/-- `Billing.entitlement`. -/
def entitlement : Entitlement :=
  match subscription with
  | none => { plan := none, active := true, endsAt := none, sites := none }
  | some held =>
      { plan := some held.plan
        active := now < held.endsAt
        endsAt := some held.endsAt
        sites := some (plans held.plan).sites }

/-- `Billing.require_active`, with the text of its `PlanRequired`. -/
def requireActive : Except String Entitlement :=
  let held := entitlement plans subscription now
  if held.active then .ok held
  else .error "Your subscription has ended. Renew it to start new work."

/-- `Billing.require_site_room`. -/
def requireSiteRoom (sitesNow : Nat) : Except String Unit :=
  (requireActive plans subscription now).bind fun held =>
    if held.sites.any (· ≤ sitesNow) then
      .error "Your plan has no room for another site. Upgrade it to add one."
    else .ok ()

variable {plans subscription now}

/-- With room for another site the plan has more than there are. -/
theorem lt_of_requireSiteRoom {sitesNow : Nat} {held : Subscription Int}
    (hheld : subscription = some held)
    (h : requireSiteRoom plans subscription now sitesNow = .ok ()) :
    sitesNow < (plans held.plan).sites := by
  subst hheld
  by_contra hfull
  have hany : (entitlement plans (some held) now).sites.any (· ≤ sitesNow) = true :=
    decide_eq_true (not_lt.mp hfull)
  simp only [requireSiteRoom, requireActive] at h
  split at h
  · simp only [Except.bind, hany, if_true] at h
    cases h
  · cases h

end Entitled

end SeoAgent.Billing

namespace SeoAgent.Onboarding

open SeoAgent.Verified Service Machine
open Billing (PlanId Plan Subscription)

/-! ## The plan of a tenant -/

/-- The plans and the subscriptions of a server with billing. -/
structure Billed where
  plans : PlanId → Plan
  subscription : String → Option (Subscription Int)

/-- `require_site_room` of the account routes: without billing there is no limit. -/
def requireSiteRoom (billing : Option Billed) (tenantId : String) (now : Int) (sitesNow : Nat) :
    Except String Unit :=
  match billing with
  | none => .ok ()
  | some billed => Billing.requireSiteRoom billed.plans (billed.subscription tenantId) now sitesNow

/-- The limit of the tenant's plan, if there is one. -/
def siteLimit (billing : Option Billed) (tenantId : String) : Option Nat :=
  billing.bind fun billed =>
    (billed.subscription tenantId).map fun held => (billed.plans held.plan).sites

theorem lt_siteLimit {billing : Option Billed} {tenantId : String} {now : Int}
    {sitesNow limit : Nat} (hlimit : siteLimit billing tenantId = some limit)
    (h : requireSiteRoom billing tenantId now sitesNow = .ok ()) : sitesNow < limit := by
  obtain ⟨billed, rfl, hplan⟩ := Option.bind_eq_some_iff.mp hlimit
  obtain ⟨held, hheld, rfl⟩ := Option.map_eq_some_iff.mp hplan
  exact Billing.lt_of_requireSiteRoom hheld h

/-! ## The requests -/

/-- A call of `create_site`. -/
structure CreateSiteCall where
  principalId : String
  name : String
  baseUrl : HttpUrl

/-- Any number of calls at once, for any tenants. -/
@[reducible] def siteRoomProcesses : Processes onboardingBackend onboardingOutside where
  Kind := CreateSiteCall
  body := fun call => createSite call.principalId call.name call.baseUrl
  admits := fun _ _ => true

@[reducible] def siteRoomMachine : Machine (iface onboardingBackend onboardingOutside) :=
  Service.machine siteRoomProcesses

/-! ## Sites of a tenant -/

/-- A site of the tenant that is not removed. -/
def isSiteOf (tenantId : String) (site : Site) : Bool :=
  site.principalId = tenantId ∧ site.status ≠ .removed

abbrev Sites : Type := Listing (Site × Nat)

/-- How many sites of a tenant are listed. -/
def Sites.countOf (sites : Sites) (tenantId : String) : Nat :=
  sites.entries.countP fun entry => isSiteOf tenantId entry.2.1

abbrev SiteRecords : Type := Repository OnboardingType OnboardingType.Payload

/-- How many sites a tenant has. -/
def siteCount (tenantId : String) (records : SiteRecords) : Nat :=
  Sites.countOf (records.list .site) tenantId

/-- How many of them are not in a listing. -/
def newerCount (tenantId : String) (listed : Sites) (records : SiteRecords) : Nat :=
  (records.list .site).entries.countP fun entry =>
    isSiteOf tenantId entry.2.1 && entry.1 ∉ listed.entries.map Prod.fst

/-- What a listing says is still stored. -/
def StillStored (listed : Sites) (records : SiteRecords) : Prop :=
  ∀ entry ∈ listed.entries, records.current .site entry.1 = some entry.2

/-! ## Counting -/

section Counting
variable {tenantId : String} {listed : Sites} {records : SiteRecords}

theorem nodup_entries (sites : Sites) : sites.entries.Nodup := sites.nodup.of_map _

/-- The stored records of the listed ids are the listed ones. -/
theorem perm_of_stillStored (h : StillStored listed records) :
    ((records.list .site).entries.filter (·.1 ∈ listed.entries.map Prod.fst)).Perm
      listed.entries := by
  refine (List.perm_ext_iff_of_nodup ((nodup_entries _).filter _) (nodup_entries listed)).mpr ?_
  rintro ⟨i, x⟩
  rw [List.mem_filter, Repository.mem_list_iff, decide_eq_true_iff]
  constructor
  · rintro ⟨hcurrent, hi⟩
    obtain ⟨entry, hentry, rfl⟩ := List.mem_map.mp hi
    have hsame : some entry.2 = some x := (h entry hentry).symm.trans hcurrent
    obtain rfl := Option.some.inj hsame
    exact hentry
  · exact fun hentry => ⟨h _ hentry, List.mem_map_of_mem hentry⟩

/-- What is stored is what was listed and what is newer. -/
theorem siteCount_eq (h : StillStored listed records) :
    siteCount tenantId records = listed.countOf tenantId + newerCount tenantId listed records := by
  have hperm := (perm_of_stillStored h).countP_eq fun entry => isSiteOf tenantId entry.2.1
  rw [List.countP_filter] at hperm
  have hsplit := List.countP_eq_countP_filter_add (records.list .site).entries
    (fun entry => isSiteOf tenantId entry.2.1) (fun entry => entry.1 ∈ listed.entries.map Prod.fst)
  rw [List.countP_filter, List.countP_filter, hperm] at hsplit
  refine hsplit.trans (congrArg _ (List.countP_congr fun entry _ => ?_))
  simp only [decide_not, Bool.and_eq_true, Bool.not_eq_true', decide_eq_false_iff_not]

/-- The listing with a new record. -/
theorem perm_list_append {records : SiteRecords} {i : String} {site : Site}
    (hfresh : records.versions .site i = []) :
    ((records.append .site i site).list .site).entries.Perm
      ((i, site, 1) :: (records.list .site).entries) := by
  have hnone : records.current .site i = none := Repository.current_eq_none_iff.mpr hfresh
  have hnot : ∀ x, (i, x) ∉ (records.list .site).entries := fun x hx => by
    rw [Repository.mem_list_iff, hnone] at hx
    cases hx
  refine (List.perm_ext_iff_of_nodup (nodup_entries _)
    (List.nodup_cons.mpr ⟨hnot _, nodup_entries _⟩)).mpr ?_
  rintro ⟨j, x⟩
  rw [Repository.mem_list_iff, List.mem_cons, Repository.mem_list_iff, Prod.mk.injEq]
  by_cases hj : j = i
  · subst hj
    rw [Repository.current_append_self, hfresh, hnone]
    constructor
    · exact fun h => Or.inl ⟨rfl, (Option.some.inj h).symm⟩
    · rintro (⟨-, rfl⟩ | h)
      · rfl
      · cases h
  · rw [Repository.current_congr (Repository.versions_append_of_ne records .site i site hj)]
    exact ⟨Or.inr, fun h => h.elim (fun h => absurd h.1 hj) id⟩

/-- A new site is one more of its tenant. -/
theorem siteCount_append {records : SiteRecords} {i : String} {site : Site}
    (hfresh : records.versions .site i = []) :
    siteCount tenantId (records.append .site i site) =
      siteCount tenantId records + if isSiteOf tenantId site then 1 else 0 := by
  unfold siteCount Sites.countOf
  rw [(perm_list_append hfresh).countP_eq, List.countP_cons]

/-- What a listing says stays stored when a record is added. -/
theorem StillStored.append {i : String} {site : Site} (h : StillStored listed records)
    (hfresh : records.versions .site i = []) :
    StillStored listed (records.append .site i site) := by
  intro entry hentry
  have hcurrent := h entry hentry
  have hne : entry.1 ≠ i := fun heq => by
    rw [Repository.current_eq_none_iff.mpr (heq ▸ hfresh)] at hcurrent
    cases hcurrent
  rw [Repository.current_congr (Repository.versions_append_of_ne records .site i site hne)]
  exact hcurrent

end Counting

/-! ## What a request was answered -/

/-- The sites a request was listed. -/
def listedIn : OnboardingPast → Option Sites
  | [] => none
  | ⟨.list .site, .ok sites⟩ :: _ => some sites
  | _ :: past => listedIn past

/-- A commit that was answered. -/
def isStored : (iface onboardingBackend onboardingOutside).Event → Bool
  | ⟨.commit _, .ok _⟩ => true
  | _ => false

theorem exists_of_isStored {event : (iface onboardingBackend onboardingOutside).Event}
    (h : isStored event = true) : ∃ ws, event = ⟨.commit ws, .ok ()⟩ := by
  obtain ⟨o, r⟩ := event
  cases o with
  | commit ws =>
      cases r with
      | ok _ => exact ⟨ws, rfl⟩
      | error e => cases h
  | find t i => cases h
  | list t => cases h
  | now => cases h
  | newId => cases h
  | ext x => cases h

/-- The request has stored its site. -/
def hasCreated (past : OnboardingPast) : Bool := past.any isStored

/-- The site a call of `create_site` stores. -/
def CreateSiteCall.site (call : CreateSiteCall) (siteId : String) (at_ : Int) : Site :=
  { siteId, principalId := call.principalId, name := call.name, baseUrl := call.baseUrl,
    createdAt := at_, updatedAt := at_ }

theorem isSiteOf_site (call : CreateSiteCall) (siteId : String) (at_ : Int) (tenantId : String) :
    isSiteOf tenantId (call.site siteId at_) = decide (call.principalId = tenantId) := by
  simp [isSiteOf, CreateSiteCall.site]

/-- A request writes its site once, after its sites were listed and their number was
checked. -/
def createPermits (call : CreateSiteCall) (past : OnboardingPast) :
    Service.Op onboardingBackend onboardingOutside → Prop
  | .commit ws => ∃ sites siteId at_, listedIn past = some sites ∧
      ⟨.ext (.requireSiteRoom call.principalId (sites.countOf call.principalId)), .ok ()⟩ ∈ past ∧
      ws = [.create .site siteId (call.site siteId at_)]
  | .list t => t = .site ∧ past = []
  | _ => True

@[reducible] def createContract (call : CreateSiteCall) :
    Prog.Contract (iface onboardingBackend onboardingOutside) where
  permits := createPermits call
  trusts := fun _ _ => True

/-- The number that is checked is the number of the tenant's sites. -/
theorem countP_listForTenant (sites : Sites) (tenantId : String) :
    (((sites.entries.map fun entry => entry.2.1).filter
      (·.principalId = tenantId)).countP (·.status ≠ .removed)) = sites.countOf tenantId := by
  rw [List.countP_filter, List.countP_map]
  refine List.countP_congr fun entry _ => ?_
  simp [isSiteOf, and_comm]

theorem createSite_keeps_room (call : CreateSiteCall) :
    Prog.wp (createContract call) (fun _ _ => True)
      (createSite call.principalId call.name call.baseUrl) [] := by
  unfold createSite listForTenant listAllSites
  rw [Prog.wp_bind, Prog.wp_bind, Prog.wp_bind]
  refine Prog.wp_ask ⟨rfl, rfl⟩ fun listed _ => ?_
  cases listed with
  | error e => trivial
  | ok sites =>
      rw [Prog.after_ok, Prog.wp_pure, Prog.after_ok, Prog.wp_pure, Prog.after_ok,
        countP_listForTenant]
      refine Prog.wp_ask_bind trivial (fun _ _ => ?_) fun _ _ => trivial
      refine Prog.wp_ask_bind trivial (fun siteId _ => ?_) fun _ _ => trivial
      refine Prog.wp_ask_bind trivial (fun at_ _ => ?_) fun _ _ => trivial
      rw [Prog.wp_tryCatch]
      refine Prog.wp_ask ⟨sites, siteId, at_, rfl, ?_, rfl⟩ fun stored _ => ?_
      · simp
      · cases stored with
        | ok _ => trivial
        | error _ => trivial

/-! ## Conditions on a run -/

section Runs
variable (billing : Option Billed)

/-- A number of sites is let through only where `require_site_room` does, at this reading of
the clock. -/
def checkedAt (now : Int) : Service.Op onboardingBackend onboardingOutside →
    siteRoomMachine.Choice → Bool
  | .ext (.requireSiteRoom tenantId sites), .ext .done =>
      requireSiteRoom billing tenantId now sites = .ok ()
  | _, _ => true

/-- The numbers of sites are checked as `require_site_room` checks them. -/
def CheckedBy : Condition siteRoomMachine :=
  eachOp fun _ _ _ o ch => ∃ now, checkedAt billing now o ch = true

/-- A request that was overtaken, after these answers, had room beside the sites that were
written since it counted. -/
def HasRoom (call : CreateSiteCall) (past : OnboardingPast) (records : SiteRecords) : Prop :=
  ∀ sites limit, listedIn past = some sites →
    siteLimit billing call.principalId = some limit →
    newerCount call.principalId sites records ≠ 0 →
      sites.countOf call.principalId + newerCount call.principalId sites records < limit

/-- No request writes that was overtaken where the plan had no room for both. -/
def Roomy : Condition siteRoomMachine :=
  eachOp fun c call past o _ =>
    match o with
    | .commit _ => HasRoom billing call past c.shared.records
    | _ => True

/-- What a request knows: what it was listed is still stored, what was checked is within the
plan, and so are the sites of its tenant once it has stored its own. -/
structure Informed (call : CreateSiteCall) (records : SiteRecords) (past : OnboardingPast) :
    Prop where
  listed : ∀ sites, listedIn past = some sites → StillStored sites records
  checked : ∀ n limit, siteLimit billing call.principalId = some limit →
    ⟨.ext (.requireSiteRoom call.principalId n), .ok ()⟩ ∈ past → n < limit
  created : hasCreated past = true → ∀ limit, siteLimit billing call.principalId = some limit →
    siteCount call.principalId records ≤ limit

variable {billing} {call : CreateSiteCall} {records : SiteRecords} {past : OnboardingPast}

theorem informed_nil : Informed billing call records [] :=
  ⟨fun _ h => (Option.some_ne_none _ h.symm).elim, fun _ _ _ h => absurd h List.not_mem_nil,
    fun h => (Bool.false_ne_true h).elim⟩

/-- The plan has room for a request that writes, if it had when the request was overtaken. -/
theorem Informed.siteCount_lt_iff (h : Informed billing call records past) {sites : Sites}
    {limit : Nat} (hsites : listedIn past = some sites)
    (hchecked : ⟨.ext (.requireSiteRoom call.principalId (sites.countOf call.principalId)),
      .ok ()⟩ ∈ past)
    (hlimit : siteLimit billing call.principalId = some limit) :
    siteCount call.principalId records < limit ↔ HasRoom billing call past records := by
  rw [siteCount_eq (h.listed sites hsites)]
  constructor
  · intro hlt sites' limit' hsites' hlimit' _
    obtain rfl := Option.some.inj (hsites.symm.trans hsites')
    obtain rfl := Option.some.inj (hlimit.symm.trans hlimit')
    exact hlt
  · intro hroom
    by_cases hnewer : newerCount call.principalId sites records = 0
    · rw [hnewer, Nat.add_zero]
      exact h.checked _ limit hlimit hchecked
    · exact hroom sites limit hsites hlimit hnewer

/-- What a request can do to the records. -/
theorem records_of_create {w w' : World onboardingBackend onboardingOutside}
    {o : Service.Op onboardingBackend onboardingOutside} {ch : siteRoomMachine.Choice}
    {r : Except OnboardingExc o.Res} (hpermitted : createPermits call past o)
    (hexec : siteRoomMachine.exec w o ch = some (r, w')) :
    w'.records = w.records ∨
      ∃ sites siteId at_, listedIn past = some sites ∧
        ⟨.ext (.requireSiteRoom call.principalId (sites.countOf call.principalId)), .ok ()⟩ ∈ past ∧
        o = .commit [.create .site siteId (call.site siteId at_)] ∧
        w.records.versions .site siteId = [] ∧
        w'.records = w.records.append .site siteId (call.site siteId at_) := by
  rcases exec_records hexec with hsame | ⟨ws, rfl, hcommit⟩
  · exact Or.inl hsame
  · obtain ⟨sites, siteId, at_, hsites, hchecked, rfl⟩ := hpermitted
    obtain ⟨hfresh, happend⟩ :=
      Repository.apply_create (Repository.commit_singleton.mp hcommit)
    exact Or.inr ⟨sites, siteId, at_, hsites, hchecked, rfl, hfresh, happend⟩

/-- What a write does to the count of a tenant. -/
theorem siteCount_create {records' : SiteRecords} {siteId : String} {at_ : Int} {tenantId : String}
    (hfresh : records.versions .site siteId = [])
    (happend : records' = records.append .site siteId (call.site siteId at_)) :
    siteCount tenantId records' =
      siteCount tenantId records + if call.principalId = tenantId then 1 else 0 := by
  rw [happend, siteCount_append hfresh, isSiteOf_site]
  simp only [decide_eq_true_eq]

/-- What the others know stays so. -/
theorem Informed.frame {other : CreateSiteCall} {past' : OnboardingPast}
    {w w' : World onboardingBackend onboardingOutside}
    {o : Service.Op onboardingBackend onboardingOutside} {ch : siteRoomMachine.Choice}
    {r : Except OnboardingExc o.Res} (hother : Informed billing other w.records past')
    (h : Informed billing call w.records past) (hpermitted : createPermits call past o)
    (hroom : ∀ ws, o = .commit ws → HasRoom billing call past w.records)
    (hexec : siteRoomMachine.exec w o ch = some (r, w')) :
    Informed billing other w'.records past' := by
  rcases records_of_create hpermitted hexec with
    hsame | ⟨sites, siteId, at_, hsites, hchecked, rfl, hfresh, happend⟩
  · exact hsame ▸ hother
  · refine ⟨fun listed hlisted => ?_, hother.checked, fun hcreated limit hlimit => ?_⟩
    · rw [happend]
      exact (hother.listed listed hlisted).append hfresh
    · rw [siteCount_create hfresh happend]
      by_cases htenant : call.principalId = other.principalId
      · rw [if_pos htenant, ← htenant]
        rw [← htenant] at hlimit
        exact (h.siteCount_lt_iff hsites hchecked hlimit).mpr (hroom _ rfl)
      · rw [if_neg htenant]
        exact hother.created hcreated limit hlimit

/-- The listing of a request, after one more answer. -/
theorem listedIn_cons {o : Service.Op onboardingBackend onboardingOutside}
    {r : Except OnboardingExc o.Res} {sites : Sites} (hpermitted : createPermits call past o)
    (h : listedIn (⟨o, r⟩ :: past) = some sites) :
    listedIn past = some sites ∨
      (⟨o, r⟩ : (iface onboardingBackend onboardingOutside).Event) = ⟨.list .site, .ok sites⟩ := by
  cases o with
  | list t =>
      obtain ⟨rfl, -⟩ := hpermitted
      cases r with
      | error e => exact Or.inl h
      | ok listed =>
          obtain rfl := Option.some.inj h
          exact Or.inr rfl
  | find t i => exact Or.inl h
  | commit ws => exact Or.inl h
  | now => exact Or.inl h
  | newId => exact Or.inl h
  | ext x => exact Or.inl h

/-- What a request knows after one more answer. -/
theorem Informed.step {w w' : World onboardingBackend onboardingOutside}
    {o : Service.Op onboardingBackend onboardingOutside} {ch : siteRoomMachine.Choice}
    {r : Except OnboardingExc o.Res} (h : Informed billing call w.records past)
    (hpermitted : createPermits call past o)
    (hroom : ∀ ws, o = .commit ws → HasRoom billing call past w.records)
    (hcheck : ∃ now, checkedAt billing now o ch = true)
    (hexec : siteRoomMachine.exec w o ch = some (r, w')) :
    Informed billing call w'.records (⟨o, r⟩ :: past) := by
  have hkept := h.frame h hpermitted hroom hexec
  refine ⟨fun sites hsites => ?_, fun n limit hlimit hmem => ?_, fun hcreated limit hlimit => ?_⟩
  · rcases listedIn_cons hpermitted hsites with hsites | hlist
    · exact hkept.listed sites hsites
    · obtain ⟨rfl, hr⟩ := Interface.Event.mk.inj hlist
      obtain rfl := eq_of_heq hr
      obtain ⟨rfl, rfl⟩ := exec_list_ok hexec
      exact fun entry hentry => Repository.mem_list_iff.mp hentry
  · rcases List.mem_cons.mp hmem with hnew | hold
    · obtain ⟨rfl, hr⟩ := Interface.Event.mk.inj hnew
      obtain rfl := eq_of_heq hr
      obtain ⟨choice, rfl, hanswer, -⟩ := exec_ext hexec
      cases choice with
      | done =>
          obtain ⟨now, hnow⟩ := hcheck
          exact lt_siteLimit hlimit (of_decide_eq_true hnow)
      | _ => cases hanswer
    · exact h.checked n limit hlimit hold
  · cases hstored : isStored ⟨o, r⟩ with
    | false =>
        unfold hasCreated at hcreated
        rw [List.any_cons, hstored, Bool.false_or] at hcreated
        exact hkept.created hcreated limit hlimit
    | true =>
        obtain ⟨ws, hevent⟩ := exists_of_isStored hstored
        obtain ⟨rfl, hr⟩ := Interface.Event.mk.inj hevent
        obtain rfl := eq_of_heq hr
        obtain ⟨sites, siteId, at_, hsites, hchecked, rfl⟩ := hpermitted
        obtain ⟨hfresh, happend⟩ := Repository.apply_create
          (Repository.commit_singleton.mp (exec_commit_ok hexec).1)
        rw [siteCount_create hfresh happend, if_pos rfl]
        exact (h.siteCount_lt_iff hsites hchecked hlimit).mpr (hroom _ rfl)

/-! ## Every run -/

/-- A run checks the number of sites as the plan does, and no request writes that was
overtaken without room. -/
def RoomyRun (billing : Option Billed) : Condition siteRoomMachine := fun c m =>
  CheckedBy billing c m ∧ Roomy billing c m

/-- What is known of every request, over every run. -/
theorem informed_of_run {w₀ : World onboardingBackend onboardingOutside}
    {c : Config siteRoomMachine} (hr : Run (RoomyRun billing) ⟨w₀, []⟩ c) :
    ∀ th ∈ c.pool, Informed billing th.kind c.shared.records th.past ∧
      Prog.wp (createContract th.kind) (fun _ _ => True) th.rest th.past := by
  let D : Discipline siteRoomMachine :=
    { inv := fun _ => True
      knows := fun call w past => Informed billing call w.records past
      contract := createContract
      coexist := fun _ _ _ _ => True }
  have hroom : ∀ {c t ch k o f past r s}, D.Acting (RoomyRun billing) ⟨w₀, []⟩ c t ch k o f past r s →
      ∀ ws, o = .commit ws → HasRoom billing k past c.shared.records := by
    rintro c t ch k o f past r s ha ws rfl
    exact eachOp_act ha.ok.2 ha.here
  have hS : D.Sound (RoomyRun billing) ⟨w₀, []⟩ :=
    { symm := fun _ => trivial
      admits := fun _ _ _ _ => trivial
      body := createSite_keeps_room
      start := fun _ _ => informed_nil
      trusted := fun _ => trivial
      inv := fun _ => trivial
      own := fun ha => ha.knows.step ha.permitted (hroom ha) (eachOp_act ha.ok.1 ha.here) ha.exec
      frame := fun ha _ _ _ hknows => hknows.frame ha.knows ha.permitted (hroom ha) ha.exec
      together := fun _ _ _ _ _ => trivial
      envInv := fun _ _ _ _ => trivial
      envFrame := fun _ _ _ hchange _ _ hknows => by
        obtain ⟨s, -, rfl⟩ := change_cases hchange
        exact hknows }
  intro th hth
  have hin := (hS.sound (.of_no_process trivial) hr).threads th hth
  exact ⟨hin.knows, hin.keeps⟩

/-- Over any interleaving of `create_site` requests in which no request writes that was
overtaken where the plan had no room for both, whoever has created a site is within its
plan; and the write of a site keeps to the plan exactly where the request had room. -/
theorem room_kept {w₀ : World onboardingBackend onboardingOutside} {c : Config siteRoomMachine}
    (hr : Run (RoomyRun billing) ⟨w₀, []⟩ c) :
    (∀ th ∈ c.pool, hasCreated th.past = true → ∀ limit,
      siteLimit billing th.kind.principalId = some limit →
        siteCount th.kind.principalId c.shared.records ≤ limit) ∧
    ∀ t ch c' th th', c.pool[t]? = some th → fire c (.act t ch) = some c' →
      c'.pool[t]? = some th' → hasCreated th.past = false → hasCreated th'.past = true →
        ((∀ limit, siteLimit billing th.kind.principalId = some limit →
          siteCount th.kind.principalId c'.shared.records ≤ limit) ↔
            HasRoom billing th.kind th.past c.shared.records) := by
  refine ⟨fun th hth => (informed_of_run hr th hth).1.created, ?_⟩
  intro t ch c' th th' hth hfire hth' hbefore hafter
  obtain ⟨hknows, hkeeps⟩ := informed_of_run hr th (List.mem_of_getElem? hth)
  obtain ⟨call, o, f, past, r, s, hhere, hexec, rfl⟩ := fire_act hfire
  obtain rfl := Option.some.inj (hth.symm.trans hhere)
  have hlt := (List.getElem?_eq_some_iff.mp hth).1
  rw [Config.answered, List.getElem?_set_self hlt] at hth'
  obtain rfl := Option.some.inj hth'
  have hstored : isStored ⟨o, r⟩ = true := by
    unfold hasCreated at hbefore hafter
    rw [List.any_cons, hbefore, Bool.or_false] at hafter
    exact hafter
  obtain ⟨ws, hevent⟩ := exists_of_isStored hstored
  obtain ⟨rfl, hanswer⟩ := Interface.Event.mk.inj hevent
  obtain rfl := eq_of_heq hanswer
  have hpermitted : createPermits call past (.commit ws) := hkeeps.1
  obtain ⟨sites, siteId, at_, hsites, hchecked, rfl⟩ := hpermitted
  obtain ⟨hfresh, happend⟩ := Repository.apply_create
    (Repository.commit_singleton.mp (exec_commit_ok hexec).1)
  have hcount : siteCount call.principalId s.records =
      siteCount call.principalId c.shared.records + 1 := by
    rw [siteCount_create hfresh happend, if_pos rfl]
  constructor
  · intro hwithin sites' limit hsites' hlimit
    have hle := hwithin limit hlimit
    rw [Config.answered, hcount] at hle
    exact (hknows.siteCount_lt_iff hsites hchecked hlimit).mp hle sites' limit hsites' hlimit
  · intro hroom limit hlimit
    rw [Config.answered, hcount]
    exact (hknows.siteCount_lt_iff hsites hchecked hlimit).mpr hroom

end Runs

/-! ## Runs on the trial -/

/-- A tenant in its trial, which has room for one site. -/
def trialServer : Billed where
  plans := Billing.catalog Billing.defaultPrices
  subscription := fun tenantId =>
    some { tenantId, plan := .trial, startedAt := 0, endsAt := Billing.trialLength }

theorem plain_homeUrl : ¬Url.HasSpace "https://home.example/".toList := by
  simp [Url.HasSpace, Text.isSpace]

def homeUrl : HttpUrl := ⟨"https://home.example/", plain_homeUrl⟩

def homeCall (name : String) : CreateSiteCall := ⟨"t-1", name, homeUrl⟩

/-- Runs in which the numbers of sites are checked at one time. -/
def checkedAtZero : Condition siteRoomMachine :=
  eachOp fun _ _ _ o ch => checkedAt (some trialServer) 0 o ch = true

/-- Runs in which no request acts that was overtaken, too. -/
def calmAtZero : Condition siteRoomMachine :=
  eachOp fun c call past o ch => checkedAt (some trialServer) 0 o ch = true ∧
    ∀ sites ∈ listedIn past, newerCount call.principalId sites c.shared.records = 0

instance (c : Config siteRoomMachine) (m : Move (M := siteRoomMachine)) :
    Decidable (checkedAtZero c m) := by
  unfold checkedAtZero
  infer_instance

instance (c : Config siteRoomMachine) (m : Move (M := siteRoomMachine)) :
    Decidable (calmAtZero c m) := by
  unfold calmAtZero
  infer_instance

theorem checkedBy_of_checkedAtZero (c : Config siteRoomMachine) (m : Move (M := siteRoomMachine))
    (h : checkedAtZero c m) : CheckedBy (some trialServer) c m :=
  eachOp_mono (fun _ _ _ _ _ hchecked => ⟨0, hchecked⟩) h

theorem roomyRun_of_calmAtZero (c : Config siteRoomMachine) (m : Move (M := siteRoomMachine))
    (h : calmAtZero c m) : RoomyRun (some trialServer) c m := by
  refine ⟨eachOp_mono (fun _ _ _ _ _ hcalm => ⟨0, hcalm.1⟩) h,
    eachOp_mono (fun c call past o _ hcalm => ?_) h⟩
  cases o with
  | commit ws => exact fun sites limit hsites _ hnewer => absurd (hcalm.2 sites hsites) hnewer
  | _ => trivial

/-- A request, and a second one that finds no room. -/
def oneHome : List (Move (M := siteRoomMachine)) :=
  [.spawn (homeCall "Home"), .act 0 .done, .act 0 (.ext .done),
    .act 0 (.name "s-1"), .act 0 (.clock 1), .act 0 .done,
    .spawn (homeCall "Home again"), .act 1 .done, .act 1 (.ext (.fails "no room"))]

set_option maxRecDepth 20000 in
theorem room_kept_oneHome : ∃ c, c.pool.map (fun th => hasCreated th.past) = [true, false] ∧
    siteCount "t-1" c.shared.records = 1 ∧
    ((∀ th ∈ c.pool, hasCreated th.past = true → ∀ limit,
      siteLimit (some trialServer) th.kind.principalId = some limit →
        siteCount th.kind.principalId c.shared.records ≤ limit) ∧
    ∀ t ch c' th th', c.pool[t]? = some th → fire (M := siteRoomMachine) c (.act t ch) = some c' →
      c'.pool[t]? = some th' → hasCreated th.past = false → hasCreated th'.past = true →
        ((∀ limit, siteLimit (some trialServer) th.kind.principalId = some limit →
          siteCount th.kind.principalId c'.shared.records ≤ limit) ↔
            HasRoom (some trialServer) th.kind th.past c.shared.records)) := by
  have h : (firesIf calmAtZero ⟨nothingStored, []⟩ oneHome).map (fun c =>
      (c.pool.map (fun th => hasCreated th.past), siteCount "t-1" c.shared.records)) =
        some ([true, false], 1) := by
    decide +kernel
  obtain ⟨c, hc, hs⟩ := Option.map_eq_some_iff.mp h
  obtain ⟨hcreated, hcount⟩ := Prod.mk.inj hs
  exact ⟨c, hcreated, hcount, room_kept ((Run.of_good_moves hc).mono roomyRun_of_calmAtZero)⟩

/-! ## Two requests at once -/

/-- Both requests count the tenant's sites before either writes. -/
def twoHomes : List (Move (M := siteRoomMachine)) :=
  [.spawn (homeCall "Home"), .act 0 .done, .act 0 (.ext .done),
    .spawn (homeCall "Home again"), .act 1 .done, .act 1 (.ext .done),
    .act 0 (.name "s-1"), .act 0 (.clock 1), .act 0 .done,
    .act 1 (.name "s-2"), .act 1 (.clock 2), .act 1 .done]

set_option maxRecDepth 20000 in
/-- On a plan with room for one site two requests that count before either writes both
create theirs. -/
theorem two_sites_on_trial : ∃ c, Run (CheckedBy (some trialServer)) ⟨nothingStored, []⟩ c ∧
    c.pool.map (fun th => (th.kind.principalId, hasCreated th.past)) =
      [("t-1", true), ("t-1", true)] ∧
    siteLimit (some trialServer) "t-1" = some 1 ∧ siteCount "t-1" c.shared.records = 2 := by
  have h : (firesIf checkedAtZero ⟨nothingStored, []⟩ twoHomes).map (fun c =>
      (c.pool.map (fun th => (th.kind.principalId, hasCreated th.past)),
        siteCount "t-1" c.shared.records)) = some ([("t-1", true), ("t-1", true)], 2) := by
    decide +kernel
  obtain ⟨c, hc, hs⟩ := Option.map_eq_some_iff.mp h
  obtain ⟨hcreated, hcount⟩ := Prod.mk.inj hs
  exact ⟨c, (Run.of_good_moves hc).mono checkedBy_of_checkedAtZero, hcreated, rfl, hcount⟩

end SeoAgent.Onboarding
