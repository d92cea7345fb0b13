import SeoAgent.Warehouse.Tables

/-!
# What the ledger says is true

`DaySync.sync_day` (`app/warehouse/sync.py`) over the store. A sync reads nothing of the store:
it fetches, and then makes one write, so syncs that overlap, retries and syncs from an earlier
property of the site are a list of syncs in the order of their writes.

A day reads as the last fetch that gave data left it, whatever failed since. It is marked synced
from a property exactly if that fetch was from the property, and no fetch from another one has
failed since.

## Main results

* `day_reads_last` — what is read of a day, and when it is marked synced.
* `synced_reads_answers` — a day marked synced reads as the sums over the distinct rows that
  Search Console answered with.
-/

namespace SeoAgent.Warehouse

open SeoAgent.Verified

/-! ## Syncs -/

/-- A call of `sync_day`, with the store's clock when it writes. -/
structure Sync where
  siteId : String
  propertyUrl : String
  day : Int
  finalThrough : Int
  query : QueryFn
  recordedAt : Int

variable (lib : Normalisers) (text : FetchException → String)

def Sync.fetched (sync : Sync) : Except FetchException GSCDay :=
  fetchDay lib sync.siteId sync.propertyUrl sync.day sync.finalThrough sync.query

/-- `sync_day`: a day that is not final yet is no failure, and nothing is recorded of it. -/
def syncDay (s : Store) (sync : Sync) : Store :=
  match sync.fetched lib with
  | .ok data => (s.replaceDay data sync.recordedAt).getD s
  | .error (.dayNotFinal _) => s
  | .error exc =>
      s.recordFailure sync.siteId sync.day sync.propertyUrl sync.recordedAt (text exc)

def runSyncs (syncs : List Sync) : Store := syncs.foldl (syncDay lib text) .empty

/-- A sync of a day. -/
def Sync.Of (sync : Sync) (siteId : String) (day : Int) : Prop :=
  sync.siteId = siteId ∧ sync.day = day

/-- A sync that recorded a failure. -/
def Sync.Failed (sync : Sync) : Prop :=
  ∃ exc, sync.fetched lib = .error exc ∧ ∀ message, exc ≠ .dayNotFinal message

/-- The last sync of a day that fetched data, the data, and what came later. -/
structure LastFetched (syncs : List Sync) (siteId : String) (day : Int) (sync : Sync)
    (data : GSCDay) (later : List Sync) : Prop where
  run : ∃ past, syncs = past ++ sync :: later
  of : sync.Of siteId day
  fetched : sync.fetched lib = .ok data
  last : ∀ sync' ∈ later, sync'.Of siteId day → ∀ data', sync'.fetched lib ≠ .ok data'

/-- No sync of a day fetched data. -/
def NeverFetched (syncs : List Sync) (siteId : String) (day : Int) : Prop :=
  ∀ sync ∈ syncs, sync.Of siteId day → ∀ data, sync.fetched lib ≠ .ok data

/-! ## One sync -/

variable {lib text}

theorem fetchDay_of {siteId propertyUrl : String} {day finalThrough : Int} {query : QueryFn}
    {data : GSCDay} (h : fetchDay lib siteId propertyUrl day finalThrough query = .ok data) :
    data.siteId = siteId ∧ data.day = day ∧ data.propertyUrl = propertyUrl := by
  obtain ⟨a, t, p, q, -, -, -, -, rfl⟩ := fetchDay_ok_iff.mp h
  exact ⟨rfl, rfl, rfl⟩

/-- What a fetch gives can be stored. -/
theorem fetchDay_storable {siteId propertyUrl : String} {day finalThrough : Int} {query : QueryFn}
    {data : GSCDay} (h : fetchDay lib siteId propertyUrl day finalThrough query = .ok data) :
    data.Storable := by
  obtain ⟨a, t, p, q, ha, ht, hp, hq, hdata⟩ := fetchDay_ok_iff.mp h
  obtain ⟨htotals, hpages, hqueries⟩ := fetchDay_tables ha h
  have hsums := fetchDay_sumsOk h
  have htable := htotals.nodup
  rw [List.map_map] at htable
  have hpageKeys := hpages.nodup
  rw [List.map_map] at hpageKeys
  have hqueryKeys := hqueries.nodup
  rw [List.map_map] at hqueryKeys
  refine ⟨htable, ?_, ?_, fun row hrow => ?_, fun row hrow => (hsums.1 row hrow).2,
    fun row hrow => (hsums.2 row hrow).2⟩
  · refine List.Nodup.of_map (fun x : String × Device => toLex (x.2, x.1)) ?_
    rw [List.map_map]
    exact hpageKeys
  · refine List.Nodup.of_map (fun x : String × String × Device =>
      toLex (x.2.2, toLex (x.1, x.2.1))) ?_
    rw [List.map_map]
    exact hqueryKeys
  · subst hdata
    obtain ⟨r, hr, rfl⟩ := List.mem_map.mp hrow
    exact (table_sumsOk ht hr).2

variable (lib text) in
/-- A sync in one of its three outcomes. -/
theorem syncDay_cases (s : Store) (sync : Sync) :
    (∃ data s', sync.fetched lib = .ok data ∧ s.replaceDay data sync.recordedAt = some s' ∧
      syncDay lib text s sync = s') ∨
    ((∃ message, sync.fetched lib = .error (.dayNotFinal message)) ∧ syncDay lib text s sync = s) ∨
    ∃ exc, sync.fetched lib = .error exc ∧ (∀ message, exc ≠ .dayNotFinal message) ∧
      syncDay lib text s sync = s.recordFailure sync.siteId sync.day sync.propertyUrl
        sync.recordedAt (text exc) := by
  cases hfetch : sync.fetched lib with
  | ok data =>
      obtain ⟨s', hs'⟩ := replaceDay_isSome (fetchDay_storable hfetch) s sync.recordedAt
      exact .inl ⟨data, s', rfl, hs', by simp only [syncDay, hfetch, hs', Option.getD_some]⟩
  | error exc =>
      cases exc with
      | dayNotFinal message => exact .inr (.inl ⟨⟨message, rfl⟩, by simp only [syncDay, hfetch]⟩)
      | fetchError message => exact .inr (.inr ⟨_, rfl, nofun, by simp only [syncDay, hfetch]⟩)
      | unknownDevice value => exact .inr (.inr ⟨_, rfl, nofun, by simp only [syncDay, hfetch]⟩)
      | query message => exact .inr (.inr ⟨_, rfl, nofun, by simp only [syncDay, hfetch]⟩)

/-- A failure writes the ledger only. -/
theorem recordFailure_view {s : Store} {siteId site propertyUrl error : String}
    {day d recordedAt : Int} :
    (s.recordFailure siteId day propertyUrl recordedAt error).view site d = s.view site d := by
  unfold Store.recordFailure
  dsimp only
  split
  · rfl
  · split <;> rfl

theorem recordFailure_sound {s : Store} {siteId propertyUrl error : String} {day recordedAt : Int}
    (hs : s.Sound) : (s.recordFailure siteId day propertyUrl recordedAt error).Sound := by
  unfold Store.recordFailure
  dsimp only
  split
  · exact ⟨hs.pages, hs.queries⟩
  · split
    · exact ⟨hs.pages, hs.queries⟩
    · exact hs

/-- The ledger after a failure: a good copy from the property stays, and whatever else the day
had is a failure of the property now. -/
theorem recordFailure_syncDays (s : Store) (siteId site propertyUrl error : String)
    (day d recordedAt : Int) :
    (¬ (site = siteId ∧ d = day) ∧
      (s.recordFailure siteId day propertyUrl recordedAt error).syncDays site d =
        s.syncDays site d) ∨
    (site = siteId ∧ d = day ∧
      ((∃ entry, s.syncDays site d = some entry ∧ entry.status = .synced ∧
          entry.propertyUrl = propertyUrl ∧
          (s.recordFailure siteId day propertyUrl recordedAt error).syncDays site d =
            some entry) ∨
        (∀ entry, s.syncDays site d = some entry → entry.status = .synced →
          entry.propertyUrl ≠ propertyUrl) ∧
        ∃ entry, (s.recordFailure siteId day propertyUrl recordedAt error).syncDays site d =
          some entry ∧ entry.status = .failed)) := by
  by_cases hday : site = siteId ∧ d = day
  · obtain ⟨rfl, rfl⟩ := hday
    refine .inr ⟨rfl, rfl, ?_⟩
    unfold Store.recordFailure
    dsimp only
    split
    · next hnone =>
        refine .inr ⟨fun entry hentry => ?_, _,
          (setSyncDay_syncDays _ _ _ _ _ _).trans (if_pos ⟨rfl, rfl⟩), rfl⟩
        rw [hnone] at hentry
        cases hentry
    · next entry hentry =>
        split
        · next hover =>
            refine .inr ⟨fun entry' hentry' hsynced hsame => ?_, _,
              (setSyncDay_syncDays _ _ _ _ _ _).trans (if_pos ⟨rfl, rfl⟩), rfl⟩
            cases hentry.symm.trans hentry'
            rcases hover with hfailed | hother
            · exact SyncStatus.noConfusion (hsynced.symm.trans hfailed)
            · exact hother hsame
        · next hkept =>
            simp only [not_or, not_not] at hkept
            refine .inl ⟨entry, hentry, ?_, hkept.2, hentry⟩
            cases hstatus : entry.status with
            | synced => rfl
            | failed => exact absurd hstatus hkept.1
  · refine .inl ⟨hday, ?_⟩
    unfold Store.recordFailure
    dsimp only
    split
    · rw [setSyncDay_syncDays, if_neg hday]
    · split
      · rw [setSyncDay_syncDays, if_neg hday]
      · rfl

/-! ## A day after syncs -/

variable (lib) in
/-- A day after syncs: no fetch gave data; or the last one that did left it, and it is still
marked synced; or it is not, as a fetch from another property failed since. -/
inductive DayState (syncs : List Sync) (s : Store) (siteId : String) (day : Int) : Prop
  | never (h : NeverFetched lib syncs siteId day) (view : s.view siteId day = .empty)
      (ledger : ∀ entry, s.syncDays siteId day = some entry → entry.status = .failed)
  | synced (sync : Sync) (data : GSCDay) (later : List Sync)
      (last : LastFetched lib syncs siteId day sync data later)
      (view : s.view siteId day = data.view)
      (same : ∀ sync' ∈ later, sync'.Of siteId day → sync'.Failed lib →
        sync'.propertyUrl = sync.propertyUrl)
      (ledger : s.syncDays siteId day = some (syncedDay data sync.recordedAt))
  | failed (sync : Sync) (data : GSCDay) (later : List Sync)
      (last : LastFetched lib syncs siteId day sync data later)
      (view : s.view siteId day = data.view)
      (other : ∃ sync' ∈ later, sync'.Of siteId day ∧ sync'.Failed lib ∧
        sync'.propertyUrl ≠ sync.propertyUrl)
      (ledger : ∀ entry, s.syncDays siteId day = some entry → entry.status = .failed)

variable {syncs later : List Sync} {s s' : Store} {siteId : String} {day : Int}
  {sync sync' : Sync} {data : GSCDay}

theorem LastFetched.append (h : LastFetched lib syncs siteId day sync data later)
    (hsync : sync'.Of siteId day → ∀ data', sync'.fetched lib ≠ .ok data') :
    LastFetched lib (syncs ++ [sync']) siteId day sync data (later ++ [sync']) := by
  obtain ⟨past, rfl⟩ := h.run
  refine ⟨⟨past, by simp⟩, h.of, h.fetched, fun earlier hearlier => ?_⟩
  rcases List.mem_append.mp hearlier with hlater | hlast
  · exact h.last earlier hlater
  · rw [List.mem_singleton.mp hlast]
    exact hsync

theorem NeverFetched.append (h : NeverFetched lib syncs siteId day)
    (hsync : sync'.Of siteId day → ∀ data', sync'.fetched lib ≠ .ok data') :
    NeverFetched lib (syncs ++ [sync']) siteId day := by
  intro earlier hearlier
  rcases List.mem_append.mp hearlier with hold | hlast
  · exact h earlier hold
  · rw [List.mem_singleton.mp hlast]
    exact hsync

/-- A sync that leaves the day and its ledger alone, and of which no failure is recorded for the
day. -/
theorem DayState.frame (h : DayState lib syncs s siteId day)
    (hsync : sync'.Of siteId day → ∀ data', sync'.fetched lib ≠ .ok data')
    (hfailed : sync'.Of siteId day → ¬ sync'.Failed lib)
    (hview : s'.view siteId day = s.view siteId day)
    (hledger : s'.syncDays siteId day = s.syncDays siteId day) :
    DayState lib (syncs ++ [sync']) s' siteId day := by
  cases h with
  | never hnever view ledger =>
      exact .never (hnever.append hsync) (hview.trans view) (hledger ▸ ledger)
  | synced sync data later last view same ledger =>
      refine .synced sync data _ (last.append hsync) (hview.trans view) (fun earlier hearlier => ?_)
        (hledger.trans ledger)
      rcases List.mem_append.mp hearlier with hlater | hlast
      · exact same earlier hlater
      · rw [List.mem_singleton.mp hlast]
        exact fun hof hf => absurd hf (hfailed hof)
  | failed sync data later last view other ledger =>
      obtain ⟨earlier, hearlier, hother⟩ := other
      exact .failed sync data _ (last.append hsync) (hview.trans view)
        ⟨earlier, List.mem_append_left _ hearlier, hother⟩ (hledger ▸ ledger)

/-- A failure of the day. -/
theorem DayState.recordFailure (h : DayState lib syncs s siteId day) (hof : sync'.Of siteId day)
    (hfailed : sync'.Failed lib) (error : String) :
    DayState lib (syncs ++ [sync'])
      (s.recordFailure sync'.siteId sync'.day sync'.propertyUrl sync'.recordedAt error)
      siteId day := by
  have hsync : sync'.Of siteId day → ∀ data', sync'.fetched lib ≠ .ok data' := by
    obtain ⟨exc, hexc, -⟩ := hfailed
    intro _ data' hdata
    cases hexc.symm.trans hdata
  obtain ⟨rfl, rfl⟩ := hof
  have hview : (s.recordFailure sync'.siteId sync'.day sync'.propertyUrl sync'.recordedAt
      error).view sync'.siteId sync'.day = s.view sync'.siteId sync'.day := recordFailure_view
  rcases recordFailure_syncDays s sync'.siteId sync'.siteId sync'.propertyUrl error sync'.day
    sync'.day sync'.recordedAt with ⟨hday, -⟩ | ⟨-, -, hledger⟩
  · exact absurd ⟨rfl, rfl⟩ hday
  cases h with
  | never hnever view ledger =>
      refine .never (hnever.append hsync) (hview.trans view) fun entry hentry => ?_
      rcases hledger with ⟨kept, hkept, hsynced, -, -⟩ | ⟨-, written, hwritten, hstatus⟩
      · exact absurd (hsynced.symm.trans (ledger kept hkept)) (by decide)
      · cases hwritten.symm.trans hentry
        exact hstatus
  | synced sync data later last view same ledger =>
      rcases hledger with ⟨kept, hkept, -, hproperty, hstays⟩ | ⟨hother, written, hwritten, hstatus⟩
      · cases ledger.symm.trans hkept
        refine .synced sync data _ (last.append hsync) (hview.trans view)
          (fun earlier hearlier => ?_) hstays
        rcases List.mem_append.mp hearlier with hlater | hlast
        · exact same earlier hlater
        · rw [List.mem_singleton.mp hlast]
          exact fun _ _ => hproperty.symm.trans (fetchDay_of last.fetched).2.2
      · refine .failed sync data _ (last.append hsync) (hview.trans view)
          ⟨sync', List.mem_append_right _ List.mem_cons_self, ⟨rfl, rfl⟩, hfailed, ?_⟩
          fun entry hentry => ?_
        · have hne := hother _ ledger rfl
          exact fun hsame => hne ((fetchDay_of last.fetched).2.2.trans hsame.symm)
        · cases hwritten.symm.trans hentry
          exact hstatus
  | failed sync data later last view other ledger =>
      obtain ⟨earlier, hearlier, hother⟩ := other
      refine .failed sync data _ (last.append hsync) (hview.trans view)
        ⟨earlier, List.mem_append_left _ hearlier, hother⟩ fun entry hentry => ?_
      rcases hledger with ⟨kept, hkept, hsynced, -, -⟩ | ⟨-, written, hwritten, hstatus⟩
      · exact absurd (hsynced.symm.trans (ledger kept hkept)) (by decide)
      · cases hwritten.symm.trans hentry
        exact hstatus

/-- What one sync makes of a day. -/
theorem DayState.step (hs : s.Sound) (h : DayState lib syncs s siteId day) (sync' : Sync) :
    (syncDay lib text s sync').Sound ∧
      DayState lib (syncs ++ [sync']) (syncDay lib text s sync') siteId day := by
  rcases syncDay_cases lib text s sync' with
    ⟨data, s', hfetch, hreplace, hstep⟩ | ⟨⟨message, hfetch⟩, hstep⟩ | ⟨exc, hfetch, hexc, hstep⟩
  · rw [hstep]
    refine ⟨replaceDay_sound hs hreplace, ?_⟩
    have hdata := fetchDay_of hfetch
    obtain ⟨r⟩ := replaced hreplace
    by_cases hof : sync'.Of siteId day
    · have hsame : siteId = data.siteId ∧ day = data.day :=
        ⟨hof.1.symm.trans hdata.1.symm, hof.2.symm.trans hdata.2.1.symm⟩
      refine .synced sync' data [] ⟨⟨syncs, rfl⟩, hof, hfetch, fun _ h => ?_⟩ ?_
        (fun _ h => ?_) ?_
      · exact absurd h List.not_mem_nil
      · rw [replaceDay_view hs hreplace, if_pos hsame]
      · exact absurd h List.not_mem_nil
      · rw [r.syncDays, if_pos hsame]
    · have hother : ¬ (siteId = data.siteId ∧ day = data.day) := fun hsame =>
        hof ⟨hdata.1.symm.trans hsame.1.symm, hdata.2.1.symm.trans hsame.2.symm⟩
      refine h.frame (fun hof' => absurd hof' hof) (fun hof' => absurd hof' hof) ?_ ?_
      · rw [replaceDay_view hs hreplace, if_neg hother]
      · rw [r.syncDays, if_neg hother]
  · rw [hstep]
    refine ⟨hs, h.frame (fun _ data' hdata => ?_) (fun _ hfailed => ?_) rfl rfl⟩
    · cases hfetch.symm.trans hdata
    · obtain ⟨exc, hexc, hne⟩ := hfailed
      cases hfetch.symm.trans hexc
      exact hne message rfl
  · rw [hstep]
    refine ⟨recordFailure_sound hs, ?_⟩
    by_cases hof : sync'.Of siteId day
    · exact h.recordFailure hof ⟨exc, hfetch, hexc⟩ _
    · refine h.frame (fun hof' => absurd hof' hof) (fun hof' => absurd hof' hof)
        recordFailure_view ?_
      rcases recordFailure_syncDays s sync'.siteId siteId sync'.propertyUrl (text exc) sync'.day
        day sync'.recordedAt with ⟨-, hkept⟩ | ⟨hsite, hday, -⟩
      · exact hkept
      · exact absurd ⟨hsite.symm, hday.symm⟩ hof

/-- What syncs in any order make of a day. -/
theorem runSyncs_dayState (lib : Normalisers) (text : FetchException → String) (syncs : List Sync)
    (siteId : String) (day : Int) :
    (runSyncs lib text syncs).Sound ∧
      DayState lib syncs (runSyncs lib text syncs) siteId day := by
  induction syncs using List.reverseRecOn with
  | nil =>
      refine ⟨Store.empty_sound, .never (fun _ h => absurd h List.not_mem_nil) rfl
        fun entry hentry => ?_⟩
      cases hentry
  | append_singleton syncs sync' ih =>
      have hrun : runSyncs lib text (syncs ++ [sync']) =
          syncDay lib text (runSyncs lib text syncs) sync' := by
        rw [runSyncs, List.foldl_append]
        rfl
      rw [hrun]
      exact ih.2.step ih.1 sync'

/-- A run has one last fetch of a day, if any. -/
theorem LastFetched.unique {later' : List Sync} {data' : GSCDay}
    (h : LastFetched lib syncs siteId day sync data later)
    (h' : LastFetched lib syncs siteId day sync' data' later') :
    sync = sync' ∧ data = data' ∧ later = later' := by
  have hno : ∀ {early late : List Sync} {a b : Sync} {x y : GSCDay} {mid : List Sync},
      LastFetched lib syncs siteId day a x early → LastFetched lib syncs siteId day b y late →
        early ≠ mid ++ b :: late := by
    rintro early late a b x y mid ha hb rfl
    exact ha.last b (List.mem_append_right _ List.mem_cons_self) hb.of y hb.fetched
  obtain ⟨past, hrun⟩ := h.run
  obtain ⟨past', hrun'⟩ := h'.run
  rcases List.append_eq_append_iff.mp (hrun.symm.trans hrun') with ⟨mid, -, hmid⟩ | ⟨mid, -, hmid⟩
  all_goals
    cases mid with
    | nil =>
        cases hmid
        exact ⟨rfl, Except.ok.inj (h.fetched.symm.trans h'.fetched), rfl⟩
    | cons first mid =>
        injection hmid with _ hlater
        first
        | exact absurd hlater (hno h h')
        | exact absurd hlater (hno h' h)

theorem syncedDays_iff {propertyUrl : String} {start end_ : Int} :
    s.syncedDays siteId propertyUrl start end_ day = true ↔
      ∃ entry, s.syncDays siteId day = some entry ∧ entry.propertyUrl = propertyUrl ∧
        entry.status = .synced ∧ start ≤ day ∧ day ≤ end_ := by
  unfold Store.syncedDays
  cases s.syncDays siteId day with
  | none => simp
  | some entry => simp [and_assoc]

/-- A day marked synced has a last fetch, from the property, that nothing has come after. -/
theorem DayState.of_synced (h : DayState lib syncs s siteId day) {entry : SyncDay}
    (hentry : s.syncDays siteId day = some entry) (hsynced : entry.status = .synced) :
    ∃ sync data later, LastFetched lib syncs siteId day sync data later ∧
      s.view siteId day = data.view ∧ entry = syncedDay data sync.recordedAt ∧
      data.propertyUrl = sync.propertyUrl ∧
      ∀ sync' ∈ later, sync'.Of siteId day → sync'.Failed lib →
        sync'.propertyUrl = sync.propertyUrl := by
  cases h with
  | never hnever view ledger => exact absurd (hsynced.symm.trans (ledger entry hentry)) (by decide)
  | synced sync data later last view same ledger =>
      exact ⟨sync, data, later, last, view, Option.some.inj (hentry.symm.trans ledger),
        (fetchDay_of last.fetched).2.2, same⟩
  | failed sync data later last view other ledger =>
      exact absurd (hsynced.symm.trans (ledger entry hentry)) (by decide)

/-- A day is marked synced from a property exactly if the last fetch that gave data was from it
and none from another property has failed since. -/
theorem DayState.of_last (h : DayState lib syncs s siteId day)
    (hlast : LastFetched lib syncs siteId day sync data later) :
    s.view siteId day = data.view ∧ ∀ propertyUrl start end_,
      s.syncedDays siteId propertyUrl start end_ day = true ↔
        start ≤ day ∧ day ≤ end_ ∧ sync.propertyUrl = propertyUrl ∧
          ∀ sync' ∈ later, sync'.Of siteId day → sync'.Failed lib →
            sync'.propertyUrl = propertyUrl := by
  cases h with
  | never hnever view ledger =>
      obtain ⟨past, rfl⟩ := hlast.run
      exact absurd hlast.fetched
        (hnever sync (List.mem_append_right _ List.mem_cons_self) hlast.of data)
  | synced sync₁ data₁ later₁ last view same ledger =>
      obtain ⟨rfl, rfl, rfl⟩ := last.unique hlast
      have hproperty := (fetchDay_of last.fetched).2.2
      refine ⟨view, fun propertyUrl start end_ => ?_⟩
      rw [syncedDays_iff]
      constructor
      · rintro ⟨entry, hentry, hfrom, -, hstart, hend⟩
        cases ledger.symm.trans hentry
        have hfrom' : sync₁.propertyUrl = propertyUrl := hproperty.symm.trans hfrom
        exact ⟨hstart, hend, hfrom', fun sync' hin hof hf => (same sync' hin hof hf).trans hfrom'⟩
      · rintro ⟨hstart, hend, hfrom, -⟩
        exact ⟨_, ledger, hproperty.trans hfrom, rfl, hstart, hend⟩
  | failed sync₁ data₁ later₁ last view other ledger =>
      obtain ⟨rfl, rfl, rfl⟩ := last.unique hlast
      refine ⟨view, fun propertyUrl start end_ => ?_⟩
      rw [syncedDays_iff]
      constructor
      · rintro ⟨entry, hentry, -, hsynced, -⟩
        exact absurd (hsynced.symm.trans (ledger entry hentry)) (by decide)
      · rintro ⟨-, -, rfl, hall⟩
        obtain ⟨sync', hin, hof, hf, hother⟩ := other
        exact absurd (hall sync' hin hof hf) hother

/-- A failure changes nothing that is read, and no good copy but one of its own day from another
property. -/
theorem syncDay_failed (s : Store) (sync : Sync) (hfailed : sync.Failed lib) (siteId : String)
    (day : Int) :
    (syncDay lib text s sync).view siteId day = s.view siteId day ∧
      ∀ entry, s.syncDays siteId day = some entry → entry.status = .synced →
        (sync.Of siteId day → entry.propertyUrl = sync.propertyUrl) →
          (syncDay lib text s sync).syncDays siteId day = some entry := by
  rcases syncDay_cases lib text s sync with
    ⟨data, s', hfetch, -⟩ | ⟨⟨message, hfetch⟩, -⟩ | ⟨exc, hfetch, hexc, hstep⟩
  · obtain ⟨exc, hexc, -⟩ := hfailed
    cases hfetch.symm.trans hexc
  · obtain ⟨exc, hexc, hne⟩ := hfailed
    cases hfetch.symm.trans hexc
    exact absurd rfl (hne message)
  · rw [hstep]
    refine ⟨recordFailure_view, fun entry hentry hsynced hof => ?_⟩
    rcases recordFailure_syncDays s sync.siteId siteId sync.propertyUrl (text exc) sync.day day
      sync.recordedAt with ⟨-, hkept⟩ | ⟨hsite, hday, ⟨kept, hkept, -, -, hstays⟩ | ⟨hother, -⟩⟩
    · exact hkept.trans hentry
    · exact hstays.trans (hkept.symm.trans hentry)
    · exact absurd (hof ⟨hsite.symm, hday.symm⟩) (hother entry hentry hsynced)

/-- For syncs in any order, of any sites, days and properties, and any answers: a day that was
never fetched reads as empty, and a day that was reads as the last fetch that gave data. It is
marked synced from a property exactly if that fetch was from it and no fetch from another has
failed since, and the ledger counts the rows and says whether they are complete as that fetch
had them. One more failure changes nothing that is read, and a good copy only if that is of the
same day and from another property. -/
theorem day_reads_last (lib : Normalisers) (text : FetchException → String) (syncs : List Sync)
    (siteId : String) (day : Int) :
    (NeverFetched lib syncs siteId day →
      (runSyncs lib text syncs).view siteId day = .empty ∧ ∀ propertyUrl start end_,
        (runSyncs lib text syncs).syncedDays siteId propertyUrl start end_ day = false) ∧
    (∀ sync data later, LastFetched lib syncs siteId day sync data later →
      (runSyncs lib text syncs).view siteId day = data.view ∧ ∀ propertyUrl start end_,
        ((runSyncs lib text syncs).syncedDays siteId propertyUrl start end_ day = true ↔
          start ≤ day ∧ day ≤ end_ ∧ sync.propertyUrl = propertyUrl ∧
            ∀ sync' ∈ later, sync'.Of siteId day → sync'.Failed lib →
              sync'.propertyUrl = propertyUrl)) ∧
    (∀ entry, (runSyncs lib text syncs).syncDays siteId day = some entry →
      entry.status = .synced → ∃ sync data later,
        LastFetched lib syncs siteId day sync data later ∧
          data.propertyUrl = entry.propertyUrl ∧ entry = syncedDay data sync.recordedAt) ∧
    (∀ sync : Sync, sync.Failed lib →
      (runSyncs lib text (syncs ++ [sync])).view siteId day =
          (runSyncs lib text syncs).view siteId day ∧
        ∀ entry, (runSyncs lib text syncs).syncDays siteId day = some entry →
          entry.status = .synced → (sync.Of siteId day → entry.propertyUrl = sync.propertyUrl) →
            (runSyncs lib text (syncs ++ [sync])).syncDays siteId day = some entry) := by
  have h := (runSyncs_dayState lib text syncs siteId day).2
  refine ⟨fun hnever => ?_, fun sync data later hlast => h.of_last hlast,
    fun entry hentry hsynced => ?_, fun sync hfailed => ?_⟩
  · cases h with
    | never _ view ledger =>
        refine ⟨view, fun propertyUrl start end_ => ?_⟩
        rw [Bool.eq_false_iff, ne_eq, syncedDays_iff]
        rintro ⟨entry, hentry, -, hsynced, -⟩
        exact absurd (hsynced.symm.trans (ledger entry hentry)) (by decide)
    | synced sync data later last view same ledger =>
        obtain ⟨past, rfl⟩ := last.run
        exact absurd last.fetched
          (hnever sync (List.mem_append_right _ List.mem_cons_self) last.of data)
    | failed sync data later last view other ledger =>
        obtain ⟨past, rfl⟩ := last.run
        exact absurd last.fetched
          (hnever sync (List.mem_append_right _ List.mem_cons_self) last.of data)
  · obtain ⟨sync, data, later, hlast, -, rfl, -, -⟩ := h.of_synced hentry hsynced
    exact ⟨sync, data, later, hlast, rfl, rfl⟩
  · have hrun : runSyncs lib text (syncs ++ [sync]) =
        syncDay lib text (runSyncs lib text syncs) sync := by
      rw [runSyncs, List.foldl_append]
      rfl
    rw [hrun]
    exact syncDay_failed _ sync hfailed siteId day

/-! ## What is read of a synced day -/

/-- The sums over the rows that belong under the keys: none when there is no row. -/
def sumOver {κ : Type} [LinearOrder κ] (rows : Finset (Entry κ)) (keys : κ → Bool) :
    Option Sums :=
  let asked := rows.filter fun e => e.2.1.any keys
  if asked = ∅ then none else some (∑ e ∈ asked, e.sums)

/-- What is read of a group is the sum over the rows that belong under its keys. -/
theorem groupSum_eq_sumOver {κ label ρ : Type} [LinearOrder κ] [DecidableEq label] {rows : List ρ}
    (key : ρ → κ) (labelOf : ρ → label) (deviceOf : ρ → Device) (sums : ρ → Sums)
    {distinct : Finset (Entry κ)} {l : label} {keys : κ → Bool}
    (h : IsGroupSum (rows.map fun row => (key row, sums row)) distinct (fun e => e.2.1)
      Entry.sums)
    (hkeys : ∀ row, keys (key row) = decide (labelOf row = l)) :
    groupSum (rows.map fun row => (labelOf row, deviceOf row, sums row)) l =
      sumOver distinct keys := by
  have hgroup : (rows.map fun row => (labelOf row, deviceOf row, sums row)).filter
      (fun row => row.1 = l) =
        (rows.filter fun row => keys (key row)).map fun row =>
          (labelOf row, deviceOf row, sums row) := by
    rw [List.filter_map]
    exact congrArg _ (List.filter_congr fun row _ => (hkeys row).symm)
  have hunder : (rows.map fun row => (key row, sums row)).filter (fun row => keys row.1) =
      (rows.filter fun row => keys (key row)).map fun row => (key row, sums row) := by
    rw [List.filter_map]
    rfl
  have hsum := h.sum_filter keys
  have hnil := h.filter_eq_nil_iff keys
  rw [hunder, List.map_map] at hsum
  rw [hunder, List.map_eq_nil_iff] at hnil
  unfold groupSum sumOver
  dsimp only
  rw [hgroup, List.map_map]
  by_cases hempty : rows.filter (fun row => keys (key row)) = []
  · rw [hempty, List.map_nil, if_pos rfl, if_pos (hnil.mp hempty)]
  · rw [if_neg fun hmap => hempty (List.map_eq_nil_iff.mp hmap),
      if_neg fun hrows => hempty (hnil.mpr hrows)]
    exact congrArg some hsum

/-- For syncs in any order: what is read of a day that is marked synced from a property is what
Search Console answered for the property, three tables of distinct rows. The totals are the sums
of each device; a page reads as the sums over the rows whose canonical URL it is, and a page and
a query as those over the rows whose canonical URL and normalised query they are, whichever the
device; what no row has is not there. -/
theorem synced_reads_answers (lib : Normalisers) (text : FetchException → String)
    (syncs : List Sync) (siteId propertyUrl : String) (start end_ day : Int)
    (h : (runSyncs lib text syncs).syncedDays siteId propertyUrl start end_ day = true) :
    ∃ sync ∈ syncs, ∃ a : Answers, sync.Of siteId day ∧ sync.propertyUrl = propertyUrl ∧
      Answered day sync.finalThrough sync.query a ∧
      IsGroupSum ((runSyncs lib text syncs).dayTotals siteId day)
        (distinctRows lib (totalsKey lib) Dimensions.totals.names day a.totals.rows)
        (fun e => e.2.1) Entry.sums ∧
      (∀ url, (runSyncs lib text syncs).pageTotals siteId url start end_ day =
        sumOver (distinctRows lib (pageKey lib) Dimensions.pages.names day a.pages.rows)
          fun key => (ofLex key).2 = url) ∧
      ∀ url query, (runSyncs lib text syncs).queryDays siteId url query start end_ day =
        sumOver (distinctRows lib (queryKey lib) Dimensions.queries.names day a.queries.rows)
          fun key => ofLex (ofLex key).2 = (url, query) := by
  obtain ⟨entry, hentry, rfl, hsynced, hstart, hend⟩ := syncedDays_iff.mp h
  obtain ⟨sync, data, later, hlast, hview, rfl, hproperty, -⟩ :=
    (runSyncs_dayState lib text syncs siteId day).2.of_synced hentry hsynced
  obtain ⟨past, hrun⟩ := hlast.run
  obtain ⟨rfl, rfl⟩ := hlast.of
  obtain ⟨a, -, -, -, ha, -, -, -, -⟩ := fetchDay_ok_iff.mp hlast.fetched
  obtain ⟨htotals, hpages, hqueries⟩ := fetchDay_tables ha hlast.fetched
  refine ⟨sync, hrun ▸ List.mem_append_right _ List.mem_cons_self, a, ⟨rfl, rfl⟩,
    hproperty.symm, ha, ?_, fun url => ?_, fun url query => ?_⟩
  · have hread := congrArg DayView.totals hview
    exact (congrArg (fun rows => IsGroupSum rows _ _ _) hread).mpr htotals
  · rw [Store.pageTotals, if_pos ⟨hstart, hend⟩, show Store.dayPages _ _ _ = data.view.pages from
      congrArg DayView.pages hview]
    exact groupSum_eq_sumOver (fun row : PageMetrics => toLex (row.device, row.url)) (·.url)
      (·.device) (·.sums) hpages fun row => rfl
  · rw [Store.queryDays, if_pos ⟨hstart, hend⟩,
      show Store.dayQueries _ _ _ = data.view.queries from congrArg DayView.queries hview]
    exact groupSum_eq_sumOver
      (fun row : QueryMetrics => toLex (row.device, toLex (row.url, row.query)))
      (fun row => (row.url, row.query)) (·.device) (·.sums) hqueries fun row => rfl

/-! ## A shop -/

/-- Texts as they are, and one date. -/
def shopTexts : Normalisers where
  isoformat := fun _ => "2026-07-01"
  upper := id
  canonicalizeUrl := some
  normalizeQuery := id

/-- One click of a shop's first page. -/
def shopQuery : QueryFn
  | .totals, _, _ => .ok ⟨[⟨some [some "2026-07-01", some "MOBILE"], .int 1, .int 4, .int 2⟩], none⟩
  | .pages, _, _ => .ok ⟨[⟨some [some "2026-07-01", some "https://shop.ir/", some "MOBILE"],
      .int 1, .int 4, .int 2⟩], none⟩
  | .queries, _, _ => .ok ⟨[⟨some [some "2026-07-01", some "https://shop.ir/", some "tea",
      some "MOBILE"], .int 1, .int 3, .int 2⟩], none⟩

/-- The day is fetched, and a second fetch fails. -/
def shopSyncs : List Sync :=
  [⟨"shop", "sc-domain:shop.ir", 20, 30, shopQuery, 5⟩,
    ⟨"shop", "sc-domain:shop.ir", 20, 30, fun _ _ _ => .error (.query "quota"), 9⟩]

theorem shopSyncs_synced : (runSyncs shopTexts (fun _ => "error") shopSyncs).syncedDays "shop"
    "sc-domain:shop.ir" 1 30 20 = true := by
  decide +kernel

theorem synced_reads_answers_shop :
    ∃ sync ∈ shopSyncs, ∃ a : Answers, sync.Of "shop" 20 ∧
      sync.propertyUrl = "sc-domain:shop.ir" ∧ Answered 20 sync.finalThrough sync.query a ∧
      IsGroupSum ((runSyncs shopTexts (fun _ => "error") shopSyncs).dayTotals "shop" 20)
        (distinctRows shopTexts (totalsKey shopTexts) Dimensions.totals.names 20 a.totals.rows)
        (fun e => e.2.1) Entry.sums ∧
      (∀ url, (runSyncs shopTexts (fun _ => "error") shopSyncs).pageTotals "shop" url 1 30 20 =
        sumOver (distinctRows shopTexts (pageKey shopTexts) Dimensions.pages.names 20
          a.pages.rows) fun key => (ofLex key).2 = url) ∧
      ∀ url query, (runSyncs shopTexts (fun _ => "error") shopSyncs).queryDays "shop" url query 1
          30 20 =
        sumOver (distinctRows shopTexts (queryKey shopTexts) Dimensions.queries.names 20
          a.queries.rows) fun key => ofLex (ofLex key).2 = (url, query) :=
  synced_reads_answers shopTexts (fun _ => "error") shopSyncs "shop" "sc-domain:shop.ir" 1 30 20
    shopSyncs_synced

end SeoAgent.Warehouse
