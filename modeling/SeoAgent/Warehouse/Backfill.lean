import Mathlib.Algebra.Order.Floor.Div
import SeoAgent.Warehouse.Runner

/-!
# The backfill converges

The ledger is the work list of the rounds that extend it. With a fixed property
and every fetch stored, a round takes the first `daysPerRound` of the due days
and these are the ones that are no longer due: `dueDays_after` says so for the
due days at any later clock, so that the rounds never meet. When the clock
brings no waiting day of the window back, the due days are a fixed list and the
rounds cut it into batches.

With any answers, a failed day of the current property stays as it is in every
round that starts before its retry time.

## Main results

* `runRound_site` — what a round does for one site is that site's turn.
* `runRounds_due` — what is due after rounds is what was due and not fetched.
* `runRounds_batches` — the rounds go through the due days in batches.
* `failed_day_waits` — a failed day is not fetched before its retry time.
-/

namespace SeoAgent.Warehouse

variable {runner : Runner} {round : Round} {siteId propertyUrl : String} {entries : Ledger}

/-! ## One turn -/

/-- The answers a site's turn is given when every fetch succeeds. -/
def Round.Stores (round : Round) (siteId : String) : Prop :=
  ∀ day, round.answer siteId day = .stored

variable (propertyUrl) in
theorem syncDays_stored (h : round.Stores siteId) (days : List Int) (t : Turn) :
    (syncDays round siteId propertyUrl days t).fetched = t.fetched ++ days ∧
      ∀ day, (syncDays round siteId propertyUrl days t).entries day = if day ∈ days then
        some ⟨propertyUrl, .synced, round.recordedAt siteId day⟩ else t.entries day := by
  induction days generalizing t with
  | nil => exact ⟨(List.append_nil _).symm, fun _ => rfl⟩
  | cons d days ih =>
      simp only [syncDays, h d]
      obtain ⟨hfetched, hentries⟩ := ih { t with
        entries := t.entries.replaceDay d propertyUrl (round.recordedAt siteId d),
        fetched := t.fetched ++ [d],
        report.synced := t.report.synced + 1 }
      refine ⟨by rw [hfetched, List.append_assoc]; rfl, fun day => ?_⟩
      rw [hentries day]
      by_cases hday : day ∈ days
      · rw [if_pos hday, if_pos (List.mem_cons_of_mem _ hday)]
      · rw [if_neg hday]
        by_cases heq : day = d
        · subst heq
          rw [if_pos List.mem_cons_self]
          exact Function.update_self _ _ _
        · rw [if_neg fun hin => (List.mem_cons.mp hin).elim heq hday]
          exact Function.update_of_ne heq _ _

theorem Ledger.recordFailure_other {day d : Int} (hne : day ≠ d) (fetchedAt : Int) :
    entries.recordFailure d propertyUrl fetchedAt day = entries day := by
  have hupdate := Function.update_of_ne hne
    (some (⟨propertyUrl, .failed, fetchedAt⟩ : LedgerEntry)) entries
  unfold Ledger.recordFailure
  cases entries d with
  | none => exact hupdate
  | some entry =>
      dsimp only
      by_cases hkept : entry.status = .failed ∨ entry.propertyUrl ≠ propertyUrl
      · rw [if_pos hkept]
        exact hupdate
      · rw [if_neg hkept]

/-- A failure is recorded unless there is a good copy from the property. -/
theorem Ledger.recordFailure_self {d now retryAfter : Int}
    (hdue : IsDue propertyUrl entries now retryAfter d) (fetchedAt : Int) :
    entries.recordFailure d propertyUrl fetchedAt d = some ⟨propertyUrl, .failed, fetchedAt⟩ := by
  have hupdate := Function.update_self d
    (some (⟨propertyUrl, .failed, fetchedAt⟩ : LedgerEntry)) entries
  unfold Ledger.recordFailure
  unfold IsDue at hdue
  cases hd : entries d with
  | none => exact hupdate
  | some entry =>
      rw [hd] at hdue
      dsimp only at hdue ⊢
      rw [if_pos (hdue.elim .inr fun h => .inl h.1)]
      exact hupdate

/-- What the ledger is after a day was asked for. -/
def Round.outcome (round : Round) (siteId propertyUrl : String) (entries : Ledger) (day : Int) :
    Ledger :=
  match round.answer siteId day with
  | .stored => entries.replaceDay day propertyUrl (round.recordedAt siteId day)
  | .failed _ => entries.recordFailure day propertyUrl (round.recordedAt siteId day)
  | .notFinal | .lost => entries

theorem Round.outcome_other {day d : Int} (hne : day ≠ d) :
    round.outcome siteId propertyUrl entries d day = entries day := by
  unfold Round.outcome
  cases round.answer siteId d with
  | stored => exact Function.update_of_ne hne _ _
  | failed refused => exact Ledger.recordFailure_other hne _
  | notFinal => rfl
  | lost => rfl

variable (round siteId propertyUrl) in
/-- One day of the plan: it is asked for, its outcome is recorded, and the turn
goes on or ends. -/
theorem syncDays_cons (d : Int) (days : List Int) (t : Turn) :
    ∃ t' : Turn, (syncDays round siteId propertyUrl (d :: days) t = t' ∨
        syncDays round siteId propertyUrl (d :: days) t =
          syncDays round siteId propertyUrl days t') ∧
      t'.fetched = t.fetched ++ [d] ∧
      t'.entries = round.outcome siteId propertyUrl t.entries d := by
  simp only [syncDays, Round.outcome]
  cases round.answer siteId d with
  | stored => exact ⟨_, .inr rfl, rfl, rfl⟩
  | notFinal => exact ⟨_, .inr rfl, rfl, rfl⟩
  | lost => exact ⟨_, .inr rfl, rfl, rfl⟩
  | failed refused =>
      cases refused with
      | true => exact ⟨_, .inl rfl, rfl, rfl⟩
      | false => exact ⟨_, .inr rfl, rfl, rfl⟩

variable (round siteId propertyUrl) in
/-- Whatever is answered, only days of the plan are asked for and written. -/
theorem syncDays_other (days : List Int) (t : Turn) {day : Int} (h : day ∉ days) :
    (syncDays round siteId propertyUrl days t).entries day = t.entries day ∧
      (day ∈ (syncDays round siteId propertyUrl days t).fetched → day ∈ t.fetched) := by
  induction days generalizing t with
  | nil => exact ⟨rfl, fun hin => hin⟩
  | cons d days ih =>
      obtain ⟨hne, hrest⟩ : day ≠ d ∧ day ∉ days := by simpa only [List.mem_cons, not_or] using h
      obtain ⟨t', hsync, hfetched, hentries⟩ := syncDays_cons round siteId
        propertyUrl d days t
      have hentry : t'.entries day = t.entries day := by rw [hentries, Round.outcome_other hne]
      have hasked : day ∈ t'.fetched → day ∈ t.fetched := by
        intro hin
        rw [hfetched, List.mem_append, List.mem_singleton] at hin
        exact hin.resolve_right hne
      obtain hsync | hsync := hsync
      · rw [hsync]
        exact ⟨hentry, hasked⟩
      · rw [hsync]
        exact ⟨(ih t' hrest).1.trans hentry, fun hin => hasked ((ih t' hrest).2 hin)⟩

/-- A day whose fetch failed is recorded as failed. -/
theorem syncDays_failed {now retryAfter day : Int} {refused : Bool} (days : List Int) (t : Turn)
    (hnodup : days.Nodup) (hdue : ∀ d ∈ days, IsDue propertyUrl t.entries now retryAfter d)
    (hnew : day ∉ t.fetched) (hanswer : round.answer siteId day = .failed refused)
    (h : day ∈ (syncDays round siteId propertyUrl days t).fetched) :
    (syncDays round siteId propertyUrl days t).entries day =
      some ⟨propertyUrl, .failed, round.recordedAt siteId day⟩ := by
  induction days generalizing t with
  | nil => exact absurd h hnew
  | cons d days ih =>
      obtain ⟨hd, hnodup⟩ := List.nodup_cons.mp hnodup
      obtain ⟨t', hsync, hfetched, hentries⟩ := syncDays_cons round siteId
        propertyUrl d days t
      by_cases heq : day = d
      · subst heq
        have hrecorded : t'.entries day =
            some ⟨propertyUrl, .failed, round.recordedAt siteId day⟩ := by
          rw [hentries, Round.outcome, hanswer]
          exact Ledger.recordFailure_self (hdue day List.mem_cons_self) _
        obtain hsync | hsync := hsync
        · rw [hsync, hrecorded]
        · rw [hsync, (syncDays_other round siteId propertyUrl days t' hd).1, hrecorded]
      · have hnew' : day ∉ t'.fetched := by
          rw [hfetched, List.mem_append, List.mem_singleton, not_or]
          exact ⟨hnew, heq⟩
        obtain hsync | hsync := hsync
        · rw [hsync] at h
          exact absurd h hnew'
        · rw [hsync] at h ⊢
          refine ih t' hnodup (fun d' hd' => ?_) hnew' h
          have hne : d' ≠ d := fun heq' => hd (heq' ▸ hd')
          have hdue' := hdue d' (List.mem_cons_of_mem _ hd')
          rwa [IsDue, hentries, Round.outcome_other hne]

/-- A turn asks for days of its plan only. -/
theorem turn_other {site : Site} {day : Int} (report : RoundReport)
    (h : ∀ property ∈ site.gsc, ¬ IsDue property entries round.now runner.retryAfter day) :
    (runner.turn round site entries report).entries day = entries day ∧
      day ∉ (runner.turn round site entries report).fetched := by
  unfold Runner.turn
  dsimp only
  split
  · exact ⟨rfl, List.not_mem_nil⟩
  next property hgsc =>
  split
  · split
    · exact ⟨rfl, List.not_mem_nil⟩
    · split
      · have hplan : day ∉ planDays (runner.window round.now) property entries round.now
            runner.retryAfter runner.daysPerRound := by
          rw [planDays_eq]
          intro hin
          exact h property hgsc (mem_dueDays.mp (List.mem_of_mem_take hin)).2
        have hother := syncDays_other round site.siteId property _
          ⟨entries, [], { report with sites := report.sites + 1 }⟩ hplan
        exact ⟨hother.1, fun hin => absurd (hother.2 hin) List.not_mem_nil⟩
      · exact ⟨rfl, List.not_mem_nil⟩
  · exact ⟨rfl, List.not_mem_nil⟩

variable (runner propertyUrl entries) in
/-- The turn of an eligible site whose fetches all succeed. -/
theorem turn_stored (h : round.Stores siteId) (report : RoundReport) :
    let plan := planDays (runner.window round.now) propertyUrl entries round.now
      runner.retryAfter runner.daysPerRound
    let t := runner.turn round ⟨siteId, some propertyUrl, true, true⟩ entries report
    t.fetched = plan ∧ ∀ day, t.entries day = if day ∈ plan then
      some ⟨propertyUrl, .synced, round.recordedAt siteId day⟩ else entries day := by
  simp only [Runner.turn, if_true]
  split
  · next hplan =>
      rw [hplan]
      exact ⟨rfl, fun _ => by rw [if_neg List.not_mem_nil]⟩
  · have hsync := syncDays_stored propertyUrl h (planDays (runner.window round.now) propertyUrl
      entries round.now runner.retryAfter runner.daysPerRound)
      ⟨entries, [], { report with sites := report.sites + 1 }⟩
    exact ⟨hsync.1.trans (List.nil_append _), hsync.2⟩

/-! ## One round -/

theorem fetchedOf_visit (r : RoundResult) (site : Site) :
    (runner.visit round r site).fetchedOf siteId = r.fetchedOf siteId ++
      if site.siteId = siteId then
        (runner.turn round site (r.ledgers site.siteId) r.report).fetched else [] := by
  simp only [RoundResult.fetchedOf, Runner.visit, List.filter_append, List.map_append,
    List.filter_map, List.map_map]
  congr 1
  by_cases h : site.siteId = siteId
  · rw [if_pos h]
    simp [Function.comp_def, h]
  · rw [if_neg h]
    simp [Function.comp_def, h]

variable (runner round) in
theorem ledgers_visit (r : RoundResult) (site : Site) :
    (runner.visit round r site).ledgers site.siteId =
      (runner.turn round site (r.ledgers site.siteId) r.report).entries :=
  Function.update_self _ _ _

theorem ledgers_visit_other {site : Site} (h : site.siteId ≠ siteId) (r : RoundResult) :
    (runner.visit round r site).ledgers siteId = r.ledgers siteId :=
  Function.update_of_ne h.symm _ _

variable (runner round) in
/-- The turns of other sites leave a site alone. -/
theorem foldl_visit_other {sites : List Site} (h : ∀ site ∈ sites, site.siteId ≠ siteId)
    (r : RoundResult) :
    (sites.foldl (runner.visit round) r).ledgers siteId = r.ledgers siteId ∧
      (sites.foldl (runner.visit round) r).fetchedOf siteId = r.fetchedOf siteId := by
  induction sites generalizing r with
  | nil => exact ⟨rfl, rfl⟩
  | cons site sites ih =>
      obtain ⟨hledger, hfetched⟩ := ih (fun s hs => h s (List.mem_cons_of_mem _ hs))
        (runner.visit round r site)
      have hne := h site List.mem_cons_self
      rw [List.foldl_cons, hledger, hfetched, fetchedOf_visit, if_neg hne, List.append_nil]
      exact ⟨ledgers_visit_other hne r, rfl⟩

/-- The round has the site once, with this property, and may fetch its days. -/
structure Round.Serves (round : Round) (siteId propertyUrl : String) : Prop where
  distinct : (round.sites.map Site.siteId).Nodup
  site : ⟨siteId, some propertyUrl, true, true⟩ ∈ round.sites

variable (runner) in
/-- What a round does for one site is that site's turn. -/
theorem runRound_site (h : round.Serves siteId propertyUrl) (ledgers : String → Ledger) :
    ∃ report, let t := runner.turn round ⟨siteId, some propertyUrl, true, true⟩ (ledgers siteId) report
      (runner.runRound round ledgers).ledgers siteId = t.entries ∧
        (runner.runRound round ledgers).fetchedOf siteId = t.fetched := by
  obtain ⟨before, after, hsites⟩ := List.append_of_mem h.site
  have hdistinct := h.distinct
  rw [hsites, List.map_append, List.map_cons, List.nodup_append] at hdistinct
  obtain ⟨-, hafter, hbefore⟩ := hdistinct
  have hb : ∀ site ∈ before, site.siteId ≠ siteId := fun site hs =>
    hbefore _ (List.mem_map_of_mem hs) _ List.mem_cons_self
  have ha : ∀ site ∈ after, site.siteId ≠ siteId := by
    intro site hs heq
    have hin := List.mem_map_of_mem (f := Site.siteId) hs
    rw [heq] at hin
    exact (List.nodup_cons.mp hafter).1 hin
  have hrun : runner.runRound round ledgers = after.foldl (runner.visit round)
      (runner.visit round (before.foldl (runner.visit round) ⟨ledgers, [], {}⟩)
        ⟨siteId, some propertyUrl, true, true⟩) := by
    rw [Runner.runRound, hsites, List.foldl_append, List.foldl_cons]
  have hstart := foldl_visit_other runner round hb ⟨ledgers, [], {}⟩
  refine ⟨(before.foldl (runner.visit round) ⟨ledgers, [], {}⟩).report, ?_⟩
  dsimp only
  rw [hrun, (foldl_visit_other runner round ha _).1, (foldl_visit_other runner round ha _).2, fetchedOf_visit, if_pos rfl,
    hstart.2, hstart.1]
  refine ⟨?_, List.nil_append _⟩
  have hvisit := ledgers_visit runner round
    (before.foldl (runner.visit round) ⟨ledgers, [], {}⟩) ⟨siteId, some propertyUrl, true, true⟩
  rw [hvisit, hstart.1]

/-! ## Rounds whose fetches succeed -/

section Converges

variable {ledgers : String → Ledger} {window : Int × Int} {rounds : List Round}

variable (ledgers) in
/-- What is due at some clock after a round is what was due and not fetched. -/
theorem dueDays_after (hserves : round.Serves siteId propertyUrl) (hstores : round.Stores siteId)
    (hwindow : runner.window round.now = window) (now : Int) :
    let due := dueDays window propertyUrl (ledgers siteId) round.now runner.retryAfter
    let r := runner.runRound round ledgers
    r.fetchedOf siteId = due.take runner.daysPerRound ∧
      dueDays window propertyUrl (r.ledgers siteId) now runner.retryAfter =
        (dueDays window propertyUrl (ledgers siteId) now runner.retryAfter).filter
          fun day => day ∉ r.fetchedOf siteId := by
  obtain ⟨report, hledger, hfetched⟩ := runRound_site runner hserves ledgers
  obtain ⟨hplan, hentries⟩ := turn_stored runner propertyUrl (ledgers siteId) hstores report
  rw [hplan] at hfetched
  rw [hwindow] at hfetched hentries
  refine ⟨hfetched.trans (planDays_eq _), ?_⟩
  rw [dueDays, dueDays, List.filter_filter]
  refine List.filter_congr fun day _ => ?_
  rw [hledger, hfetched, ← Bool.decide_and, decide_eq_decide, IsDue, hentries day]
  split
  · next heq =>
      split at heq
      · cases heq
      · next hin => simp only [IsDue, heq, hin, not_false_iff, and_true]
  · next entry heq =>
      split at heq
      · next hin =>
          cases heq
          simp [hin]
      · next hin => simp only [IsDue, heq, hin, not_false_iff, true_and]

/-- A round of the backfill of a site: it serves the site, the window is the one
given, and every fetch succeeds. -/
structure Round.Backfills (round : Round) (runner : Runner) (siteId propertyUrl : String)
    (window : Int × Int) : Prop where
  serves : round.Serves siteId propertyUrl
  stores : round.Stores siteId
  window : runner.window round.now = window

/-- What is due after rounds is what was due and not fetched. -/
theorem runRounds_due (h : ∀ round ∈ rounds, round.Backfills runner siteId propertyUrl window)
    (now : Int) :
    dueDays window propertyUrl (runner.runRounds ledgers rounds siteId) now runner.retryAfter =
      (dueDays window propertyUrl (ledgers siteId) now runner.retryAfter).filter
        fun day => day ∉ (runner.fetchedOver siteId ledgers rounds).flatten := by
  induction rounds generalizing ledgers with
  | nil => simp [Runner.runRounds, Runner.fetchedOver]
  | cons round rounds ih =>
      have hround := h round List.mem_cons_self
      have hafter := (dueDays_after ledgers hround.serves hround.stores
        hround.window now).2
      rw [Runner.runRounds, ih fun r hr => h r (List.mem_cons_of_mem _ hr), hafter,
        List.filter_filter, Runner.fetchedOver, List.flatten_cons]
      refine List.filter_congr fun day _ => ?_
      rw [← Bool.decide_and, decide_eq_decide, List.mem_append, not_or, and_comm]

/-- Each round asks for the first `daysPerRound` of the days that are due when
it starts, newest first. -/
theorem fetchedOver_eq (h : ∀ round ∈ rounds, round.Backfills runner siteId propertyUrl window)
    {days : List Int} (hdays : days ∈ runner.fetchedOver siteId ledgers rounds) :
    ∃ round ∈ rounds, ∃ now : String → Ledger,
      days = (dueDays window propertyUrl (now siteId) round.now runner.retryAfter).take
        runner.daysPerRound ∧
      ∀ day ∈ days, day ∈ dueDays window propertyUrl (ledgers siteId) round.now
        runner.retryAfter := by
  induction rounds generalizing ledgers with
  | nil => cases hdays
  | cons round rounds ih =>
      have hround := h round List.mem_cons_self
      obtain ⟨hfetched, -⟩ := dueDays_after ledgers hround.serves hround.stores
        hround.window round.now
      rcases List.mem_cons.mp hdays with rfl | hdays
      · exact ⟨round, List.mem_cons_self, ledgers, hfetched,
          fun day hday => List.mem_of_mem_take (hfetched ▸ hday)⟩
      · obtain ⟨r, hr, now, heq, hdue⟩ := ih (fun r hr => h r (List.mem_cons_of_mem _ hr)) hdays
        refine ⟨r, List.mem_cons_of_mem _ hr, now, heq, fun day hday => ?_⟩
        have hday := hdue day hday
        rw [(dueDays_after ledgers hround.serves hround.stores hround.window r.now).2] at hday
        exact List.mem_of_mem_filter hday

/-- No day is fetched twice. -/
theorem fetchedOver_nodup (h : ∀ round ∈ rounds, round.Backfills runner siteId propertyUrl window) :
    (runner.fetchedOver siteId ledgers rounds).flatten.Nodup := by
  induction rounds generalizing ledgers with
  | nil => exact List.nodup_nil
  | cons round rounds ih =>
      have hround := h round List.mem_cons_self
      have hrest := fun r hr => h r (List.mem_cons_of_mem round hr)
      obtain ⟨hfetched, -⟩ := dueDays_after ledgers hround.serves hround.stores
        hround.window round.now
      rw [Runner.fetchedOver, List.flatten_cons, List.nodup_append]
      refine ⟨?_, ih hrest, fun day hday day' hday' heq => ?_⟩
      · rw [hfetched]
        exact dueDays_nodup.sublist (List.take_sublist _ _)
      · subst heq
        obtain ⟨days, hdays, hin⟩ := List.mem_flatten.mp hday'
        obtain ⟨r, -, -, -, hdue⟩ := fetchedOver_eq hrest hdays
        have hlater := hdue day hin
        rw [(dueDays_after ledgers hround.serves hround.stores hround.window r.now).2] at hlater
        have hnot := List.of_mem_filter hlater
        exact absurd hday (of_decide_eq_true hnot)

/-- What is left of a list without repetition when its beginning is taken out. -/
theorem filter_not_mem_take {l : List Int} (h : l.Nodup) (k : Nat) :
    (l.filter fun day => day ∉ l.take k) = l.drop k := by
  have hsplit := h
  rw [← List.take_append_drop k l, List.nodup_append] at hsplit
  calc (l.filter fun day => day ∉ l.take k)
      = (l.take k ++ l.drop k).filter fun day => day ∉ l.take k := by rw [List.take_append_drop]
    _ = [] ++ l.drop k := by
        rw [List.filter_append]
        congr 1
        · exact List.filter_eq_nil_iff.mpr fun day hday => by simp [hday]
        · refine List.filter_eq_self.mpr fun day hday => decide_eq_true fun hin => ?_
          exact hsplit.2.2 day hin day hday rfl
    _ = l.drop k := List.nil_append _

/-- While the clock brings no other day back, the rounds go through the due days
in batches, newest first. -/
theorem runRounds_batches {due : List Int}
    (h : ∀ round ∈ rounds, round.Backfills runner siteId propertyUrl window)
    (hdue : ∀ round ∈ rounds,
      dueDays window propertyUrl (ledgers siteId) round.now runner.retryAfter = due) :
    (runner.fetchedOver siteId ledgers rounds).flatten =
      due.take (runner.daysPerRound * rounds.length) := by
  induction rounds generalizing ledgers due with
  | nil => simp [Runner.fetchedOver]
  | cons round rounds ih =>
      have hround := h round List.mem_cons_self
      have hhere := hdue round List.mem_cons_self
      obtain ⟨hfetched, -⟩ := dueDays_after ledgers hround.serves hround.stores
        hround.window round.now
      rw [hhere] at hfetched
      have hnodup : due.Nodup := hhere ▸ dueDays_nodup
      have hrest : (runner.fetchedOver siteId (runner.runRound round ledgers).ledgers rounds).flatten =
          (due.drop runner.daysPerRound).take (runner.daysPerRound * rounds.length) := by
        refine ih (fun r hr => h r (List.mem_cons_of_mem _ hr)) fun r hr => ?_
        rw [(dueDays_after ledgers hround.serves hround.stores hround.window r.now).2,
          hdue r (List.mem_cons_of_mem _ hr), hfetched, filter_not_mem_take hnodup]
      rw [Runner.fetchedOver, List.flatten_cons, hfetched, hrest, List.length_cons, Nat.mul_succ,
        Nat.add_comm, List.take_add]

end Converges

/-! ## Days that failed -/

section Waits

variable {ledgers : String → Ledger} {rounds : List Round} {day failedAt : Int}

/-- A round that starts before the retry time of a failed day, and has the site
with the property the day failed from if at all. -/
structure Round.Early (round : Round) (runner : Runner) (siteId propertyUrl : String)
    (failedAt : Int) : Prop where
  property : ∀ site ∈ round.sites, site.siteId = siteId → ∀ p ∈ site.gsc, p = propertyUrl
  now : round.now - failedAt < runner.retryAfter

/-- A failed day is left as it is by every site's turn. -/
theorem foldl_visit_waits (sites : List Site) (hnow : round.now - failedAt < runner.retryAfter)
    (hsites : ∀ site ∈ sites, site.siteId = siteId → ∀ p ∈ site.gsc, p = propertyUrl)
    (r : RoundResult) (hentry : r.ledgers siteId day = some ⟨propertyUrl, .failed, failedAt⟩) :
    (sites.foldl (runner.visit round) r).ledgers siteId day =
        some ⟨propertyUrl, .failed, failedAt⟩ ∧
      (day ∈ (sites.foldl (runner.visit round) r).fetchedOf siteId → day ∈ r.fetchedOf siteId) := by
  induction sites generalizing r with
  | nil => exact ⟨hentry, fun h => h⟩
  | cons site sites ih =>
      have hproperty := hsites site List.mem_cons_self
      have hrest := fun s hs => hsites s (List.mem_cons_of_mem site hs)
      have hvisit : (runner.visit round r site).ledgers siteId day =
          some ⟨propertyUrl, .failed, failedAt⟩ ∧
            (day ∈ (runner.visit round r site).fetchedOf siteId → day ∈ r.fetchedOf siteId) := by
        rw [fetchedOf_visit]
        by_cases h : site.siteId = siteId
        · subst h
          have hwaits : ∀ p ∈ site.gsc,
              ¬ IsDue p (r.ledgers site.siteId) round.now runner.retryAfter day := by
            intro p hp
            rw [hproperty rfl p hp, IsDue, hentry]
            simp only [ne_eq, not_true_eq_false, false_or, true_and]
            omega
          obtain ⟨hsame, hnot⟩ := turn_other r.report hwaits
          rw [if_pos rfl]
          refine ⟨?_, fun hin => (List.mem_append.mp hin).resolve_right hnot⟩
          rw [ledgers_visit, hsame, hentry]
        · rw [if_neg h, List.append_nil]
          refine ⟨?_, fun hin => hin⟩
          rw [ledgers_visit_other h, hentry]
      obtain ⟨hledger, hfetched⟩ := ih hrest (runner.visit round r site) hvisit.1
      exact ⟨hledger, fun hin => hvisit.2 (hfetched hin)⟩

/-- Whatever the rounds are answered, a failed day is not fetched again in
rounds that start before its retry time. -/
theorem failed_day_waits (hentry : ledgers siteId day = some ⟨propertyUrl, .failed, failedAt⟩)
    (h : ∀ round ∈ rounds, round.Early runner siteId propertyUrl failedAt) :
    day ∉ (runner.fetchedOver siteId ledgers rounds).flatten := by
  induction rounds generalizing ledgers with
  | nil => exact List.not_mem_nil
  | cons round rounds ih =>
      have hround := h round List.mem_cons_self
      obtain ⟨hledger, hfetched⟩ := foldl_visit_waits round.sites hround.now hround.property
        ⟨ledgers, [], {}⟩ hentry
      rw [Runner.fetchedOver, List.flatten_cons, List.mem_append, not_or]
      refine ⟨fun hin => ?_, ih hledger fun r hr => h r (List.mem_cons_of_mem _ hr)⟩
      have hnone := hfetched hin
      cases hnone

/-- The failure of a day that was fetched is recorded. -/
theorem runRound_failed {refused : Bool} (hserves : round.Serves siteId propertyUrl)
    (hanswer : round.answer siteId day = .failed refused)
    (h : day ∈ (runner.runRound round ledgers).fetchedOf siteId) :
    (runner.runRound round ledgers).ledgers siteId day =
      some ⟨propertyUrl, .failed, round.recordedAt siteId day⟩ := by
  obtain ⟨report, hledger, hfetched⟩ := runRound_site runner hserves ledgers
  rw [hledger]
  rw [hfetched] at h
  simp only [Runner.turn, if_true] at h ⊢
  split at h
  · cases h
  · next hplan =>
      rw [if_neg hplan]
      rw [planDays_eq] at h ⊢
      have hdue : ∀ d ∈ (dueDays (runner.window round.now) propertyUrl (ledgers siteId) round.now
          runner.retryAfter).take runner.daysPerRound,
          IsDue propertyUrl (ledgers siteId) round.now runner.retryAfter d :=
        fun d hd => (mem_dueDays.mp (List.mem_of_mem_take hd)).2
      exact syncDays_failed _ _ (dueDays_nodup.sublist (List.take_sublist _ _)) hdue
        List.not_mem_nil hanswer h

end Waits

/-! ## The backfill -/

/-- For every window, ledger and limit.

While a site keeps its property and every fetch succeeds, no day is fetched
twice, a round asks for its days newest first and for at most `daysPerRound` of
them, and what is due at any clock after the rounds is what was due before and
was not fetched. If the due days are the same at the clocks of the rounds, the
rounds fetch them newest first, and nothing is due exactly when there were at
least as many rounds as it takes batches.

With any answers, a failed fetch is recorded and the day is not fetched again
before its retry time; a day recorded from another property is due. -/
theorem backfill_converges (runner : Runner) (siteId propertyUrl : String) (window : Int × Int)
    (ledgers : String → Ledger) :
    (1 ≤ runner.daysPerRound → ∀ rounds : List Round,
      (∀ round ∈ rounds, round.Backfills runner siteId propertyUrl window) →
        (runner.fetchedOver siteId ledgers rounds).flatten.Nodup ∧
        (∀ days ∈ runner.fetchedOver siteId ledgers rounds,
          days.Pairwise (· > ·) ∧ days.length ≤ runner.daysPerRound) ∧
        (∀ now, dueDays window propertyUrl (runner.runRounds ledgers rounds siteId) now
            runner.retryAfter =
          (dueDays window propertyUrl (ledgers siteId) now runner.retryAfter).filter
            fun day => day ∉ (runner.fetchedOver siteId ledgers rounds).flatten) ∧
        ∀ due, (∀ round ∈ rounds,
            dueDays window propertyUrl (ledgers siteId) round.now runner.retryAfter = due) →
          (runner.fetchedOver siteId ledgers rounds).flatten =
              due.take (runner.daysPerRound * rounds.length) ∧
          ∀ now, dueDays window propertyUrl (ledgers siteId) now runner.retryAfter = due →
            (dueDays window propertyUrl (runner.runRounds ledgers rounds siteId) now
                runner.retryAfter = [] ↔
              due.length ⌈/⌉ runner.daysPerRound ≤ rounds.length)) ∧
    (∀ (round : Round) (day : Int) (refused : Bool), round.Serves siteId propertyUrl →
      round.answer siteId day = .failed refused →
      day ∈ (runner.runRound round ledgers).fetchedOf siteId →
        (runner.runRound round ledgers).ledgers siteId day =
          some ⟨propertyUrl, .failed, round.recordedAt siteId day⟩) ∧
    (∀ (day failedAt : Int) (rounds : List Round),
      ledgers siteId day = some ⟨propertyUrl, .failed, failedAt⟩ →
      (∀ round ∈ rounds, round.Early runner siteId propertyUrl failedAt) →
        day ∉ (runner.fetchedOver siteId ledgers rounds).flatten) ∧
    (∀ (day now : Int) (entry : LedgerEntry), window.1 ≤ day → day ≤ window.2 →
      ledgers siteId day = some entry → entry.propertyUrl ≠ propertyUrl →
        day ∈ dueDays window propertyUrl (ledgers siteId) now runner.retryAfter) := by
  refine ⟨fun hlimit rounds h => ⟨fetchedOver_nodup h, fun days hdays => ?_, runRounds_due h,
    fun due hdue => ⟨runRounds_batches h hdue, fun now hnow => ?_⟩⟩,
    fun _ _ _ hserves hanswer hin => runRound_failed hserves hanswer hin,
    fun _ _ _ hentry hearly => failed_day_waits hentry hearly,
    fun day now entry hold hnew hentry hother => ?_⟩
  · obtain ⟨round, -, now, rfl, -⟩ := fetchedOver_eq h hdays
    exact ⟨dueDays_sorted.sublist (List.take_sublist _ _), List.length_take_le _ _⟩
  · have hnodup : due.Nodup := hnow ▸ dueDays_nodup
    rw [runRounds_due h, hnow, runRounds_batches h hdue, filter_not_mem_take hnodup,
      List.drop_eq_nil_iff, ceilDiv_le_iff_le_mul hlimit]
  · rw [mem_dueDays, IsDue, hentry]
    exact ⟨⟨hold, hnew⟩, .inl hother⟩

/-- A runner with a window of five days and two days a round. -/
def shortRunner : Runner := ⟨2, 6 * hour, fun _ => (11, 15)⟩

/-- A site that has switched to another property after day 12, and whose day 13
is stored already. -/
def switchedLedger : String → Ledger := fun _ day =>
  if day = 13 then some ⟨"sc-domain:shop.ir", .synced, 0⟩
  else if day = 12 then some ⟨"https://shop.ir/", .synced, 0⟩
  else none

/-- A round in which everything is stored. -/
def goodRound : Round where
  now := 16 * 24 * hour
  sites := [⟨"blog", none, true, true⟩, ⟨"shop", some "sc-domain:shop.ir", true, true⟩]
  answer := fun _ _ => .stored
  recordedAt := fun _ _ => 16 * 24 * hour

theorem backfill_of_switchedLedger :
    (shortRunner.fetchedOver "shop" switchedLedger [goodRound, goodRound]).flatten = [15, 14, 12, 11] ∧
      dueDays (11, 15) "sc-domain:shop.ir"
        (shortRunner.runRounds switchedLedger [goodRound, goodRound] "shop") goodRound.now
        shortRunner.retryAfter = [] := by
  have hdue : dueDays (11, 15) "sc-domain:shop.ir" (switchedLedger "shop") goodRound.now
      shortRunner.retryAfter = [15, 14, 12, 11] := by decide
  have hround : ∀ round ∈ [goodRound, goodRound],
      round.Backfills shortRunner "shop" "sc-domain:shop.ir" (11, 15) := by
    intro round hround
    obtain rfl : round = goodRound := by simpa using hround
    exact ⟨⟨by decide, by decide⟩, fun _ => rfl, rfl⟩
  have hsame : ∀ round ∈ [goodRound, goodRound], dueDays (11, 15) "sc-domain:shop.ir"
      (switchedLedger "shop") round.now shortRunner.retryAfter = [15, 14, 12, 11] := by
    intro round hround
    obtain rfl : round = goodRound := by simpa using hround
    exact hdue
  obtain ⟨hfetched, hdone⟩ := ((backfill_converges shortRunner "shop" "sc-domain:shop.ir" (11, 15)
    switchedLedger).1 (by decide) [goodRound, goodRound] hround).2.2.2 _ hsame
  exact ⟨hfetched, (hdone goodRound.now hdue).mpr (by decide)⟩

end SeoAgent.Warehouse
