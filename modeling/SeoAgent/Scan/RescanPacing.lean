import SeoAgent.Scan.RescanRound

/-!
# The pace of the monthly rescan

The versions of a site's scan record are its history: a queued scan begins an attempt, and
what is saved of it after that takes its place. From any history of rounds, customers' scans
and saves of deliveries, with a clock that does not go back, a round scans a site no earlier
than a month after its last finished scan, although the branch for a failed attempt never
looks at that date: the attempt that failed was itself made a month after it, and the date is
the same as long as no scan finishes.

## Main results

* `Paced.due` — what a site that is due has waited for.
* `monthly_pacing` — what a round does after any history.
-/

namespace SeoAgent.Scan

open SeoAgent.Verified Service

/-! ## The history of a site -/

/-- When a scan was finished. -/
def finishedAt (scan : SiteScan) : Int := scan.completedAt.getD scan.requestedAt

def isFinished (scan : SiteScan) : Bool := scan.status = .completed

def failedMonthly (scan : SiteScan) : Bool := scan.status = .failed && scan.trigger = .monthly

/-- The attempts among the versions of a scan record, the newest first, each as it was left. -/
def attemptsIn (versions : List SiteScan) : List SiteScan :=
  versions.foldl (fun attempts version =>
    version :: if version.status = .queued then attempts else attempts.tail) []

/-- How many monthly attempts failed in a row at the end. -/
def failedInARow (versions : List SiteScan) : Nat :=
  ((attemptsIn versions).takeWhile failedMonthly).length

/-- When the last finished scan was. -/
def lastFinished (versions : List SiteScan) : Option Int :=
  (versions.filter isFinished).getLast?.map finishedAt

theorem attemptsIn_append (versions : List SiteScan) (version : SiteScan) :
    attemptsIn (versions ++ [version]) = version ::
      if version.status = .queued then attemptsIn versions else (attemptsIn versions).tail := by
  unfold attemptsIn
  rw [List.foldl_append]
  rfl

theorem head?_attemptsIn (versions : List SiteScan) :
    (attemptsIn versions).head? = versions.getLast? := by
  rcases List.eq_nil_or_concat versions with rfl | ⟨before, version, rfl⟩
  · rfl
  · rw [List.concat_eq_append, attemptsIn_append, List.getLast?_append]
    rfl

/-- What is so of the versions of a site's scan record and of its finished scans at a time. -/
structure Paced (versions kept : List SiteScan) (t : Int) : Prop where
  held : kept = versions.filter isFinished
  past : ∀ scan ∈ versions, scan.requestedAt ≤ t ∧ finishedAt scan ≤ t
  ordered : (kept.map finishedAt).Pairwise (· ≤ ·)
  /-- A monthly attempt was made a month after every scan that had finished. -/
  rested : ∀ latest ∈ versions.getLast?, latest.trigger = .monthly → isFinished latest = false →
    ∀ scan ∈ kept, rescanEvery ≤ latest.requestedAt - finishedAt scan
  /-- It counts the monthly attempts that failed in a row before it. -/
  counted : ∀ latest ∈ versions.getLast?, latest.trigger = .monthly →
    latest.monthlyFailures = ((attemptsIn versions).tail.takeWhile failedMonthly).length

section History
variable {versions kept : List SiteScan} {t now : Int} {scan latest done : SiteScan} {last : Int}

theorem Paced.nil : Paced [] [] t where
  held := rfl
  past := fun _ h => absurd h List.not_mem_nil
  ordered := List.Pairwise.nil
  rested := fun _ h => absurd h (Option.not_mem_none _)
  counted := fun _ h => absurd h (Option.not_mem_none _)

theorem Paced.later (h : Paced versions kept t) (hle : t ≤ now) : Paced versions kept now where
  held := h.held
  past := fun scan hscan => ⟨(h.past scan hscan).1.trans hle, (h.past scan hscan).2.trans hle⟩
  ordered := h.ordered
  rested := h.rested
  counted := h.counted

/-- No scan finished after the last one. -/
theorem Paced.le_last (h : Paced versions kept t) (hdone : kept.getLast? = some done)
    (hscan : scan ∈ kept) : finishedAt scan ≤ finishedAt done := by
  obtain ⟨before, rfl⟩ := List.getLast?_eq_some_iff.mp hdone
  have hsplit := h.ordered
  rw [List.map_append, List.pairwise_append] at hsplit
  rcases List.mem_append.mp hscan with hold | hlast
  · exact hsplit.2.2 _ (List.mem_map_of_mem hold) _ (List.mem_map_of_mem (List.mem_singleton_self _))
  · rw [List.mem_singleton.mp hlast]

/-- The attempts that failed in a row, from the latest one's own count. -/
theorem Paced.failedInARow_eq (h : Paced versions kept t) (hlatest : versions.getLast? = some latest)
    (hfailed : failedMonthly latest = true) : failedInARow versions = latest.monthlyFailures + 1 := by
  have hmonthly : latest.trigger = .monthly := by
    unfold failedMonthly at hfailed
    exact of_decide_eq_true (Bool.and_eq_true_iff.mp hfailed).2
  have hhead := head?_attemptsIn versions
  rw [hlatest] at hhead
  obtain ⟨rest, hattempts⟩ := List.head?_eq_some_iff.mp hhead
  have hcounted := h.counted latest hlatest hmonthly
  unfold failedInARow
  rw [hattempts, List.tail_cons] at hcounted
  rw [hattempts, List.takeWhile_cons, if_pos hfailed, List.length_cons, hcounted]

theorem failedInARow_eq_zero (h : ∀ latest, versions.getLast? = some latest → failedMonthly latest = false) :
    failedInARow versions = 0 := by
  unfold failedInARow
  cases hattempts : attemptsIn versions with
  | nil => rfl
  | cons latest rest =>
      have hhead := head?_attemptsIn versions
      rw [hattempts, List.head?_cons] at hhead
      rw [List.takeWhile_cons, if_neg (Bool.eq_false_iff.mp (h latest hhead.symm))]
      rfl

/-- The failures a new monthly scan counts. -/
theorem Paced.failuresBefore_eq (h : Paced versions kept t) :
    failuresBefore .monthly versions.getLast? = failedInARow versions := by
  cases hlatest : versions.getLast? with
  | none =>
      refine (failedInARow_eq_zero fun latest hsome => ?_).symm
      rw [hlatest] at hsome
      cases hsome
  | some latest =>
      cases hfailed : failedMonthly latest with
      | true =>
          rw [h.failedInARow_eq hlatest hfailed]
          unfold failedMonthly at hfailed
          obtain ⟨hstatus, htrigger⟩ := Bool.and_eq_true_iff.mp hfailed
          exact if_pos ⟨rfl, of_decide_eq_true htrigger, of_decide_eq_true hstatus⟩
      | false =>
          rw [failedInARow_eq_zero fun other hother => by
            rw [hlatest] at hother
            rwa [← Option.some.inj hother]]
          refine if_neg fun hall => ?_
          unfold failedMonthly at hfailed
          rw [decide_eq_true hall.2.1, decide_eq_true hall.2.2] at hfailed
          cases hfailed

/-- A failed attempt is waited after for a day, then two, four and eight days. -/
theorem wait_eq (n : Nat) :
    min (retryFailedAfter * 2 ^ min n 3) maxRetryWait = min (2 ^ n) 8 * day := by
  unfold retryFailedAfter maxRetryWait
  rcases Nat.lt_or_ge n 3 with hn | hn
  · rw [Nat.min_eq_left (Nat.le_of_lt hn)]
    interval_cases n
    · decide
    · decide
    · decide
  · have hpow : (8 : Int) ≤ 2 ^ n := by
      have := pow_le_pow_right₀ (show (1 : Int) ≤ 2 by decide) hn
      exact this
    rw [Nat.min_eq_right hn, min_eq_right hpow]
    decide

/-- A site that is due was last scanned a month ago, and after monthly attempts that failed
in a row it has waited since the last of them. -/
theorem Paced.due (h : Paced versions kept t) (hle : t ≤ now) (hdone : kept.getLast? = some done)
    (hdue : dueAfter done versions.getLast? now = some last) :
    last = finishedAt done ∧ (∀ scan ∈ kept, rescanEvery ≤ now - finishedAt scan) ∧
      ∀ n, failedInARow versions = n + 1 → ∃ attempt, versions.getLast? = some attempt ∧
        min (2 ^ n) 8 * day ≤ now - attempt.requestedAt := by
  have hmonth (hlong : rescanEvery ≤ now - finishedAt done) :
      ∀ scan ∈ kept, rescanEvery ≤ now - finishedAt scan := fun scan hscan => by
    have := h.le_last hdone hscan
    omega
  cases hlatest : versions.getLast? with
  | none =>
      rw [hlatest, dueAfter] at hdue
      obtain ⟨hlong, hlast⟩ := Option.ite_none_right_eq_some.mp hdue
      have hzero : failedInARow versions = 0 :=
        failedInARow_eq_zero fun latest hsome => by rw [hlatest] at hsome; cases hsome
      refine ⟨(Option.some.inj hlast).symm, hmonth hlong, fun n hn => ?_⟩
      rw [hzero] at hn
      cases hn
  | some latest =>
      rw [hlatest, dueAfter] at hdue
      split at hdue
      · cases hdue
      · split at hdue
        · next hfailed =>
            have hmonthly : failedMonthly latest = true := by
              unfold failedMonthly
              rw [decide_eq_true hfailed.1, decide_eq_true hfailed.2]
              rfl
            obtain ⟨hwait, hlast⟩ := Option.ite_none_left_eq_some.mp hdue
            refine ⟨(Option.some.inj hlast).symm, fun scan hscan => ?_, fun n hn => ⟨latest, rfl, ?_⟩⟩
            · have hunfinished : isFinished latest = false := by
                unfold isFinished
                rw [hfailed.1]
                decide
              have hrested := h.rested latest hlatest hfailed.2 hunfinished scan hscan
              have := (h.past latest (List.mem_of_getLast? hlatest)).1
              omega
            · rw [h.failedInARow_eq hlatest hmonthly] at hn
              obtain rfl := Nat.succ.inj hn
              rw [← wait_eq]
              exact not_lt.mp hwait
        · next hnot =>
            obtain ⟨hlong, hlast⟩ := Option.ite_none_right_eq_some.mp hdue
            have hzero : failedInARow versions = 0 := by
              refine failedInARow_eq_zero fun other hother => ?_
              rw [hlatest] at hother
              obtain rfl := Option.some.inj hother
              unfold failedMonthly
              rw [Bool.and_eq_false_iff, decide_eq_false_iff_not, decide_eq_false_iff_not,
                ← not_and_or]
              exact hnot
            refine ⟨(Option.some.inj hlast).symm, hmonth hlong, fun n hn => ?_⟩
            rw [hzero] at hn
            cases hn

/-! ## What keeps the pace -/

/-- A scan is queued: by the customer, or for a site that is due. -/
theorem Paced.queue (h : Paced versions kept t) (hle : t ≤ now) (hqueued : scan.status = .queued)
    (hnow : scan.requestedAt = now) (hfinished : scan.completedAt = none)
    (hmonth : scan.trigger = .monthly → ∀ done ∈ kept, rescanEvery ≤ now - finishedAt done)
    (hcounted : scan.trigger = .monthly →
      scan.monthlyFailures = failuresBefore .monthly versions.getLast?) :
    Paced (versions ++ [scan]) kept now := by
  have hunfinished : isFinished scan = false := by
    unfold isFinished
    rw [hqueued]
    decide
  refine
    { held := ?_
      past := fun other hother => ?_
      ordered := h.ordered
      rested := fun latest hlatest hmonthly _ done hdone => ?_
      counted := fun latest hlatest hmonthly => ?_ }
  · rw [List.filter_append, List.filter_singleton, hunfinished, h.held]
    exact (List.append_nil _).symm
  · rcases List.mem_append.mp hother with hold | hnew
    · exact (h.later hle).past other hold
    · obtain rfl := List.mem_singleton.mp hnew
      unfold finishedAt
      rw [hfinished]
      exact ⟨hnow.le, hnow.le⟩
  · rw [List.getLast?_concat] at hlatest
    obtain rfl := Option.some.inj hlatest
    rw [hnow]
    exact hmonth hmonthly done hdone
  · rw [List.getLast?_concat] at hlatest
    obtain rfl := Option.some.inj hlatest
    rw [attemptsIn_append, List.tail_cons, if_pos hqueued, hcounted hmonthly, h.failuresBefore_eq]
    rfl

/-- What a delivery saves of a scan that is not finished. -/
inductive Outcome
  | begins
  | finishes (report : CrawlReport)
  | fails (error : String)

/-- The saves of the `site_scan` handler. A scan that is lost with the server is saved no
more. -/
def Outcome.save (at_ : Int) (scan : SiteScan) : Outcome → SiteScan
  | begins => { scan with status := .running, error := none }
  | finishes report =>
      { scan with
        status := .completed, completedAt := some at_, report := some report
        newIssueCount := newIssueCount scan report.issues }
  | fails error => { scan with status := .failed, error := some error }

/-- The latest attempt, which was not finished, is saved. -/
theorem Paced.save (h : Paced versions kept t) (hle : t ≤ now)
    (hlatest : versions.getLast? = some latest) (hopen : isFinished latest = false)
    (outcome : Outcome) :
    Paced (versions ++ [outcome.save now latest])
      (kept ++ if isFinished (outcome.save now latest) then [outcome.save now latest] else [])
      now := by
  have hpast := (h.later hle).past latest (List.mem_of_getLast? hlatest)
  have hnotqueued : (outcome.save now latest).status ≠ .queued := by
    cases outcome <;> exact ScanStatus.noConfusion
  have hsame : (outcome.save now latest).requestedAt = latest.requestedAt ∧
      (outcome.save now latest).trigger = latest.trigger ∧
      (outcome.save now latest).monthlyFailures = latest.monthlyFailures := by
    cases outcome <;> exact ⟨rfl, rfl, rfl⟩
  have hfinished : finishedAt (outcome.save now latest) ≤ now ∧
      (isFinished (outcome.save now latest) = true →
        finishedAt (outcome.save now latest) = now) := by
    cases outcome with
    | begins => exact ⟨hpast.2, fun hdone => by cases hdone⟩
    | finishes report => exact ⟨le_rfl, fun _ => rfl⟩
    | fails error => exact ⟨hpast.2, fun hdone => by cases hdone⟩
  generalize outcome.save now latest = saved at *
  obtain ⟨hrequested, htrigger, hfailures⟩ := hsame
  refine
    { held := ?_
      past := fun other hother => ?_
      ordered := ?_
      rested := fun newest hnewest hmonthly hunfinished done hdone => ?_
      counted := fun newest hnewest hmonthly => ?_ }
  · rw [List.filter_append, List.filter_singleton, h.held, Bool.cond_eq_ite]
  · rcases List.mem_append.mp hother with hold | hnew
    · exact (h.later hle).past other hold
    · obtain rfl := List.mem_singleton.mp hnew
      exact ⟨hrequested ▸ hpast.1, hfinished.1⟩
  · split
    · next hdone =>
        rw [List.map_append, List.pairwise_append]
        refine ⟨h.ordered, List.pairwise_singleton _ _, fun a ha b hb => ?_⟩
        obtain ⟨scan, hscan, rfl⟩ := List.mem_map.mp ha
        rw [List.map_singleton, List.mem_singleton] at hb
        rw [hb, hfinished.2 hdone]
        rw [h.held] at hscan
        exact ((h.later hle).past scan (List.mem_filter.mp hscan).1).2
    · rw [List.append_nil]
      exact h.ordered
  · rw [List.getLast?_concat] at hnewest
    obtain rfl := Option.some.inj hnewest
    rw [hunfinished, if_neg Bool.false_ne_true, List.append_nil] at hdone
    rw [hrequested]
    exact h.rested latest hlatest (htrigger ▸ hmonthly) hopen done hdone
  · rw [List.getLast?_concat] at hnewest
    obtain rfl := Option.some.inj hnewest
    rw [attemptsIn_append, List.tail_cons, if_neg hnotqueued, hfailures]
    exact h.counted latest hlatest (htrigger ▸ hmonthly)

end History

/-! ## The records -/

/-- Every site's records are in order at a time. -/
def AllPaced (r : ScanRecords) (t : Int) : Prop :=
  ∀ siteId, Paced (r.versions .siteScan siteId) (r.versions .siteScanCompleted siteId) t

section Records
variable {r r' : ScanRecords} {t now : Int} {G : Type} {oracle : Oracle scanBackend scanOutside G}
  {F : Prop} {sites : List ScannedSite} {active : String → Bool}

theorem AllPaced.mem_kept (h : AllPaced r t) {siteId : String} {scan : SiteScan}
    (hscan : attemptOf r siteId = some scan) (hdone : isFinished scan = true) :
    scan ∈ r.versions .siteScanCompleted siteId := by
  rw [(h siteId).held]
  exact List.mem_filter.mpr ⟨List.mem_of_getLast? hscan, hdone⟩

theorem AllPaced.hasOwn (h : AllPaced r t) (siteId : String) : HasOwn r siteId := by
  intro scan hscan hdone hnone
  have hmem := h.mem_kept hscan (decide_eq_true hdone)
  rw [List.getLast?_eq_none_iff.mp hnone] at hmem
  cases hmem

/-- The last finished scan is the last of those kept. -/
theorem AllPaced.finishedOf_eq (h : AllPaced r t) (siteId : String) :
    finishedOf r siteId = keptOf r siteId := by
  unfold finishedOf
  cases hkept : keptOf r siteId with
  | some scan => rfl
  | none =>
      refine Option.filter_eq_none_iff.mpr fun scan hscan hdone => ?_
      exact h.hasOwn siteId scan hscan (of_decide_eq_true hdone) hkept

/-- What a site that is due has waited for. -/
theorem AllPaced.due (h : AllPaced r t) (hle : t ≤ now) {site : ScannedSite} {last : Int}
    (hdue : dueOf r now site = some last) :
    lastFinished (r.versions .siteScan site.siteId) = some last ∧
      (∀ scan ∈ r.versions .siteScan site.siteId, isFinished scan = true →
        rescanEvery ≤ now - finishedAt scan) ∧
      ∀ n, failedInARow (r.versions .siteScan site.siteId) = n + 1 → ∃ attempt,
        attemptOf r site.siteId = some attempt ∧
          min (2 ^ n) 8 * day ≤ now - attempt.requestedAt := by
  unfold dueOf at hdue
  split at hdue
  · cases hdue
  · obtain ⟨done, hdone, hafter⟩ := Option.bind_eq_some_iff.mp hdue
    rw [h.finishedOf_eq] at hdone
    obtain ⟨rfl, hmonth, hwait⟩ := (h site.siteId).due hle hdone hafter
    refine ⟨?_, fun scan hscan hfinished => hmonth scan ?_, hwait⟩
    · unfold lastFinished
      rw [← (h site.siteId).held]
      exact congrArg (Option.map finishedAt) hdone
    · rw [(h site.siteId).held]
      exact List.mem_filter.mpr ⟨hscan, hfinished⟩

/-- A scan is queued for one site. -/
theorem AllPaced.queued (h : AllPaced r t) (hle : t ≤ now) {site : ScannedSite} {jobId : String}
    {trigger : ScanTrigger}
    (hmonth : trigger = .monthly → ∀ done ∈ r.versions .siteScanCompleted site.siteId,
      rescanEvery ≤ now - finishedAt done)
    (hqueued : Queued r r' (queuedScan r site jobId now trigger)) : AllPaced r' now := by
  intro siteId
  rw [hqueued.attempts siteId, hqueued.kept siteId]
  split
  · next hsite =>
      have hsite' : siteId = site.siteId := hsite
      subst hsite'
      refine (h site.siteId).queue hle rfl rfl rfl hmonth fun htrigger => ?_
      have hmonthly : trigger = .monthly := htrigger
      subst hmonthly
      rfl
  · rw [List.append_nil]
    exact (h siteId).later hle

/-- One save of the latest attempt is stored, with the finished scan. -/
structure Saved (r r' : ScanRecords) (scan : SiteScan) : Prop where
  attempts : ∀ siteId, r'.versions .siteScan siteId =
    r.versions .siteScan siteId ++ if siteId = scan.siteId then [scan] else []
  kept : ∀ siteId, r'.versions .siteScanCompleted siteId =
    r.versions .siteScanCompleted siteId ++
      if siteId = scan.siteId ∧ isFinished scan = true then [scan] else []

theorem does_saveOver {type : ScanType} {siteId : String} {v : type.Payload} :
    Does oracle F (saveOver type siteId v) r fun x r' => x = .ok () → r' = r.append type siteId v := by
  refine brings_bind (B := scanBackend) (brings_find (B := scanBackend) type siteId) ?_
    fun e _ hok => by cases hok
  exact does_commit_ok (fun r' hr' _ => append_of_overWrite (B := scanBackend) hr')
    fun e r' hok => by cases hok

/-- A save of an attempt that was not finished, where nothing fails. -/
theorem does_saveScan {scan stored : SiteScan} (hstored : attemptOf r scan.siteId = some stored)
    (hopen : isFinished stored = false) :
    Does oracle F (saveScan scan) r fun x r' => x = .ok () → Saved r r' scan := by
  have hown : HasOwn r scan.siteId := by
    intro other hother hdone
    obtain rfl := Option.some.inj (hstored.symm.trans hother)
    unfold isFinished at hopen
    exact absurd hdone (of_decide_eq_false hopen)
  have hraised : ∀ (e : ScanExc) (r' : ScanRecords),
      (Except.error e : Except ScanExc Unit) = .ok () → Saved r r' scan := fun _ _ h => by cases h
  refine brings_bind (does_unkeptScan hown) ?_ fun e _ => hraised e _
  refine brings_bind (brings_pure ()) ?_ fun e _ => hraised e _
  refine Prog.does_bind does_saveOver (fun _ r₁ hr₁ => ?_) fun e r' _ => hraised e r'
  have hfirst := hr₁ rfl
  by_cases hdone : scan.status = .completed
  · rw [if_pos hdone]
    refine Prog.Does.mono does_saveOver fun x r' hx hok => ?_
    rw [hx hok, hfirst]
    refine ⟨fun siteId => ?_, fun siteId => ?_⟩
    · rw [Repository.versions_append_of_ne_type _ _ _ _ (by decide), Repository.versions_append]
      split
      · rfl
      · rw [List.append_nil]
    · have hfinished : isFinished scan = true := decide_eq_true hdone
      rw [Repository.versions_append, hfinished,
        Repository.versions_append_of_ne_type _ _ _ _ (by decide)]
      simp only [and_true]
      split
      · rfl
      · rw [List.append_nil]
  · rw [if_neg hdone]
    refine Prog.does_pure fun _ => ?_
    rw [hfirst]
    refine ⟨fun siteId => ?_, fun siteId => ?_⟩
    · rw [Repository.versions_append]
      split
      · rfl
      · rw [List.append_nil]
    · have hunfinished : isFinished scan = false := decide_eq_false hdone
      rw [Repository.versions_append_of_ne_type _ _ _ _ (by decide), hunfinished,
        if_neg fun hboth => Bool.false_ne_true hboth.2, List.append_nil]

theorem does_ownedSite {siteId principalId : String} :
    Does oracle F (ownedSite siteId principalId) r fun _ r' => r' = r := by
  refine Prog.does_bind (Q := fun _ r' => r' = r) ?_ (fun site r' hsame => ?_) fun _ _ h => h
  · refine Prog.does_tryCatch (Q := fun _ r' => r' = r) (does_ext (fun _ _ _ _ _ _ _ => rfl)
      fun _ _ => rfl) (fun _ _ h => h) fun e r' hsame => ?_
    cases e <;> exact Prog.does_throw hsame
  · split
    · exact Prog.does_throw hsame
    · split
      · exact Prog.does_throw hsame
      · exact Prog.does_pure hsame

/-- A request for a scan queues one, or changes nothing. -/
theorem does_startScan (hsteady : Steady now sites active oracle) (hown : ∀ siteId, HasOwn r siteId)
    {siteId principalId : String} :
    Does oracle F (startScan siteId principalId) r fun _ r' =>
      r' = r ∨ ∃ site jobId, Queued r r' (queuedScan r site jobId now .customer) := by
  refine Prog.does_bind does_ownedSite (fun site r' hsame => ?_) fun _ _ h => .inl h
  subst hsame
  refine Prog.does_bind (Q := fun _ r'' => r'' = r') (does_ext (fun _ _ _ _ _ _ _ => rfl)
    fun _ _ => rfl) (fun _ r'' hsame => ?_) fun _ _ h => .inl h
  subst hsame
  split
  · exact Prog.does_throw (.inl rfl)
  · refine brings_bind (a := now) (does_now hsteady.now (brings_ok _) brings_error) ?_
      fun _ _ => .inl rfl
    refine brings_bind (does_scansForTenant _) ?_ fun _ _ => .inl rfl
    refine Prog.does_bind (Q := fun _ s => s = r'') (Prog.does_ofExcept rfl) (fun _ s hsame => ?_)
      fun _ _ h => .inl h
    subst hsame
    refine Prog.does_bind (Q := fun _ s' => s' = s) (does_newId (fun _ _ _ => rfl) fun _ _ => rfl)
      (fun jobId s' hsame => ?_) fun _ _ h => .inl h
    subst hsame
    refine (does_queueScan hsteady (hown _) jobId principalId .customer).mono ?_
    rintro x s'' (⟨-, hqueued⟩ | ⟨-, hsame, -⟩)
    · exact .inr ⟨site, jobId, hqueued⟩
    · exact .inl hsame

end Records

/-! ## Every run -/

/-- What is stored after a process that nothing else came between. -/
def after {G α : Type} (oracle : Oracle scanBackend scanOutside G) (g : G) (p : ScanProc α)
    (r : ScanRecords) : ScanRecords :=
  (p.alone (served oracle) (⟨r, ()⟩, g) []).state.1.records

/-- Rounds, customers' scans and saves of deliveries, one after the other, at times that do
not go back. -/
inductive Reached : ScanRecords → Int → Prop
  | nothing (t : Int) : Reached Repository.empty t
  | round {r : ScanRecords} {t now : Int} {G : Type} {oracle : Oracle scanBackend scanOutside G}
      {sites : List ScannedSite} {active : String → Bool} (g : G) (perRound : Nat)
      (before : Reached r t) (later : t ≤ now) (steady : Steady now sites active oracle) :
      Reached (after oracle g (runRound perRound) r) now
  | customer {r : ScanRecords} {t now : Int} {G : Type}
      {oracle : Oracle scanBackend scanOutside G} {sites : List ScannedSite}
      {active : String → Bool} (g : G) (siteId principalId : String) (before : Reached r t)
      (later : t ≤ now) (steady : Steady now sites active oracle) :
      Reached (after oracle g (startScan siteId principalId) r) now
  /-- A delivery saves the latest attempt of a site, which it has not finished. -/
  | delivery {r : ScanRecords} {t now : Int} {G : Type}
      {oracle : Oracle scanBackend scanOutside G} {scan : SiteScan} (g : G) (outcome : Outcome)
      (before : Reached r t) (later : t ≤ now) (latest : attemptOf r scan.siteId = some scan)
      (unfinished : isFinished scan = false)
      (saved : ((saveScan (outcome.save now scan)).alone (served oracle) (⟨r, ()⟩, g) []).result =
        .ok ()) :
      Reached (after oracle g (saveScan (outcome.save now scan)) r) now

section Runs
variable {r : ScanRecords} {t now : Int} {G : Type} {oracle : Oracle scanBackend scanOutside G}
  {sites : List ScannedSite} {active : String → Bool} {perRound : Nat} {picks : List Pick}

/-- What a spec says of a process that nothing else came between. -/
theorem after_of_does {α : Type} {p : ScanProc α} {Q : Except ScanExc α → ScanRecords → Prop}
    {g : G} (h : Does oracle (Prog.Faulted (p.alone (served oracle) (⟨r, ()⟩, g) []).past) p r Q) :
    Q (p.alone (served oracle) (⟨r, ()⟩, g) []).result (after oracle g p r) :=
  h (⟨r, ()⟩, g) [] rfl id

/-- Of sites that are all different only one is this one. -/
theorem filter_scan_of_nodup (h : (picks.map (·.site.siteId)).Nodup) {pick : Pick}
    (hpick : pick ∈ picks) :
    (picks.map (Pick.scan r now)).filter (·.siteId = pick.site.siteId) = [pick.scan r now] := by
  induction picks with
  | nil => cases hpick
  | cons first rest ih =>
      rw [List.map_cons, List.nodup_cons] at h
      have hfirst (other : Pick) (hother : other ∈ rest) : first.site.siteId ≠ other.site.siteId :=
        fun heq => h.1 (List.mem_map.mpr ⟨other, hother, heq.symm⟩)
      rcases List.mem_cons.mp hpick with rfl | hrest
      · have hthis : (Pick.scan r now pick).siteId = pick.site.siteId := rfl
        rw [List.map_cons, List.filter_cons, if_pos (decide_eq_true hthis)]
        refine congrArg _ (List.filter_eq_nil_iff.mpr fun scan hscan hsame => ?_)
        obtain ⟨other, hother, rfl⟩ := List.mem_map.mp hscan
        exact hfirst other hother (of_decide_eq_true hsame).symm
      · rw [List.map_cons, List.filter_cons_of_neg, ih h.2 hrest]
        exact fun hsame => hfirst pick hrest (of_decide_eq_true hsame)

/-- What a round has queued keeps the pace. -/
theorem AllPaced.progress (h : AllPaced r t) (hle : t ≤ now) {r' : ScanRecords}
    (hprogress : Progress r now active perRound picks r') : AllPaced r' now := by
  intro siteId
  rw [hprogress.attempts siteId, hprogress.kept siteId]
  by_cases hany : ∃ pick ∈ picks, pick.site.siteId = siteId
  · obtain ⟨pick, hpick, rfl⟩ := hany
    rw [filter_scan_of_nodup hprogress.sites hpick]
    refine (h pick.site.siteId).queue hle rfl rfl rfl (fun _ done hdone => ?_) fun _ => rfl
    rw [(h pick.site.siteId).held] at hdone
    obtain ⟨hmem, hfinished⟩ := List.mem_filter.mp hdone
    exact (h.due hle (hprogress.due pick hpick)).2.1 done hmem hfinished
  · have hnone : (picks.map (Pick.scan r now)).filter (·.siteId = siteId) = [] := by
      refine List.filter_eq_nil_iff.mpr fun scan hscan hsite => hany ?_
      obtain ⟨pick, hpick, rfl⟩ := List.mem_map.mp hscan
      exact ⟨pick, hpick, of_decide_eq_true hsite⟩
    rw [hnone, List.append_nil]
    exact (h siteId).later hle

theorem allPaced_of_reached (h : Reached r t) : AllPaced r t := by
  induction h with
  | nothing t => exact fun _ => Paced.nil
  | round g perRound before later steady ih =>
      obtain ⟨new, done, left, hdone⟩ := after_of_does (does_runRound perRound steady ih.hasOwn)
      exact ih.progress later hdone.progress
  | customer g siteId principalId before later steady ih =>
      rcases after_of_does (does_startScan steady ih.hasOwn) with hsame | ⟨site, jobId, hqueued⟩
      · rw [hsame]
        exact fun siteId => (ih siteId).later later
      · exact ih.queued later (fun htrigger => by cases htrigger) hqueued
  | @delivery r t now G oracle scan g outcome before later latest unfinished saved ih =>
      have hsite : (outcome.save now scan).siteId = scan.siteId := by
        cases outcome <;> rfl
      have hsaved := after_of_does (does_saveScan (hsite ▸ latest) unfinished) saved
      intro siteId
      rw [hsaved.attempts siteId, hsaved.kept siteId, hsite]
      by_cases hthis : siteId = scan.siteId
      · subst hthis
        have hkeep := (ih scan.siteId).save later latest unfinished outcome
        simp only [if_true, true_and]
        exact hkeep
      · rw [if_neg hthis, if_neg fun hboth => hthis hboth.1, List.append_nil, List.append_nil]
        exact (ih siteId).later later

/-- An operation of the process failed. -/
def fault {α : Type} (oracle : Oracle scanBackend scanOutside G) (g : G) (p : ScanProc α)
    (r : ScanRecords) : Prop :=
  Prog.Faulted (p.alone (served oracle) (⟨r, ()⟩, g) []).past

/-- What a round does at a time, from what is stored: the scans it has queued, in order, for
the sites `picks`. -/
structure RoundPaced (r r' : ScanRecords) (now : Int) (perRound : Nat) (sites : List ScannedSite)
    (active : String → Bool) (faulted : Prop) (picks : List Pick) : Prop where
  queued : ∀ siteId, r'.versions .siteScan siteId = r.versions .siteScan siteId ++
    (picks.map (Pick.scan r now)).filter (·.siteId = siteId)
  few : picks.length ≤ perRound
  onePerTenant : (picks.map Pick.tenantId).Nodup
  /-- No scan of a tenant is queued or running that is not stale. -/
  idle : ∀ pick ∈ picks, ∀ siteId scan, attemptOf r siteId = some scan →
    scan.tenantId = pick.tenantId → scan.status = .queued ∨ scan.status = .running →
      staleAfter ≤ now - scan.requestedAt
  /-- Every scan of the site that finished did so a month ago, the last one at `last`. -/
  rested : ∀ pick ∈ picks,
    lastFinished (r.versions .siteScan pick.site.siteId) = some pick.last ∧
      ∀ scan ∈ r.versions .siteScan pick.site.siteId, isFinished scan = true →
        rescanEvery ≤ now - finishedAt scan
  /-- After monthly attempts that failed in a row the last of them was days ago. -/
  waited : ∀ pick ∈ picks, ∀ n, failedInARow (r.versions .siteScan pick.site.siteId) = n + 1 →
    ∃ attempt, attemptOf r pick.site.siteId = some attempt ∧
      min (2 ^ n) 8 * day ≤ now - attempt.requestedAt
  /-- The oldest finished scan comes first, and whoever waits longer was passed over. -/
  ordered : (picks.map Pick.last).Pairwise (· ≤ ·)
  oldest : ∀ pick ∈ picks, ∀ site ∈ sites, ∀ last, dueOf r now site = some last →
    last < pick.last → PassedOver faulted r now active picks site

end Runs

/-! ## A month after the first scan -/

/-- A world in which nothing fails. -/
def quiet (at_ : Int) : Oracle scanBackend scanOutside Unit := fun _ o =>
  (match o with
    | .now => .clock at_
    | .newId => .name "j-1"
    | .ext (.site _) => .ext (.site shop)
    | .ext .sites => .ext (.sites [shop])
    | .ext (.requirePlan _) => .ext .done
    | .ext (.active _) => .ext (.flag true)
    | .ext (.crawl _) => .ext (.report { homeStatus := some 200 })
    | .ext (.look _) => .ext (.seen true none)
    | _ => .done, ())

theorem steady_quiet (at_ : Int) : Steady at_ [shop] (fun _ => true) (quiet at_) where
  now := fun _ => rfl
  notLost := fun _ _ _ h => by cases h
  named := fun _ _ h => by
    cases h
    decide
  listed := fun _ _ h => by
    cases h
    exact .inl rfl
  entitled := fun _ _ _ h => by
    cases h
    exact .inl rfl

/-- The customer's first scan, queued, running and finished. -/
def customersScan : SiteScan :=
  { siteId := "s-1", tenantId := "t-1", jobId := "j-1", host := "shop.example", requestedAt := 0 }

def asked : ScanRecords := after (quiet 0) () (startScan "s-1" "t-1") Repository.empty

def begun : ScanRecords :=
  after (quiet 1) () (saveScan (Outcome.begins.save 1 customersScan)) asked

def finished : ScanRecords :=
  after (quiet 2) () (saveScan ((Outcome.finishes { homeStatus := some 200 }).save 2
    (Outcome.begins.save 1 customersScan))) begun

set_option maxRecDepth 20000 in
theorem reached_finished : Reached finished 2 := by
  have hasked : Reached asked 0 :=
    .customer () "s-1" "t-1" (.nothing 0) le_rfl (steady_quiet 0)
  have hbegun : Reached begun 1 :=
    .delivery () .begins hasked (by decide) (by decide +kernel) rfl (by decide +kernel)
  exact .delivery () _ hbegun (by decide) (by decide +kernel) rfl (by decide +kernel)

end SeoAgent.Scan
