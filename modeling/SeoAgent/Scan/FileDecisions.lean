import SeoAgent.Scan.Writes

/-!
# Customer decisions on files

Approvals, rejections and looks at a file change beside scans that refresh it. A save goes
over whatever is stored (`_Latest._write` reads the version it expects inside the write),
so what protects a decision is that the copy a change is computed from has the history
that is stored by the time of the write.

## Main results

* `FileRecord.append` — one write over its own copy.
* `file_decisions_kept` — in every run of such writes histories grow and no decision is
  followed by a change that was computed from a copy from before it.
* `approval_overwritten` — in other runs an approval is overwritten.
-/

namespace SeoAgent.Scan

open SeoAgent.Verified Service Machine

/-! ## Versions and the copies they were computed from -/

/-- The history of version `n` of a change, counted from one; empty before the first. -/
def historyAt (vs : List StoredFile) : Nat → List SiteFileEvent
  | 0 => []
  | n + 1 => (vs[n]?.map fun stored => stored.change.history).getD []

/-- The history only grows, and no change after a decision was computed from a copy from
before it. The change at `n` is version `n + 1`. -/
structure DecisionsKept (vs : List StoredFile) : Prop where
  grows : ∀ n old new, vs[n]? = some old → vs[n + 1]? = some new →
    old.change.history <+: new.change.history
  fresh : ∀ d n decided later, vs[d]? = some decided → decided.decision = true → d < n →
    vs[n]? = some later → d + 1 ≤ later.basis

/-- A version was computed from a copy with the history of the version before it, which it
extends; a decision adds to it. -/
structure Follows (vs : List StoredFile) (n : Nat) (v : StoredFile) : Prop where
  keeps : historyAt vs n <+: v.change.history
  decides : v.decision = true → historyAt vs n ≠ v.change.history
  basis : historyAt vs v.basis = historyAt vs n
  le : v.basis ≤ n

def FileRecord (vs : List StoredFile) : Prop := ∀ n v, vs[n]? = some v → Follows vs n v

section Record
variable {vs : List StoredFile} {v : StoredFile} {m n : Nat}

theorem historyAt_succ (h : vs[n]? = some v) : historyAt vs (n + 1) = v.change.history := by
  rw [historyAt, h]
  rfl

theorem historyAt_append (h : n ≤ vs.length) : historyAt (vs ++ [v]) n = historyAt vs n := by
  cases n with
  | zero => rfl
  | succ n => rw [historyAt, historyAt, List.getElem?_append_left (by omega)]

/-- Histories grow from version to version. -/
theorem FileRecord.mono (h : FileRecord vs) (hmn : m ≤ n) (hn : n ≤ vs.length) :
    historyAt vs m <+: historyAt vs n := by
  induction n with
  | zero =>
      obtain rfl : m = 0 := by omega
      exact List.prefix_refl _
  | succ n ih =>
      by_cases hm : m = n + 1
      · subst hm
        exact List.prefix_refl _
      · have hget : vs[n]? = some vs[n] := List.getElem?_eq_getElem (by omega)
        rw [historyAt_succ hget]
        exact (ih (by omega) (by omega)).trans (h n _ hget).keeps

theorem FileRecord.decisionsKept (h : FileRecord vs) : DecisionsKept vs := by
  refine ⟨fun n old new hold hnew => ?_, fun d n decided later hdecided hdecision hdn hlater => ?_⟩
  · have hkeeps := (h (n + 1) new hnew).keeps
    rwa [historyAt_succ hold] at hkeeps
  · by_contra hbasis
    have hlt : n < vs.length := (List.getElem?_eq_some_iff.mp hlater).1
    -- The copy's history is shorter than the decision's, which what was there had.
    have hcopy := (h.mono (by omega : later.basis ≤ d) (by omega)).length_le
    have hgrown : (historyAt vs d).length < decided.change.history.length := by
      have hdecides := h d decided hdecided
      refine lt_of_le_of_ne hdecides.keeps.length_le fun heq => ?_
      exact hdecides.decides hdecision (hdecides.keeps.eq_of_length heq)
    have hthere := (h.mono (by omega : d + 1 ≤ n) (by omega)).length_le
    rw [historyAt_succ hdecided] at hthere
    rw [(h n later hlater).basis] at hcopy
    omega

/-- One more version, over its own copy. -/
theorem FileRecord.append (h : FileRecord vs) (hv : Follows vs vs.length v) :
    FileRecord (vs ++ [v]) := by
  intro n w hw
  have hle : n < (vs ++ [v]).length := (List.getElem?_eq_some_iff.mp hw).1
  rw [List.length_append, List.length_singleton] at hle
  have hfollows : Follows vs n w := by
    by_cases hn : n < vs.length
    · rw [List.getElem?_append_left hn] at hw
      exact h n w hw
    · obtain rfl : n = vs.length := by omega
      rw [List.getElem?_concat_length] at hw
      exact Option.some.inj hw ▸ hv
  have hbasis := hfollows.le
  refine ⟨?_, ?_, ?_, hfollows.le⟩
  · rw [historyAt_append (by omega)]
    exact hfollows.keeps
  · rw [historyAt_append (by omega)]
    exact hfollows.decides
  · rw [historyAt_append (by omega), historyAt_append (by omega)]
    exact hfollows.basis

end Record

/-! ## The condition -/

/-- The change a write makes, with its key. -/
def fileWrite : Repository.Write ScanType ScanType.Payload → Option (String × StoredFile)
  | .create .siteFileChange key v => some (key, v)
  | .replace .siteFileChange key v _ => some (key, v)
  | _ => none

/-- What is stored of a change has the history of the copy it was computed from. -/
def overItsCopy (r : ScanRecords) (key : String) (v : StoredFile) : Bool :=
  historyAt (r.versions .siteFileChange key) v.basis =
    historyAt (r.versions .siteFileChange key) (r.versions .siteFileChange key).length

def copyIsCurrent (r : ScanRecords) : Op scanBackend scanOutside → Bool
  | .commit ws => (ws.filterMap fileWrite).all fun x => overItsCopy r x.1 x.2
  | _ => true

section Runs
variable (locations : String → List String)

/-- Nobody changed the history of a file between a read and the write that follows it. -/
def CopiesCurrent : Condition (scanMachine locations) :=
  eachOp fun c _ _ o _ => copyIsCurrent c.shared.records o = true

instance (c : Config (scanMachine locations)) (m : Move (M := scanMachine locations)) :
    Decidable (CopiesCurrent locations c m) :=
  inferInstanceAs (Decidable (eachOp _ c m))

variable {locations}

/-! ## Every run -/

/-- What was read of a change is a version of it. -/
theorem historyAt_copy {past : ScanPast} {r : ScanRecords} {key : String}
    {copy : Option (StoredFile × Nat)} (htold : Told r past) (hread : ReadFile past key copy) :
    historyAt (r.versions .siteFileChange key) (copyVersion copy) = copyHistory copy ∧
      copyVersion copy ≤ (r.versions .siteFileChange key).length := by
  rcases copy with _ | ⟨stored, n⟩
  · exact ⟨rfl, Nat.zero_le _⟩
  · have hversion : r.versionAt .siteFileChange key n = some stored := htold.found hread
    refine ⟨?_, Repository.le_length_of_versionAt hversion⟩
    cases n with
    | zero => cases hversion
    | succ n => exact historyAt_succ hversion

/-- The versions of changes after a transaction of the requests and jobs. -/
theorem file_step {past : ScanPast} {r s : ScanRecords} {ws : ScanWrites} (htold : Told r past)
    (hcommit : ScanCommit past ws) (hcurrent : copyIsCurrent r (.commit ws) = true)
    (hs : r.commit ws = .ok s) (h : ∀ key, FileRecord (r.versions .siteFileChange key)) :
    ∀ key, FileRecord (s.versions .siteFileChange key) := by
  intro key
  have hother (hne : ∀ w ∈ ws, w.target.1 ≠ .siteFileChange) :
      FileRecord (s.versions .siteFileChange key) := by
    rw [Repository.commit_versions_of_ne hs fun w hw htarget => hne w hw (by rw [htarget])]
    exact h key
  cases hcommit with
  | @file key' v current copy jobs read basis keeps decides onlyJobs =>
      obtain ⟨u, hu, hjobs⟩ := Repository.commit_cons.mp hs
      have hu' : u = r.append .siteFileChange key' v :=
        append_of_overWrite (B := scanBackend) (Repository.commit_singleton.mpr hu)
      have hkept : s.versions .siteFileChange key = u.versions .siteFileChange key :=
        Repository.commit_versions_of_ne hjobs fun w hw htarget => by
          have hjob := onlyJobs w hw
          rw [htarget] at hjob
          cases hjob
      rw [hkept, hu', Repository.versions_append]
      split
      · next hkey =>
          subst hkey
          obtain ⟨hcopy, hle⟩ := historyAt_copy htold read
          have hover : overItsCopy r key v = true := by
            rcases current with _ | ⟨_, _⟩ <;>
              exact (Bool.and_eq_true_iff.mp hcurrent).1
          rw [overItsCopy, decide_eq_true_iff] at hover
          rw [basis] at hover
          refine (h key).append ⟨?_, fun hdecision => ?_, ?_, basis ▸ hle⟩
          · rw [← hover, hcopy]
            exact keeps
          · rw [← hover, hcopy]
            exact decides hdecision
          · rw [basis]
            exact hover
      · exact h key
  | @finished key' scan current =>
      exact hother fun w hw => by
        rw [List.mem_singleton.mp hw]
        exact fun h => by cases (writeOver_type .siteScanCompleted).symm.trans h
  | @attempt key' scan current =>
      exact hother fun w hw => by
        rw [List.mem_singleton.mp hw]
        exact fun h => by cases (writeOver_type .siteScan).symm.trans h
  | @queued key' scan current job kept named onlyFinished =>
      refine hother fun w hw => ?_
      rcases List.mem_append.mp hw with hw | hw
      · rw [onlyFinished w hw]
        exact fun h => by cases h
      · rcases List.mem_cons.mp hw with rfl | hw
        · exact fun h => by cases (writeOver_type .siteScan).symm.trans h
        · rw [List.mem_singleton.mp hw]
          exact fun h => by cases h

/-- In every run in which nobody changes the history of a file between a read and the write
that follows it, the histories of all changes grow and every decision is kept. -/
theorem file_decisions_kept {c : Config (scanMachine locations)}
    (hr : Run (CopiesCurrent locations) ⟨nothingScanned, []⟩ c) (key : String) :
    DecisionsKept (c.shared.records.versions .siteFileChange key) := by
  have hstart : AllValid (scanTerms locations).Valid nothingScanned.records :=
    fun _ _ _ h => absurd h List.not_mem_nil
  have hinv : ∀ key, FileRecord (c.shared.records.versions .siteFileChange key) := by
    refine repository_invariant (K := fun r => ∀ key, FileRecord (r.versions .siteFileChange key))
      (scan_kept locations) hstart (fun hcom hold hs => ?_) (fun _ _ _ h => by cases h) hr
    obtain ⟨t, hgood, f, hp⟩ := hcom.ok
    exact file_step hcom.told hcom.permitted (eachOp_act hgood hp) hs hold
  exact (hinv key).decisionsKept

end Runs


/-! ## Two runs -/

/-- A crawl that proposes a robots.txt with this text. -/
def robotsReport (text : String) : CrawlReport :=
  let plan : FilePlan :=
    { kind := .robots, publicUrl := "https://shop.example/robots.txt", text
      changes := ["created"] }
  { homeStatus := some 200, plansDeclined := [plan], plansOpen := [plan] }

/-- A delivery of a first scan up to its proposals, and the robots.txt proposed. -/
def firstScan (t : Nat) (jobId : String) : List ScanMove :=
  [.spawn (.siteScan "s-1" jobId), .act t .done, .act t (.ext (.site shop))] ++ answers t 4 ++
    [.act t (.ext (.report (robotsReport "first"))), .act t .done, .act t (.clock 1)] ++
    answers t 8 ++ [.act t (.clock 1)] ++ answers t 3

/-- A delivery of a later scan up to the copy of the robots.txt that it read. -/
def laterScan (t : Nat) (jobId : String) : List ScanMove :=
  [.spawn (.siteScan "s-1" jobId), .act t .done, .act t (.ext (.site shop))] ++ answers t 3 ++
    [.act t (.ext (.report (robotsReport "second"))), .act t .done, .act t (.clock 400000001)] ++
    answers t 7

/-- The proposal that it makes of this copy. -/
def proposesAgain (t : Nat) : List ScanMove :=
  [.act t (.clock 400000001), .act t .done, .act t .done]

/-- The customer approves the robots.txt. -/
def approves (t : Nat) : List ScanMove :=
  [.spawn (.approveFile "s-1" .robots "t-1"), .act t (.ext (.site shop)), .act t .done,
    .act t (.clock 400000002), .act t .done, .act t .done]

def robotsOf (c : Config (scanMachine fun text => [text])) : List (Nat × Bool × List String) :=
  (c.shared.records.versions .siteFileChange "s-1:robots").map fun stored =>
    (stored.basis, stored.decision, stored.change.history.map (·.reason))

set_option maxRecDepth 20000 in
theorem file_decisions_kept_approved : ∃ c : Config (scanMachine fun text => [text]),
    robotsOf c = [(0, false, ["proposed"]), (1, true, ["proposed", "approved"])] ∧
      DecisionsKept (c.shared.records.versions .siteFileChange "s-1:robots") := by
  have h : (firesIf (CopiesCurrent fun text => [text]) ⟨nothingScanned, []⟩
      (requestScan 0 8 "j-1" 0 ++ firstScan 1 "j-1" ++ approves 2)).map robotsOf =
      some [(0, false, ["proposed"]), (1, true, ["proposed", "approved"])] := by
    decide +kernel
  obtain ⟨c, hc, hs⟩ := Option.map_eq_some_iff.mp h
  exact ⟨c, hs, file_decisions_kept (Run.of_good_moves hc) "s-1:robots"⟩

set_option maxRecDepth 20000 in
/-- The customer approves while a later scan has read the file and not yet saved it: the
scan's proposal goes over the approval, whose event is lost. -/
theorem approval_overwritten : ∃ c : Config (scanMachine fun text => [text]),
    Run anyMove ⟨nothingScanned, []⟩ c ∧
      ¬DecisionsKept (c.shared.records.versions .siteFileChange "s-1:robots") := by
  have h : (fires ⟨nothingScanned, []⟩ (requestScan 0 8 "j-1" 0 ++ firstScan 1 "j-1" ++
      requestScan 2 6 "j-2" 400000000 ++ laterScan 3 "j-2" ++ approves 4 ++
      proposesAgain 3)).map robotsOf =
      some [(0, false, ["proposed"]), (1, true, ["proposed", "approved"]),
        (1, false, ["proposed", "proposed"])] := by
    decide +kernel
  obtain ⟨c, hc, hs⟩ := Option.map_eq_some_iff.mp h
  refine ⟨c, Run.of_moves hc, fun hkept => ?_⟩
  rw [robotsOf] at hs
  obtain ⟨first, rest, hversions, -, hs⟩ := List.map_eq_cons_iff.mp hs
  obtain ⟨approved, rest, rfl, happroved, hs⟩ := List.map_eq_cons_iff.mp hs
  obtain ⟨proposed, rest, rfl, hproposed, -⟩ := List.map_eq_cons_iff.mp hs
  have hdecision : approved.decision = true := (Prod.mk.inj (Prod.mk.inj happroved).2).1
  have hbasis : proposed.basis = 1 := (Prod.mk.inj hproposed).1
  rw [hversions] at hkept
  have hfresh := hkept.fresh 1 2 approved proposed rfl hdecision (by omega) rfl
  omega

end SeoAgent.Scan
