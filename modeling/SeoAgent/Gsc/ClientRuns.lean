import SeoAgent.Gsc.Client
import SeoAgent.Verified.Alone

/-!
# What a query asks for and returns

Whatever Google answers and the transport raises, a query asks for one page after the other,
each no more often than it may be retried, and goes on only from a full page. What it returns is
all the pages it got, in order; so if the answers are parts of one list of rows, it is the whole
list.

## Main results

* `query_asks` — every operation a query asks for, in every run.
* `query_returns` — what a query returns, in every run.
* `query_complete` — a query that returns has the whole list.
-/

namespace SeoAgent.Gsc

open SeoAgent.Verified Prog

variable {ρ : Type}

/-! ## What has been answered -/

/-- The rows of a page. -/
def Page.list (page : Page ρ) : List ρ := page.rows.getD []

/-- The first incomplete date that a page names. -/
def Page.date (page : Page ρ) : Option Int :=
  match page.metadata with
  | .dated day => day
  | _ => none

section
variable (lower : String → String)

/-- The page that an event brought. -/
def gotPage : (gscIface ρ).Event → Option (Page ρ)
  | ⟨.post _ _, answer⟩ => (outcomeOf lower answer).toOption
  | _ => none

/-- The pages that have come, the oldest first. -/
def gotPages : GscPast ρ → List (Page ρ)
  | [] => []
  | ev :: past => gotPages past ++ (gotPage lower ev).toList

end

/-- How often the page has been asked for. -/
def attemptsOf : GscPast ρ → Nat
  | [] => 0
  | ⟨.token, _⟩ :: _ => 0
  | ⟨.post _ _, _⟩ :: past => attemptsOf past + 1
  | ⟨.sleep _, _⟩ :: past => attemptsOf past

/-- The token the page is asked for with. -/
def tokenOf : GscPast ρ → Option String
  | [] => none
  | ⟨.token, .ok token⟩ :: _ => token.filter (· ≠ "")
  | ⟨.token, .error _⟩ :: _ => none
  | ⟨.post _ _, _⟩ :: past => tokenOf past
  | ⟨.sleep _, _⟩ :: past => tokenOf past

/-- A page may be asked for: its token has come, or the pause is over. -/
def Ready : GscPast ρ → Prop
  | ⟨.token, .ok _⟩ :: _ => True
  | ⟨.sleep _, .ok _⟩ :: _ => True
  | _ => False

/-- The next page may be asked for: nothing has been asked yet, or a page has just come. -/
def Turned (lower : String → String) : GscPast ρ → Prop
  | [] => True
  | ev :: _ => (gotPage lower ev).isSome

/-- The last answer is one that may go away. -/
def Failed (lower : String → String) : GscPast ρ → Prop
  | ⟨.post _ _, answer⟩ :: _ => ∃ exc, outcomeOf lower answer = .error (exc, true)
  | _ => False

/-- All pages so far are full. -/
def AllFull (lower : String → String) (rowLimit : Nat) (past : GscPast ρ) : Prop :=
  ∀ page ∈ gotPages lower past, page.list.length = rowLimit

theorem turned_nil (lower : String → String) : Turned lower ([] : GscPast ρ) := trivial

theorem allFull_nil (lower : String → String) (rowLimit : Nat) :
    AllFull lower rowLimit ([] : GscPast ρ) :=
  fun _ h => absurd h List.not_mem_nil

/-- What may be asked for: a token for another page, if all before were full and there may be
another; the page after them, with that token, as often as it may be tried; and a pause after an
answer that may go away, twice as long as the one before it but no longer than eight seconds. -/
def MayAsk (lower : String → String) (config : GSCClientConfig) (rowLimit : Nat)
    (past : GscPast ρ) : GscOp → Prop
  | .token => Turned lower past ∧ AllFull lower rowLimit past ∧
      (gotPages lower past).length < config.maxPages
  | .post startRow authorization => Ready past ∧ AllFull lower rowLimit past ∧
      startRow = rowLimit * (gotPages lower past).length ∧ authorization = tokenOf past ∧
      attemptsOf past ≤ config.maxRetries
  | .sleep seconds => Failed lower past ∧ seconds = pause (attemptsOf past - 1) ∧
      0 < attemptsOf past ∧ attemptsOf past ≤ config.maxRetries

/-! ## One page -/

variable {lower strip : String → String} {config : GSCClientConfig} {rowLimit startRow : Nat}
  {authorization : Option String} {past : GscPast ρ}

theorem gotPages_post {answer : (gscIface ρ).Answer (.post startRow authorization)} :
    gotPages lower (⟨.post startRow authorization, answer⟩ :: past) =
      gotPages lower past ++ (outcomeOf lower answer).toOption.toList := rfl

theorem gotPages_other {ev : (gscIface ρ).Event} (h : gotPage lower ev = none) :
    gotPages lower (ev :: past) = gotPages lower past := by
  rw [gotPages, h, Option.toList_none, List.append_nil]

/-- Attempts at one page: it is asked for again only after what may go away, and what comes is
one more page. -/
theorem attempts_spec (hfull : AllFull lower rowLimit past)
    (hstart : startRow = rowLimit * (gotPages lower past).length) :
    ∀ left attempt past', gotPages lower past' = gotPages lower past → Ready past' →
      attemptsOf past' = attempt → tokenOf past' = authorization →
      attempt + left = config.maxRetries + 1 →
      wp (asking (MayAsk lower config rowLimit)) (Returns fun past'' page =>
          gotPages lower past'' = gotPages lower past ++ [page] ∧ Turned lower past'')
        (attempts lower config startRow authorization attempt left) past' := by
  intro left
  induction left with
  | zero => intro attempt past' _ _ _ _ _; trivial
  | succ left ih =>
      intro attempt past' hsame hready hattempt htoken hleft
      refine ⟨⟨hready, fun page hpage => hfull page (hsame ▸ hpage), hsame.symm ▸ hstart,
        htoken.symm, by omega⟩, fun answer _ => ?_⟩
      cases houtcome : outcomeOf lower answer with
      | ok page =>
          have hgot : gotPage lower (⟨.post startRow authorization, answer⟩ :
              (gscIface ρ).Event) = some page := by
            show (outcomeOf lower answer).toOption = some page
            rw [houtcome]
            rfl
          dsimp only
          rw [houtcome]
          refine ⟨?_, ?_⟩
          · rw [gotPages, hsame, hgot]
            rfl
          · show (gotPage lower _).isSome
            rw [hgot]
            rfl
      | error failure =>
          obtain ⟨exc, again⟩ := failure
          have hgot : gotPage lower (⟨.post startRow authorization, answer⟩ :
              (gscIface ρ).Event) = none := by
            show (outcomeOf lower answer).toOption = none
            rw [houtcome]
            rfl
          dsimp only
          rw [houtcome]
          dsimp only
          split
          · trivial
          · next hagain =>
              obtain ⟨hagain, hretries⟩ := not_or.mp hagain
              rw [Bool.not_eq_false] at hagain
              subst hagain
              refine wp_ask_bind ⟨⟨exc, houtcome⟩, ?_, Nat.succ_pos _, ?_⟩ (fun _ _ => ?_)
                fun _ _ => trivial
              · show _ = pause (attemptsOf past' + 1 - 1)
                rw [hattempt, Nat.add_sub_cancel]
              · show attemptsOf past' + 1 ≤ _
                omega
              · refine ih (attempt + 1) _ ?_ trivial ?_ ?_ (by omega)
                · rw [gotPages_other rfl, gotPages_other hgot, hsame]
                · show attemptsOf past' + 1 = _
                  rw [hattempt]
                · exact htoken

theorem requestPage_spec (hturned : Turned lower past) (hfull : AllFull lower rowLimit past)
    (hmore : (gotPages lower past).length < config.maxPages)
    (hstart : startRow = rowLimit * (gotPages lower past).length) :
    wp (asking (MayAsk lower config rowLimit)) (Returns fun past' page =>
        gotPages lower past' = gotPages lower past ++ [page] ∧ Turned lower past')
      (requestPage lower config startRow) past := by
  refine wp_ask_bind ⟨hturned, hfull, hmore⟩ (fun token _ => ?_) fun _ _ => trivial
  refine attempts_spec hfull hstart _ 0 _ (gotPages_other rfl) trivial rfl rfl (by omega)

/-! ## What is kept of pages -/

/-- What is kept of pages: their rows, one after the other, no page that is not empty twice,
their dates, and the aggregation they agree on. -/
structure Kept (pages : List (Page ρ)) (paging : Paging ρ) : Prop where
  rows : paging.rows = (pages.map Page.list).flatten
  fingerprints : paging.fingerprints = pages.map Page.list
  distinct : (pages.map Page.list).Pairwise fun a b => b ≠ [] → a ≠ b
  dates : paging.incompleteDates = pages.filterMap Page.date
  agreed : ∀ page ∈ pages, ∀ a ∈ page.responseAggregationType, paging.aggregation = some a
  named : ∀ a ∈ paging.aggregation, ∃ page ∈ pages, page.responseAggregationType = some a

theorem kept_nil : Kept ([] : List (Page ρ)) {} where
  rows := rfl
  fingerprints := rfl
  distinct := List.Pairwise.nil
  dates := rfl
  agreed := nofun
  named := nofun

theorem datesWith_ok {dates dates' : List Int} {page : Page ρ}
    (h : datesWith dates page.metadata = .ok dates') : dates' = dates ++ page.date.toList := by
  unfold Page.date
  cases hmetadata : page.metadata with
  | notDict =>
      rw [hmetadata] at h
      cases h
  | undated =>
      rw [hmetadata] at h
      cases h
      exact (List.append_nil dates).symm
  | dated day =>
      rw [hmetadata] at h
      cases day with
      | none => cases h
      | some day =>
          cases h
          rfl

/-- What has been agreed on stays, and what a page names is agreed on. -/
theorem aggregationWith_ok {found aggregation aggregation' : Option String}
    (h : aggregationWith found aggregation = .ok aggregation') :
    (∀ a ∈ found, aggregation' = some a) ∧ (∀ a ∈ aggregation, aggregation' = some a) ∧
      ∀ a ∈ aggregation', a ∈ found ∨ a ∈ aggregation := by
  cases found with
  | none =>
      cases h
      exact ⟨nofun, fun a ha => ha, fun a ha => .inr ha⟩
  | some found =>
      cases aggregation with
      | none =>
          cases h
          exact ⟨fun a ha => ha, nofun, fun a ha => .inl ha⟩
      | some aggregation =>
          rw [aggregationWith] at h
          split at h
          · next heq =>
              cases h
              exact ⟨fun a ha => ha, fun a ha => heq ▸ ha, fun a ha => .inl ha⟩
          · cases h

variable [DecidableEq ρ] {request : GSCRequest} {paging paging' : Paging ρ} {page : Page ρ}
  {pages : List (Page ρ)} {rows : List ρ}

/-- A page that is taken has at most as many rows as were asked for, and is kept with those
before it. -/
theorem takePage_ok (h : takePage request paging page = .ok (rows, paging'))
    (hkept : Kept pages paging) :
    page.list = rows ∧ rows.length ≤ request.rowLimit ∧ paging'.startRow = paging.startRow ∧
      Kept (pages ++ [page]) paging' := by
  unfold takePage at h
  split at h
  · cases h
  next found hfound =>
  split at h
  · cases h
  next hlimit =>
  split at h
  · cases h
  next hrepeated =>
  obtain ⟨dates, hdates, h⟩ := bind_eq_ok.mp h
  obtain ⟨aggregation, haggregation, h⟩ := bind_eq_ok.mp h
  cases h
  have hlist : page.list = rows := by rw [Page.list, hfound, Option.getD_some]
  refine ⟨hlist, Nat.le_of_not_lt hlimit, rfl, ?_, ?_, ?_, ?_, ?_, ?_⟩
  · simp [hkept.rows, hlist]
  · simp [hkept.fingerprints, hlist]
  · rw [List.map_append, List.pairwise_append]
    refine ⟨hkept.distinct, List.pairwise_singleton _ _, fun a ha b hb hne heq => ?_⟩
    have hrows : b = rows := (List.mem_singleton.mp hb).trans hlist
    refine hrepeated ⟨hrows ▸ hne, ?_⟩
    rw [hkept.fingerprints, ← hrows, ← heq]
    exact ha
  · show dates = _
    rw [datesWith_ok hdates, hkept.dates, List.filterMap_append]
    cases hd : page.date <;> simp [hd]
  · obtain ⟨hfound', hold', -⟩ := aggregationWith_ok haggregation
    intro page' hpage' a ha
    rcases List.mem_append.mp hpage' with hold | hlast
    · exact hold' a (hkept.agreed page' hold a ha)
    · exact hfound' a (List.mem_singleton.mp hlast ▸ ha)
  · intro a ha
    rcases (aggregationWith_ok haggregation).2.2 a ha with hpage | hbefore
    · exact ⟨page, List.mem_append_right _ List.mem_cons_self, hpage⟩
    · obtain ⟨page', hpage', hnamed⟩ := hkept.named a hbefore
      exact ⟨page', List.mem_append_left _ hpage', hnamed⟩

/-! ## All pages -/

/-- What a query has when its last page has come: that page is not full, and all before are. -/
structure Whole (lower : String → String) (config : GSCClientConfig) (rowLimit : Nat)
    (past : GscPast ρ) (paging : Paging ρ) : Prop where
  kept : Kept (gotPages lower past) paging
  ends : ∃ front last, gotPages lower past = front ++ [last] ∧ last.list.length < rowLimit ∧
    ∀ page ∈ front, page.list.length = rowLimit
  bounded : (gotPages lower past).length ≤ config.maxPages

theorem queryPages_spec {left : Nat} (hturned : Turned lower past)
    (hfull : AllFull lower request.rowLimit past)
    (hleft : (gotPages lower past).length + left = config.maxPages)
    (hstart : paging.startRow = request.rowLimit * (gotPages lower past).length)
    (hkept : Kept (gotPages lower past) paging) :
    wp (asking (MayAsk lower config request.rowLimit))
      (Returns (Whole lower config request.rowLimit))
      (queryPages lower config request left paging) past := by
  induction left generalizing past paging with
  | zero => trivial
  | succ left ih =>
      refine returns_bind (requestPage_spec hturned hfull (by omega) hstart)
        fun past' page _ hpage => ?_
      obtain ⟨hpages, hturned'⟩ := hpage
      refine returns_ofExcept_bind fun taken htaken => ?_
      obtain ⟨rows, paging'⟩ := taken
      obtain ⟨hlist, hlimit, hstart', hkept'⟩ := takePage_ok htaken hkept
      rw [← hpages] at hkept'
      have hlength : (gotPages lower past').length = (gotPages lower past).length + 1 := by
        rw [hpages, List.length_append]
        rfl
      dsimp only
      split
      · next hlast =>
          exact ⟨hkept', ⟨_, page, hpages, hlist ▸ hlast, hfull⟩, by omega⟩
      · next hlast =>
          refine ih hturned' (fun page' hpage' => ?_) (by omega) ?_
            ⟨hkept'.rows, hkept'.fingerprints, hkept'.distinct, hkept'.dates, hkept'.agreed,
              hkept'.named⟩
          · rw [hpages] at hpage'
            rcases List.mem_append.mp hpage' with hold | hnew
            · exact hfull page' hold
            · rw [List.mem_singleton.mp hnew, hlist]
              omega
          · show paging'.startRow + request.rowLimit = _
            rw [hstart', hstart, hlength, Nat.mul_succ]

/-- What a query returns of the pages it got. -/
structure Payloads (lower : String → String) (config : GSCClientConfig) (rowLimit : Nat)
    (past : GscPast ρ) (payload : RawPayload ρ) : Prop where
  rows : payload.rows = ((gotPages lower past).map Page.list).flatten
  ends : ∃ front last, gotPages lower past = front ++ [last] ∧ last.list.length < rowLimit ∧
    ∀ page ∈ front, page.list.length = rowLimit
  bounded : (gotPages lower past).length ≤ config.maxPages
  distinct : ((gotPages lower past).map Page.list).Pairwise fun a b => b ≠ [] → a ≠ b
  incomplete : payload.firstIncompleteDate = ((gotPages lower past).filterMap Page.date).min?
  agreed : ∀ page ∈ gotPages lower past, ∀ a ∈ page.responseAggregationType,
    payload.responseAggregationType = some a

theorem query_spec (lower strip : String → String) (config : GSCClientConfig) (siteUrl : String)
    (startDate endDate : Int) (dimensions : List String) (rowLimit : Option Nat) :
    wp (asking (MayAsk lower config (rowLimit.getD config.pageSize)))
      (Returns (Payloads (ρ := ρ) lower config (rowLimit.getD config.pageSize)))
      (query lower strip config siteUrl startDate endDate dimensions rowLimit) [] := by
  refine returns_ofExcept_bind fun _ _ => ?_
  let request : GSCRequest :=
    ⟨siteUrl, startDate, endDate, dimensions, rowLimit.getD config.pageSize⟩
  have hpages : wp (asking (MayAsk lower config request.rowLimit))
      (Returns (Whole lower config request.rowLimit))
      (queryPages (ρ := ρ) lower config request config.maxPages {}) [] :=
    queryPages_spec (turned_nil lower) (allFull_nil lower _) (Nat.zero_add _) rfl kept_nil
  refine returns_bind hpages fun past paging _ hwhole => ?_
  exact ⟨hwhole.kept.rows, hwhole.ends, hwhole.bounded, hwhole.kept.distinct,
    congrArg List.min? hwhole.kept.dates, hwhole.kept.agreed⟩

/-- Whatever Google answers and the transport raises: a query asks for a token before each page;
then for the page after the full ones it has, with that token, at most once more than it may
retry; and pauses after each answer that may go away, twice as long as before but no longer than
eight seconds. It asks for no page after one that is not full, and for no more than it may. -/
theorem query_asks (lower strip : String → String) (config : GSCClientConfig) (siteUrl : String)
    (startDate endDate : Int) (dimensions : List String) (rowLimit : Option Nat)
    (past : GscPast ρ) (op : GscOp) (k : (gscIface ρ).Answer op → GscProc ρ (RawPayload ρ))
    (h : Reaches (query lower strip config siteUrl startDate endDate dimensions rowLimit) past
      (.call op k)) :
    MayAsk lower config (rowLimit.getD config.pageSize) past op :=
  permitted_of_reaches
    (query_spec lower strip config siteUrl startDate endDate dimensions rowLimit) h

/-- What a query returns is the pages that came, in order: all full but the last, which is not;
no more than it may ask for; no page that has rows twice; the least of the dates they name as the
first incomplete one, and the aggregation that all agree on. -/
theorem query_returns (lower strip : String → String) (config : GSCClientConfig)
    (siteUrl : String) (startDate endDate : Int) (dimensions : List String)
    (rowLimit : Option Nat) (past : GscPast ρ) (payload : RawPayload ρ)
    (h : Reaches (query lower strip config siteUrl startDate endDate dimensions rowLimit) past
      (.ret payload)) :
    Payloads lower config (rowLimit.getD config.pageSize) past payload :=
  wp_of_reaches (query_spec lower strip config siteUrl startDate endDate dimensions rowLimit) h

/-! ## A list in parts -/

/-- The answers are parts of one list: every page that comes is the part that was asked for. -/
def Serves (lower : String → String) (all : List ρ) (rowLimit : Nat) (past : GscPast ρ) : Prop :=
  ∀ startRow authorization answer page,
    (⟨.post startRow authorization, answer⟩ : (gscIface ρ).Event) ∈ past →
      outcomeOf lower answer = .ok page → page.list = (all.drop startRow).take rowLimit

/-- The parts of a list, one after the other. -/
def parts (all : List ρ) (rowLimit n : Nat) : List (List ρ) :=
  (List.range n).map fun i => (all.drop (rowLimit * i)).take rowLimit

omit [DecidableEq ρ] in
theorem flatten_parts (all : List ρ) (rowLimit n : Nat) :
    (parts all rowLimit n).flatten = all.take (rowLimit * n) := by
  induction n with
  | zero => simp [parts]
  | succ n ih =>
      rw [parts, List.range_succ, List.map_append, List.flatten_append]
      change (parts all rowLimit n).flatten ++ _ = _
      rw [ih, Nat.mul_succ, List.take_add]
      simp

omit [DecidableEq ρ] in
/-- In every run of a process that keeps to what it may ask for, the pages are the parts. -/
theorem gotPages_parts {α : Type} {p q : GscProc ρ α} {Q : GscPast ρ → Except GscException α → Prop}
    {all : List ρ} (hp : wp (asking (MayAsk lower config rowLimit)) Q p [])
    (hr : Reaches p past q) (hserves : Serves lower all rowLimit past) :
    (gotPages lower past).map Page.list =
      parts all rowLimit (gotPages lower past).length := by
  induction hr with
  | start => rfl
  | @answered past op k r before ih =>
      have hold := ih fun startRow authorization answer page hin =>
        hserves startRow authorization answer page (List.mem_cons_of_mem _ hin)
      have hask := permitted_of_reaches hp before
      cases op with
      | token =>
          rw [gotPages_other rfl]
          exact hold
      | sleep seconds =>
          rw [gotPages_other rfl]
          exact hold
      | post startRow authorization =>
          cases houtcome : outcomeOf lower r with
          | error failure =>
              rw [gotPages_post, houtcome]
              simpa [Except.toOption] using hold
          | ok page =>
              have hpage := hserves startRow authorization r page List.mem_cons_self houtcome
              rw [hask.2.2.1] at hpage
              rw [gotPages_post, houtcome]
              simp only [Except.toOption, Option.toList_some, List.map_append, List.length_append,
                List.map_cons, List.map_nil, List.length_cons, List.length_nil]
              rw [hold, hpage, parts, parts, List.range_succ, List.map_append]
              rfl

/-- Where every page that comes is the part of one list that was asked for, a query that returns
has the whole list, whatever failed in between. -/
theorem query_complete (lower strip : String → String) (config : GSCClientConfig)
    (siteUrl : String) (startDate endDate : Int) (dimensions : List String)
    (rowLimit : Option Nat) (past : GscPast ρ) (payload : RawPayload ρ) (all : List ρ)
    (h : Reaches (query lower strip config siteUrl startDate endDate dimensions rowLimit) past
      (.ret payload))
    (hserves : Serves lower all (rowLimit.getD config.pageSize) past) : payload.rows = all := by
  have hspec := query_spec (ρ := ρ) lower strip config siteUrl startDate endDate dimensions rowLimit
  have hreturns := wp_of_reaches hspec h
  have hparts := gotPages_parts hspec h hserves
  obtain ⟨front, last, hpages, hlast, -⟩ := hreturns.ends
  set limit := rowLimit.getD config.pageSize
  rw [hreturns.rows, hparts, flatten_parts]
  refine List.take_of_length_le ?_
  have hlength : (gotPages lower past).length = front.length + 1 := by rw [hpages]; simp
  have hlastPart : last.list = (all.drop (limit * front.length)).take limit := by
    have hget := congrArg (fun xs => xs[front.length]?) hparts
    simpa [hpages, parts] using hget
  rw [hlastPart, List.length_take, List.length_drop] at hlast
  rw [hlength, Nat.mul_succ]
  omega

/-! ## Three rows -/

def shopConfig : GSCClientConfig := { maxPages := 5, maxRetries := 1, pageSize := 2 }

def shopQuery : GscProc Nat (RawPayload Nat) :=
  query id id shopConfig "sc-domain:shop.ir" 20 20 ["date", "device"] none

/-- The first answer goes away, and the pause is one second. -/
def shopFailed : List (gscIface Nat).Event :=
  [⟨.token, .ok (some "t")⟩, ⟨.post 0 (some "t"), .ok ⟨503, .blank, none, none⟩⟩]

/-- Two pages of rows. -/
def shopAnswered : List (gscIface Nat).Event :=
  shopFailed ++ [⟨.sleep 1, .ok ()⟩,
    ⟨.post 0 (some "t"), .ok ⟨200, .object ⟨some [7, 8], .undated, none⟩, none, none⟩⟩,
    ⟨.token, .ok (some "t")⟩,
    ⟨.post 2 (some "t"), .ok ⟨200, .object ⟨some [9], .dated (some 21), none⟩, none, none⟩⟩]

theorem shopQuery_reaches : ∃ payload, Reaches shopQuery shopAnswered.reverse (.ret payload) ∧
    payload.rows = [7, 8, 9] ∧ payload.firstIncompleteDate = some 21 := by
  have hreplay : ∃ payload, replay shopAnswered shopQuery = some (.ret payload) ∧
      payload.rows = [7, 8, 9] ∧ payload.firstIncompleteDate = some 21 := ⟨_, rfl, rfl, rfl⟩
  obtain ⟨payload, hpayload, hrows⟩ := hreplay
  have hreached := reaches_of_replay hpayload (.start (p := shopQuery))
  rw [List.append_nil] at hreached
  exact ⟨payload, hreached, hrows⟩

/-- Every page that came is the part of the three rows that was asked for. -/
theorem shopAnswered_serves : Serves id [7, 8, 9] 2 shopAnswered.reverse := by
  intro startRow authorization answer page hin hpage
  rw [List.mem_reverse] at hin
  cases hin with
  | tail _ hin => cases hin with
    | head => cases hpage
    | tail _ hin => cases hin with
      | tail _ hin => cases hin with
        | head =>
            cases hpage
            rfl
        | tail _ hin => cases hin with
          | tail _ hin => cases hin with
            | head =>
                cases hpage
                rfl
            | tail _ hin => cases hin

theorem query_asks_shop : MayAsk id shopConfig 2 shopFailed.reverse (.sleep 1) := by
  have hnext : (replay shopFailed shopQuery).bind next? = some (.sleep 1) := rfl
  obtain ⟨k, hreached⟩ := reaches_call hnext
  exact query_asks id id shopConfig "sc-domain:shop.ir" 20 20 ["date", "device"] none _ _ k hreached

theorem query_returns_shop : ∃ payload, Payloads id shopConfig 2 shopAnswered.reverse payload ∧
    payload.firstIncompleteDate = some 21 := by
  obtain ⟨payload, hreached, -, hdate⟩ := shopQuery_reaches
  exact ⟨payload, query_returns id id shopConfig "sc-domain:shop.ir" 20 20 ["date", "device"] none
    _ payload hreached, hdate⟩

theorem query_complete_shop : ∃ payload,
    Reaches shopQuery shopAnswered.reverse (.ret payload) ∧ payload.rows = [7, 8, 9] := by
  obtain ⟨payload, hreached, -⟩ := shopQuery_reaches
  exact ⟨payload, hreached, query_complete id id shopConfig "sc-domain:shop.ir" 20 20
    ["date", "device"] none _ payload _ hreached shopAnswered_serves⟩

end SeoAgent.Gsc
