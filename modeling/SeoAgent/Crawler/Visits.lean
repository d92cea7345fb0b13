import Mathlib
import SeoAgent.Crawler.Crawl
import SeoAgent.Verified.Alone

/-!
# What a crawl visits

The queue of a crawl holds each page of the site once, and every page before the position has been
asked for or is kept from the scanner by robots.txt. From this come what a crawl asks a site for
and what it has been to at the end.

## Main results

* `crawl_asks` — every request of every run: robots.txt, then sitemaps, then pages of the site that
  robots.txt lets the scanner read, each once, in time, and with a rest between them.
* `crawl_tours` — a crawl that was not cut short has been to the home page, to every page of the
  sitemaps and to every page that one of those leads to.
* `crawl_certain` — sitemaps of which a crawl is certain have all been read.
-/

namespace SeoAgent.Crawler

open SeoAgent.Verified Prog

/-! ## The queue -/

namespace Crawl

section Queue
variable (lib : Library) (base : Address)

/-- What the sets of the loop have to do with its queue. -/
structure Sound (c : Crawl) : Prop where
  queued : c.queued = c.queue.map (identity lib.U)
  paths : c.paths = c.queue.map (withoutQuery lib.U)
  nodup : (c.queue.map (identity lib.U)).Nodup
  site : ∀ url ∈ c.queue, url = base ∨ isOnSite lib.U base url = true

/-- The queue has grown, and nothing else. -/
structure Grows (c c' : Crawl) : Prop where
  queue : c.queue <+: c'.queue
  queued : c.queued ⊆ c'.queued
  paths : c.paths ⊆ c'.paths
  position : c'.position = c.position
  pages : c'.pages = c.pages
  capped : c'.capped = false → c.capped = false

variable {lib base} {c c' c'' : Crawl} {url link : Address} {urls links : List Address}

theorem Grows.refl (c : Crawl) : Grows c c :=
  ⟨List.prefix_refl _, fun _ => id, fun _ => id, rfl, rfl, id⟩

theorem Grows.trans (h : Grows c c') (h' : Grows c' c'') : Grows c c'' where
  queue := h.queue.trans h'.queue
  queued := List.Subset.trans h.queued h'.queued
  paths := List.Subset.trans h.paths h'.paths
  position := h'.position.trans h.position
  pages := h'.pages.trans h.pages
  capped := h.capped ∘ h'.capped

theorem Grows.known (h : Grows c c') (hknown : c.Known lib link) : c'.Known lib link :=
  hknown.imp (fun hin => h.queued hin) fun hcopy => ⟨hcopy.1, h.paths hcopy.2⟩

theorem grows_enqueue (c : Crawl) (url : Address) : Grows c (c.enqueue lib url) where
  queue := List.prefix_append _ _
  queued := List.subset_append_left _ _
  paths := List.subset_append_left _ _
  position := rfl
  pages := rfl
  capped := id

theorem known_enqueue (c : Crawl) (url : Address) : (c.enqueue lib url).Known lib url :=
  .inl (List.mem_append_right _ (List.mem_singleton_self _))

theorem Sound.enqueue (h : c.Sound lib base) (hnew : identity lib.U url ∉ c.queued)
    (hsite : url = base ∨ isOnSite lib.U base url = true) :
    (c.enqueue lib url).Sound lib base where
  queued := by
    show c.queued ++ _ = (c.queue ++ [url]).map _
    rw [List.map_append, h.queued, List.map_singleton]
  paths := by
    show c.paths ++ _ = (c.queue ++ [url]).map _
    rw [List.map_append, h.paths, List.map_singleton]
  nodup := by
    show ((c.queue ++ [url]).map _).Nodup
    rw [List.map_append, List.nodup_append]
    refine ⟨h.nodup, List.nodup_singleton _, fun a ha b hb heq => hnew ?_⟩
    rw [h.queued, ← List.mem_singleton.mp hb, ← heq]
    exact ha
  site := by
    intro other hother
    rcases List.mem_append.mp hother with hother | hother
    · exact h.site other hother
    · exact List.mem_singleton.mp hother ▸ hsite

/-- The links of a page make the queue grow. -/
theorem follow_grows (lib : Library) (links : List Address) (c : Crawl) :
    Grows c (follow lib links c) := by
  induction links generalizing c with
  | nil => exact Grows.refl c
  | cons link links ih =>
      unfold follow
      split_ifs
      · exact ih c
      · refine ⟨List.prefix_refl _, fun _ => id, fun _ => id, rfl, rfl, fun hopen => ?_⟩
        cases hopen
      · exact (grows_enqueue c link).trans (ih _)

/-- The links of a page are put in the queue, up to its limit. -/
theorem follow_sound (h : c.Sound lib base)
    (hsite : ∀ link ∈ links, isOnSite lib.U base link = true) :
    (follow lib links c).Sound lib base ∧
      ((follow lib links c).capped = false → ∀ link ∈ links, (follow lib links c).Known lib link) := by
  induction links generalizing c with
  | nil => exact ⟨h, fun _ link hlink => absurd hlink List.not_mem_nil⟩
  | cons link links ih =>
      have hrest : ∀ other ∈ links, isOnSite lib.U base other = true :=
        fun other hother => hsite other (List.mem_cons_of_mem _ hother)
      unfold follow
      split_ifs with hknown hfull
      · obtain ⟨hsound, hall⟩ := ih h hrest
        refine ⟨hsound, fun hopen other hother => ?_⟩
        rcases List.mem_cons.mp hother with rfl | hother
        · exact (follow_grows lib links c).known hknown
        · exact hall hopen other hother
      · refine ⟨⟨h.queued, h.paths, h.nodup, h.site⟩, fun hopen => ?_⟩
        cases hopen
      · have hnew : identity lib.U link ∉ c.queued := fun hin => hknown (.inl hin)
        obtain ⟨hsound, hall⟩ :=
          ih (h.enqueue hnew (.inr (hsite link List.mem_cons_self))) hrest
        refine ⟨hsound, fun hopen other hother => ?_⟩
        rcases List.mem_cons.mp hother with rfl | hother
        · exact (follow_grows lib links _).known (known_enqueue c other)
        · exact hall hopen other hother

/-- Addresses are put in the queue, each page once. -/
theorem fill_sound (h : c.Sound lib base)
    (hsite : ∀ url ∈ urls, isOnSite lib.U base url = true) :
    let filled := urls.foldl
      (fun c url => if identity lib.U url ∈ c.queued then c else c.enqueue lib url) c
    filled.Sound lib base ∧ Grows c filled ∧ (∀ url ∈ urls, identity lib.U url ∈ filled.queued) ∧
      filled.queue.length ≤ c.queue.length + urls.length ∧ filled.capped = c.capped := by
  induction urls generalizing c with
  | nil => exact ⟨h, Grows.refl c, nofun, le_rfl, rfl⟩
  | cons url urls ih =>
      have hrest : ∀ other ∈ urls, isOnSite lib.U base other = true :=
        fun other hother => hsite other (List.mem_cons_of_mem _ hother)
      dsimp only [List.foldl_cons, List.length_cons]
      split_ifs with hknown
      · obtain ⟨hsound, hgrows, hall, hlength, hcapped⟩ := ih h hrest
        refine ⟨hsound, hgrows, fun other hother => ?_, by omega, hcapped⟩
        rcases List.mem_cons.mp hother with rfl | hother
        · exact hgrows.queued hknown
        · exact hall other hother
      · obtain ⟨hsound, hgrows, hall, hlength, hcapped⟩ :=
          ih (h.enqueue hknown (.inr (hsite url List.mem_cons_self))) hrest
        have henqueued : (c.enqueue lib url).queue.length = c.queue.length + 1 :=
          List.length_append
        refine ⟨hsound, (grows_enqueue c url).trans hgrows, fun other hother => ?_, by omega,
          hcapped⟩
        rcases List.mem_cons.mp hother with rfl | hother
        · exact hgrows.queued (List.mem_append_right _ (List.mem_singleton_self _))
        · exact hall other hother

/-- The queue at the beginning: the home page, then what the sitemaps list. -/
theorem start_sound (lib : Library) (base : Address)
    (hsite : ∀ url ∈ urls, isOnSite lib.U base url = true) :
    (start lib (base :: urls)).Sound lib base ∧
      Grows (({} : Crawl).enqueue lib base) (start lib (base :: urls)) ∧
      (∀ url ∈ urls, identity lib.U url ∈ (start lib (base :: urls)).queued) ∧
      (start lib (base :: urls)).queue.length ≤ 1 + urls.length ∧
      (start lib (base :: urls)).capped = false := by
  have hempty : ({} : Crawl).Sound lib base := ⟨rfl, rfl, List.nodup_nil, nofun⟩
  exact fill_sound (hempty.enqueue (List.not_mem_nil) (.inl rfl)) hsite

end Queue

end Crawl

/-! ## What was asked -/

/-- The requests up to a number of bytes, newest first. -/
def requests (limit : Nat) : CrawlPast → List (Address × Except CrawlExc Fetched)
  | [] => []
  | ⟨.fetch url upTo, r⟩ :: past =>
      if upTo = limit then (url, r) :: requests limit past else requests limit past
  | _ :: past => requests limit past

/-- The last thing that was done, but for looking at the clock, was a rest. -/
def Rested (seconds : ℚ) : CrawlPast → Prop
  | ⟨.clock, _⟩ :: past => Rested seconds past
  | ⟨.sleep asked, _⟩ :: _ => asked = seconds
  | _ => False

section Asked
variable (lib : Library) (crawler : SiteCrawler) (base : Address)

/-- The lines of the robots.txt that was answered. -/
def linesOf (answer : Fetched) : List (List Char) :=
  Lines.splitLines ((if answer.status = some 200 then
    (readRobotsAnswer lib.U answer).1 else none).getD [])

/-- The lines of the robots.txt that was read. -/
def rulesOf (past : CrawlPast) : List (List Char) :=
  match requests maxRobotsBytes past with
  | [(_, .ok answer)] => linesOf lib answer
  | _ => []

/-- robots.txt lets Google and this scanner read an address. -/
def Allowed (lines : List (List Char)) (url : Address) : Prop :=
  Scan.googleAllows lib.U lines url = some true ∧ lib.canFetch lines url = some true

/-- When a crawl may ask for a page. -/
structure MayRead (past : CrawlPast) (url : Address) : Prop where
  site : url = base ∨ isOnSite lib.U base url = true
  allowed : url = base ∧ requests maxBodyBytes past = [] ∨ Allowed lib (rulesOf lib past) url
  fresh : ∀ request ∈ requests maxBodyBytes past, identity lib.U request.1 ≠ identity lib.U url
  few : (requests maxBodyBytes past).length ≤ maxSitemapUrls
  inTime : InTime crawler.timeBudgetSeconds 1 past
  rested : requests maxBodyBytes past = [] ∨
    Rested (restOf lib crawler (rulesOf lib past)) past

/-- What the reader of sitemaps may ask for. -/
def MayAskSitemaps (past : CrawlPast) : CrawlOp → Prop
  | .clock => True
  | .sleep _ => False
  | .fetch url limit =>
      limit = maxSitemapBytes ∧ MayOpen lib base url ∧ InTime crawler.timeBudgetSeconds 0 past

/-- What the loop over the pages may ask for. -/
def MayAskPages (past : CrawlPast) : CrawlOp → Prop
  | .clock => True
  | .sleep seconds => seconds = restOf lib crawler (rulesOf lib past)
  | .fetch url limit => limit = maxBodyBytes ∧ MayRead lib crawler base past url

/-- What a crawl may ask for: robots.txt first, then sitemaps, then pages. -/
def MayAsk (past : CrawlPast) (op : CrawlOp) : Prop :=
  (∃ url, op = .fetch url maxRobotsBytes ∧ lib.urljoin base "/robots.txt".toList = some url ∧
    ∀ upTo, requests upTo past = []) ∨
  (MayAskSitemaps lib crawler base past op ∧ requests maxBodyBytes past = []) ∨
  MayAskPages lib crawler base past op

/-- What an answer leads to. -/
def linksOf (url : Address) (answer : Fetched) : List Address :=
  if isPage lib answer then
    Crawl.onSiteLinks lib base ((landing lib url answer).getD url)
      ((parsed lib answer).links.map String.toList)
  else []

/-- A page was asked for, or is kept from the scanner. -/
def Visited (past : CrawlPast) (url : Address) : Prop :=
  (∃ r, (url, r) ∈ requests maxBodyBytes past) ∨ ¬Allowed lib (rulesOf lib past) url

end Asked

theorem requests_suffix {past past' : CrawlPast} (hs : past <:+ past') (limit : Nat) :
    requests limit past <:+ requests limit past' := by
  obtain ⟨more, rfl⟩ := hs
  induction more with
  | nil => exact List.suffix_refl _
  | cons event more ih =>
      refine ih.trans ?_
      rw [List.cons_append]
      obtain ⟨o, r⟩ := event
      cases o with
      | clock => exact List.suffix_refl _
      | sleep seconds => exact List.suffix_refl _
      | fetch url upTo =>
          show requests limit (more ++ past) <:+
            if upTo = limit then (url, r) :: requests limit (more ++ past)
            else requests limit (more ++ past)
          split
          · exact List.suffix_cons _ _
          · exact List.suffix_refl _

/-! ## One page -/

section Run
variable {lib : Library} {crawler : SiteCrawler} {base : Address} {past past' : CrawlPast}
  {c : Crawl} {lines : List (List Char)} {url : Address}

theorem pageOf_url {inSitemap blocked : Bool} {ms : Nat} {answer : Fetched} {page : ScannedPage}
    {links : List Address}
    (h : pageOf lib url inSitemap blocked ms answer = some (page, links)) : page.url = url := by
  unfold pageOf at h
  dsimp only at h
  split_ifs at h
  · exact (congrArg (fun read => read.1.url) (Option.some.inj h)).symm
  · exact (congrArg (fun read => read.1.url) (Option.some.inj h)).symm
  · exact (congrArg (fun read => read.1.url) (Option.some.inj h)).symm

/-- The links that a page was read with are what its answer leads to. -/
theorem pageOf_links {inSitemap blocked : Bool} {ms : Nat} {answer : Fetched} {page : ScannedPage}
    {links : List Address}
    (h : pageOf lib url inSitemap blocked ms answer = some (page, links)) :
    Crawl.onSiteLinks lib base (page.redirectedTo.getD url) links = linksOf lib base url answer := by
  unfold pageOf at h
  dsimp only at h
  split_ifs at h with hstatus hfile hcut
  · obtain ⟨-, rfl⟩ := Prod.mk.inj (Option.some.inj h)
    rw [linksOf, isPage, decide_eq_false hstatus, if_neg (by simp)]
    rfl
  · obtain ⟨-, rfl⟩ := Prod.mk.inj (Option.some.inj h)
    rw [linksOf, isPage, hcut, if_neg (by simp)]
    rfl
  · obtain ⟨rfl, rfl⟩ := Prod.mk.inj (Option.some.inj h)
    rw [linksOf, isPage, Bool.eq_false_iff.mpr hcut, Bool.eq_false_iff.mpr hfile,
      decide_eq_true (not_not.mp hstatus)]
    rfl

/-- What is no page leads nowhere. -/
theorem linksOf_of_none {inSitemap blocked : Bool} {ms : Nat} {answer : Fetched}
    (h : pageOf lib url inSitemap blocked ms answer = none) : linksOf lib base url answer = [] := by
  unfold pageOf at h
  dsimp only at h
  split_ifs at h with hstatus hfile hcut
  rw [linksOf, isPage, hfile, if_neg (by simp)]

/-- What came of a page: it was asked for, or it is kept from the scanner. -/
def PageRead (lib : Library) (base : Address) (lines : List (List Char)) (url : Address)
    (always : Bool) (past past' : CrawlPast) (read : Option (ScannedPage × List Address)) : Prop :=
  (past' = past ∧ ¬Allowed lib lines url ∧ always = false ∧
    ∀ page links, read = some (page, links) → page.url = url ∧ links = []) ∨
  (∃ answer, requests maxBodyBytes past' = (url, .ok answer) :: requests maxBodyBytes past ∧
    requests maxRobotsBytes past' = requests maxRobotsBytes past ∧
    (read = none → linksOf lib base url answer = []) ∧
    ∀ page links, read = some (page, links) → page.url = url ∧
      Crawl.onSiteLinks lib base (page.redirectedTo.getD url) links = linksOf lib base url answer)

theorem readPage_spec {C : Contract crawlIface} (base : Address) (hclock : ∀ past, C.permits past .clock)
    {inSitemap always : Bool}
    (hfetch : ∀ at_, always = true ∨ Allowed lib lines url →
      C.permits (⟨.clock, .ok at_⟩ :: past) (.fetch url maxBodyBytes)) :
    wp C (Returns (PageRead lib base lines url always past))
      (readPage lib lines url inSitemap always) past := by
  unfold readPage
  split
  · trivial
  · next allowed hallowed =>
      split
      · next hblocked =>
          rw [Bool.and_eq_true, Bool.not_eq_true', Bool.not_eq_true'] at hblocked
          refine .inl ⟨rfl, fun h => ?_, hblocked.2, fun page links hread => ?_⟩
          · have hgoogle := h.1
            rw [hallowed, hblocked.1] at hgoogle
            cases hgoogle
          · obtain ⟨rfl, rfl⟩ := Prod.mk.inj (Option.some.inj hread)
            exact ⟨rfl, rfl⟩
      · next hopen =>
          split
          · trivial
          · next hkept =>
              split at hkept
              · cases hkept
              · next hasked =>
                  refine .inl ⟨rfl, fun h => ?_, Bool.not_eq_true _ ▸ hasked, nofun⟩
                  rw [h.2] at hkept
                  cases hkept
          · next hmay =>
              have hreadable : always = true ∨ Allowed lib lines url := by
                cases halways : always with
                | true => exact .inl rfl
                | false =>
                    subst halways
                    refine .inr ⟨?_, hmay⟩
                    rw [hallowed]
                    cases allowed with
                    | true => rfl
                    | false => exact absurd rfl hopen
              refine wp_ask_bind (hclock _) (fun started _ => ?_) fun _ _ => trivial
              refine wp_ask_bind (hfetch started hreadable) (fun answer _ => ?_) fun _ _ => trivial
              refine wp_ask_bind (hclock _) (fun ended _ => ?_) fun _ _ => trivial
              exact .inr ⟨answer, rfl, rfl, fun hnone => linksOf_of_none hnone,
                fun page links hread => ⟨pageOf_url hread, pageOf_links hread⟩⟩

/-! ## The loop -/

/-- What holds of the loop of a crawl, after `past`. -/
structure Crawl.Inv (lib : Library) (crawler : SiteCrawler) (base : Address)
    (lines : List (List Char)) (past : CrawlPast) (c : Crawl) : Prop
    extends c.Sound lib base where
  home : c.queue.head? = some base
  length : c.queue.length ≤ maxSitemapUrls + 1
  position : c.position ≤ c.queue.length
  rules : rulesOf lib past = lines
  requested : ∀ request ∈ requests maxBodyBytes past, request.1 ∈ c.queue.take c.position
  once : ((requests maxBodyBytes past).map fun request => identity lib.U request.1).Nodup
  begun : c.position ≠ 0 → ∃ r, (base, r) ∈ requests maxBodyBytes past
  visited : ∀ url ∈ c.queue.take c.position, Visited lib past url
  read : (c.pages.map ScannedPage.url).Sublist (c.queue.take c.position)
  few : c.pages.length ≤ crawler.maxPages
  followed : c.capped = false → ∀ url answer,
    (url, .ok answer) ∈ requests maxBodyBytes past →
      ∀ link ∈ linksOf lib base url answer, c.Known lib link

theorem take_succ_of_next (hnext : c.queue[c.position]? = some url) :
    c.queue.take (c.position + 1) = c.queue.take c.position ++ [url] := by
  rw [List.take_add_one, hnext]
  rfl

/-- A page that was not asked for yet. -/
theorem Crawl.Inv.fresh (h : c.Inv lib crawler base lines past)
    (hnext : c.queue[c.position]? = some url) :
    ∀ request ∈ requests maxBodyBytes past, identity lib.U request.1 ≠ identity lib.U url := by
  intro request hrequest hsame
  have hnodup : ((c.queue.take (c.position + 1)).map (identity lib.U)).Nodup :=
    h.nodup.sublist ((List.take_sublist _ _).map _)
  rw [take_succ_of_next hnext, List.map_append, List.nodup_append] at hnodup
  exact hnodup.2.2 _ (List.mem_map_of_mem (h.requested request hrequest)) _
    (List.mem_singleton_self _) hsame

/-- The requests for pages are no more than the pages before the position. -/
theorem Crawl.Inv.count (h : c.Inv lib crawler base lines past) :
    (requests maxBodyBytes past).length ≤ c.position := by
  have hsubset : ((requests maxBodyBytes past).map fun request => identity lib.U request.1) ⊆
      (c.queue.take c.position).map (identity lib.U) := by
    intro a ha
    obtain ⟨request, hrequest, rfl⟩ := List.mem_map.mp ha
    exact List.mem_map_of_mem (h.requested request hrequest)
  have hle := (List.subperm_of_subset h.once hsubset).length_le
  rw [List.length_map, List.length_map, List.length_take] at hle
  omega

/-- The loop stops before its end. -/
theorem Crawl.Inv.cap (h : c.Inv lib crawler base lines past) :
    Crawl.Inv lib crawler base lines past { c with capped := true } :=
  { h with followed := nofun }

/-- Time goes by, or the crawl rests. -/
theorem Crawl.Inv.quiet (h : c.Inv lib crawler base lines past)
    (hpages : requests maxBodyBytes past' = requests maxBodyBytes past)
    (hrobots : requests maxRobotsBytes past' = requests maxRobotsBytes past) :
    c.Inv lib crawler base lines past' := by
  have hrules : rulesOf lib past' = rulesOf lib past := by rw [rulesOf, hrobots]; rfl
  refine { h with
    rules := hrules.trans h.rules
    requested := hpages ▸ h.requested
    once := hpages ▸ h.once
    begun := hpages ▸ h.begun
    visited := fun url hurl => ?_
    followed := hpages ▸ h.followed }
  have hvisited := h.visited url hurl
  rwa [Visited, hpages, hrules]

/-- The position moves over a page that was asked for, or is kept from the scanner. -/
theorem Crawl.Inv.moved {c' : Crawl} {read : Option (ScannedPage × List Address)}
    (h : c.Inv lib crawler base lines past) (hnext : c.queue[c.position]? = some url)
    (hread : PageRead lib base lines url (c.position == 0) past past' read) (hsound : c'.Sound lib base)
    (hqueue : c.queue <+: c'.queue) (hlength : c'.queue.length ≤ maxSitemapUrls + 1)
    (hposition : c'.position = c.position + 1)
    (hpages : (c'.pages.map ScannedPage.url).Sublist (c.queue.take (c.position + 1)))
    (hfew : c'.pages.length ≤ crawler.maxPages)
    (hknown : c'.capped = false →
      c.capped = false ∧ (∀ link, c.Known lib link → c'.Known lib link) ∧
        ∀ answer, requests maxBodyBytes past' = (url, .ok answer) :: requests maxBodyBytes past →
          ∀ link ∈ linksOf lib base url answer, c'.Known lib link) :
    c'.Inv lib crawler base lines past' := by
  have hin : c.position < c.queue.length := (List.getElem?_eq_some_iff.mp hnext).1
  have htake : c'.queue.take c'.position = c.queue.take c.position ++ [url] := by
    obtain ⟨more, hmore⟩ := hqueue
    rw [hposition, ← take_succ_of_next hnext, ← hmore, List.take_append_of_le_length hin]
  have hhome : c'.queue.head? = some base := by
    obtain ⟨more, hmore⟩ := hqueue
    rw [← hmore, List.head?_append, h.home]
    rfl
  have hends : c'.position ≤ c'.queue.length := hposition ▸ hin.trans_le hqueue.length_le
  have hpages' : (c'.pages.map ScannedPage.url).Sublist (c'.queue.take c'.position) := by
    rwa [htake, ← take_succ_of_next hnext]
  rcases hread with ⟨rfl, hkept, hlater, -⟩ | ⟨answer, hpast, hrobots, -⟩
  · exact
      { hsound with
        home := hhome
        length := hlength
        position := hends
        rules := h.rules
        requested := fun request hrequest =>
          htake ▸ List.mem_append_left _ (h.requested request hrequest)
        once := h.once
        begun := fun _ => h.begun (beq_eq_false_iff_ne.mp hlater)
        visited := fun other hother => by
          rcases List.mem_append.mp (htake ▸ hother) with hother | hother
          · exact h.visited other hother
          · exact .inr (List.mem_singleton.mp hother ▸ h.rules.symm ▸ hkept)
        read := hpages'
        few := hfew
        followed := fun hopen other answer hrequest link hlink =>
          (hknown hopen).2.1 link (h.followed (hknown hopen).1 other answer hrequest link hlink) }
  · have hrules : rulesOf lib past' = rulesOf lib past := by rw [rulesOf, hrobots]; rfl
    exact
      { hsound with
        home := hhome
        length := hlength
        position := hends
        rules := hrules.trans h.rules
        requested := by
          intro request hrequest
          rw [hpast] at hrequest
          rw [htake]
          rcases List.mem_cons.mp hrequest with rfl | hrequest
          · exact List.mem_append_right _ (List.mem_singleton_self _)
          · exact List.mem_append_left _ (h.requested request hrequest)
        once := by
          rw [hpast, List.map_cons, List.nodup_cons]
          refine ⟨fun hin => ?_, h.once⟩
          obtain ⟨request, hrequest, hsame⟩ := List.mem_map.mp hin
          exact h.fresh hnext request hrequest hsame
        begun := by
          intro _
          rw [hpast]
          by_cases hzero : c.position = 0
          · have hfirst := h.home
            rw [List.head?_eq_getElem?, ← hzero, hnext] at hfirst
            exact ⟨.ok answer, Option.some.inj hfirst ▸ List.mem_cons_self⟩
          · obtain ⟨r, hr⟩ := h.begun hzero
            exact ⟨r, List.mem_cons_of_mem _ hr⟩
        visited := by
          intro other hother
          rw [Visited, hpast, hrules]
          rcases List.mem_append.mp (htake ▸ hother) with hother | hother
          · exact (h.visited other hother).imp_left fun ⟨r, hr⟩ => ⟨r, List.mem_cons_of_mem _ hr⟩
          · exact .inl ⟨.ok answer, List.mem_singleton.mp hother ▸ List.mem_cons_self⟩
        read := hpages'
        few := hfew
        followed := by
          intro hopen other answer' hrequest link hlink
          obtain ⟨hopen', hmono, hnew⟩ := hknown hopen
          rw [hpast] at hrequest
          rcases List.mem_cons.mp hrequest with heq | hrequest
          · obtain ⟨rfl, hanswer⟩ := Prod.mk.inj heq
            obtain rfl := Except.ok.inj hanswer
            exact hnew answer' hpast link hlink
          · exact hmono link (h.followed hopen' other answer' hrequest link hlink) }

/-- The position moves over what is no page. -/
theorem Crawl.Inv.pass (h : c.Inv lib crawler base lines past)
    (hnext : c.queue[c.position]? = some url)
    (hread : PageRead lib base lines url (c.position == 0) past past' none) :
    c.pass.Inv lib crawler base lines past' := by
  refine h.moved hnext hread ⟨h.queued, h.paths, h.nodup, h.site⟩ (List.prefix_refl _) h.length rfl
    ?_ h.few fun hopen => ⟨hopen, fun _ => id, fun answer hpast link hlink => ?_⟩
  · rw [take_succ_of_next hnext]
    exact h.read.trans (List.sublist_append_left _ _)
  · rcases hread with ⟨rfl, -, -, -⟩ | ⟨answer', hpast', -, hnone, -⟩
    · exact absurd (congrArg List.length hpast) (by simp)
    · rw [hpast] at hpast'
      obtain ⟨heq, -⟩ := List.cons.inj hpast'
      obtain rfl := Except.ok.inj (Prod.mk.inj heq).2
      rw [hnone rfl] at hlink
      cases hlink

/-- A page is taken, with what it links to. -/
theorem Crawl.Inv.take {page : ScannedPage} {links : List Address}
    (h : c.Inv lib crawler base lines past) (hnext : c.queue[c.position]? = some url)
    (hroom : c.pages.length < crawler.maxPages)
    (hread : PageRead lib base lines url (c.position == 0) past past' (some (page, links))) :
    (c.take lib base url page links).Inv lib crawler base lines past' := by
  have hsite : ∀ link ∈ onSiteLinks lib base (page.redirectedTo.getD url) links,
      isOnSite lib.U base link = true := fun link hlink => (List.mem_filter.mp hlink).2
  have hurl : page.url = url := by
    rcases hread with ⟨-, -, -, hpage⟩ | ⟨answer, -, -, -, hpage⟩
    · exact (hpage page links rfl).1
    · exact (hpage page links rfl).1
  have hgrows := follow_grows lib (onSiteLinks lib base (page.redirectedTo.getD url) links)
    (c.counted page)
  obtain ⟨hsound, hfollowed⟩ :=
    follow_sound (c := c.counted page) ⟨h.queued, h.paths, h.nodup, h.site⟩ hsite
  have hlength : (c.take lib base url page links).queue.length ≤ maxSitemapUrls + 1 :=
    (follow_length lib _ (c.counted page)).trans
      (max_le h.length (by decide : maxQueue ≤ maxSitemapUrls + 1))
  have hpages : (c.take lib base url page links).pages = c.pages ++ [page] := hgrows.pages
  refine h.moved hnext hread hsound hgrows.queue hlength hgrows.position ?_ ?_ fun hopen =>
    ⟨hgrows.capped hopen, fun link hlink => hgrows.known hlink, fun answer hpast link hlink => ?_⟩
  · rw [hpages, take_succ_of_next hnext, List.map_append, List.map_singleton, hurl]
    exact h.read.append (List.Sublist.refl _)
  · rw [hpages, List.length_append]
    exact hroom
  · rcases hread with ⟨rfl, -, -, -⟩ | ⟨answer', hpast', -, -, hpage⟩
    · exact absurd (congrArg List.length hpast) (by simp)
    · rw [hpast] at hpast'
      obtain ⟨heq, -⟩ := List.cons.inj hpast'
      obtain rfl := Except.ok.inj (Prod.mk.inj heq).2
      exact hfollowed hopen link ((hpage page links rfl).2.symm ▸ hlink)

/-- A page that is next may be asked for. -/
theorem Crawl.Inv.mayRead {deadline at_ now : ℚ} (h : c.Inv lib crawler base lines past)
    (hnext : c.queue[c.position]? = some url)
    (hstarted : Started crawler.timeBudgetSeconds deadline past) (hlate : ¬deadline ≤ at_)
    (hat : (clocks past).head? = some at_)
    (hrested : c.position = 0 ∨ Rested (restOf lib crawler lines) past)
    (hreadable : (c.position == 0) = true ∨ Allowed lib lines url) :
    MayRead lib crawler base (⟨.clock, .ok now⟩ :: past) url where
  site := h.site url (List.mem_of_getElem? hnext)
  allowed := by
    rcases hreadable with hfirst | hallowed
    · have hzero : c.position = 0 := beq_iff_eq.mp hfirst
      refine .inl ⟨?_, List.eq_nil_iff_length_eq_zero.mpr (Nat.le_zero.mp (hzero ▸ h.count))⟩
      have hhome := h.home
      rw [List.head?_eq_getElem?, ← hzero, hnext] at hhome
      exact Option.some.inj hhome
    · exact .inr (h.rules ▸ hallowed)
  fresh := h.fresh hnext
  few := by
    have hcount := h.count
    have hin : c.position < c.queue.length := (List.getElem?_eq_some_iff.mp hnext).1
    have hlength := h.length
    exact show (requests maxBodyBytes past).length ≤ maxSitemapUrls by omega
  inTime := by
    obtain ⟨first, hfirst, rfl⟩ := hstarted.mono (List.suffix_cons ⟨.clock, .ok now⟩ past)
    refine ⟨first, hfirst, at_, ?_, not_le.mp hlate⟩
    show (clocks past)[0]? = some at_
    rwa [← List.head?_eq_getElem?]
  rested := by
    rcases hrested with hzero | hrested
    · exact .inl (List.eq_nil_iff_length_eq_zero.mpr (Nat.le_zero.mp (hzero ▸ h.count)))
    · exact .inr (h.rules ▸ hrested)

/-- The next page is read: what the rest of the loop keeps, the page passed or taken, this
keeps. -/
theorem readPage_inv {deadline at_ : ℚ} {inSitemap : Bool}
    {rest : Option (ScannedPage × List Address) → CrawlProc Crawl} {Q : CrawlPast → Crawl → Prop}
    (h : c.Inv lib crawler base lines past) (hnext : c.queue[c.position]? = some url)
    (hroom : c.pages.length < crawler.maxPages)
    (hstarted : Started crawler.timeBudgetSeconds deadline past) (hlate : ¬deadline ≤ at_)
    (hat : (clocks past).head? = some at_)
    (hrested : c.position = 0 ∨ Rested (restOf lib crawler lines) past)
    (hpass : ∀ past', c.pass.Inv lib crawler base lines past' →
      Started crawler.timeBudgetSeconds deadline past' →
      wp (asking (MayAskPages lib crawler base)) (Returns Q) (rest none) past')
    (htake : ∀ past' page links, (c.take lib base url page links).Inv lib crawler base lines past' →
      Started crawler.timeBudgetSeconds deadline past' →
      wp (asking (MayAskPages lib crawler base)) (Returns Q) (rest (some (page, links))) past') :
    wp (asking (MayAskPages lib crawler base)) (Returns Q)
      (readPage lib lines url inSitemap (c.position == 0) >>= rest) past := by
  refine returns_bind (readPage_spec base (fun _ => trivial) fun now hreadable =>
    ⟨rfl, h.mayRead hnext hstarted hlate hat hrested hreadable⟩) fun past' read hs hread => ?_
  cases read with
  | none => exact hpass past' (h.pass hnext hread) (hstarted.mono hs)
  | some found =>
      obtain ⟨page, links⟩ := found
      exact htake past' page links (h.take hnext hroom hread) (hstarted.mono hs)

theorem readQueue_inv {deadline : ℚ} (listed : List (List Char)) (c : Crawl) :
    ∀ past, c.Inv lib crawler base lines past →
      Started crawler.timeBudgetSeconds deadline past →
      wp (asking (MayAskPages lib crawler base)) (Returns fun past' (c' : Crawl) =>
          c'.Inv lib crawler base lines past' ∧ c.queued ⊆ c'.queued ∧
            (c'.capped = false → c'.queue.length ≤ c'.position))
        (readQueue lib crawler base lines listed deadline (restOf lib crawler lines) c) past := by
  induction c using readQueue.induct lib crawler base with
  | case1 c hend =>
      intro past hinv _
      rw [readQueue.eq_def, hend]
      exact ⟨hinv, fun _ => id, fun _ => List.getElem?_eq_none_iff.mp hend⟩
  | case2 c url hnext hfull =>
      intro past hinv _
      rw [readQueue.eq_def, hnext]
      dsimp only
      rw [if_pos hfull]
      refine ⟨hinv.cap, fun _ => id, fun hopen => ?_⟩
      cases hopen
  | case3 c url hnext hroom ihPass ihTake =>
      intro past hinv hstarted
      rw [readQueue.eq_def, hnext]
      dsimp only
      rw [if_neg hroom]
      refine wp_ask_bind trivial (fun at_ _ => ?_) fun _ _ => trivial
      have hinv' : c.Inv lib crawler base lines (⟨.clock, .ok at_⟩ :: past) :=
        hinv.quiet rfl rfl
      have hstarted' : Started crawler.timeBudgetSeconds deadline (⟨.clock, .ok at_⟩ :: past) :=
        hstarted.mono (List.suffix_cons _ _)
      split
      · refine ⟨hinv'.cap, fun _ => id, fun hopen => ?_⟩
        cases hopen
      · next hlate =>
          have htake : ∀ past' page links,
              (c.take lib base url page links).Inv lib crawler base lines past' →
              Started crawler.timeBudgetSeconds deadline past' →
              wp (asking (MayAskPages lib crawler base)) (Returns fun past' (c' : Crawl) =>
                  c'.Inv lib crawler base lines past' ∧ c.queued ⊆ c'.queued ∧
                    (c'.capped = false → c'.queue.length ≤ c'.position))
                (readQueue lib crawler base lines listed deadline (restOf lib crawler lines)
                  (c.take lib base url page links)) past' := by
            intro past' page links hinv' hstarted'
            refine returns_mono (fun past'' c' hc' => ?_) (ihTake page links past' hinv' hstarted')
            refine ⟨hc'.1, fun key hkey => hc'.2.1 ?_, hc'.2.2⟩
            exact (Crawl.follow_grows lib _ (c.counted page)).queued hkey
          split
          · refine wp_ask_bind (congrArg (restOf lib crawler) hinv'.rules.symm)
              (fun _ _ => ?_) fun _ _ => trivial
            exact readPage_inv (hinv'.quiet rfl rfl) hnext (not_le.mp hroom)
              (hstarted'.mono (List.suffix_cons _ _)) hlate rfl (.inr rfl) ihPass htake
          · next hzero =>
              exact readPage_inv hinv' hnext (not_le.mp hroom) hstarted' hlate rfl
                (.inl (not_not.mp hzero)) ihPass htake

/-! ## The crawl -/

/-- A page is one that was visited, or a copy of it under another query. -/
def BeenTo (lib : Library) (past : CrawlPast) (link : Address) : Prop :=
  ∃ url, Visited lib past url ∧ (identity lib.U url = identity lib.U link ∨
    Url.query link ≠ [] ∧ withoutQuery lib.U url = withoutQuery lib.U link)

/-- What the pages of a crawl are, and where it has been. -/
structure Toured (lib : Library) (crawler : SiteCrawler) (base : Address) (past : CrawlPast)
    (result : CrawlResult) : Prop where
  few : result.pages.length ≤ crawler.maxPages
  once : (result.pages.map fun page => identity lib.U page.url).Nodup
  site : ∀ page ∈ result.pages, page.url = base ∨ isOnSite lib.U base page.url = true
  visited : ∀ page ∈ result.pages, Visited lib past page.url
  home : result.pagesCapped = false → ∃ r, (base, r) ∈ requests maxBodyBytes past
  listed : result.pagesCapped = false → ∀ url ∈ result.sitemapPages, BeenTo lib past url
  linked : result.pagesCapped = false → ∀ url answer,
    (url, .ok answer) ∈ requests maxBodyBytes past →
      ∀ link ∈ linksOf lib base url answer, BeenTo lib past link

/-- What a result that is certain of the sitemaps says of them. -/
structure Certain (lib : Library) (base : Address) (past : CrawlPast) (result : CrawlResult) :
    Prop where
  named : ∀ url ∈ namedSitemaps lib result.robotsText, Opened past url
  guessed : result.sitemapUrls = [] → ∀ path ∈ commonSitemaps,
    ∃ url, lib.urljoin base path = some url ∧ Opened past url
  children : ∀ body ∈ sitemapBodies past, ∀ child ∈ (parseSitemap lib body).2,
    isOnSite lib.U base child = true → Opened past child
  pages : ∀ body ∈ sitemapBodies past, ∀ page ∈ (parseSitemap lib body).1,
    isOnSite lib.U base page = true →
      (∃ listed ∈ result.sitemapPages, identity lib.U listed = identity lib.U page) ∨
        maxSitemapUrls ≤ result.sitemapPages.length

/-- A page of the queue that the loop has gone over. -/
theorem Crawl.Inv.beenTo {link : Address} (h : c.Inv lib crawler base lines past)
    (hend : c.queue.length ≤ c.position) (hknown : c.Known lib link) : BeenTo lib past link := by
  have hall : c.queue.take c.position = c.queue := List.take_of_length_le hend
  rcases hknown with hin | ⟨hquery, hin⟩
  · rw [h.queued] at hin
    obtain ⟨url, hurl, hsame⟩ := List.mem_map.mp hin
    exact ⟨url, h.visited url (hall.symm ▸ hurl), .inl hsame⟩
  · rw [h.paths] at hin
    obtain ⟨url, hurl, hsame⟩ := List.mem_map.mp hin
    exact ⟨url, h.visited url (hall.symm ▸ hurl), .inr ⟨hquery, hsame⟩⟩

/-- The loop begins. -/
theorem Crawl.start_inv {pages : List Address} (hsite : ∀ url ∈ pages, isOnSite lib.U base url = true)
    (hlength : pages.length ≤ maxSitemapUrls) (hrules : rulesOf lib past = lines)
    (hnone : requests maxBodyBytes past = []) :
    (start lib (base :: pages)).Inv lib crawler base lines past := by
  obtain ⟨hsound, hgrows, -, hle, -⟩ := start_sound lib base hsite
  obtain ⟨more, hmore⟩ := hgrows.queue
  have hposition : (start lib (base :: pages)).position = 0 := hgrows.position
  have hpages : (start lib (base :: pages)).pages = [] := hgrows.pages
  exact
    { hsound with
      home := by rw [← hmore]; rfl
      length := by omega
      position := by rw [hposition]; exact Nat.zero_le _
      rules := hrules
      requested := by rw [hnone]; nofun
      once := by rw [hnone]; exact List.nodup_nil
      begun := fun hne => absurd hposition hne
      visited := by rw [hposition]; nofun
      read := by rw [hpages, hposition]; exact List.Sublist.refl _
      few := by rw [hpages]; exact Nat.zero_le _
      followed := by rw [hnone]; nofun }

/-- The reader of robots.txt asks for nothing else. -/
theorem readRobots_spec {started : ℚ} :
    wp (asking (MayAsk lib crawler base)) (Returns fun past (read : Fetched × _ × Bool) =>
        clocks past = [started] ∧ sitemapBodies past = [] ∧ requests maxBodyBytes past = [] ∧
          rulesOf lib past = Lines.splitLines (read.2.1.getD []))
      (readRobots lib base) [⟨.clock, .ok started⟩] := by
  unfold readRobots
  split
  · trivial
  · next url hurl =>
      refine wp_ask_bind (.inl ⟨url, rfl, hurl, fun _ => rfl⟩) (fun answer _ => ?_)
        fun _ _ => trivial
      refine ⟨rfl, rfl, rfl, ?_⟩
      show linesOf lib answer = _
      rw [linesOf, apply_ite Prod.fst]

/-- Sitemaps are read before pages. -/
theorem readSitemaps_spec {deadline : ℚ} (robotsText : Option (List Char))
    (hstarted : Started crawler.timeBudgetSeconds deadline past)
    (hbodies : sitemapBodies past = []) (hnone : requests maxBodyBytes past = []) :
    wp (asking (MayAsk lib crawler base)) (Returns fun past' (read : SitemapsRead) =>
        Gathered lib base robotsText past' read ∧
          (requests maxBodyBytes past' = [] ∧ rulesOf lib past' = rulesOf lib past))
      (readSitemaps lib base robotsText deadline) past := by
  have hC : PermitsSitemaps (asking (MayAskSitemaps lib crawler base)) lib base
      crawler.timeBudgetSeconds := ⟨fun _ => trivial, fun _ _ hmay hin => ⟨rfl, hmay, hin⟩⟩
  refine returns_within (D := asking (MayAsk lib crawler base))
    (F := fun past' => requests maxBodyBytes past' = [] ∧ rulesOf lib past' = rulesOf lib past)
    ⟨hnone, rfl⟩ (fun past' o hF hpermits => ⟨.inr (.inl ⟨hpermits, hF.1⟩), fun r => ?_⟩)
    (fun _ _ _ => trivial) (readSitemaps_gathered hC robotsText hbodies hstarted)
  cases o with
  | clock => exact hF
  | sleep seconds => exact hF
  | fetch url limit =>
      obtain ⟨rfl, -, -⟩ := hpermits
      exact hF

/-- The loop over the pages opens no sitemap. -/
theorem readQueue_spec {deadline : ℚ} (listed : List (List Char)) (c : Crawl)
    (hinv : c.Inv lib crawler base lines past)
    (hstarted : Started crawler.timeBudgetSeconds deadline past) :
    wp (asking (MayAsk lib crawler base)) (Returns fun past' (c' : Crawl) =>
        (c'.Inv lib crawler base lines past' ∧ c.queued ⊆ c'.queued ∧
          (c'.capped = false → c'.queue.length ≤ c'.position)) ∧
        sitemapBodies past' = sitemapBodies past)
      (readQueue lib crawler base lines listed deadline (restOf lib crawler lines) c) past := by
  refine returns_within (D := asking (MayAsk lib crawler base))
    (F := fun past' => sitemapBodies past' = sitemapBodies past) rfl
    (fun past' o hF hpermits => ⟨.inr (.inr hpermits), fun r => ?_⟩) (fun _ _ _ => trivial)
    (readQueue_inv listed c past hinv hstarted)
  cases o with
  | clock => exact hF
  | sleep seconds => exact hF
  | fetch url limit =>
      obtain ⟨rfl, -⟩ := hpermits
      cases r with
      | ok answer => exact hF
      | error e => exact hF

/-- The loop has ended. -/
theorem Crawl.Inv.toured {pages : List Address} {result : CrawlResult}
    (h : c.Inv lib crawler base lines past)
    (hqueued : (start lib (base :: pages)).queued ⊆ c.queued)
    (hend : c.capped = false → c.queue.length ≤ c.position)
    (hsite : ∀ url ∈ pages, isOnSite lib.U base url = true) (hpages : result.pages = c.pages)
    (hcapped : result.pagesCapped = c.capped) (hlisted : result.sitemapPages = pages) :
    Toured lib crawler base past result := by
  obtain ⟨-, hgrows, hin, -, -⟩ := start_sound lib base hsite
  have htaken : ∀ page ∈ c.pages, page.url ∈ c.queue.take c.position :=
    fun page hpage => h.read.subset (List.mem_map_of_mem hpage)
  refine ⟨hpages ▸ h.few, ?_, ?_, ?_, ?_, ?_, ?_⟩
  · have hnodup := h.nodup.sublist ((h.read.trans (List.take_sublist _ _)).map (identity lib.U))
    rwa [List.map_map, ← hpages] at hnodup
  · exact fun page hpage => h.site _ (List.take_subset _ _ (htaken page (hpages ▸ hpage)))
  · exact fun page hpage => h.visited _ (htaken page (hpages ▸ hpage))
  · intro hopen
    refine h.begun fun hzero => ?_
    have hlength := hzero ▸ hend (hcapped ▸ hopen)
    have hhome := h.home
    rw [List.eq_nil_of_length_eq_zero (Nat.le_zero.mp hlength)] at hhome
    cases hhome
  · intro hopen url hurl
    exact h.beenTo (hend (hcapped ▸ hopen)) (.inl (hqueued (hin url (hlisted ▸ hurl))))
  · intro hopen url answer hrequest link hlink
    rw [hcapped] at hopen
    exact h.beenTo (hend hopen) (h.followed hopen url answer hrequest link hlink)

theorem crawl_spec : wp (asking (MayAsk lib crawler base)) (Returns fun past result =>
      Toured lib crawler base past result ∧
        (result.sitemapUncertain = false → Forward past → Certain lib base past result))
    (crawl lib crawler base) [] := by
  unfold crawl
  refine wp_ask_bind (.inr (.inr trivial)) (fun started _ => ?_) fun _ _ => trivial
  refine returns_bind readRobots_spec fun past read hs hrobots => ?_
  obtain ⟨answer, robotsText, robotsUnreadable⟩ := read
  obtain ⟨hclocks, hbodies, hnone, hrules⟩ := hrobots
  have hstarted : Started crawler.timeBudgetSeconds (started + crawler.timeBudgetSeconds) past :=
    ⟨started, by rw [hclocks]; rfl, rfl⟩
  refine returns_bind (readSitemaps_spec robotsText hstarted hbodies hnone)
    fun past' read hs' hread => ?_
  obtain ⟨hgathered, hnone', hrules'⟩ := hread
  have hok := hgathered.inv.listed
  refine returns_bind (readQueue_spec _ _
    (Crawl.start_inv hok.onSite hok.length (hrules'.trans hrules) hnone') (hstarted.mono hs'))
    fun past'' c hs'' hc => ?_
  obtain ⟨⟨hinv, hqueued, hend⟩, hsame⟩ := hc
  refine ⟨hinv.toured hqueued hend hok.onSite rfl rfl rfl, fun hcertain hforward => ?_⟩
  have hbefore := hforward.before hs''
  obtain ⟨hnamed, hguessed⟩ := hgathered.looked hbefore hcertain
  have hwhole := hgathered.inv.whole hbefore (.inl hcertain)
  refine ⟨fun url hurl => (hnamed url hurl).mono hs'', fun hurls path hpath => ?_,
    fun body hbody child hchild hsite => ?_, fun body hbody page hpage hsite => ?_⟩
  · obtain ⟨url, hurl, hopened⟩ := hguessed hurls path hpath
    exact ⟨url, hurl, hopened.mono hs''⟩
  · rw [hsame] at hbody
    exact ((hwhole.children body hbody child hchild hsite).resolve_right nofun).mono hs''
  · rw [hsame] at hbody
    refine (hwhole.pages body hbody page hpage hsite).imp_left fun hin => ?_
    rw [hok.seen, List.mem_reverse] at hin
    exact List.mem_map.mp hin

end Run

/-- Whatever a site answers, the pages of a crawl are different pages of the site, no more than it
may read, each of them asked for or kept from the scanner by robots.txt; and a crawl that does not
say that it was cut short has been to the home page, to all that the sitemaps list and to all that
the pages it read link to. -/
theorem crawl_tours (lib : Library) (crawler : SiteCrawler) (base : Address) (past : CrawlPast)
    (result : CrawlResult) (h : Reaches (crawl lib crawler base) past (.ret result)) :
    Toured lib crawler base past result :=
  (wp_of_reaches crawl_spec h).1

/-- A crawl that is not uncertain of the sitemaps, under a clock that does not go back, has opened
every sitemap that robots.txt or another sitemap names, and lists each page of the site that they
list, up to its limit. -/
theorem crawl_certain (lib : Library) (crawler : SiteCrawler) (base : Address) (past : CrawlPast)
    (result : CrawlResult) (h : Reaches (crawl lib crawler base) past (.ret result))
    (hcertain : result.sitemapUncertain = false) (hforward : Forward past) :
    Certain lib base past result :=
  (wp_of_reaches crawl_spec h).2 hcertain hforward

/-! ## A small site -/

/-- A shop whose home page links to one other page, on a server without the other files. -/
def shop : Address := "https://shop.ir/".toList

/-- Plain addresses, links from the root of a site, and pages with one such link. -/
def plainLibrary : Library where
  U := Url.ascii
  urljoin := fun base href => some (base ++ href.drop 1)
  canFetch := fun _ _ => some true
  crawlDelay := fun _ => 0
  inflate := fun _ _ => none
  fromstring := fun _ => none
  markup := fun body => if body = [] then [] else [.startTag "a" [("href", some "/about")]]

/-- The shop's server, while the clock stands still. -/
def shopAnswers (_ : Unit) (op : CrawlOp) : crawlIface.Answer op × Unit :=
  (match op with
    | .clock => .ok 0
    | .sleep _ => .ok ()
    | .fetch url limit => .ok
        (if limit ≠ maxBodyBytes then { status := some 404 }
          else { status := some 200, body := if url = shop then [60] else [] }), ())

theorem readTree_missing {deadline : ℚ} (hdeadline : ¬deadline ≤ 0) (start : Address)
    (listed : Listed) (past : CrawlPast) :
    (readTree plainLibrary shop deadline start listed).alone shopAnswers () past =
      ⟨.ok { pending := [], seen := [start], opened := 1, listed }, (),
        ⟨.fetch start maxSitemapBytes, .ok { status := some 404 }⟩ :: ⟨.clock, .ok 0⟩ :: past⟩ := by
  have hread : (readTreeFrom plainLibrary shop deadline { pending := [start], listed }).alone
      shopAnswers () past = ⟨.ok { pending := [], seen := [start], opened := 1, listed }, (),
        ⟨.fetch start maxSitemapBytes, .ok { status := some 404 }⟩ :: ⟨.clock, .ok 0⟩ :: past⟩ := by
    rw [readTreeFrom.eq_def]
    show ((if deadline ≤ (0 : ℚ) then _ else _ : CrawlProc Tree).alone shopAnswers () _) = _
    rw [if_neg hdeadline, if_neg (show ¬maxChildSitemaps ≤ 0 by decide), if_neg List.not_mem_nil]
    show ((readTreeFrom plainLibrary shop deadline _).alone shopAnswers () _) = _
    rw [readTreeFrom.eq_def]
    rfl
  unfold readTree
  rw [alone_bind, hread]
  rfl

/-- A sitemap of the shop was looked for. -/
def missed (past : CrawlPast) (path : List Char) : CrawlPast :=
  ⟨.fetch (shop ++ path.drop 1) maxSitemapBytes, .ok { status := some 404 }⟩ :: ⟨.clock, .ok 0⟩ ::
    past

/-- The shop has no sitemap, and its server says so. -/
theorem readGuesses_missing {deadline : ℚ} (hdeadline : ¬deadline ≤ 0) (paths : List (List Char))
    (past : CrawlPast) :
    (readGuesses plainLibrary shop deadline false paths false {}).alone shopAnswers () past =
      ⟨.ok {}, (), paths.foldl missed past⟩ := by
  induction paths generalizing past with
  | nil => rfl
  | cons path rest ih =>
      show ((readTree plainLibrary shop deadline (shop ++ path.drop 1) {} >>= _ : CrawlProc _).alone
        shopAnswers () past) = _
      rw [alone_bind, readTree_missing hdeadline]
      exact ih (missed past path)

/-- How the crawl of the shop goes on from there. -/
def shopEnded : Ended crawlIface Unit CrawlResult :=
  (readQueue plainLibrary {} shop [] [] (0 + 120) (restOf plainLibrary {} [])
      (.start plainLibrary [shop]) >>= fun c => (pure
        { homeStatus := c.homeStatus, robotsStatus := some 404, pages := c.pages,
          pagesCapped := c.capped } : CrawlProc CrawlResult)).alone shopAnswers ()
    (commonSitemaps.foldl missed
      [⟨.fetch "https://shop.ir/robots.txt".toList maxRobotsBytes, .ok { status := some 404 }⟩,
        ⟨.clock, .ok 0⟩])

theorem crawl_shop : (crawl plainLibrary {} shop).alone shopAnswers () [] = shopEnded := by
  show ((readGuesses plainLibrary shop (0 + 120) false commonSitemaps false {} >>= _ :
    CrawlProc _).alone shopAnswers () _) = _
  rw [alone_bind, readGuesses_missing (by norm_num)]
  rfl

/-- The crawl has read two pages and is certain that there is no sitemap. -/
def readsTwo (ended : Ended crawlIface Unit CrawlResult) : Bool :=
  match ended.result with
  | .ok result => result.pages.length == 2 && !result.sitemapUncertain
  | .error _ => false

theorem shop_reached : ∃ result, Reaches (crawl plainLibrary {} shop) shopEnded.past (.ret result) ∧
    result.pages.length = 2 ∧ result.sitemapUncertain = false := by
  have hreads : readsTwo shopEnded = true := by decide +kernel
  unfold readsTwo at hreads
  split at hreads
  · next result hresult =>
      rw [Bool.and_eq_true, beq_iff_eq, Bool.not_eq_true'] at hreads
      refine ⟨result, ?_, hreads⟩
      rw [← crawl_shop] at hresult ⊢
      exact reaches_alone .start hresult
  · cases hreads

/-- The two pages of the shop. -/
theorem crawl_tours_shop : ∃ past result, Toured plainLibrary {} shop past result ∧
    result.pages.length = 2 := by
  obtain ⟨result, hreached, htwo, -⟩ := shop_reached
  exact ⟨_, result, crawl_tours plainLibrary {} shop _ result hreached, htwo⟩

/-- The shop has no sitemap. -/
theorem crawl_certain_shop : ∃ past result, Certain plainLibrary shop past result := by
  obtain ⟨result, hreached, -, hcertain⟩ := shop_reached
  have hforward : Forward shopEnded.past := by
    unfold Forward
    decide +kernel
  exact ⟨_, result, crawl_certain plainLibrary {} shop _ result hreached hcertain hforward⟩

end SeoAgent.Crawler
