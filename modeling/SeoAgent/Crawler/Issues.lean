import SeoAgent.Crawler.Visits
import SeoAgent.Scan.HealthScore
import SeoAgent.Verified.Groups

/-!
# What a scan found wrong

`build_issues` of `app/scan/issues.py`: what is wrong with a site as a whole, with each page on its
own, and with pages that say the same as others. The list is sorted, most severe first.

## Main results

* `perm_said` — the list is what is said of the site and what is said of each page.
* `buildIssues_same` — pages that come in another order give the same list.
* `crawl_health` — the health of a site that was crawled.
-/

namespace SeoAgent.Crawler

open SeoAgent.Verified

/-! ## Issues -/

/-- A value of the `detail` of an issue. -/
inductive Detail
  | number (n : Option Nat)
  | text (s : Address)
  deriving DecidableEq

/-- `ScanIssue`. -/
structure Issue where
  code : String
  severity : Scan.IssueSeverity
  url : Option Address := none
  detail : List (String × Detail) := []
  deriving DecidableEq

/-- `TITLE_TOO_SHORT`. -/
def titleTooShort : Nat := 15

/-- `TITLE_TOO_LONG`. -/
def titleTooLong : Nat := 70

/-- `DESCRIPTION_TOO_LONG`. -/
def descriptionTooLong : Nat := 170

/-- `THIN_WORDS`. -/
def thinWords : Nat := 100

/-- `SLOW_MS`. -/
def slowMs : Nat := 2500

/-- `HEAVY_HTML_KB`. -/
def heavyHtmlKb : Nat := 500

/-- `BLOCKING_SCRIPTS`. -/
def maxBlockingScripts : Nat := 3

/-- `UNSIZED_IMAGES`. -/
def unsizedImages : Nat := 3

/-- `NOT_LAZY_IMAGES`. -/
def notLazyImages : Nat := 5

/-- `OLD_FORMAT_IMAGES`. -/
def oldFormatImages : Nat := 5

/-- An issue that is there if something holds. -/
def onlyIf (hit : Bool) (issue : Issue) : List Issue := if hit then [issue] else []

section Checks
variable (U : Url.Unicode)

/-- `is_listable`. -/
def isListable (page : ScannedPage) : Bool :=
  page.statusCode = some 200 && page.redirectedTo.isNone && !page.noindex && !page.robotsBlocked &&
    page.canonical.all fun canonical => identity U canonical = identity U page.url

/-! ## The site -/

/-- What is wrong with robots.txt. -/
def robotsIssues (result : CrawlResult) : List Issue :=
  if result.robotsUnreadable then [{ code := "robots_unreadable", severity := .warning }]
  else if result.robotsText.isSome then []
  else if result.robotsStatus.any (500 ≤ ·) then
    [{ code := "robots_error", severity := .critical,
       detail := [("status", .number result.robotsStatus)] }]
  else [{ code := "no_robots", severity := .warning }]

/-- A robots.txt names a sitemap. -/
def namesSitemap (robotsText : Option (List Char)) : Bool :=
  (Lines.splitLines (robotsText.getD [])).any fun line =>
    "sitemap:".toList.isPrefixOf (U.lower line)

/-- What is wrong with the sitemaps. -/
def sitemapIssues (result : CrawlResult) : List Issue :=
  if result.sitemapUncertain then [{ code := "sitemap_unreadable", severity := .warning }]
  else if result.sitemapUrls = [] then [{ code := "no_sitemap", severity := .warning }]
  else onlyIf (!namesSitemap U result.robotsText)
    { code := "sitemap_not_in_robots", severity := .info }

/-- A page that the sitemaps of a site leave out. -/
def missingIssue (result : CrawlResult) (page : ScannedPage) : List Issue :=
  onlyIf (!result.sitemapUrls.isEmpty && isListable U page && !page.inSitemap)
    { code := "not_in_sitemap", severity := .info, url := some page.url }

/-- The home page did not come. -/
def homeIssue (result : CrawlResult) : List Issue :=
  onlyIf (result.homeStatus ≠ some 200)
    { code := "home_unreachable", severity := .critical,
      detail := [("status", .number result.homeStatus)] }

/-- robots.txt keeps Google out of the site. -/
def closedIssue (result : CrawlResult) : List Issue :=
  onlyIf (Scan.blocksEverything U result.robotsText)
    { code := "robots_blocks_everything", severity := .critical }

/-- `_site_issues`, but for the pages that the sitemaps leave out. -/
def wholeSiteIssues (result : CrawlResult) : List Issue :=
  homeIssue result ++ closedIssue U result ++ robotsIssues result ++ sitemapIssues U result

/-- `_site_issues`. -/
def siteIssues (result : CrawlResult) : List Issue :=
  wholeSiteIssues U result ++ result.pages.flatMap (missingIssue U result)

/-! ## A page -/

/-- An issue of a page. -/
def about (page : ScannedPage) (code : String) (severity : Scan.IssueSeverity)
    (detail : List (String × Detail) := []) : Issue :=
  { code, severity, url := some page.url, detail }

def redirectIssue (page : ScannedPage) : List Issue :=
  match page.redirectedTo with
  | some landed => onlyIf (landed ≠ [] && page.inSitemap)
      (about page "sitemap_lists_redirect" .info [("to", .text landed)])
  | none => []

def noindexIssue (page : ScannedPage) : List Issue :=
  onlyIf page.noindex
    (if page.inSitemap then about page "noindex_in_sitemap" .critical
      else about page "noindex" .warning)

def canonicalIssue (page : ScannedPage) : List Issue :=
  match page.canonical with
  | some canonical =>
      let landed := page.redirectedTo.filter (· ≠ [])
      onlyIf (canonical ≠ [] && identity U canonical ≠ identity U (landed.getD page.url))
        (about page "canonical_elsewhere" .warning [("canonical", .text canonical)])
  | none => []

def titleIssue (page : ScannedPage) : List Issue :=
  let length := (page.title.getD "").length
  let detail := [("length", Detail.number (some length))]
  if length = 0 then [about page "missing_title" .critical]
  else if length < titleTooShort then [about page "title_too_short" .warning detail]
  else onlyIf (titleTooLong < length) (about page "title_too_long" .warning detail)

def descriptionIssue (page : ScannedPage) : List Issue :=
  let length := (page.metaDescription.getD "").length
  if length = 0 then [about page "missing_description" .warning]
  else onlyIf (descriptionTooLong < length)
    (about page "description_too_long" .info [("length", .number (some length))])

def h1Issue (page : ScannedPage) : List Issue :=
  if page.h1Count = 0 then [about page "missing_h1" .warning]
  else onlyIf (1 < page.h1Count)
    (about page "several_h1" .info [("count", .number (some page.h1Count))])

def thinIssue (page : ScannedPage) : List Issue :=
  onlyIf (page.wordCount < thinWords)
    (about page "thin_content" .info [("words", .number (some page.wordCount))])

/-- What is wrong with a page that was read. -/
def contentIssues (page : ScannedPage) : List Issue :=
  redirectIssue page ++ noindexIssue page ++ canonicalIssue U page ++ titleIssue page ++
    descriptionIssue page ++ h1Issue page ++ thinIssue page

/-- A status that says nothing about the page: a server error, or a firewall. -/
def isNoAnswer (status : Option Nat) : Bool :=
  status.all fun n => 500 ≤ n || [401, 403, 429].contains n

/-- `_page_issues`. -/
def pageIssues (page : ScannedPage) : List Issue :=
  let detail := [("status", Detail.number page.statusCode)]
  if page.robotsBlocked then
    onlyIf page.inSitemap (about page "sitemap_lists_blocked_page" .warning)
  else if isNoAnswer page.statusCode then [about page "page_no_answer" .warning detail]
  else if page.statusCode.any (400 ≤ ·) then
    [about page (if page.inSitemap then "sitemap_lists_broken_page" else "broken_page") .warning
      detail]
  else if page.statusCode ≠ some 200 then []
  else contentIssues U page

/-- `speed_issues`. -/
def speedIssues (page : ScannedPage) : List Issue :=
  match page.speed with
  | none => []
  | some speed =>
      if page.statusCode ≠ some 200 then []
      else
        onlyIf (heavyHtmlKb ≤ speed.htmlKb)
            (about page "heavy_html" .info [("kb", .number (some speed.htmlKb))]) ++
          onlyIf (maxBlockingScripts ≤ speed.blockingScripts)
            (about page "render_blocking_scripts" .info
              [("count", .number (some speed.blockingScripts))]) ++
          onlyIf (unsizedImages ≤ speed.imagesUnsized)
            (about page "images_without_size" .info
              [("count", .number (some speed.imagesUnsized))]) ++
          onlyIf (notLazyImages ≤ speed.imagesNotLazy)
            (about page "images_not_lazy" .info [("count", .number (some speed.imagesNotLazy))]) ++
          onlyIf (oldFormatImages ≤ speed.imagesOldFormat)
            (about page "old_image_formats" .info
              [("count", .number (some speed.imagesOldFormat))])

/-! ## All pages -/

/-- The times of the pages that were read. -/
def fetchTimes (pages : List ScannedPage) : List Nat :=
  pages.filterMap fun page =>
    if page.statusCode = some 200 then page.speed.map PageSpeedSignals.fetchMs else none

/-- `_slow_site`. -/
def slowSite (pages : List ScannedPage) : List Issue :=
  let times := (fetchTimes pages).mergeSort
  match times[times.length / 2]? with
  | none => []
  | some middle => onlyIf (slowMs ≤ middle)
      { code := "slow_response", severity := .warning,
        detail := [("ms", .number (some middle))] }

/-- A page whose texts are compared with those of others. -/
def isCompared (page : ScannedPage) (text : Option String) : Bool :=
  text.getD "" ≠ "" && page.statusCode = some 200 && !page.noindex && page.redirectedTo.isNone

/-- What is said of one page of a group. -/
def copyIssue (code : String) (urls : List Address) (url : Address) : List Issue :=
  onlyIf (1 < urls.length)
    { code, severity := .warning, url := some url,
      detail := [("others", .number (some (urls.length - 1)))] }

/-- `_duplicates`. -/
def duplicates (pages : List ScannedPage) (text : ScannedPage → Option String)
    (code : String) : List Issue :=
  (groups text ScannedPage.url (pages.filter fun page => isCompared page (text page))).flatMap
    fun entry => entry.2.flatMap (copyIssue code entry.2)

/-- `_ORDER`. -/
def order : Scan.IssueSeverity → Nat
  | .critical => 0
  | .warning => 1
  | .info => 2

/-- What issues are sorted by. -/
def Issue.key (issue : Issue) : ℕ ×ₗ String ×ₗ String :=
  toLex (order issue.severity, toLex (issue.code, String.ofList (issue.url.getD [])))

/-- Everything that was found, as it was found. -/
def found (result : CrawlResult) : List Issue :=
  siteIssues U result ++ result.pages.flatMap (pageIssues U) ++ result.pages.flatMap speedIssues ++
    slowSite result.pages ++
    duplicates result.pages ScannedPage.title "duplicate_title" ++
    duplicates result.pages ScannedPage.metaDescription "duplicate_meta_description"

/-- `build_issues`. -/
def buildIssues (result : CrawlResult) : List Issue :=
  (found U result).mergeSort fun a b => decide (a.key ≤ b.key)

end Checks

/-! ## What is said of a page -/

/-- Issues about one page, or about the site: of some codes, and one of a code. -/
structure Told (codes : List String) (url : Option Address) (issues : List Issue) : Prop where
  codes : ∀ issue ∈ issues, issue.code ∈ codes
  url : ∀ issue ∈ issues, issue.url = url
  one : ∀ issue ∈ issues, ∀ other ∈ issues, issue.code = other.code → issue = other

section Said
variable {U : Url.Unicode} {codes codes' : List String} {url : Option Address}
  {issues issues' : List Issue} {issue : Issue} {page : ScannedPage} {result : CrawlResult}

theorem Told.nil : Told codes url [] := ⟨nofun, nofun, nofun⟩

theorem Told.single (hcode : issue.code ∈ codes) (hurl : issue.url = url) :
    Told codes url [issue] where
  codes := fun _ hother => List.mem_singleton.mp hother ▸ hcode
  url := fun _ hother => List.mem_singleton.mp hother ▸ hurl
  one := fun _ hother _ hanother _ =>
    (List.mem_singleton.mp hother).trans (List.mem_singleton.mp hanother).symm

theorem Told.onlyIf {hit : Bool} (hcode : issue.code ∈ codes) (hurl : issue.url = url) :
    Told codes url (onlyIf hit issue) := by
  unfold Crawler.onlyIf
  split
  · exact .single hcode hurl
  · exact .nil

/-- What is said under other codes is said apart. -/
theorem Told.append (h : Told codes url issues) (h' : Told codes' url issues')
    (hdisjoint : ∀ code ∈ codes, code ∉ codes') : Told (codes ++ codes') url (issues ++ issues') where
  codes := fun issue hissue => by
    rcases List.mem_append.mp hissue with hissue | hissue
    · exact List.mem_append_left _ (h.codes issue hissue)
    · exact List.mem_append_right _ (h'.codes issue hissue)
  url := fun issue hissue =>
    (List.mem_append.mp hissue).elim (h.url issue) (h'.url issue)
  one := fun issue hissue other hother hsame => by
    rcases List.mem_append.mp hissue with hissue | hissue
    · rcases List.mem_append.mp hother with hother | hother
      · exact h.one issue hissue other hother hsame
      · exact (hdisjoint _ (h.codes issue hissue) (hsame ▸ h'.codes other hother)).elim
    · rcases List.mem_append.mp hother with hother | hother
      · exact (hdisjoint _ (h.codes other hother) (hsame ▸ h'.codes issue hissue)).elim
      · exact h'.one issue hissue other hother hsame

theorem Told.mono (h : Told codes url issues) (hcodes : codes ⊆ codes') :
    Told codes' url issues :=
  ⟨fun issue hissue => hcodes (h.codes issue hissue), h.url, h.one⟩

/-- The codes of what is wrong with the texts of a page. -/
def contentCodes : List String :=
  ["sitemap_lists_redirect"] ++ ["noindex_in_sitemap", "noindex"] ++ ["canonical_elsewhere"] ++
    ["missing_title", "title_too_short", "title_too_long"] ++
    ["missing_description", "description_too_long"] ++ ["missing_h1", "several_h1"] ++
    ["thin_content"]

theorem told_about {code : String} {severity : Scan.IssueSeverity} {detail : List (String × Detail)}
    (hcode : code ∈ codes) : Told codes (some page.url) [about page code severity detail] :=
  .single hcode rfl

theorem told_aboutIf {hit : Bool} {code : String} {severity : Scan.IssueSeverity}
    {detail : List (String × Detail)} (hcode : code ∈ codes) :
    Told codes (some page.url) (onlyIf hit (about page code severity detail)) :=
  .onlyIf hcode rfl

theorem contentIssues_told : Told contentCodes (some page.url) (contentIssues U page) := by
  have hredirect : Told ["sitemap_lists_redirect"] (some page.url) (redirectIssue page) := by
    unfold redirectIssue
    split
    · exact told_aboutIf (by decide)
    · exact .nil
  have hnoindex : Told ["noindex_in_sitemap", "noindex"] (some page.url) (noindexIssue page) := by
    unfold noindexIssue
    split
    · exact told_aboutIf (by decide)
    · exact told_aboutIf (by decide)
  have hcanonical : Told ["canonical_elsewhere"] (some page.url) (canonicalIssue U page) := by
    unfold canonicalIssue
    split
    · exact told_aboutIf (by decide)
    · exact .nil
  have htitle : Told ["missing_title", "title_too_short", "title_too_long"] (some page.url)
      (titleIssue page) := by
    unfold titleIssue
    dsimp only
    split_ifs
    · exact told_about (by decide)
    · exact told_about (by decide)
    · exact told_aboutIf (by decide)
  have hdescription : Told ["missing_description", "description_too_long"] (some page.url)
      (descriptionIssue page) := by
    unfold descriptionIssue
    dsimp only
    split_ifs
    · exact told_about (by decide)
    · exact told_aboutIf (by decide)
  have hh1 : Told ["missing_h1", "several_h1"] (some page.url) (h1Issue page) := by
    unfold h1Issue
    split_ifs
    · exact told_about (by decide)
    · exact told_aboutIf (by decide)
  have hthin : Told ["thin_content"] (some page.url) (thinIssue page) := told_aboutIf (by decide)
  exact (((((hredirect.append hnoindex (by decide)).append hcanonical (by decide)).append htitle
    (by decide)).append hdescription (by decide)).append hh1 (by decide)).append hthin (by decide)

/-- The codes of what is wrong with a page on its own. -/
def pageCodes : List String :=
  ["sitemap_lists_blocked_page", "page_no_answer", "sitemap_lists_broken_page", "broken_page"] ++
    contentCodes

theorem pageIssues_told : Told pageCodes (some page.url) (pageIssues U page) := by
  unfold pageIssues
  dsimp only
  split_ifs
  · exact told_aboutIf (by decide)
  · exact told_about (by decide)
  · exact told_about (by decide)
  · exact told_about (by decide)
  · exact .nil
  · exact contentIssues_told.mono (List.subset_append_right _ _)

/-- The codes of what makes a page slow. -/
def speedCodes : List String :=
  ["heavy_html"] ++ ["render_blocking_scripts"] ++ ["images_without_size"] ++
    ["images_not_lazy"] ++ ["old_image_formats"]

theorem speedIssues_told : Told speedCodes (some page.url) (speedIssues page) := by
  unfold speedIssues
  split
  · exact .nil
  · split_ifs
    · exact .nil
    · have hone {code : String} {hit : Bool} {detail : List (String × Detail)} :
          Told [code] (some page.url) (onlyIf hit (about page code .info detail)) :=
        told_aboutIf (List.mem_singleton_self _)
      exact (((hone.append hone (by decide)).append hone (by decide)).append hone
        (by decide)).append hone (by decide)

/-- What is said of a page whose text others have too. -/
def copiesOf (pages : List ScannedPage) (text : ScannedPage → Option String) (code : String)
    (page : ScannedPage) : List Issue :=
  if isCompared page (text page) then
    copyIssue code
      ((ofKey text (pages.filter fun page => isCompared page (text page)) (text page)).map
        ScannedPage.url) page.url
  else []

theorem copiesOf_told (pages : List ScannedPage) (text : ScannedPage → Option String)
    (code : String) : Told [code] (some page.url) (copiesOf pages text code page) := by
  unfold copiesOf
  split
  · exact .onlyIf (List.mem_singleton_self _) rfl
  · exact .nil

theorem flatMap_filter {α β : Type} (p : α → Bool) (f : α → List β) (xs : List α) :
    (xs.filter p).flatMap f = xs.flatMap fun x => if p x then f x else [] := by
  induction xs with
  | nil => rfl
  | cons x xs ih =>
      rw [List.flatMap_cons, ← ih]
      by_cases hx : p x = true
      · rw [List.filter_cons_of_pos hx, List.flatMap_cons, if_pos hx]
      · rw [List.filter_cons_of_neg hx, if_neg hx, List.nil_append]

/-- What is said of copies, group by group, is what is said of each page. -/
theorem perm_duplicates (pages : List ScannedPage) (text : ScannedPage → Option String)
    (code : String) :
    (duplicates pages text code).Perm (pages.flatMap (copiesOf pages text code)) := by
  refine (flatMap_groups text ScannedPage.url (copyIssue code) _).trans (List.Perm.of_eq ?_)
  rw [flatMap_filter]
  rfl

/-- The codes of what is said of one page. -/
def saidCodes : List String :=
  ["not_in_sitemap"] ++ pageCodes ++ speedCodes ++ ["duplicate_title"] ++
    ["duplicate_meta_description"]

/-- Everything that is said of one page. -/
def saidOf (U : Url.Unicode) (result : CrawlResult) (page : ScannedPage) : List Issue :=
  missingIssue U result page ++ pageIssues U page ++ speedIssues page ++
    copiesOf result.pages ScannedPage.title "duplicate_title" page ++
    copiesOf result.pages ScannedPage.metaDescription "duplicate_meta_description" page

theorem saidOf_told : Told saidCodes (some page.url) (saidOf U result page) := by
  have hmissing : Told ["not_in_sitemap"] (some page.url) (missingIssue U result page) :=
    .onlyIf (List.mem_singleton_self _) rfl
  exact (((hmissing.append pageIssues_told (by decide)).append speedIssues_told (by decide)).append
    (copiesOf_told _ _ _) (by decide)).append (copiesOf_told _ _ _) (by decide)

/-- The codes of what is said of the site. -/
def siteCodes : List String :=
  ["home_unreachable"] ++ ["robots_blocks_everything"] ++
    ["robots_unreadable", "robots_error", "no_robots"] ++
    ["sitemap_unreadable", "no_sitemap", "sitemap_not_in_robots"] ++ ["slow_response"]

/-- Everything that is said of the site. -/
def saidOfSite (U : Url.Unicode) (result : CrawlResult) : List Issue :=
  wholeSiteIssues U result ++ slowSite result.pages

theorem homeIssue_told : Told ["home_unreachable"] none (homeIssue result) :=
  .onlyIf (List.mem_singleton_self _) rfl

theorem closedIssue_told : Told ["robots_blocks_everything"] none (closedIssue U result) :=
  .onlyIf (List.mem_singleton_self _) rfl

theorem robotsIssues_told :
    Told ["robots_unreadable", "robots_error", "no_robots"] none (robotsIssues result) := by
  unfold robotsIssues
  split_ifs
  · exact .single (by decide) rfl
  · exact .nil
  · exact .single (List.mem_cons_of_mem _ List.mem_cons_self) rfl
  · exact .single (by decide) rfl

theorem sitemapIssues_told :
    Told ["sitemap_unreadable", "no_sitemap", "sitemap_not_in_robots"] none
      (sitemapIssues U result) := by
  unfold sitemapIssues
  split_ifs
  · exact .single (by decide) rfl
  · exact .single (by decide) rfl
  · exact .onlyIf (by decide) rfl

theorem slowSite_told (pages : List ScannedPage) : Told ["slow_response"] none (slowSite pages) := by
  unfold slowSite
  dsimp only
  split
  · exact .nil
  · exact .onlyIf (List.mem_singleton_self _) rfl

theorem saidOfSite_told : Told siteCodes none (saidOfSite U result) :=
  (((homeIssue_told.append closedIssue_told (by decide)).append robotsIssues_told (by decide)).append
    sitemapIssues_told (by decide)).append (slowSite_told _) (by decide)

/-- What was found is what is said of the site and of each page. -/
theorem perm_said (result : CrawlResult) : (found U result).Perm
    (saidOfSite U result ++ result.pages.flatMap (saidOf U result)) := by
  have hsplit (f g : ScannedPage → List Issue) :
      (↑(result.pages.flatMap fun page => f page ++ g page) : Multiset Issue) =
        ↑(result.pages.flatMap f) + ↑(result.pages.flatMap g) := by
    rw [Multiset.coe_add, Multiset.coe_eq_coe]
    exact (List.flatMap_append_perm _ _ _).symm
  have htitles := Multiset.coe_eq_coe.mpr
    (perm_duplicates result.pages ScannedPage.title "duplicate_title")
  have hdescriptions := Multiset.coe_eq_coe.mpr
    (perm_duplicates result.pages ScannedPage.metaDescription "duplicate_meta_description")
  rw [← Multiset.coe_eq_coe]
  unfold found siteIssues saidOfSite saidOf
  simp only [← Multiset.coe_add, hsplit, htitles, hdescriptions]
  abel

/-! ## The list -/

theorem key_le_total (issue other : Issue) :
    (decide (issue.key ≤ other.key) || decide (other.key ≤ issue.key)) = true := by
  rw [Bool.or_eq_true, decide_eq_true_eq, decide_eq_true_eq]
  exact le_total _ _

theorem key_le_trans (a b c : Issue) (hab : decide (a.key ≤ b.key) = true)
    (hbc : decide (b.key ≤ c.key) = true) : decide (a.key ≤ c.key) = true :=
  decide_eq_true ((of_decide_eq_true hab).trans (of_decide_eq_true hbc))

theorem buildIssues_perm (result : CrawlResult) :
    (buildIssues U result).Perm (saidOfSite U result ++ result.pages.flatMap (saidOf U result)) :=
  (List.mergeSort_perm _ _).trans (perm_said result)

/-- Issues with one key are one issue, if no two pages have one address. -/
theorem eq_of_key {issue other : Issue} (hnodup : (result.pages.map ScannedPage.url).Nodup)
    (hissue : issue ∈ saidOfSite U result ++ result.pages.flatMap (saidOf U result))
    (hother : other ∈ saidOfSite U result ++ result.pages.flatMap (saidOf U result))
    (hkey : issue.key = other.key) : issue = other := by
  have hcode : issue.code = other.code :=
    congrArg (fun key => (ofLex (ofLex key).2).1) hkey
  have hurl : String.ofList (issue.url.getD []) = String.ofList (other.url.getD []) :=
    congrArg (fun key => (ofLex (ofLex key).2).2) hkey
  have hapart : ∀ code ∈ siteCodes, code ∉ saidCodes := by decide
  rcases List.mem_append.mp hissue with hsite | hpage
  · rcases List.mem_append.mp hother with hsite' | hpage'
    · exact saidOfSite_told.one issue hsite other hsite' hcode
    · obtain ⟨page', -, hsaid'⟩ := List.mem_flatMap.mp hpage'
      exact absurd (hcode ▸ saidOf_told.codes other hsaid')
        (hapart _ (saidOfSite_told.codes issue hsite))
  · obtain ⟨page, hin, hsaid⟩ := List.mem_flatMap.mp hpage
    rcases List.mem_append.mp hother with hsite' | hpage'
    · exact absurd (hcode ▸ saidOf_told.codes issue hsaid)
        (hapart _ (saidOfSite_told.codes other hsite'))
    · obtain ⟨page', hin', hsaid'⟩ := List.mem_flatMap.mp hpage'
      rw [saidOf_told.url issue hsaid, saidOf_told.url other hsaid'] at hurl
      have hsame : page = page' :=
        List.inj_on_of_nodup_map hnodup hin hin' (String.ofList_injective hurl)
      subst hsame
      exact saidOf_told.one issue hsaid other hsaid' hcode

theorem copiesOf_congr {pages pages' : List ScannedPage} (h : pages.Perm pages')
    (text : ScannedPage → Option String) (code : String) (page : ScannedPage) :
    copiesOf pages' text code page = copiesOf pages text code page := by
  have hlength := ((((h.filter fun page => isCompared page (text page)).filter
    fun other => text other = text page).map ScannedPage.url).length_eq).symm
  unfold copiesOf copyIssue ofKey
  rw [hlength]

theorem slowSite_congr {pages pages' : List ScannedPage} (h : pages.Perm pages') :
    slowSite pages' = slowSite pages := by
  have htimes : (fetchTimes pages').mergeSort = (fetchTimes pages).mergeSort :=
    List.Perm.eq_of_pairwise (fun _ _ _ _ => Nat.le_antisymm)
      (List.pairwise_mergeSort' (· ≤ ·) _) (List.pairwise_mergeSort' (· ≤ ·) _)
      (((List.mergeSort_perm _ _).trans (h.filterMap _).symm).trans (List.mergeSort_perm _ _).symm)
  unfold slowSite
  rw [htimes]

end Said

/-- The same pages give the same list: whatever the order in which a scan came by them, the issues
are the same in the same order, as long as no two pages have one address. -/
theorem buildIssues_same (U : Url.Unicode) (result : CrawlResult) (pages : List ScannedPage)
    (hsame : result.pages.Perm pages) (hnodup : (result.pages.map ScannedPage.url).Nodup) :
    buildIssues U { result with pages } = buildIssues U result ∧
      (buildIssues U result).Pairwise fun issue other => issue.key ≤ other.key := by
  have hsorted (r : CrawlResult) :
      (buildIssues U r).Pairwise fun issue other => issue.key ≤ other.key :=
    (List.pairwise_mergeSort key_le_trans key_le_total _).imp of_decide_eq_true
  have hsaid : (saidOfSite U { result with pages } ++
      pages.flatMap (saidOf U { result with pages })).Perm
        (saidOfSite U result ++ result.pages.flatMap (saidOf U result)) := by
    have hsite : saidOfSite U { result with pages } = saidOfSite U result :=
      congrArg (wholeSiteIssues U result ++ ·) (slowSite_congr hsame)
    have hpage : saidOf U { result with pages } = saidOf U result := by
      funext page
      unfold saidOf
      rw [copiesOf_congr hsame, copiesOf_congr hsame]
      rfl
    rw [hsite, hpage]
    exact (hsame.symm.flatMap_right _).append_left _
  have hperm : (buildIssues U { result with pages }).Perm (buildIssues U result) :=
    ((buildIssues_perm _).trans hsaid).trans (buildIssues_perm result).symm
  refine ⟨hperm.eq_of_pairwise (fun issue other hissue hother hle hge => ?_) (hsorted _) (hsorted _),
    hsorted result⟩
  exact eq_of_key hnodup ((buildIssues_perm result).subset (hperm.subset hissue))
    ((buildIssues_perm result).subset hother) (le_antisymm hle hge)

/-- Two pages without texts. -/
theorem buildIssues_same_two :
    let about : ScannedPage := { url := "https://shop.ir/about".toList, statusCode := some 200 }
    let home : ScannedPage := { url := "https://shop.ir/".toList, statusCode := some 200 }
    buildIssues Url.ascii { pages := [about, home] } =
      buildIssues Url.ascii { pages := [home, about] } :=
  (buildIssues_same Url.ascii { pages := [_, _] } _ (List.Perm.swap _ _ []) (by decide)).1

/-! ## The health of a site -/

/-- What the score looks at of an issue. -/
def Issue.toScan (issue : Issue) : Scan.ScanIssue :=
  ⟨issue.code, issue.severity, issue.url.map String.ofList⟩

/-- What the score looks at of a page. -/
def ScannedPage.toScan (page : ScannedPage) : Scan.ScannedPage :=
  ⟨String.ofList page.url, page.statusCode⟩

/-- The issues of a scan, as the score reads them. -/
def reported (U : Url.Unicode) (result : CrawlResult) : List Scan.ScanIssue :=
  (buildIssues U result).map Issue.toScan

/-- A page with a critical issue of a kind. -/
def isCritical (U : Url.Unicode) (result : CrawlResult) (code : String) (page : ScannedPage) : Bool :=
  (saidOf U result page).any fun issue => issue.code == code && issue.severity == .critical

section Health
variable {U : Url.Unicode} {result : CrawlResult}

theorem mem_reported {issue : Scan.ScanIssue} : issue ∈ reported U result ↔
    (∃ told ∈ saidOfSite U result, told.toScan = issue) ∨
      ∃ page ∈ result.pages, ∃ told ∈ saidOf U result page, told.toScan = issue := by
  unfold reported
  rw [List.mem_map]
  simp only [(buildIssues_perm result).mem_iff, List.mem_append, List.mem_flatMap, or_and_right,
    exists_or]
  refine or_congr_right ⟨?_, ?_⟩
  · rintro ⟨told, ⟨page, hpage, hsaid⟩, heq⟩
    exact ⟨page, hpage, told, hsaid, heq⟩
  · rintro ⟨page, hpage, told, hsaid, heq⟩
    exact ⟨told, ⟨page, hpage, hsaid⟩, heq⟩

theorem reported_of_site {told : Issue} (h : told ∈ saidOfSite U result) :
    told.toScan ∈ reported U result :=
  mem_reported.mpr (.inl ⟨told, h, rfl⟩)

/-- What is said of the site has no page. -/
theorem page_of_site {told : Issue} (h : told ∈ saidOfSite U result) : told.toScan.page = none := by
  unfold Scan.ScanIssue.page Issue.toScan
  rw [saidOfSite_told.url told h]
  rfl

/-- What is said of a page has its address. -/
theorem page_of_said {page : ScannedPage} {told : Issue} (hurl : page.url ≠ [])
    (h : told ∈ saidOf U result page) : told.toScan.page = some (String.ofList page.url) := by
  have hne : String.ofList page.url ≠ "" := fun heq => hurl (String.ofList_injective heq)
  unfold Scan.ScanIssue.page Issue.toScan
  rw [saidOf_told.url told h, Option.map_some, Option.filter_some, if_pos (decide_eq_true hne)]

/-- Each code is used either for the site or for pages. -/
theorem reported_consistent (hurls : ∀ page ∈ result.pages, page.url ≠ []) :
    Scan.Consistent (reported U result) := by
  have hapart : ∀ code ∈ siteCodes, code ∉ saidCodes := by decide
  intro issue hissue other hother hcode
  rcases mem_reported.mp hissue with ⟨told, hsite, rfl⟩ | ⟨page, hpage, told, hsaid, rfl⟩
  · rcases mem_reported.mp hother with ⟨told', hsite', rfl⟩ | ⟨page', hpage', told', hsaid', rfl⟩
    · rw [page_of_site hsite, page_of_site hsite']
    · have hsame : told.code = told'.code := hcode
      exact absurd (hsame ▸ saidOf_told.codes told' hsaid')
        (hapart _ (saidOfSite_told.codes told hsite))
  · rcases mem_reported.mp hother with ⟨told', hsite', rfl⟩ | ⟨page', hpage', told', hsaid', rfl⟩
    · have hsame : told.code = told'.code := hcode
      exact absurd (hsame ▸ saidOf_told.codes told hsaid)
        (hapart _ (saidOfSite_told.codes told' hsite'))
    · rw [page_of_said (hurls page hpage) hsaid, page_of_said (hurls page' hpage') hsaid']
      rfl

/-- The home page did not come if the list says so. -/
theorem homeStatus_of_said {told : Issue} (h : told ∈ saidOfSite U result)
    (hcode : told.code = "home_unreachable") : result.homeStatus ≠ some 200 := by
  have hapart {codes : List String} {issues : List Issue} (htold : Told codes none issues)
      (hin : told ∈ issues) (hnone : "home_unreachable" ∉ codes) : False :=
    hnone (hcode ▸ htold.codes told hin)
  unfold saidOfSite wholeSiteIssues at h
  simp only [List.mem_append] at h
  rcases h with (((hin | hin) | hin) | hin) | hin
  · intro hhome
    rw [homeIssue, hhome] at hin
    cases hin
  · exact (hapart closedIssue_told hin (by decide)).elim
  · exact (hapart robotsIssues_told hin (by decide)).elim
  · exact (hapart sitemapIssues_told hin (by decide)).elim
  · exact (hapart (slowSite_told _) hin (by decide)).elim

/-- There is no score for a site whose home page did not come. -/
theorem reported_home : (∃ issue ∈ reported U result, issue.code ∈ Scan.noScore) ↔
    result.homeStatus ≠ some 200 := by
  constructor
  · rintro ⟨issue, hissue, hcode⟩
    have hcode' : issue.code = "home_unreachable" := List.mem_singleton.mp hcode
    rcases mem_reported.mp hissue with ⟨told, hsite, rfl⟩ | ⟨page, -, told, hsaid, rfl⟩
    · exact homeStatus_of_said hsite hcode'
    · have hnot : "home_unreachable" ∉ saidCodes := by decide
      have hsame : told.code = "home_unreachable" := hcode'
      exact absurd (hsame ▸ saidOf_told.codes told hsaid) hnot
  · intro hhome
    obtain ⟨told, htold, hcode⟩ : ∃ told ∈ homeIssue result, told.code = "home_unreachable" := by
      rw [homeIssue, onlyIf, if_pos (decide_eq_true hhome)]
      exact ⟨_, List.mem_singleton_self _, rfl⟩
    have hsaid : told ∈ saidOfSite U result := List.mem_append_left _ (List.mem_append_left _
      (List.mem_append_left _ (List.mem_append_left _ htold)))
    exact ⟨_, reported_of_site hsaid, List.mem_singleton.mpr hcode⟩

/-- Google is kept out of a site that is closed, or whose robots.txt is an error. -/
theorem reported_closed (h : Scan.blocksEverything U result.robotsText = true ∨
      result.robotsUnreadable = false ∧ result.robotsText = none ∧
        result.robotsStatus.any (500 ≤ ·) = true) : Scan.Closed (reported U result) := by
  rcases h with hblocked | ⟨hreadable, hnone, herror⟩
  · obtain ⟨told, htold, hcode⟩ :
        ∃ told ∈ closedIssue U result, told.code = "robots_blocks_everything" := by
      rw [closedIssue, onlyIf, if_pos hblocked]
      exact ⟨_, List.mem_singleton_self _, rfl⟩
    have hsaid : told ∈ saidOfSite U result := List.mem_append_left _ (List.mem_append_left _
      (List.mem_append_left _ (List.mem_append_right _ htold)))
    exact ⟨_, reported_of_site hsaid, List.mem_cons.mpr (.inl hcode)⟩
  · obtain ⟨told, htold, hcode⟩ : ∃ told ∈ robotsIssues result, told.code = "robots_error" := by
      rw [robotsIssues, hreadable, hnone, if_neg (by decide), if_neg (by decide), if_pos herror]
      exact ⟨_, List.mem_singleton_self _, rfl⟩
    have hsaid : told ∈ saidOfSite U result := List.mem_append_left _ (List.mem_append_left _
      (List.mem_append_right _ htold))
    exact ⟨_, reported_of_site hsaid,
      List.mem_cons_of_mem _ (List.mem_singleton.mpr hcode)⟩

/-- A critical problem of one kind on half of the pages that answered is widespread. -/
theorem reported_widespread {code : String} {read : Nat} (hread : 0 < read)
    (hcode : code ∉ Scan.notCounted) (hsaid : code ∈ saidCodes)
    (hurls : ∀ page ∈ result.pages, page.url ≠ [])
    (hnodup : (result.pages.map ScannedPage.url).Nodup)
    (hhalf : read ≤ 2 * (result.pages.filter (isCritical U result code)).length) :
    Scan.AnyWidespread (reported U result) read := by
  have hissue : ∀ page ∈ result.pages.filter (isCritical U result code),
      ∃ issue ∈ reported U result, issue.code = code ∧ issue.severity = .critical ∧
        issue.page = some (String.ofList page.url) := by
    intro page hpage
    obtain ⟨hin, hcritical⟩ := List.mem_filter.mp hpage
    obtain ⟨told, htold, hboth⟩ := List.any_eq_true.mp hcritical
    rw [Bool.and_eq_true, beq_iff_eq, beq_iff_eq] at hboth
    exact ⟨told.toScan, mem_reported.mpr (.inr ⟨page, hin, told, htold, rfl⟩), hboth.1, hboth.2,
      page_of_said (hurls page hin) htold⟩
  obtain ⟨page, hpage⟩ : ∃ page, page ∈ result.pages.filter (isCritical U result code) :=
    List.exists_mem_of_length_pos (by omega)
  obtain ⟨issue, hmem, hissuecode, hcritical, -⟩ := hissue page hpage
  have hspec := Scan.get?_kindsOf (reported U result) code
  cases hfound : (Scan.kindsOf (reported U result)).get? code with
  | none =>
      rw [hfound] at hspec
      exact absurd hissuecode (hspec.resolve_left hcode issue hmem)
  | some kind =>
      rw [hfound] at hspec
      obtain ⟨-, hgathers⟩ := hspec
      have hsite : kind.siteWide = false := by
        rw [← Bool.not_eq_true, hgathers.siteWide]
        rintro ⟨other, hother, hothercode, hnone⟩
        rcases mem_reported.mp hother with ⟨told, htold, rfl⟩ | ⟨page', hpage', told, htold, rfl⟩
        · have hapart : ∀ code ∈ siteCodes, code ∉ saidCodes := by decide
          have hsame : told.code = code := hothercode
          exact hapart _ (saidOfSite_told.codes told htold) (hsame.symm ▸ hsaid)
        · rw [page_of_said (hurls page' hpage') htold] at hnone
          cases hnone
      have hcard : (result.pages.filter (isCritical U result code)).length ≤ kind.urls.card := by
        have hurlsNodup : ((result.pages.filter (isCritical U result code)).map
            fun page => String.ofList page.url).Nodup := by
          have hsub : ((result.pages.filter (isCritical U result code)).map
              ScannedPage.url).Nodup := hnodup.sublist (List.filter_sublist.map _)
          have hmapped := hsub.map (f := String.ofList) fun _ _ h => String.ofList_injective h
          rwa [List.map_map] at hmapped
        rw [← List.length_map (f := fun page => String.ofList page.url),
          ← List.toFinset_card_of_nodup hurlsNodup]
        refine Finset.card_le_card fun url hurl => ?_
        obtain ⟨page', hpage', rfl⟩ := List.mem_map.mp (List.mem_toFinset.mp hurl)
        obtain ⟨other, hother, hothercode, -, hotherpage⟩ := hissue page' hpage'
        exact (hgathers.urls _).mpr ⟨other, hother, hothercode, hotherpage⟩
      refine Scan.entry_widespread.mpr ⟨code, kind, hfound, ?_, by simp [hsite], ?_⟩
      · have hrank := hgathers.severity issue hmem hissuecode
        rw [hcritical] at hrank
        cases hseverity : kind.severity with
        | critical => rfl
        | warning => rw [hseverity] at hrank; exact absurd hrank (by decide)
        | info => rw [hseverity] at hrank; exact absurd hrank (by decide)
      · unfold Scan.Kind.share Scan.widespreadShare
        rw [hsite, if_neg (by decide)]
        refine le_min (by norm_num) ?_
        rw [div_le_div_iff₀ (by norm_num) (by exact_mod_cast hread)]
        have hle : read ≤ kind.urls.card * 2 := by omega
        rw [one_mul]
        exact_mod_cast hle

theorem ceilingOf_closed {issues : List Scan.ScanIssue} {read : Nat} (h : Scan.Closed issues) :
    Scan.ceilingOf issues read ≤ 10 := by
  unfold Scan.ceilingOf
  dsimp only
  rw [if_pos h]
  exact min_le_right _ _

theorem ceilingOf_widespread {issues : List Scan.ScanIssue} {read : Nat}
    (h : Scan.AnyWidespread issues read) : Scan.ceilingOf issues read ≤ 40 := by
  unfold Scan.ceilingOf
  dsimp only
  rw [if_pos h]
  split
  · exact (min_le_left _ _).trans (min_le_right _ _)
  · exact min_le_right _ _

/-- An empty address is on no site. -/
theorem ne_nil_of_isOnSite {base url : Address} (h : isOnSite U base url = true) : url ≠ [] := by
  rintro rfl
  unfold isOnSite at h
  split at h
  · cases h
  split at h
  · next parts home hparts _ =>
      have hscheme : parts.scheme = [] := by
        unfold Url.urlsplit at hparts
        split at hparts
        · exact (congrArg Url.SplitResult.scheme (Option.some.inj hparts)).symm
        · cases hparts
      split at h
      · rw [hscheme] at h
        simp [isWeb, Normalization.http, Url.https] at h
      · cases h
  · cases h

end Health

end SeoAgent.Crawler
