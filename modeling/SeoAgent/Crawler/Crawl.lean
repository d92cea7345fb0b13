import Mathlib
import SeoAgent.Crawler.Sitemaps
import SeoAgent.Scan.RobotsRules

/-!
# A crawl

`SiteCrawler.crawl` of `app/scan/crawler.py`: robots.txt, the sitemaps, then the pages, the home
page first, and whatever the pages link to. The site answers as it likes, the clock may say
anything, and every request is an operation of a process.

## Main results

* `Crawl.follow_length` — the links of a page make the queue no longer than its limit.
* `Crawl.take_left`, `Crawl.pass_left` — every turn of the loop brings it nearer to its end.
-/

namespace SeoAgent.Crawler

open SeoAgent.Verified Prog

/-! ## robots.txt -/

/-- `MAX_ROBOTS_BYTES`. -/
def maxRobotsBytes : Nat := 500000

/-- The white space of `bytes`. -/
def isByteSpace (b : UInt8) : Bool := b == 32 || (9 ≤ b && b ≤ 13)

/-- `bytes.strip()`. -/
def stripBytes (bytes : Bytes) : Bytes := (bytes.dropWhile isByteSpace).rdropWhile isByteSpace

/-- A byte in front of the first line. -/
def consByte (b : UInt8) : List Bytes → List Bytes
  | [] => [[b]]
  | line :: lines => (b :: line) :: lines

/-- `bytes.splitlines()`. -/
def byteLines : Bytes → List Bytes
  | [] => []
  | [b] => if b = 10 ∨ b = 13 then [[]] else [[b]]
  | b :: c :: rest =>
      if b = 13 ∧ c = 10 then [] :: byteLines rest
      else if b = 10 ∨ b = 13 then [] :: byteLines (c :: rest)
      else consByte b (byteLines (c :: rest))

def removeBom (body : Bytes) : Bytes :=
  if [0xef, 0xbb, 0xbf].isPrefixOf body then body.drop 3 else body

def beginsWith (bytes : Bytes) (starts : List String) : Bool :=
  starts.any fun start => (ascii start).isPrefixOf bytes

/-- Some line at the top of a file is a rule. -/
def looksLikeRules (body : Bytes) : Bool :=
  (byteLines (body.take 4096)).any fun line =>
    beginsWith (lowerBytes (stripBytes line)) ["user-agent:", "disallow:", "allow:", "sitemap:"]

/-- `decode("utf-8-sig")`. -/
def decodeSig (body : Bytes) : Option (List Char) :=
  (String.fromUTF8? ⟨(removeBom body).toArray⟩).map String.toList

/-- `read_robots_answer`: the text, and whether there is a file that could not be read. -/
def readRobotsAnswer (U : Url.Unicode) (answer : Fetched) : Option (List Char) × Bool :=
  let body := answer.body
  let head := lowerBytes (((removeBom body).dropWhile isByteSpace).take 64)
  -- The comment of a cache plugin on top of real rules.
  if beginsWith head ["<!--"] && looksLikeRules body then (none, true)
  -- A page of a CMS: there is no such file.
  else if beginsWith head ["<!doctype", "<html", "<!--"] ||
      (contains "html" (lower U answer.contentType) && !looksLikeRules body) then (none, false)
  else if answer.complete = false ∨ maxRobotsBytes < body.length ∨
      60 ∈ (body.take 512).takeWhile (· ≠ 10) then (none, true)
  else
    match decodeSig body with
    | none => (none, true)
    | some text => if '\x00' ∈ text then (none, true) else (some text, false)

/-! ## A page -/

/-- `MAX_BODY_BYTES`. -/
def maxBodyBytes : Nat := 3000000

/-- `MAX_PARSE_BYTES`. -/
def maxParseBytes : Nat := 1000000

/-- `MAX_FIELD_CHARACTERS`. -/
def maxFieldCharacters : Nat := 1000

/-- `PageSpeedSignals`. -/
structure PageSpeedSignals where
  fetchMs : Nat
  htmlKb : Nat
  blockingScripts : Nat := 0
  stylesheets : Nat := 0
  images : Nat := 0
  imagesUnsized : Nat := 0
  imagesNotLazy : Nat := 0
  imagesOldFormat : Nat := 0
  deriving DecidableEq

/-- `ScannedPage`. -/
structure ScannedPage where
  url : Address
  statusCode : Option Nat := none
  redirectedTo : Option Address := none
  title : Option String := none
  metaDescription : Option String := none
  h1 : Option String := none
  h1Count : Nat := 0
  canonical : Option Address := none
  noindex : Bool := false
  robotsBlocked : Bool := false
  inSitemap : Bool := false
  wordCount : Nat := 0
  speed : Option PageSpeedSignals := none
  deriving DecidableEq

/-- What is kept of a text. -/
def cut (text : List Char) : Option (List Char) :=
  let kept := (text.filter (· ≠ '\x00')).take maxFieldCharacters
  if kept = [] then none else some kept

/-- `_field`. -/
def field (text : Option String) : Option String :=
  text.bind fun text => (cut text.toList).map String.ofList

section Pages
variable (lib : Library)

/-- `_absolute`. -/
def absolute (base : Address) (url : Option String) : Option Address :=
  url.bind fun url => if url = "" then none else lib.urljoin base url.toList

/-- Where a page landed, when that is another page. -/
def landing (url : Address) (answer : Fetched) : Option Address :=
  answer.finalUrl.filter fun final => final ≠ [] ∧ identity lib.U final ≠ identity lib.U url

/-- An answer that is no page. -/
def isFile (answer : Fetched) : Bool :=
  answer.contentType ≠ "" && !contains "html" (lower lib.U answer.contentType)

/-- An answer that broke off before the limit. -/
def isCutOff (answer : Fetched) : Bool :=
  !answer.complete && answer.body.length ≤ maxBodyBytes

/-- What is read of a page. -/
def parsed (answer : Fetched) : PageParser :=
  PageParser.feed lib.U {} (lib.markup (answer.body.take maxParseBytes))

/-- An answer with a page in it. -/
def isPage (answer : Fetched) : Bool :=
  answer.status = some 200 && !isFile lib answer && !isCutOff answer

/-- What `_read_page` makes of an answer. -/
def pageOf (url : Address) (inSitemap blocked : Bool) (fetchMs : Nat) (answer : Fetched) :
    Option (ScannedPage × List Address) :=
  let redirectedTo := landing lib url answer
  if answer.status ≠ some 200 then
    some ({ url, statusCode := answer.status, redirectedTo, inSitemap }, [])
  else if isFile lib answer then none
  else if isCutOff answer then some ({ url, redirectedTo, inSitemap }, [])
  else
    let parser := parsed lib answer
    some
      ({ url
         statusCode := answer.status
         redirectedTo
         title := field parser.title
         metaDescription := field parser.metaDescription
         h1 := field parser.h1
         h1Count := parser.h1Count
         canonical := (absolute lib url parser.canonical).bind cut
         noindex := parser.noindex || saysNoindex lib.U answer.xRobots
         robotsBlocked := blocked
         inSitemap
         wordCount := parser.words
         speed := some
          { fetchMs
            htmlKb := answer.body.length / 1024
            blockingScripts := parser.blockingScripts
            stylesheets := parser.stylesheets
            images := parser.images
            imagesUnsized := parser.imagesUnsized
            imagesNotLazy := parser.imagesNotLazy
            imagesOldFormat := parser.imagesOldFormat } },
        parser.links.map String.toList)

/-- `_read_page`: none for a file that is no page, or one that this scanner may not read. -/
def readPage (lines : List (List Char)) (url : Address) (inSitemap always : Bool) :
    CrawlProc (Option (ScannedPage × List Address)) :=
  match Scan.googleAllows lib.U lines url with
  | none => throw .valueError
  | some allowed =>
      if !allowed && !always then pure (some ({ url, robotsBlocked := true, inSitemap }, []))
      else
        match if always then some true else lib.canFetch lines url with
        | none => throw .valueError
        | some false => pure none
        | some true => do
            let started ← readClock
            let answer ← fetch url maxBodyBytes
            let ended ← readClock
            pure (pageOf lib url inSitemap (!allowed) ⌊(ended - started) * 1000⌋.toNat answer)

/-! ## The queue -/

/-- `MAX_QUEUE`. -/
def maxQueue : Nat := 2000

/-- `MAX_CRAWL_DELAY_SECONDS`. -/
def maxCrawlDelaySeconds : ℚ := 5

/-- What a `SiteCrawler` is made with. -/
structure SiteCrawler where
  maxPages : Nat := 100
  timeBudgetSeconds : ℚ := 120
  delaySeconds : ℚ := 1 / 5

/-- `CrawlResult`. -/
structure CrawlResult where
  homeStatus : Option Nat := none
  robotsText : Option (List Char) := none
  robotsStatus : Option Nat := none
  robotsUnreadable : Bool := false
  sitemapUncertain : Bool := false
  sitemapUrls : List Address := []
  sitemapPages : List Address := []
  sitemapPageCount : Nat := 0
  sitemapRich : Bool := false
  pages : List ScannedPage := []
  pagesCapped : Bool := false
  deriving DecidableEq

/-- The state of the loop of `crawl`. -/
structure Crawl where
  queue : List Address := []
  queued : List (List Char) := []
  paths : List (List Char) := []
  position : Nat := 0
  pages : List ScannedPage := []
  homeStatus : Option Nat := none
  capped : Bool := false
  deriving DecidableEq

namespace Crawl

attribute [local instance] lawfulBEq_address

/-- An address is put in the queue. -/
def enqueue (c : Crawl) (url : Address) : Crawl :=
  { c with
    queue := c.queue ++ [url]
    queued := c.queued ++ [identity lib.U url]
    paths := c.paths ++ [withoutQuery lib.U url] }

/-- The queue at the beginning. -/
def start (urls : List Address) : Crawl :=
  urls.foldl (fun c url => if identity lib.U url ∈ c.queued then c else c.enqueue lib url) {}

/-- A page that is known, or a copy of one. -/
def Known (c : Crawl) (link : Address) : Prop :=
  identity lib.U link ∈ c.queued ∨
    (Url.query link ≠ [] ∧ withoutQuery lib.U link ∈ c.paths)

instance (c : Crawl) (link : Address) : Decidable (c.Known lib link) :=
  inferInstanceAs (Decidable (_ ∨ _))

/-- The pages of the site that a page links to. -/
def onSiteLinks (base from_ : Address) (links : List Address) : List Address :=
  (links.filterMap (cleanLink lib.U lib.urljoin from_)).filter (isOnSite lib.U base)

/-- The loop over the links of a page. -/
def follow : List Address → Crawl → Crawl
  | [], c => c
  | link :: links, c =>
      if c.Known lib link then follow links c
      else if maxQueue ≤ c.queue.length then { c with capped := true }
      else follow links (c.enqueue lib link)

/-- A page that was read is counted. -/
def counted (c : Crawl) (page : ScannedPage) : Crawl :=
  { c with
    position := c.position + 1
    pages := c.pages ++ [page]
    homeStatus := if c.position = 0 then page.statusCode else c.homeStatus }

/-- What a page that was read adds. -/
def take (c : Crawl) (base url : Address) (page : ScannedPage) (links : List Address) : Crawl :=
  follow lib (onSiteLinks lib base (page.redirectedTo.getD url) links) (c.counted page)

theorem follow_position (links : List Address) (c : Crawl) :
    (follow lib links c).position = c.position := by
  induction links generalizing c with
  | nil => rfl
  | cons link links ih =>
      unfold follow
      split_ifs
      · exact ih c
      · rfl
      · exact ih _

theorem follow_length (links : List Address) (c : Crawl) :
    (follow lib links c).queue.length ≤ max c.queue.length maxQueue := by
  induction links generalizing c with
  | nil => exact le_max_left _ _
  | cons link links ih =>
      unfold follow
      split_ifs with hknown hfull
      · exact ih c
      · exact le_max_left _ _
      · have henqueued := ih (c.enqueue lib link)
        have hlength : (c.enqueue lib link).queue.length = c.queue.length + 1 :=
          List.length_append
        omega

/-- How many more turns the loop can take. -/
def left (c : Crawl) : Nat := max c.queue.length maxQueue - c.position

theorem take_left {c : Crawl} (base : Address) {url : Address} (page : ScannedPage)
    (links : List Address) (h : c.queue[c.position]? = some url) :
    (c.take lib base url page links).left < c.left := by
  have hposition : (c.take lib base url page links).position = c.position + 1 :=
    follow_position lib _ _
  have hlength : (c.take lib base url page links).queue.length ≤ max c.queue.length maxQueue :=
    follow_length lib _ _
  have hin : c.position < c.queue.length := (List.getElem?_eq_some_iff.mp h).1
  unfold left
  omega

/-- A page that is none. -/
def pass (c : Crawl) : Crawl := { c with position := c.position + 1 }

theorem pass_left {c : Crawl} {url : Address} (h : c.queue[c.position]? = some url) :
    c.pass.left < c.left := by
  have hin : c.position < c.queue.length := (List.getElem?_eq_some_iff.mp h).1
  show max c.queue.length maxQueue - (c.position + 1) < max c.queue.length maxQueue - c.position
  omega

end Crawl

/-! ## The crawl -/

variable (crawler : SiteCrawler) (base : Address)

/-- The loop of `crawl`. -/
def readQueue (lines : List (List Char)) (listed : List (List Char)) (deadline delay : ℚ)
    (c : Crawl) : CrawlProc Crawl :=
  match _hnext : c.queue[c.position]? with
  | none => pure c
  | some url =>
      if crawler.maxPages ≤ c.pages.length then pure { c with capped := true }
      else do
        let at_ ← readClock
        if deadline ≤ at_ then pure { c with capped := true }
        else do
          if c.position ≠ 0 then sleepFor delay
          -- The home page is read whatever robots.txt says.
          let read ← readPage lib lines url (listed.contains (identity lib.U url)) (c.position == 0)
          match read with
          | none => readQueue lines listed deadline delay c.pass
          | some (page, links) =>
              readQueue lines listed deadline delay (c.take lib base url page links)
termination_by c.left
decreasing_by
  · exact Crawl.pass_left _hnext
  · exact Crawl.take_left lib base page links _hnext

/-- The rest between two pages. -/
def restOf (lines : List (List Char)) : ℚ :=
  max crawler.delaySeconds (min (lib.crawlDelay lines) maxCrawlDelaySeconds)

/-- `_read_robots`. -/
def readRobots : CrawlProc (Fetched × Option (List Char) × Bool) :=
  match lib.urljoin base "/robots.txt".toList with
  | none => throw .valueError
  | some url => do
      let answer ← fetch url maxRobotsBytes
      pure (answer, if answer.status = some 200 then readRobotsAnswer lib.U answer else (none, false))

/-- `crawl`. -/
def crawl : CrawlProc CrawlResult := do
  let started ← readClock
  let deadline := started + crawler.timeBudgetSeconds
  let (answer, robotsText, robotsUnreadable) ← readRobots lib base
  let lines := Lines.splitLines (robotsText.getD [])
  let read ← readSitemaps lib base robotsText deadline
  let listed := read.listed.pages.map (identity lib.U)
  let c ← readQueue lib crawler base lines listed deadline (restOf lib crawler lines)
    (.start lib (base :: read.listed.pages))
  pure
    { homeStatus := c.homeStatus
      robotsText
      robotsStatus := answer.status
      robotsUnreadable
      sitemapUncertain := read.uncertain
      sitemapUrls := read.urls
      sitemapPages := read.listed.pages
      sitemapPageCount := read.listed.pages.length
      sitemapRich := read.listed.rich
      pages := c.pages
      pagesCapped := c.capped }

end Pages

end SeoAgent.Crawler
