import Mathlib
import SeoAgent.Crawler.Addresses
import SeoAgent.Crawler.Markup
import SeoAgent.Verified.Asks

/-!
# The sitemaps of a site

How a crawl reads the sitemaps of a site (`parse_sitemap`, `_read_sitemaps` and
`_read_sitemap_tree` of `app/scan/crawler.py`). Every answer comes from the site and the clock may
stop the reading at any point; the reader says whether its list may be short.

## Main results

* `readTree_done` — a tree of sitemaps that was not silent has been read to its end.
* `readSitemaps_gathered` — a reader that is not uncertain has opened every sitemap that robots.txt
  or the ones it read name, and has every page they list.
-/

namespace SeoAgent.Crawler

open SeoAgent.Verified Prog

/-! ## What a crawl asks for -/

abbrev Bytes : Type := List UInt8

/-- `Fetched`. -/
structure Fetched where
  status : Option Nat
  body : Bytes := []
  complete : Bool := true
  finalUrl : Option Address := none
  contentType : String := ""
  xRobots : String := ""
  deriving DecidableEq

/-- What a crawl asks for: the time in seconds, a rest, an address up to a number of bytes. -/
inductive CrawlOp
  | clock
  | sleep (seconds : ℚ)
  | fetch (url : Address) (limit : Nat)
  deriving DecidableEq

@[reducible] def CrawlOp.Res : CrawlOp → Type
  | .clock => ℚ
  | .sleep _ => Unit
  | .fetch _ _ => Fetched

/-- A crawl raises nothing else. -/
inductive CrawlExc
  | valueError
  deriving DecidableEq, Repr

@[reducible] def crawlIface : Interface where
  Op := CrawlOp
  Res := CrawlOp.Res
  Exn := CrawlExc

abbrev CrawlProc (α : Type) : Type := Prog crawlIface α

abbrev CrawlPast : Type := crawlIface.Past

def readClock : CrawlProc ℚ := Prog.ask (I := crawlIface) .clock

def sleepFor (seconds : ℚ) : CrawlProc Unit := Prog.ask (I := crawlIface) (.sleep seconds)

def fetch (url : Address) (limit : Nat) : CrawlProc Fetched :=
  Prog.ask (I := crawlIface) (.fetch url limit)

/-! ## The standard library -/

/-- An element of an XML document. -/
inductive Element
  | node (tag : List Char) (text : Option (List Char)) (children : List Element)

namespace Element

def tag : Element → List Char
  | node tag _ _ => tag

def text : Element → Option (List Char)
  | node _ text _ => text

def children : Element → List Element
  | node _ _ children => children

/-- `tag.rsplit("}", 1)[-1]`. -/
def localTag (e : Element) : List Char := e.tag.rtakeWhile (· ≠ '}')

end Element

/-- What a crawl uses of the standard library: the tables of Unicode, `urljoin` (`none` for a
`ValueError`), `RobotFileParser` after `parse` (`can_fetch` for the name of the scanner, `none` for
a `ValueError`, and `crawl_delay` of `*` or 0), `decompressobj` up to a number of bytes,
`ElementTree.fromstring`, and what `HTMLParser` finds in a page that is decoded as UTF-8. -/
structure Library where
  U : Url.Unicode
  urljoin : Address → Address → Option Address
  canFetch : List (List Char) → Address → Option Bool
  crawlDelay : List (List Char) → ℚ
  inflate : Bytes → Nat → Option Bytes
  fromstring : Bytes → Option Element
  markup : Bytes → List MarkupEvent

/-! ## One sitemap -/

/-- `MAX_SITEMAP_BYTES`. -/
def maxSitemapBytes : Nat := 20000000

/-- `MAX_SITEMAP_URLS`. -/
def maxSitemapUrls : Nat := 5000

/-- `MAX_CHILD_SITEMAPS`. -/
def maxChildSitemaps : Nat := 20

def ascii (s : String) : Bytes := s.toList.map fun c => UInt8.ofNat c.toNat

/-- `RICH_SITEMAP_MARKERS`. -/
def richSitemapMarkers : List Bytes :=
  ["xhtml:link", "image:image", "video:video", "news:news"].map ascii

/-- `bytes.lower()`. -/
def lowerBytes (bytes : Bytes) : Bytes :=
  bytes.map fun b => if 65 ≤ b ∧ b ≤ 90 then b + 32 else b

def holds (part : String) (bytes : Bytes) : Bool := decide (ascii part <:+: bytes)

/-- `_decompress`. -/
def decompress (lib : Library) (body : Bytes) (limit : Nat) : Option Bytes :=
  if body.take 2 ≠ [0x1f, 0x8b] then some body
  else (lib.inflate body (limit + 1)).filter fun data => data.length ≤ limit

/-- The text of a `<loc>`; none when there is nothing in it. -/
def locText (loc : Element) : Option (List Char) :=
  let text := Lines.strip (loc.text.getD [])
  if loc.localTag = "loc".toList ∧ text ≠ [] then some text else none

/-- The addresses of the entries of a sitemap: only their own `<loc>`, not those of images. -/
def locations (root : Element) : List Address :=
  (root.children.filter fun entry =>
    ["url".toList, "sitemap".toList].contains entry.localTag).flatMap fun entry =>
      entry.children.filterMap locText

/-- `parse_sitemap`: the pages and the sitemaps it names. -/
def parseSitemap (lib : Library) (body : Bytes) : List Address × List Address :=
  match decompress lib body maxSitemapBytes with
  | none => ([], [])
  | some data =>
      let head := lowerBytes (data.take 2000)
      if data = [] then ([], [])
      else if holds "<!doctype" (lowerBytes (data.take 4096)) || holds "<!entity" (lowerBytes data)
      then ([], [])
      else if !holds "<urlset" head && !holds "<sitemapindex" head then ([], [])
      else
        match lib.fromstring data with
        | none => ([], [])
        | some root =>
            if root.localTag = "sitemapindex".toList then ([], locations root)
            else if root.localTag = "urlset".toList then (locations root, [])
            else ([], [])

/-! ## A tree of sitemaps -/

/-- The pages that sitemaps list, their identities, and whether a plain list would lose what the
sitemaps say. -/
structure Listed where
  pages : List Address := []
  seenPages : List (List Char) := []
  rich : Bool := false
  deriving DecidableEq

/-- The state of `_read_sitemap_tree`. -/
structure Tree where
  pending : List Address
  seen : List Address := []
  foundAny : Bool := false
  silent : Bool := false
  opened : Nat := 0
  listed : Listed

/-- Addresses and identities are looked up by equality, and always by this proof of it. -/
theorem lawfulBEq_address : LawfulBEq (List Char) := inferInstance

section Reading
variable (lib : Library) (base : Address)

attribute [local instance] lawfulBEq_address

/-- A page that is listed, unless it is known, on another site or one too many. -/
def Listed.add (listed : Listed) (page : Address) : Listed :=
  if listed.pages.length < maxSitemapUrls ∧ identity lib.U page ∉ listed.seenPages ∧
      isOnSite lib.U base page = true then
    { listed with
      pages := listed.pages ++ [page]
      seenPages := identity lib.U page :: listed.seenPages }
  else listed

/-- An answer that does not say whether there is a sitemap. -/
def isSilence (status : Option Nat) : Bool := status.all fun n => n = 403 || 500 ≤ n

/-- What an answer with a sitemap adds. -/
def Tree.read (tree : Tree) (body : Bytes) : Tree :=
  let parsed := parseSitemap lib body
  if parsed.1 = [] ∧ parsed.2 = [] then tree
  else
    let rich := !parsed.2.isEmpty || richSitemapMarkers.any fun marker => decide (marker <:+: body)
    { tree with
      foundAny := true
      pending := tree.pending ++ parsed.2.filter (isOnSite lib.U base)
      listed := parsed.1.foldl (Listed.add lib base)
        { tree.listed with rich := tree.listed.rich || rich } }

/-- What an answer adds. -/
def Tree.take (tree : Tree) (answer : Fetched) : Tree :=
  if answer.status ≠ some 200 then
    { tree with silent := tree.silent || isSilence answer.status }
  else if answer.complete = false then { tree with silent := true }
  else tree.read lib base answer.body

@[simp] theorem Tree.take_opened (tree : Tree) (answer : Fetched) :
    (tree.take lib base answer).opened = tree.opened := by
  unfold Tree.take Tree.read
  dsimp only
  split_ifs <;> rfl

/-- The loop of `_read_sitemap_tree`. -/
def readTreeFrom (deadline : ℚ) (tree : Tree) : CrawlProc Tree :=
  match _hpending : tree.pending with
  | [] => pure tree
  | url :: pending => do
      let at_ ← readClock
      if deadline ≤ at_ then pure tree
      else if maxChildSitemaps ≤ tree.opened then
        -- More sitemaps than one scan opens.
        pure { tree with silent := true }
      else if url ∈ tree.seen then readTreeFrom deadline { tree with pending }
      else do
        let answer ← fetch url maxSitemapBytes
        readTreeFrom deadline (Tree.take lib base
          { tree with pending, seen := url :: tree.seen, opened := tree.opened + 1 } answer)
termination_by (maxChildSitemaps - tree.opened, tree.pending.length)
decreasing_by
  · rw [_hpending]
    exact .right _ (Nat.lt_succ_self _)
  · rw [Tree.take_opened]
    refine .left _ _ ?_
    show maxChildSitemaps - (tree.opened + 1) < maxChildSitemaps - tree.opened
    omega

/-- `_read_sitemap_tree`. -/
def readTree (deadline : ℚ) (start : Address) (listed : Listed) : CrawlProc Tree := do
  let tree ← readTreeFrom lib base deadline { pending := [start], listed }
  if tree.pending = [] then pure tree
  else do
    let at_ ← readClock
    pure { tree with silent := tree.silent || decide (deadline ≤ at_) }

/-! ## All sitemaps -/

/-- What was read of the sitemaps of a site. -/
structure SitemapsRead where
  urls : List Address := []
  uncertain : Bool := false
  listed : Listed := {}

/-- `COMMON_SITEMAPS`. -/
def commonSitemaps : List (List Char) :=
  ["/sitemap.xml", "/sitemap_index.xml", "/sitemap-index.xml", "/wp-sitemap.xml"].map String.toList

/-- The sitemaps that a robots.txt names. -/
def namedSitemaps (robotsText : Option (List Char)) : List Address :=
  ((Lines.splitLines (robotsText.getD [])).filter fun line =>
    "sitemap:".toList.isPrefixOf (lib.U.lower line)).map fun line =>
      Lines.strip ((line.dropWhile (· ≠ ':')).drop 1)

/-- The loop over the sitemaps that are named. -/
def readDeclared (deadline : ℚ) : List Address → SitemapsRead → CrawlProc SitemapsRead
  | [], read => pure read
  | start :: rest, read => do
      let tree ← readTree lib base deadline start read.listed
      readDeclared deadline rest
        { urls := if tree.foundAny then read.urls ++ [start] else read.urls
          uncertain := read.uncertain || tree.silent
          listed := tree.listed }

/-- The loop over the usual addresses: the first one with a sitemap is the last. -/
def readGuesses (deadline : ℚ) (silentDeclared : Bool) :
    List (List Char) → Bool → Listed → CrawlProc SitemapsRead
  | [], silentGuesses, listed => pure { uncertain := silentDeclared || silentGuesses, listed }
  | path :: rest, silentGuesses, listed =>
      match lib.urljoin base path with
      | none => throw .valueError
      | some start => do
          let tree ← readTree lib base deadline start listed
          if tree.foundAny then
            pure { urls := [start], uncertain := tree.silent || silentDeclared, listed := tree.listed }
          else
            readGuesses deadline silentDeclared rest (silentGuesses || tree.silent) tree.listed

/-- `_read_sitemaps`. -/
def readSitemaps (robotsText : Option (List Char)) (deadline : ℚ) : CrawlProc SitemapsRead := do
  let named := namedSitemaps lib robotsText
  let declared := named.filter (isOnSite lib.U base)
  -- A sitemap named on another host is one that is not read, not one the site does not have.
  let read ← readDeclared lib base deadline declared
    { uncertain := decide (declared.length < named.length) }
  if read.urls ≠ [] then pure read
  else readGuesses lib base deadline read.uncertain commonSitemaps false read.listed

end Reading

/-! ## What was asked and answered -/

/-- The readings of the clock, newest first. -/
def clocks : CrawlPast → List ℚ
  | [] => []
  | ⟨.clock, .ok at_⟩ :: past => at_ :: clocks past
  | _ :: past => clocks past

/-- The clock has not gone back. -/
def Forward (past : CrawlPast) : Prop := (clocks past).Pairwise (· ≥ ·)

/-- A sitemap was asked for. -/
def Opened (past : CrawlPast) (url : Address) : Prop := ∃ r, ⟨.fetch url maxSitemapBytes, r⟩ ∈ past

/-- What an answer with a whole file in it has. -/
def wholeBody (answer : Fetched) : Option Bytes :=
  if answer.status = some 200 ∧ answer.complete = true then some answer.body else none

/-- The sitemaps that were answered in whole. -/
def sitemapBodies : CrawlPast → List Bytes
  | [] => []
  | ⟨.fetch _ limit, .ok answer⟩ :: past =>
      if limit = maxSitemapBytes then (wholeBody answer).toList ++ sitemapBodies past
      else sitemapBodies past
  | _ :: past => sitemapBodies past

theorem Opened.mono {past past' : CrawlPast} {url : Address} (h : Opened past url)
    (hs : past <:+ past') : Opened past' url :=
  let ⟨r, hmem⟩ := h
  ⟨r, hs.subset hmem⟩

theorem clocks_suffix {past past' : CrawlPast} (hs : past <:+ past') :
    clocks past <:+ clocks past' := by
  obtain ⟨more, rfl⟩ := hs
  induction more with
  | nil => exact List.suffix_refl _
  | cons event more ih =>
      refine ih.trans ?_
      rw [List.cons_append]
      obtain ⟨o, r⟩ := event
      cases o with
      | clock =>
          cases r with
          | ok at_ => exact List.suffix_cons _ _
          | error e => exact List.suffix_refl _
      | sleep seconds => exact List.suffix_refl _
      | fetch url limit => exact List.suffix_refl _

theorem Forward.before {past past' : CrawlPast} (h : Forward past') (hs : past <:+ past') :
    Forward past := h.sublist (clocks_suffix hs).sublist

section Whole
variable (lib : Library) (base : Address)

/-- Where a sitemap is looked for: on the site, or at a usual address. -/
def MayOpen (url : Address) : Prop :=
  isOnSite lib.U base url = true ∨ ∃ path ∈ commonSitemaps, lib.urljoin base path = some url

/-- What is known of the pages that are listed. -/
structure Listed.Ok (listed : Listed) : Prop where
  seen : listed.seenPages = (listed.pages.map (identity lib.U)).reverse
  nodup : (listed.pages.map (identity lib.U)).Nodup
  onSite : ∀ page ∈ listed.pages, isOnSite lib.U base page = true
  length : listed.pages.length ≤ maxSitemapUrls

/-- A page is listed, or there is no room for more. -/
def Listed.Covers (listed : Listed) (page : Address) : Prop :=
  identity lib.U page ∈ listed.seenPages ∨ maxSitemapUrls ≤ listed.pages.length

/-- Every sitemap that was answered was gone through, but for some that it names. -/
structure Whole (past : CrawlPast) (listed : Listed) (pending : List Address) : Prop where
  children : ∀ body ∈ sitemapBodies past, ∀ child ∈ (parseSitemap lib body).2,
    isOnSite lib.U base child = true → Opened past child ∨ child ∈ pending
  pages : ∀ body ∈ sitemapBodies past, ∀ page ∈ (parseSitemap lib body).1,
    isOnSite lib.U base page = true → listed.Covers lib page

variable {lib base} {listed : Listed} {past : CrawlPast} {pending : List Address}

theorem Listed.add_ok (h : listed.Ok lib base) (page : Address) :
    (listed.add lib base page).Ok lib base := by
  unfold Listed.add
  split
  · next hadd =>
      have hnew : identity lib.U page ∉ listed.pages.map (identity lib.U) := by
        rw [← List.mem_reverse, ← h.seen]
        exact hadd.2.1
      refine ⟨?_, ?_, fun other hother => ?_, ?_⟩
      · simp [h.seen]
      · rw [List.map_append, List.nodup_append]
        exact ⟨h.nodup, List.nodup_singleton _, fun a ha b hb => by
          rw [List.map_singleton, List.mem_singleton] at hb
          exact fun heq => hnew (hb ▸ heq ▸ ha)⟩
      · rcases List.mem_append.mp hother with hother | hother
        · exact h.onSite other hother
        · rw [List.mem_singleton.mp hother]
          exact hadd.2.2
      · rw [List.length_append]
        exact hadd.1
  · exact h

theorem Listed.Covers.add {page : Address} (h : listed.Covers lib page) (other : Address) :
    (listed.add lib base other).Covers lib page := by
  unfold Listed.add
  split
  · rcases h with h | h
    · exact .inl (List.mem_cons_of_mem _ h)
    · exact .inr (by rw [List.length_append]; omega)
  · exact h

theorem Listed.add_covers {page : Address} (h : isOnSite lib.U base page = true) :
    (listed.add lib base page).Covers lib page := by
  unfold Listed.add
  split
  · exact .inl List.mem_cons_self
  · next hadd =>
      by_cases hroom : listed.pages.length < maxSitemapUrls
      · exact .inl (by_contra fun hnew => hadd ⟨hroom, hnew, h⟩)
      · exact .inr (not_lt.mp hroom)

theorem Listed.addAll_ok (h : listed.Ok lib base) (pages : List Address) :
    (pages.foldl (Listed.add lib base) listed).Ok lib base := by
  induction pages generalizing listed with
  | nil => exact h
  | cons page rest ih => exact ih (listed.add_ok h page)

theorem Listed.Covers.addAll {page : Address} (h : listed.Covers lib page) (pages : List Address) :
    (pages.foldl (Listed.add lib base) listed).Covers lib page := by
  induction pages generalizing listed with
  | nil => exact h
  | cons other rest ih => exact ih (h.add other)

theorem Listed.addAll_covers {pages : List Address} {page : Address} (hpage : page ∈ pages)
    (h : isOnSite lib.U base page = true) :
    (pages.foldl (Listed.add lib base) listed).Covers lib page := by
  induction pages generalizing listed with
  | nil => cases hpage
  | cons other rest ih =>
      rcases List.mem_cons.mp hpage with rfl | hpage
      · exact (Listed.add_covers h).addAll rest
      · exact ih hpage

/-- An event that brings no sitemap leaves nothing more to go through. -/
theorem Whole.quiet {event : crawlIface.Event} (h : Whole lib base past listed pending)
    (hbodies : sitemapBodies (event :: past) = sitemapBodies past) :
    Whole lib base (event :: past) listed pending where
  children := by
    rw [hbodies]
    intro body hbody child hchild hsite
    exact (h.children body hbody child hchild hsite).imp_left fun hopened =>
      hopened.mono (List.suffix_cons _ _)
  pages := by
    rw [hbodies]
    exact h.pages

/-- More pages are listed: everything that was gone through still is. -/
theorem Whole.congr {listed' : Listed} {pending' : List Address}
    (h : Whole lib base past listed pending)
    (hlisted : ∀ page, listed.Covers lib page → listed'.Covers lib page)
    (hpending : ∀ url ∈ pending, Opened past url ∨ url ∈ pending') :
    Whole lib base past listed' pending' where
  children := fun body hbody child hchild hsite =>
    (h.children body hbody child hchild hsite).elim .inl (hpending child)
  pages := fun body hbody page hpage hsite => hlisted page (h.pages body hbody page hpage hsite)

/-! ## Reading a tree -/

/-- What holds while the tree of a sitemap is read; `known` is that nothing was left out before. -/
structure Tree.Inv (lib : Library) (base : Address) (known : Prop) (start : Address)
    (past : CrawlPast) (tree : Tree) : Prop where
  listed : tree.listed.Ok lib base
  whole : known → Whole lib base past tree.listed tree.pending
  noneFound : known → tree.foundAny = false → Whole lib base past tree.listed []
  seen : ∀ url ∈ tree.seen, Opened past url
  pending : ∀ url ∈ tree.pending, MayOpen lib base url
  start : Opened past start ∨ start ∈ tree.pending

variable {known : Prop} {start url : Address} {tree : Tree}

/-- A tree that was read to its end, or had nothing in it. -/
theorem Tree.Inv.ended (h : tree.Inv lib base known start past) (hknown : known)
    (hend : tree.pending = [] ∨ tree.foundAny = false) : Whole lib base past tree.listed [] := by
  rcases hend with hnil | hnone
  · exact hnil ▸ h.whole hknown
  · exact h.noneFound hknown hnone

theorem Tree.Inv.quiet {event : crawlIface.Event} (h : tree.Inv lib base known start past)
    (hbodies : sitemapBodies (event :: past) = sitemapBodies past) :
    tree.Inv lib base known start (event :: past) where
  listed := h.listed
  whole := fun hknown => (h.whole hknown).quiet hbodies
  noneFound := fun hknown hnone => (h.noneFound hknown hnone).quiet hbodies
  seen := fun url hurl => (h.seen url hurl).mono (List.suffix_cons _ _)
  pending := h.pending
  start := h.start.imp_left fun hopened => hopened.mono (List.suffix_cons _ _)

/-- What was pending is opened or pending still. -/
theorem opened_or_pending (hpending : tree.pending = url :: pending) (hopened : Opened past url)
    {other : Address} (hother : other ∈ tree.pending) : Opened past other ∨ other ∈ pending := by
  rw [hpending] at hother
  rcases List.mem_cons.mp hother with rfl | hother
  · exact .inl hopened
  · exact .inr hother

/-- A sitemap that was opened before is not opened again. -/
theorem Tree.Inv.skip (h : tree.Inv lib base known start past)
    (hpending : tree.pending = url :: pending) (hopened : Opened past url) :
    Tree.Inv lib base known start past { tree with pending } where
  listed := h.listed
  whole := fun hknown =>
    (h.whole hknown).congr (fun _ => id) fun _ hother => opened_or_pending hpending hopened hother
  noneFound := h.noneFound
  seen := h.seen
  pending := fun other hother => h.pending other (hpending ▸ List.mem_cons_of_mem _ hother)
  start := h.start.elim .inl fun hin => opened_or_pending hpending hopened hin

/-- What is gone through of one more sitemap. -/
theorem Whole.read {event : crawlIface.Event} {body : Bytes} {listed' : Listed}
    {pending' : List Address} (h : Whole lib base past listed pending)
    (hbodies : sitemapBodies (event :: past) = body :: sitemapBodies past)
    (hlisted : ∀ page, listed.Covers lib page → listed'.Covers lib page)
    (hpending : ∀ url ∈ pending, Opened (event :: past) url ∨ url ∈ pending')
    (hchildren : ∀ child ∈ (parseSitemap lib body).2, isOnSite lib.U base child = true →
      child ∈ pending')
    (hpages : ∀ page ∈ (parseSitemap lib body).1, isOnSite lib.U base page = true →
      listed'.Covers lib page) : Whole lib base (event :: past) listed' pending' where
  children := by
    intro other hother child hchild hsite
    rw [hbodies] at hother
    rcases List.mem_cons.mp hother with rfl | hother
    · exact .inr (hchildren child hchild hsite)
    · rcases h.children other hother child hchild hsite with hopened | hin
      · exact .inl (hopened.mono (List.suffix_cons _ _))
      · exact hpending child hin
  pages := by
    intro other hother page hpage hsite
    rw [hbodies] at hother
    rcases List.mem_cons.mp hother with rfl | hother
    · exact hpages page hpage hsite
    · exact hlisted page (h.pages other hother page hpage hsite)

/-- A sitemap that was opened is no longer pending. -/
theorem Tree.Inv.open_ {r : crawlIface.Answer (.fetch url maxSitemapBytes)}
    (h : tree.Inv lib base known start past) (hpending : tree.pending = url :: pending)
    (hbodies : sitemapBodies (⟨.fetch url maxSitemapBytes, r⟩ :: past) = sitemapBodies past) :
    Tree.Inv lib base known start (⟨.fetch url maxSitemapBytes, r⟩ :: past)
      { tree with pending, seen := url :: tree.seen, opened := tree.opened + 1 } := by
  have hopened : Opened (⟨.fetch url maxSitemapBytes, r⟩ :: past) url := ⟨r, List.mem_cons_self⟩
  have hskip := (h.quiet hbodies).skip hpending hopened
  refine { hskip with seen := fun other hother => ?_ }
  rcases List.mem_cons.mp hother with rfl | hother
  · exact hopened
  · exact hskip.seen other hother

/-- A sitemap is answered in whole. -/
theorem Tree.Inv.read {answer : Fetched} (h : tree.Inv lib base known start past)
    (hpending : tree.pending = url :: pending)
    (hbodies : sitemapBodies (⟨.fetch url maxSitemapBytes, .ok answer⟩ :: past) =
      answer.body :: sitemapBodies past) :
    Tree.Inv lib base known start (⟨.fetch url maxSitemapBytes, .ok answer⟩ :: past)
      (Tree.read lib base
        { tree with pending, seen := url :: tree.seen, opened := tree.opened + 1 } answer.body) := by
  have hopened : Opened (⟨.fetch url maxSitemapBytes, .ok answer⟩ :: past) url :=
    ⟨_, List.mem_cons_self⟩
  have hmono : past <:+ ⟨.fetch url maxSitemapBytes, .ok answer⟩ :: past := List.suffix_cons _ _
  have hseen : ∀ other ∈ url :: tree.seen,
      Opened (⟨.fetch url maxSitemapBytes, .ok answer⟩ :: past) other := by
    intro other hother
    rcases List.mem_cons.mp hother with rfl | hother
    · exact hopened
    · exact (h.seen other hother).mono hmono
  have hmay : ∀ other ∈ pending, MayOpen lib base other := fun other hother =>
    h.pending other (hpending ▸ List.mem_cons_of_mem _ hother)
  have hstart : Opened (⟨.fetch url maxSitemapBytes, .ok answer⟩ :: past) start ∨
      start ∈ pending :=
    h.start.elim (fun hbefore => .inl (hbefore.mono hmono)) fun hin => opened_or_pending hpending hopened hin
  unfold Tree.read
  dsimp only
  split
  · next hempty =>
      have hno {list : List Address} (hlist : list = []) {P : Address → Prop} : ∀ x ∈ list, P x :=
        fun x hx => by rw [hlist] at hx; cases hx
      exact
        { listed := h.listed
          whole := fun hknown => (h.whole hknown).read hbodies (fun _ => id)
            (fun _ hother => opened_or_pending hpending hopened hother) (hno hempty.2) (hno hempty.1)
          noneFound := fun hknown hnone => (h.noneFound hknown hnone).read hbodies (fun _ => id)
            (hno rfl) (hno hempty.2) (hno hempty.1)
          seen := hseen
          pending := hmay
          start := hstart }
  · have hok : Listed.Ok lib base { tree.listed with
        rich := tree.listed.rich || (!(parseSitemap lib answer.body).2.isEmpty ||
          richSitemapMarkers.any fun marker => decide (marker <:+: answer.body)) } :=
      ⟨h.listed.seen, h.listed.nodup, h.listed.onSite, h.listed.length⟩
    refine
      { listed := Listed.addAll_ok hok _
        whole := fun hknown => (h.whole hknown).read hbodies (fun page hpage => ?_)
          (fun other hother => ?_) (fun child hchild hsite => ?_) (fun page hpage hsite => ?_)
        noneFound := nofun
        seen := hseen
        pending := fun other hother => ?_
        start := hstart.imp_right (List.mem_append_left _) }
    · refine Listed.Covers.addAll ?_ _
      exact hpage
    · exact (opened_or_pending hpending hopened hother).imp_right (List.mem_append_left _)
    · exact List.mem_append_right _ (List.mem_filter.mpr ⟨hchild, hsite⟩)
    · exact Listed.addAll_covers hpage hsite
    · rcases List.mem_append.mp hother with hother | hother
      · exact hmay other hother
      · exact .inl (List.mem_filter.mp hother).2

/-- A sitemap is answered. -/
theorem Tree.Inv.answered {answer : Fetched} (h : tree.Inv lib base known start past)
    (hpending : tree.pending = url :: pending) :
    Tree.Inv lib base known start (⟨.fetch url maxSitemapBytes, .ok answer⟩ :: past)
      (Tree.take lib base
        { tree with pending, seen := url :: tree.seen, opened := tree.opened + 1 } answer) := by
  have hbodies : sitemapBodies (⟨.fetch url maxSitemapBytes, .ok answer⟩ :: past) =
      (wholeBody answer).toList ++ sitemapBodies past := if_pos rfl
  unfold Tree.take
  split
  · next hstatus =>
      rw [wholeBody, if_neg fun hwhole => hstatus hwhole.1] at hbodies
      have hopen := h.open_ hpending hbodies
      exact { hopen with }
  · next hstatus =>
      split
      · next hcut =>
          rw [wholeBody, if_neg fun hwhole => by rw [hcut] at hwhole; cases hwhole.2] at hbodies
          have hopen := h.open_ hpending hbodies
          exact { hopen with }
      · next hcut =>
          rw [wholeBody, if_pos ⟨not_not.mp hstatus, Bool.not_eq_false _ ▸ hcut⟩] at hbodies
          exact h.read hpending hbodies

/-! ## The loops -/

/-- The deadline is the budget after the first reading of the clock. -/
def Started (budget deadline : ℚ) (past : CrawlPast) : Prop :=
  ∃ first ∈ (clocks past).getLast?, deadline = first + budget

theorem Started.mono {budget deadline : ℚ} {past past' : CrawlPast}
    (h : Started budget deadline past) (hs : past <:+ past') : Started budget deadline past' := by
  obtain ⟨first, hfirst, hdeadline⟩ := h
  obtain ⟨newer, hnewer⟩ := clocks_suffix hs
  refine ⟨first, ?_, hdeadline⟩
  rw [← hnewer, List.getLast?_append, Option.mem_def.mp hfirst]
  rfl

/-- A reading of the clock, the newest but so many, was before the deadline. -/
def InTime (budget : ℚ) (back : Nat) (past : CrawlPast) : Prop :=
  ∃ first ∈ (clocks past).getLast?, ∃ at_ ∈ (clocks past)[back]?, at_ < first + budget

/-- The clock has passed the deadline. -/
def Past (deadline : ℚ) (past : CrawlPast) : Prop := ∃ at_ ∈ (clocks past).head?, deadline ≤ at_

theorem Past.forward {deadline at_ : ℚ} (h : Past deadline past)
    (hforward : Forward (⟨.clock, .ok at_⟩ :: past)) : deadline ≤ at_ := by
  obtain ⟨before, hbefore, hle⟩ := h
  exact hle.trans (List.rel_of_pairwise_cons hforward (List.mem_of_mem_head? hbefore))

/-- What a contract permits the reader of sitemaps. -/
structure PermitsSitemaps (C : Contract crawlIface) (lib : Library) (base : Address) (budget : ℚ) :
    Prop where
  clock : ∀ past, C.permits past .clock
  sitemap : ∀ past url, MayOpen lib base url → InTime budget 0 past →
    C.permits past (.fetch url maxSitemapBytes)

section Loops
variable {C : Contract crawlIface} {budget deadline : ℚ}

/-- The clock says that there is time. -/
theorem inTime_of_clock {at_ : ℚ} (hstarted : Started budget deadline (⟨.clock, .ok at_⟩ :: past))
    (hlate : ¬deadline ≤ at_) : InTime budget 0 (⟨.clock, .ok at_⟩ :: past) := by
  obtain ⟨first, hfirst, rfl⟩ := hstarted
  exact ⟨first, hfirst, at_, rfl, not_le.mp hlate⟩

theorem readTreeFrom_inv (hC : PermitsSitemaps C lib base budget) (tree : Tree) :
    ∀ past, tree.Inv lib base known start past → Started budget deadline past →
      wp C (Returns fun past' (tree' : Tree) => tree'.Inv lib base known start past' ∧
        (tree'.pending = [] ∨ tree'.silent = true ∨ Past deadline past'))
        (readTreeFrom lib base deadline tree) past := by
  induction tree using readTreeFrom.induct lib base with
  | case1 tree hpending =>
      intro past hinv _
      rw [readTreeFrom.eq_def, hpending]
      exact ⟨hinv, .inl hpending⟩
  | case2 tree url pending hpending ihSkip ihOpen =>
      intro past hinv hstarted
      rw [readTreeFrom.eq_def, hpending]
      refine wp_ask_bind (hC.clock past) (fun at_ _ => ?_) fun _ _ => trivial
      have hinv' : tree.Inv lib base known start (⟨.clock, .ok at_⟩ :: past) := hinv.quiet rfl
      have hstarted' : Started budget deadline (⟨.clock, .ok at_⟩ :: past) :=
        hstarted.mono (List.suffix_cons _ _)
      split
      · next hlate => exact ⟨hinv', .inr (.inr ⟨at_, rfl, hlate⟩)⟩
      · next hlate =>
          split
          · rw [← hpending]
            exact ⟨{ hinv' with }, .inr (.inl rfl)⟩
          · next hroom =>
              split
              · next hseen =>
                  exact ihSkip _ (hinv'.skip hpending (hinv'.seen url hseen)) hstarted'
              · have hmay : MayOpen lib base url :=
                  hinv.pending url (hpending ▸ List.mem_cons_self)
                refine wp_ask_bind (hC.sitemap _ url hmay (inTime_of_clock hstarted' hlate))
                  (fun answer _ => ?_) fun _ _ => trivial
                exact ihOpen hroom answer _ (hinv'.answered hpending)
                  (hstarted'.mono (List.suffix_cons _ _))

/-- What is known of a tree that was read. -/
structure Tree.Done (lib : Library) (base : Address) (known : Prop) (start : Address)
    (past : CrawlPast) (tree : Tree) : Prop extends tree.Inv lib base known start past where
  ended : Forward past → tree.silent = false → tree.pending = []

/-- A tree that says its list is not short has been gone through. -/
theorem Tree.Done.through (h : tree.Done lib base known start past) (hknown : known)
    (hforward : Forward past) (hend : tree.silent = false ∨ tree.foundAny = false) :
    Whole lib base past tree.listed [] :=
  h.toInv.ended hknown (hend.imp_left (h.ended hforward))

theorem readTree_done (hC : PermitsSitemaps C lib base budget) (hstart : MayOpen lib base start)
    (hok : listed.Ok lib base) (hwhole : known → Whole lib base past listed [])
    (hstarted : Started budget deadline past) :
    wp C (Returns fun past' (tree : Tree) => tree.Done lib base known start past')
      (readTree lib base deadline start listed) past := by
  have hinv : Tree.Inv lib base known start past { pending := [start], listed } :=
    { listed := hok
      whole := fun hknown => (hwhole hknown).congr (fun _ => id) nofun
      noneFound := fun hknown _ => hwhole hknown
      seen := nofun
      pending := fun url hurl => List.mem_singleton.mp hurl ▸ hstart
      start := .inr (List.mem_singleton_self _) }
  refine returns_bind (readTreeFrom_inv hC _ past hinv hstarted) fun past' tree _ htree => ?_
  obtain ⟨hread, hend⟩ := htree
  split
  · next hnil => exact { hread with ended := fun _ _ => hnil }
  · next hleft =>
      refine wp_ask_bind (hC.clock past') (fun at_ _ => ?_) fun _ _ => trivial
      refine { hread.quiet rfl with ended := fun hforward hsilent => ?_ }
      rw [Bool.or_eq_false_iff, decide_eq_false_iff_not] at hsilent
      rcases hend with hnil | hquiet | hpast
      · exact hnil
      · rw [hsilent.1] at hquiet
        cases hquiet
      · exact absurd (hpast.forward hforward) hsilent.2

/-! ## All trees -/

/-- What is known while the sitemaps of a site are read: it is whole if the reader says so. -/
structure SitemapsRead.Inv (lib : Library) (base : Address) (past : CrawlPast)
    (read : SitemapsRead) : Prop where
  listed : read.listed.Ok lib base
  whole : Forward past → read.uncertain = false ∨ read.urls = [] →
    Whole lib base past read.listed []

/-- What was known before, when one more tree is read. -/
def Known (past : CrawlPast) (read : SitemapsRead) : Prop :=
  Forward past ∧ (read.uncertain = false ∨ read.urls = [])

/-- One more tree was read. -/
theorem Tree.Done.more {past' : CrawlPast} {read : SitemapsRead} (hs : past <:+ past')
    (hdone : tree.Done lib base (Known past read) start past') :
    SitemapsRead.Inv lib base past'
      { urls := if tree.foundAny then read.urls ++ [start] else read.urls
        uncertain := read.uncertain || tree.silent
        listed := tree.listed } where
  listed := hdone.listed
  whole := by
    intro hforward hend
    have hknown : read.uncertain = false ∨ read.urls = [] := by
      rcases hend with hquiet | hnone
      · exact .inl (Bool.or_eq_false_iff.mp hquiet).1
      · dsimp only at hnone
        split at hnone
        · cases List.append_ne_nil_of_right_ne_nil _ (List.cons_ne_nil _ _) hnone
        · exact .inr hnone
    refine hdone.through ⟨hforward.before hs, hknown⟩ hforward ?_
    rcases hend with hquiet | hnone
    · exact .inl (Bool.or_eq_false_iff.mp hquiet).2
    · dsimp only at hnone
      split at hnone
      · cases List.append_ne_nil_of_right_ne_nil _ (List.cons_ne_nil _ _) hnone
      · next hfound => exact .inr (Bool.not_eq_true _ ▸ hfound)

/-- The first sitemap of a tree that was read to its end was opened. -/
theorem Tree.Done.opened (h : tree.Done lib base known start past) (hforward : Forward past)
    (hsilent : tree.silent = false) : Opened past start := by
  rcases h.start with hopened | hin
  · exact hopened
  · rw [h.ended hforward hsilent] at hin
    cases hin

/-- The sitemaps that were named are read. -/
theorem readDeclared_inv (hC : PermitsSitemaps C lib base budget) (starts : List Address) :
    ∀ past read, (∀ start ∈ starts, isOnSite lib.U base start = true) → read.Inv lib base past →
      Started budget deadline past →
      wp C (Returns fun past' (read' : SitemapsRead) => read'.Inv lib base past' ∧
        (Forward past' → read'.uncertain = false →
          read.uncertain = false ∧ ∀ start ∈ starts, Opened past' start))
        (readDeclared lib base deadline starts read) past := by
  induction starts with
  | nil => exact fun past read _ hread _ => ⟨hread, fun _ hquiet => ⟨hquiet, nofun⟩⟩
  | cons start rest ih =>
      intro past read hstarts hread hstarted
      refine returns_bind (readTree_done hC (.inl (hstarts start List.mem_cons_self)) hread.listed
        (fun hknown : Known past read => hread.whole hknown.1 hknown.2) hstarted) fun past' tree hs hdone => ?_
      refine wp_mono (fun past'' r hs' hr => ?_) (ih past' _
        (fun other hother => hstarts other (List.mem_cons_of_mem _ hother)) (hdone.more hs)
        (hstarted.mono hs))
      cases r with
      | error e => trivial
      | ok read' =>
          refine ⟨hr.1, fun hforward hquiet => ?_⟩
          obtain ⟨hbefore, hrest⟩ := hr.2 hforward hquiet
          have hboth := Bool.or_eq_false_iff.mp hbefore
          refine ⟨hboth.1, fun other hother => ?_⟩
          rcases List.mem_cons.mp hother with rfl | hother
          · exact (hdone.opened (hforward.before hs') hboth.2).mono hs'
          · exact hrest other hother

/-- The usual addresses are tried. -/
theorem readGuesses_inv (hC : PermitsSitemaps C lib base budget) (silentDeclared : Bool)
    (paths : List (List Char)) (hpaths : ∀ path ∈ paths, path ∈ commonSitemaps) :
    ∀ past silentGuesses (listed : Listed), listed.Ok lib base →
      (Forward past → Whole lib base past listed []) → Started budget deadline past →
      wp C (Returns fun past' (read' : SitemapsRead) => read'.Inv lib base past' ∧
        (read'.uncertain = false → silentDeclared = false) ∧
        (Forward past' → read'.uncertain = false → read'.urls = [] → silentGuesses = false ∧
          ∀ path ∈ paths, ∃ url, lib.urljoin base path = some url ∧ Opened past' url))
        (readGuesses lib base deadline silentDeclared paths silentGuesses listed) past := by
  induction paths with
  | nil =>
      exact fun past silentGuesses listed hok hwhole _ =>
        ⟨⟨hok, fun hforward _ => hwhole hforward⟩, fun hquiet => (Bool.or_eq_false_iff.mp hquiet).1,
          fun _ hquiet _ => ⟨(Bool.or_eq_false_iff.mp hquiet).2, nofun⟩⟩
  | cons path rest ih =>
      intro past silentGuesses listed hok hwhole hstarted
      unfold readGuesses
      split
      · trivial
      · next start hstart =>
          have hmay : MayOpen lib base start := .inr ⟨path, hpaths path List.mem_cons_self, hstart⟩
          refine returns_bind (readTree_done hC hmay hok hwhole hstarted)
            fun past' tree hs hdone => ?_
          split
          · next hfound =>
              refine ⟨⟨hdone.listed, fun hforward hend => ?_⟩,
                fun hquiet => (Bool.or_eq_false_iff.mp hquiet).2, fun _ _ hnone => ?_⟩
              · rcases hend with hquiet | hnone
                · exact hdone.through (hforward.before hs) hforward
                    (.inl (Bool.or_eq_false_iff.mp hquiet).1)
                · cases hnone
              · cases hnone
          · next hfound =>
              have hnone : tree.foundAny = false := Bool.not_eq_true _ ▸ hfound
              refine wp_mono (fun past'' r hs' hr => ?_) (ih
                (fun other hother => hpaths other (List.mem_cons_of_mem _ hother)) past' _ _
                hdone.listed
                (fun hforward => hdone.through (hforward.before hs) hforward (.inr hnone))
                (hstarted.mono hs))
              cases r with
              | error e => trivial
              | ok read' =>
                  refine ⟨hr.1, hr.2.1, fun hforward hquiet hurls => ?_⟩
                  obtain ⟨hbefore, hrest⟩ := hr.2.2 hforward hquiet hurls
                  have hboth := Bool.or_eq_false_iff.mp hbefore
                  refine ⟨hboth.1, fun other hother => ?_⟩
                  rcases List.mem_cons.mp hother with rfl | hother
                  · exact ⟨start, hstart,
                      (hdone.opened (hforward.before hs') hboth.2).mono hs'⟩
                  · exact hrest other hother

/-- Every place where a sitemap would be has been looked at. -/
def LookedFor (lib : Library) (base : Address) (robotsText : Option (List Char))
    (past : CrawlPast) (read : SitemapsRead) : Prop :=
  (∀ start ∈ namedSitemaps lib robotsText, Opened past start) ∧
    (read.urls = [] → ∀ path ∈ commonSitemaps, ∃ url, lib.urljoin base path = some url ∧
      Opened past url)

/-- Nothing was left out of what the sitemaps of a site say. -/
structure Gathered (lib : Library) (base : Address) (robotsText : Option (List Char))
    (past : CrawlPast) (read : SitemapsRead) : Prop where
  inv : read.Inv lib base past
  looked : Forward past → read.uncertain = false → LookedFor lib base robotsText past read

/-- Named sitemaps are on the site unless the reader is uncertain. -/
theorem all_declared {named : List Address}
    (h : decide ((named.filter (isOnSite lib.U base)).length < named.length) = false) :
    named.filter (isOnSite lib.U base) = named := by
  have hle := List.length_filter_le (isOnSite lib.U base) named
  rw [decide_eq_false_iff_not] at h
  exact List.filter_sublist.eq_of_length (by omega)

theorem readSitemaps_gathered (hC : PermitsSitemaps C lib base budget)
    (robotsText : Option (List Char)) (hquiet : sitemapBodies past = [])
    (hstarted : Started budget deadline past) :
    wp C (Returns fun past' (read : SitemapsRead) => Gathered lib base robotsText past' read)
      (readSitemaps lib base robotsText deadline) past := by
  have hwhole : Whole lib base past {} [] := ⟨by rw [hquiet]; nofun, by rw [hquiet]; nofun⟩
  have hok : Listed.Ok lib base {} :=
    ⟨rfl, List.nodup_nil, nofun, Nat.zero_le _⟩
  unfold readSitemaps
  dsimp only
  refine returns_bind (readDeclared_inv hC _ past _
    (fun start hstart => (List.mem_filter.mp hstart).2) ⟨hok, fun _ _ => hwhole⟩ hstarted)
    fun past' read hs hread => ?_
  have hnamed : Forward past' → read.uncertain = false →
      ∀ start ∈ namedSitemaps lib robotsText, Opened past' start := by
    intro hforward hcertain start hstart
    obtain ⟨hall, hopened⟩ := hread.2 hforward hcertain
    exact hopened start ((all_declared hall).symm ▸ hstart)
  split
  · next hfound =>
      exact ⟨hread.1, fun hforward hcertain =>
        ⟨hnamed hforward hcertain, fun hnone => absurd hnone hfound⟩⟩
  · next hnone =>
      refine wp_mono (fun past'' r hs' hr => ?_) (readGuesses_inv hC read.uncertain commonSitemaps
        (fun _ => id) past' false read.listed hread.1.listed
        (fun hforward => hread.1.whole hforward (.inr (not_not.mp hnone))) (hstarted.mono hs))
      cases r with
      | error e => trivial
      | ok read' =>
          refine ⟨hr.1, fun hforward hcertain => ⟨fun start hstart => ?_, fun hurls => ?_⟩⟩
          · exact (hnamed (hforward.before hs') (hr.2.1 hcertain) start hstart).mono hs'
          · exact (hr.2.2 hforward hcertain hurls).2

end Loops

end Whole

end SeoAgent.Crawler
