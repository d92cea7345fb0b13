import SeoAgent.Verified.Text
import SeoAgent.Verified.Url

/-!
# The markup of a page

`_PageParser` of `app/scan/crawler.py`: what a page says of itself, gathered from the start
tags, end tags and texts that `HTMLParser` finds in it, in their order. Names of tags and
attributes come in lower case.

## Main results

* `reads_more` — what was read of a page before its markup broke down still counts: more markup
  adds to it and takes nothing back, and the counts belong together.
* `skipped_adds_nothing` — inside an element whose text is not shown there are neither words nor
  signs of speed.
-/

namespace SeoAgent.Crawler

open SeoAgent.Verified

/-! ## Markup -/

/-- The attributes of a start tag; one without a value has `none`. -/
abbrev Attrs : Type := List (String × Option String)

/-- The value of an attribute, the last one when it is repeated. -/
def Attrs.find? (attrs : Attrs) (name : String) : Option String :=
  (attrs.reverse.lookup name).map fun value => value.getD ""

/-- `values.get(name, "")`. -/
def Attrs.get (attrs : Attrs) (name : String) : String := (attrs.find? name).getD ""

def Attrs.has (attrs : Attrs) (name : String) : Bool := (attrs.find? name).isSome

/-- What `HTMLParser` calls its handlers for. -/
inductive MarkupEvent
  | startTag (tag : String) (attrs : Attrs)
  | endTag (tag : String)
  | data (text : String)
  deriving DecidableEq

/-- The text that is being gathered. -/
inductive Capture
  | title
  | h1
  deriving DecidableEq, Repr

def Capture.tag : Capture → String
  | title => "title"
  | h1 => "h1"

/-- `_PageParser`. -/
structure PageParser where
  title : Option String := none
  metaDescription : Option String := none
  h1 : Option String := none
  h1Count : Nat := 0
  canonical : Option String := none
  noindex : Bool := false
  links : List String := []
  words : Nat := 0
  inHead : Bool := true
  blockingScripts : Nat := 0
  stylesheets : Nat := 0
  images : Nat := 0
  imagesUnsized : Nat := 0
  imagesNotLazy : Nat := 0
  imagesOldFormat : Nat := 0
  picture : Bool := false
  pictureModern : Bool := false
  capture : Option Capture := none
  buffer : List String := []
  skipDepth : Nat := 0
  deriving DecidableEq

/-! ## The handlers -/

/-- `text or None`. -/
def orNone (text : String) : Option String := if text = "" then none else some text

/-- `part in text`. -/
def contains (part text : String) : Bool := decide (part.toList <:+: text.toList)

/-- What is before the first of a character. -/
def before (c : Char) (text : String) : String := String.ofList (text.toList.takeWhile (· ≠ c))

/-- `text.endswith(ending)`. -/
def endsWith (text ending : String) : Bool := ending.toList.isSuffixOf text.toList

/-- `_SKIPPED_TEXT`. -/
def skippedText : List String := ["script", "style", "noscript", "template", "svg"]

/-- `EAGER_IMAGES`. -/
def eagerImages : Nat := 2

/-- `_OLD_FORMATS`. -/
def oldFormats : List String := [".jpg", ".jpeg", ".png", ".gif"]

/-- `_MODERN`. -/
def modern : List String := ["webp", "avif"]

/-- `_HEAD_TAGS`. -/
def headTags : List String :=
  ["html", "head", "title", "meta", "link", "script", "style", "base", "noscript", "template"]

/-- `_JS_TYPES`. -/
def jsTypes : List String :=
  ["", "text/javascript", "application/javascript", "application/ecmascript", "text/ecmascript"]

section Handlers
variable (U : Url.Unicode)

/-- `str.lower`. -/
def lower (text : String) : String := String.ofList (U.lower text.toList)

/-- `_says_noindex`. -/
def saysNoindex (value : String) : Bool :=
  let directives := ((value.replace ";" ",").splitOn ",").map fun part => lower U (Text.strip part)
  directives.contains "noindex" || directives.contains "none"

/-- An image is loaded when it is scrolled to. -/
def isLazy (values : Attrs) : Bool :=
  lower U (values.get "loading") == "lazy" ||
    ["data-src", "data-lazy-src", "data-srcset"].any values.has ||
    (Text.words (lower U (values.get "class"))).contains "lazyload"

/-- Where the file of an image is, up to its query. -/
def imageSource (values : Attrs) : String :=
  lower U (before '?' (Text.orElse (values.get "data-src")
    (Text.orElse (values.get "data-lazy-src") (values.get "src"))))

/-- A script that holds the page up. -/
def isBlocking (values : Attrs) : Bool :=
  jsTypes.contains (lower U (Text.strip (values.get "type"))) &&
    !(["async", "defer", "nomodule"].any values.has)

/-- A picture that offers a format of today. -/
def isModern (values : Attrs) : Bool :=
  let kind := lower U (values.get "type") ++ " " ++ lower U (values.get "srcset")
  modern.any fun format => contains format kind

namespace PageParser

/-- `_note_speed`, of an image. -/
def noteImage (p : PageParser) (values : Attrs) : PageParser :=
  let images := p.images + 1
  let unsized := values.get "width" = "" ∨ values.get "height" = ""
  let notLazy := eagerImages < images ∧ isLazy U values = false
  let oldFormat := oldFormats.any (endsWith (imageSource U values)) ∧
    ¬(p.picture = true ∧ p.pictureModern = true)
  { p with
    images
    imagesUnsized := p.imagesUnsized + if unsized then 1 else 0
    imagesNotLazy := p.imagesNotLazy + if notLazy then 1 else 0
    imagesOldFormat := p.imagesOldFormat + if oldFormat then 1 else 0 }

/-- `_note_speed`, outside the elements that are skipped. -/
def noteShown (p : PageParser) (tag : String) (values : Attrs) : PageParser :=
  if tag = "script" ∧ values.get "src" ≠ "" ∧ p.inHead = true then
    { p with blockingScripts := p.blockingScripts + if isBlocking U values then 1 else 0 }
  else if tag = "link" ∧ (Text.words (lower U (values.get "rel"))).contains "stylesheet" then
    { p with stylesheets := p.stylesheets + 1 }
  else if tag = "picture" then { p with picture := true, pictureModern := false }
  else if tag = "source" ∧ p.picture = true then
    { p with pictureModern := p.pictureModern || isModern U values }
  else if tag = "img" then p.noteImage U values
  else p

/-- `_note_speed`. -/
def noteSpeed (p : PageParser) (tag : String) (values : Attrs) : PageParser :=
  if p.skipDepth ≠ 0 then p
  else noteShown U { p with inHead := p.inHead && headTags.contains tag } tag values

/-- A `<meta>`. -/
def noteMeta (p : PageParser) (values : Attrs) : PageParser :=
  let name := lower U (values.get "name")
  if name = "description" ∧ p.metaDescription = none then
    { p with metaDescription := orNone (Text.normal (values.get "content")) }
  else if (name = "robots" ∨ name = "googlebot") ∧ saysNoindex U (values.get "content") = true then
    { p with noindex := true }
  else p

/-- Gathers the text of an element from here. -/
def begin (p : PageParser) (capture : Capture) : PageParser :=
  { p with capture := some capture, buffer := [] }

/-- `handle_starttag`, of an element that is not skipped. -/
def open_ (p : PageParser) (tag : String) (values : Attrs) : PageParser :=
  if tag = "a" ∧ values.get "href" ≠ "" then { p with links := p.links ++ [values.get "href"] }
  else if tag = "meta" then p.noteMeta U values
  else if tag = "link" ∧ (Text.words (lower U (values.get "rel"))).contains "canonical" ∧
      p.canonical = none then
    { p with canonical := orNone (Text.strip (values.get "href")) }
  else if tag = "title" ∧ p.title = none ∧ p.capture = none then p.begin .title
  else if tag = "h1" then
    if p.h1 = none ∧ p.capture = none then begin { p with h1Count := p.h1Count + 1 } .h1
    else { p with h1Count := p.h1Count + 1 }
  else p

/-- `handle_starttag`. -/
def handleStarttag (p : PageParser) (tag : String) (values : Attrs) : PageParser :=
  if tag ∈ skippedText then
    { p.noteSpeed U tag values with skipDepth := p.skipDepth + 1 }
  else (p.noteSpeed U tag values).open_ U tag values

/-- The end of the element whose text was gathered. -/
def close_ (p : PageParser) (tag : String) : PageParser :=
  let text := orNone (Text.normal (String.join p.buffer))
  match p.capture with
  | some .title => if tag = "title" then { p with title := text, capture := none } else p
  | some .h1 => if tag = "h1" then { p with h1 := text, capture := none } else p
  | none => p

/-- The end of the head or of a picture. -/
def leave (p : PageParser) (tag : String) : PageParser :=
  if tag = "head" then { p with inHead := false }
  else if tag = "picture" then { p with picture := false, pictureModern := false }
  else p

/-- `handle_endtag`. -/
def handleEndtag (p : PageParser) (tag : String) : PageParser :=
  if tag ∈ skippedText ∧ p.skipDepth ≠ 0 then
    { p.leave tag with skipDepth := p.skipDepth - 1 }
  else (p.leave tag).close_ tag

/-- `handle_data`. -/
def handleData (p : PageParser) (text : String) : PageParser :=
  if p.skipDepth ≠ 0 then p
  else
    { p with
      buffer := if p.capture.isSome then p.buffer ++ [text] else p.buffer
      words := p.words + if p.capture = some .title then 0 else (Text.words text).length }

def handle (p : PageParser) : MarkupEvent → PageParser
  | .startTag tag attrs => p.handleStarttag U tag attrs
  | .endTag tag => p.handleEndtag tag
  | .data text => p.handleData text

/-- The parser after some markup. -/
def feed (p : PageParser) (markup : List MarkupEvent) : PageParser := markup.foldl (handle U) p

end PageParser

end Handlers

/-! ## What a parser keeps -/

/-- `q` says what `p` says, and perhaps more. -/
structure Extends (p q : PageParser) : Prop where
  title : ∀ text, p.title = some text → q.title = some text
  metaDescription : ∀ text, p.metaDescription = some text → q.metaDescription = some text
  h1 : ∀ text, p.h1 = some text → q.h1 = some text
  canonical : ∀ text, p.canonical = some text → q.canonical = some text
  noindex : p.noindex = true → q.noindex = true
  links : p.links <+: q.links
  h1Count : p.h1Count ≤ q.h1Count
  words : p.words ≤ q.words
  blockingScripts : p.blockingScripts ≤ q.blockingScripts
  stylesheets : p.stylesheets ≤ q.stylesheets
  images : p.images ≤ q.images
  imagesUnsized : p.imagesUnsized ≤ q.imagesUnsized
  imagesNotLazy : p.imagesNotLazy ≤ q.imagesNotLazy
  imagesOldFormat : p.imagesOldFormat ≤ q.imagesOldFormat

/-- What the fields of a parser have to do with each other. -/
structure Sound (p : PageParser) : Prop where
  title : p.capture = some .title → p.title = none
  h1 : p.capture = some .h1 → p.h1 = none ∧ 0 < p.h1Count
  h1Count : ∀ text, p.h1 = some text → 0 < p.h1Count
  imagesUnsized : p.imagesUnsized ≤ p.images
  imagesNotLazy : p.imagesNotLazy ≤ p.images - eagerImages
  imagesOldFormat : p.imagesOldFormat ≤ p.images

/-- Words and signs of speed are the same. -/
structure SameShown (p q : PageParser) : Prop where
  words : q.words = p.words
  buffer : q.buffer = p.buffer ∨ q.buffer = []
  blockingScripts : q.blockingScripts = p.blockingScripts
  stylesheets : q.stylesheets = p.stylesheets
  images : q.images = p.images
  imagesUnsized : q.imagesUnsized = p.imagesUnsized
  imagesNotLazy : q.imagesNotLazy = p.imagesNotLazy
  imagesOldFormat : q.imagesOldFormat = p.imagesOldFormat

theorem Extends.refl (p : PageParser) : Extends p p :=
  ⟨fun _ h => h, fun _ h => h, fun _ h => h, fun _ h => h, id, List.prefix_refl _, le_rfl, le_rfl,
    le_rfl, le_rfl, le_rfl, le_rfl, le_rfl, le_rfl⟩

theorem Extends.trans {p q r : PageParser} (h : Extends p q) (h' : Extends q r) : Extends p r :=
  ⟨fun _ ht => h'.title _ (h.title _ ht), fun _ ht => h'.metaDescription _ (h.metaDescription _ ht),
    fun _ ht => h'.h1 _ (h.h1 _ ht), fun _ ht => h'.canonical _ (h.canonical _ ht),
    h'.noindex ∘ h.noindex, h.links.trans h'.links, h.h1Count.trans h'.h1Count,
    h.words.trans h'.words, h.blockingScripts.trans h'.blockingScripts,
    h.stylesheets.trans h'.stylesheets, h.images.trans h'.images,
    h.imagesUnsized.trans h'.imagesUnsized, h.imagesNotLazy.trans h'.imagesNotLazy,
    h.imagesOldFormat.trans h'.imagesOldFormat⟩

theorem SameShown.refl (p : PageParser) : SameShown p p :=
  ⟨rfl, .inl rfl, rfl, rfl, rfl, rfl, rfl, rfl⟩

theorem SameShown.trans {p q r : PageParser} (h : SameShown p q) (h' : SameShown q r) :
    SameShown p r where
  words := h'.words.trans h.words
  buffer := by
    rcases h'.buffer with hbuffer | hbuffer
    · rw [hbuffer]
      exact h.buffer
    · exact .inr hbuffer
  blockingScripts := h'.blockingScripts.trans h.blockingScripts
  stylesheets := h'.stylesheets.trans h.stylesheets
  images := h'.images.trans h.images
  imagesUnsized := h'.imagesUnsized.trans h.imagesUnsized
  imagesNotLazy := h'.imagesNotLazy.trans h.imagesNotLazy
  imagesOldFormat := h'.imagesOldFormat.trans h.imagesOldFormat

/-! ## What one handler does -/

section Steps
variable {U : Url.Unicode} {p : PageParser} {tag : String} {values : Attrs}

/-- A handler keeps a parser sound and takes nothing back. -/
structure Adds (p q : PageParser) : Prop where
  sound : Sound p → Sound q
  more : Sound p → Extends p q

theorem Adds.refl (p : PageParser) : Adds p p := ⟨id, fun _ => Extends.refl p⟩

theorem Adds.trans {p q r : PageParser} (h : Adds p q) (h' : Adds q r) : Adds p r :=
  ⟨h'.sound ∘ h.sound, fun hp => (h.more hp).trans (h'.more (h.sound hp))⟩

theorem noteImage_adds : Adds p (p.noteImage U values) := by
  refine ⟨fun hp => ?_, fun _ => ?_⟩
  · have hunsized := hp.imagesUnsized
    have hlazy := hp.imagesNotLazy
    have hold := hp.imagesOldFormat
    refine { hp with imagesUnsized := ?_, imagesNotLazy := ?_, imagesOldFormat := ?_ }
    · simp only [PageParser.noteImage]
      split <;> omega
    · simp only [PageParser.noteImage]
      split
      · next h => have := h.1; omega
      · omega
    · simp only [PageParser.noteImage]
      split <;> omega
  · exact { Extends.refl p with
      images := Nat.le_succ _, imagesUnsized := Nat.le_add_right _ _
      imagesNotLazy := Nat.le_add_right _ _, imagesOldFormat := Nat.le_add_right _ _ }

theorem noteShown_adds : Adds p (p.noteShown U tag values) := by
  unfold PageParser.noteShown
  split
  · exact ⟨fun hp => { hp with }, fun _ =>
      { Extends.refl p with blockingScripts := Nat.le_add_right _ _ }⟩
  split
  · exact ⟨fun hp => { hp with }, fun _ => { Extends.refl p with stylesheets := Nat.le_succ _ }⟩
  split
  · exact ⟨fun hp => { hp with }, fun _ => { Extends.refl p with }⟩
  split
  · exact ⟨fun hp => { hp with }, fun _ => { Extends.refl p with }⟩
  split
  · exact noteImage_adds
  · exact Adds.refl p

theorem noteSpeed_adds : Adds p (p.noteSpeed U tag values) := by
  unfold PageParser.noteSpeed
  split
  · exact Adds.refl p
  · refine Adds.trans ?_ noteShown_adds
    exact ⟨fun hp => { hp with }, fun _ => { Extends.refl p with }⟩

theorem noteMeta_adds : Adds p (p.noteMeta U values) := by
  unfold PageParser.noteMeta
  dsimp only
  split
  · next h =>
      refine ⟨fun hp => { hp with }, fun _ => { Extends.refl p with metaDescription := ?_ }⟩
      intro text htext
      rw [h.2] at htext
      cases htext
  split
  · exact ⟨fun hp => { hp with }, fun _ => { Extends.refl p with noindex := fun _ => rfl }⟩
  · exact Adds.refl p

theorem open_adds : Adds p (p.open_ U tag values) := by
  unfold PageParser.open_
  split
  · exact ⟨fun hp => { hp with }, fun _ => { Extends.refl p with links := List.prefix_append _ _ }⟩
  split
  · exact noteMeta_adds
  split
  · next h =>
      refine ⟨fun hp => { hp with }, fun _ => { Extends.refl p with canonical := ?_ }⟩
      intro text htext
      rw [h.2.2] at htext
      cases htext
  split
  · next h =>
      exact ⟨fun hp => { hp with title := fun _ => h.2.1, h1 := fun hc => by cases hc },
        fun _ => { Extends.refl p with }⟩
  split
  · split
    · next h =>
        exact ⟨fun hp => { hp with
            title := fun hc => by cases hc
            h1 := fun _ => ⟨h.1, Nat.succ_pos _⟩
            h1Count := fun _ _ => Nat.succ_pos _ },
          fun _ => { Extends.refl p with h1Count := Nat.le_succ _ }⟩
    · exact ⟨fun hp => { hp with
          h1 := fun hc => ⟨(hp.h1 hc).1, Nat.succ_pos _⟩
          h1Count := fun _ _ => Nat.succ_pos _ },
        fun _ => { Extends.refl p with h1Count := Nat.le_succ _ }⟩
  · exact Adds.refl p

theorem leave_adds : Adds p (p.leave tag) := by
  unfold PageParser.leave
  split
  · exact ⟨fun hp => { hp with }, fun _ => { Extends.refl p with }⟩
  split
  · exact ⟨fun hp => { hp with }, fun _ => { Extends.refl p with }⟩
  · exact Adds.refl p

/-- The text of an element is set once: it was not there while it was gathered. -/
theorem close_adds : Adds p (p.close_ tag) := by
  unfold PageParser.close_
  dsimp only
  split
  · next hcapture =>
      split
      · refine ⟨fun hp => { hp with
            title := fun hc => by cases hc
            h1 := fun hc => by cases hc },
          fun hp => { Extends.refl p with title := ?_ }⟩
        intro text htext
        rw [hp.title hcapture] at htext
        cases htext
      · exact Adds.refl p
  · next hcapture =>
      split
      · refine ⟨fun hp => { hp with
            title := fun hc => by cases hc
            h1 := fun hc => by cases hc
            h1Count := fun _ _ => (hp.h1 hcapture).2 },
          fun hp => { Extends.refl p with h1 := ?_ }⟩
        intro text htext
        rw [(hp.h1 hcapture).1] at htext
        cases htext
      · exact Adds.refl p
  · exact Adds.refl p

/-- Each handler adds. -/
theorem handle_adds (event : MarkupEvent) : Adds p (p.handle U event) := by
  cases event with
  | startTag tag attrs =>
      simp only [PageParser.handle, PageParser.handleStarttag]
      split
      · refine noteSpeed_adds.trans ⟨fun hp => { hp with }, fun _ => { Extends.refl _ with }⟩
      · exact noteSpeed_adds.trans open_adds
  | endTag tag =>
      simp only [PageParser.handle, PageParser.handleEndtag]
      split
      · refine leave_adds.trans ⟨fun hp => { hp with }, fun _ => { Extends.refl _ with }⟩
      · exact leave_adds.trans close_adds
  | data text =>
      simp only [PageParser.handle, PageParser.handleData]
      split
      · exact Adds.refl p
      · exact ⟨fun hp => { hp with }, fun _ => { Extends.refl p with words := Nat.le_add_right _ _ }⟩

theorem feed_adds (p : PageParser) (markup : List MarkupEvent) : Adds p (p.feed U markup) := by
  induction markup generalizing p with
  | nil => exact Adds.refl p
  | cons event rest ih => exact (handle_adds event).trans (ih _)

theorem feed_append (p : PageParser) (markup more : List MarkupEvent) :
    p.feed U (markup ++ more) = (p.feed U markup).feed U more := List.foldl_append

/-- Nothing that is not shown is counted. -/
theorem open_sameShown : SameShown p (p.open_ U tag values) := by
  unfold PageParser.open_
  split
  · exact { SameShown.refl p with }
  split
  · unfold PageParser.noteMeta
    dsimp only
    split
    · exact { SameShown.refl p with }
    split
    · exact { SameShown.refl p with }
    · exact SameShown.refl p
  split
  · exact { SameShown.refl p with }
  split
  · exact { SameShown.refl p with buffer := .inr rfl }
  split
  · split
    · exact { SameShown.refl p with buffer := .inr rfl }
    · exact { SameShown.refl p with }
  · exact SameShown.refl p

theorem leave_sameShown : SameShown p (p.leave tag) := by
  unfold PageParser.leave
  split
  · exact { SameShown.refl p with }
  split
  · exact { SameShown.refl p with }
  · exact SameShown.refl p

theorem close_sameShown : SameShown p (p.close_ tag) := by
  unfold PageParser.close_
  dsimp only
  split
  · split
    · exact { SameShown.refl p with }
    · exact SameShown.refl p
  · split
    · exact { SameShown.refl p with }
    · exact SameShown.refl p
  · exact SameShown.refl p

/-- Inside an element that is skipped nothing is counted. -/
theorem handle_sameShown (hdepth : p.skipDepth ≠ 0) (event : MarkupEvent) :
    SameShown p (p.handle U event) := by
  cases event with
  | startTag tag attrs =>
      have hspeed : p.noteSpeed U tag attrs = p := if_pos hdepth
      simp only [PageParser.handle, PageParser.handleStarttag, hspeed]
      split
      · exact { SameShown.refl p with }
      · exact open_sameShown
  | endTag tag =>
      simp only [PageParser.handle, PageParser.handleEndtag]
      split
      · exact leave_sameShown.trans { SameShown.refl _ with }
      · exact leave_sameShown.trans close_sameShown
  | data text =>
      have hskip : p.handleData text = p := if_pos hdepth
      simp only [PageParser.handle, hskip]
      exact SameShown.refl p

theorem feed_sameShown {inside : List MarkupEvent}
    (hdepth : ∀ front, front <+: inside → (p.feed U front).skipDepth ≠ 0) :
    SameShown p (p.feed U inside) := by
  induction inside generalizing p with
  | nil => exact SameShown.refl p
  | cons event rest ih =>
      refine (handle_sameShown (hdepth [] (List.nil_prefix)) event).trans (ih fun front hfront => ?_)
      exact hdepth (event :: front) (List.cons_prefix_cons.mpr ⟨rfl, hfront⟩)

theorem sound_new : Sound {} where
  title := nofun
  h1 := nofun
  h1Count := nofun
  imagesUnsized := le_rfl
  imagesNotLazy := le_rfl
  imagesOldFormat := le_rfl

end Steps

/-! ## A whole page -/

/-- What was read of a page before its markup broke down still counts, whatever the markup: more
of it adds to what was read, and the counts belong together. -/
theorem reads_more (U : Url.Unicode) (markup more : List MarkupEvent) :
    Extends (PageParser.feed U {} markup) (PageParser.feed U {} (markup ++ more)) ∧
      Sound (PageParser.feed U {} (markup ++ more)) := by
  rw [feed_append]
  have hsound : Sound (PageParser.feed U {} markup) := (feed_adds {} markup).sound sound_new
  have hadds := feed_adds (U := U) (PageParser.feed U {} markup) more
  exact ⟨hadds.more hsound, hadds.sound hsound⟩

end SeoAgent.Crawler
