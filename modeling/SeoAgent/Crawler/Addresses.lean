import SeoAgent.Net.Guard
import SeoAgent.Normalization.CanonicalUrl
import SeoAgent.Verified.Lines

/-!
# Addresses of a site

Which addresses a crawl follows and which it takes for one page (`app/scan/crawler.py`):
`_clean_link`, `_is_on_site`, `_identity` and `_without_query`. `urljoin` is a parameter; `none`
is a `ValueError` of it.
-/

namespace SeoAgent.Crawler

open SeoAgent.Verified Normalization

/-- An address, or a link as a page has it. -/
abbrev Address : Type := List Char

/-! ## One page -/

section Identity
variable (U : Url.Unicode)

/-- `rstrip("/")`. -/
def rstripSlashes (s : List Char) : List Char := s.rdropWhile (· == '/')

/-- `_identity`: addresses with one identity are one page. -/
def identity (url : Address) : List Char :=
  match canonicalizeUrl U url with
  | some canonical => rstripSlashes canonical
  | none => url

/-- `_without_query`. -/
def withoutQuery (url : Address) : List Char :=
  rstripSlashes ((identity U url).takeWhile (· ≠ '?'))

/-! ## The site -/

def isWeb (scheme : List Char) : Bool := scheme == http || scheme == Url.https

/-- `_is_on_site`. -/
def isOnSite (base url : Address) : Bool :=
  if '\x00' ∈ url then false
  else
    match Url.urlsplit U url, Url.urlsplit U base with
    | some parts, some home =>
        match Url.port parts.netloc, Url.port home.netloc with
        | some port, some homePort =>
            -- The same host on another port is another service.
            [none, some 80, some 443, homePort].contains port && isWeb parts.scheme &&
              (Net.sameSite U base url).getD false
        | _, _ => false
    | _, _ => false

theorem isOnSite_sameSite {base url : Address} (h : isOnSite U base url = true) :
    Net.sameSite U base url = some true := by
  unfold isOnSite at h
  split at h
  · cases h
  split at h
  · split at h
    · rw [Bool.and_eq_true] at h
      cases hsame : Net.sameSite U base url with
      | none => rw [hsame] at h; cases h.2
      | some same => rw [hsame] at h; exact congrArg some h.2
    · cases h
  · cases h

/-! ## Links -/

/-- `SKIPPED_EXTENSIONS`. -/
def skippedExtensions : List (List Char) :=
  [".jpg", ".jpeg", ".png", ".gif", ".webp", ".svg", ".ico", ".bmp", ".avif", ".pdf", ".zip",
    ".rar", ".gz", ".tar", ".7z", ".mp3", ".mp4", ".webm", ".avi", ".mov", ".css", ".js", ".json",
    ".xml", ".txt", ".doc", ".docx", ".xls", ".xlsx", ".ppt", ".pptx", ".woff", ".woff2", ".ttf",
    ".eot"].map String.toList

/-- What a link that leads to no page begins with. -/
def noPage : List (List Char) := ["#", "mailto:", "tel:", "javascript:", "data:"].map String.toList

/-- The last segment of a path, `path.rsplit("/", 1)[-1]`. -/
def lastSegment (path : List Char) : List Char := path.rtakeWhile (· ≠ '/')

/-- A path ends in the name of a file that is no page. -/
def isSkippedFile (path : List Char) : Bool :=
  let name := lastSegment path
  name.contains '.' && skippedExtensions.contains ('.' :: U.lower (name.rtakeWhile (· ≠ '.')))

/-- `_clean_link`. -/
def cleanLink (urljoin : Address → Address → Option Address) (base href : Address) :
    Option Address :=
  let href := Lines.strip href
  if href = [] ∨ noPage.any (·.isPrefixOf href) then none
  else
    (urljoin base href).bind fun joined =>
      (Url.urlsplit U joined).bind fun parts =>
        if !isWeb parts.scheme || (Url.hostname U parts.netloc).isNone then none
        else
          let path := if Url.path joined = [] then ['/'] else Url.path joined
          if isSkippedFile U path then none
          else some (Url.urlunsplit parts.scheme parts.netloc path (Url.query joined))

end Identity

end SeoAgent.Crawler
