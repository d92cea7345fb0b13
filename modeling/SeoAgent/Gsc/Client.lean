import Mathlib
import SeoAgent.Verified.Asks

/-!
# Asking Search Console page by page

`GSCClient` (`app/gsc/client.py`) with the answers of `GoogleTransport`
(`app/gsc/transport.py`). A query is asked in pages; the first page that is not full ends it. A
page is asked for again when the transport raised, or when Google's answer is one that may go
away, after a pause that doubles up to eight seconds.

A row is what `json.dumps` makes of it with its keys sorted: two pages have one fingerprint
exactly if their rows are equal. A body that is empty or no JSON reads as the empty object, so
as a page without rows. Dates are ordinals.
-/

namespace SeoAgent.Gsc

open SeoAgent.Verified Prog

/-! ## What Google answers -/

/-- `metadata`, with its `first_incomplete_date` as far as that is a date. -/
inductive Metadata
  | notDict
  | undated
  | dated (firstIncompleteDate : Option Int)
deriving DecidableEq

/-- An object with what a query reads of it; `rows` is nothing when it is no list. -/
structure Page (ρ : Type) where
  rows : Option (List ρ)
  metadata : Metadata
  responseAggregationType : Option String

inductive Body (ρ : Type)
  | blank
  | unreadable
  | notObject
  | object (page : Page ρ)

/-- `GoogleResponse`, with the `reason` and the `message` of an error. -/
structure GoogleResponse (ρ : Type) where
  statusCode : Nat
  body : Body ρ
  reason : Option String := none
  message : Option String := none

variable {ρ : Type}

/-- The empty object. -/
def Page.empty : Page ρ := ⟨some [], .undated, none⟩

/-- `json`. -/
def GoogleResponse.json (response : GoogleResponse ρ) : Option (Page ρ) :=
  match response.body with
  | .blank => some .empty
  | .unreadable => some .empty
  | .notObject => none
  | .object page => some page

inductive GoogleErrorKind
  | ok
  | authInvalid
  | permissionDenied
  | rateLimited
  | quotaExceeded
  | notFound
  | invalidRequest
  | transient
  | unknown
deriving DecidableEq

def GoogleErrorKind.value : GoogleErrorKind → String
  | .ok => "ok"
  | .authInvalid => "auth_invalid"
  | .permissionDenied => "permission_denied"
  | .rateLimited => "rate_limited"
  | .quotaExceeded => "quota_exceeded"
  | .notFound => "not_found"
  | .invalidRequest => "invalid_request"
  | .transient => "transient"
  | .unknown => "unknown"

def GoogleErrorKind.retryable (kind : GoogleErrorKind) : Bool :=
  kind = .rateLimited || kind = .quotaExceeded || kind = .transient

/-- `_QUOTA_REASONS` and `_RATE_REASONS`. -/
def quotaReasons : List String := ["quotaexceeded", "dailylimitexceeded", "usagelimits"]

def rateReasons : List String := ["ratelimitexceeded", "userratelimitexceeded", "backenderror"]

/-- `classify`; `lower` is `str.lower`. -/
def GoogleResponse.classify (lower : String → String) (response : GoogleResponse ρ) :
    GoogleErrorKind :=
  let reason := lower (response.reason.getD "")
  if response.statusCode < 400 then .ok
  else if response.statusCode = 401 then .authInvalid
  else if response.statusCode = 403 then
    if reason ∈ quotaReasons then .quotaExceeded
    else if reason ∈ rateReasons then .rateLimited
    else .permissionDenied
  else if response.statusCode = 404 then .notFound
  else if response.statusCode = 429 then .rateLimited
  else if response.statusCode ∈ [400, 405, 409, 411, 413, 415, 422] then .invalidRequest
  else if 500 ≤ response.statusCode then .transient
  else .unknown

/-- `diagnostic`. -/
def GoogleResponse.diagnostic (lower : String → String) (response : GoogleResponse ρ) : String :=
  let named := fun (label : String) (text : Option String) =>
    match text with
    | some text => if text = "" then [] else [label ++ text]
    | none => []
  " | ".intercalate (["HTTP " ++ toString response.statusCode, (response.classify lower).value] ++
    named "reason=" response.reason ++
    named "" (response.message.map fun message => (message.take 200).toString))

/-! ## Exceptions -/

inductive GscException
  | client (message : String) (retryable : Bool) (statusCode : Option Nat)
  | value (message : String)
  | other (text : String)
deriving DecidableEq

def refusal (message : String) : GscException := .client message false none

/-! ## What a query asks for -/

/-- A token, an answer for the rows from one on, or a pause. -/
inductive GscOp
  | token
  | post (startRow : Nat) (authorization : Option String)
  | sleep (seconds : Nat)
deriving DecidableEq

/-- Tokens come as a text or not at all, and answers as responses. -/
abbrev gscIface (ρ : Type) : Interface where
  Op := GscOp
  Res
    | .token => Option String
    | .post _ _ => GoogleResponse ρ
    | .sleep _ => Unit
  Exn := GscException

abbrev GscProc (ρ : Type) : Type → Type := Prog (gscIface ρ)

abbrev GscPast (ρ : Type) : Type := (gscIface ρ).Past

structure GSCClientConfig where
  dataState : String := "final"
  maxPages : Nat := 100
  maxRetries : Nat := 3
  pageSize : Nat := 25000
deriving DecidableEq

structure GSCRequest where
  siteUrl : String
  startDate : Int
  endDate : Int
  dimensions : List String
  rowLimit : Nat
deriving DecidableEq

/-- `validate`; `strip` is `str.strip`. -/
def GSCRequest.validate (strip : String → String) (request : GSCRequest) :
    Except GscException Unit :=
  if strip request.siteUrl = "" then .error (.value "site_url must not be empty")
  else if request.endDate < request.startDate then
    .error (.value "end_date must be >= start_date")
  else if ¬ (1 ≤ request.rowLimit ∧ request.rowLimit ≤ 25000) then
    .error (.value "row_limit must be between 1 and 25000")
  else .ok ()

/-! ## One page -/

/-- How an answer is taken: a page, or the exception it is raised as in the end and whether the
page is asked for again. -/
def outcomeOf (lower : String → String) :
    Except GscException (GoogleResponse ρ) → Except (GscException × Bool) (Page ρ)
  | .error (.client message retryable statusCode) =>
      .error (.client message retryable statusCode, retryable)
  | .error (.value message) => .error (refusal ("GSC transport error: " ++ message), true)
  | .error (.other text) => .error (refusal ("GSC transport error: " ++ text), true)
  | .ok response =>
      if 400 ≤ response.statusCode then
        let kind := response.classify lower
        .error (.client ("GSC request failed: " ++ response.diagnostic lower) kind.retryable
          (some response.statusCode), kind.retryable)
      else
        match response.json with
        | none => .error (refusal "GSC response JSON must be an object", false)
        | some page => .ok page

/-- The pause before the next attempt. -/
def pause (attempt : Nat) : Nat := min (2 ^ attempt) 8

/-- The attempts that are left. -/
def attempts (lower : String → String) (config : GSCClientConfig) (startRow : Nat)
    (authorization : Option String) : Nat → Nat → GscProc ρ (Page ρ)
  | _, 0 => throw (refusal "GSC request failed")
  | attempt, left + 1 => .call (.post startRow authorization) fun answer =>
      match outcomeOf lower answer with
      | .ok page => pure page
      | .error (exc, again) =>
          if again = false ∨ config.maxRetries ≤ attempt then throw exc
          else do
            ask (I := gscIface ρ) (GscOp.sleep (pause attempt))
            attempts lower config startRow authorization (attempt + 1) left

/-- `_request_page`. -/
def requestPage (lower : String → String) (config : GSCClientConfig) (startRow : Nat) :
    GscProc ρ (Page ρ) := do
  let token ← ask (I := gscIface ρ) GscOp.token
  attempts lower config startRow (token.filter (· ≠ "")) 0 (config.maxRetries + 1)

/-! ## All pages -/

/-- What is kept between pages: the rows, the pages seen, and what they say about the whole. -/
structure Paging (ρ : Type) where
  rows : List ρ := []
  startRow : Nat := 0
  fingerprints : List (List ρ) := []
  incompleteDates : List Int := []
  aggregation : Option String := none

/-- The incomplete dates, with the one that a page names. -/
def datesWith (dates : List Int) : Metadata → Except GscException (List Int)
  | .notDict => .error (refusal "Invalid GSC metadata")
  | .undated => .ok dates
  | .dated none => .error (.value "Invalid isoformat string")
  | .dated (some day) => .ok (dates ++ [day])

/-- The aggregation, with the one that a page names. -/
def aggregationWith (found aggregation : Option String) : Except GscException (Option String) :=
  match found, aggregation with
  | none, aggregation => .ok aggregation
  | some found, none => .ok (some found)
  | some found, some aggregation =>
      if aggregation = found then .ok (some found)
      else .error (refusal "GSC aggregation changed between pages")

variable [DecidableEq ρ]

/-- The checks of a page, and what is kept of it. -/
def takePage (request : GSCRequest) (paging : Paging ρ) (page : Page ρ) :
    Except GscException (List ρ × Paging ρ) :=
  match page.rows with
  | none => .error (refusal "GSC response field 'rows' must be a list")
  | some rows =>
      if request.rowLimit < rows.length then
        .error (refusal "GSC page exceeds requested row limit")
      else if rows ≠ [] ∧ rows ∈ paging.fingerprints then
        .error (refusal "GSC pagination returned a repeated page")
      else do
        let incompleteDates ← datesWith paging.incompleteDates page.metadata
        let aggregation ← aggregationWith page.responseAggregationType paging.aggregation
        .ok (rows, {
          rows := paging.rows ++ rows
          startRow := paging.startRow
          fingerprints := paging.fingerprints ++ [rows]
          incompleteDates
          aggregation })

/-- The pages that may still be asked for. -/
def queryPages (lower : String → String) (config : GSCClientConfig) (request : GSCRequest) :
    Nat → Paging ρ → GscProc ρ (Paging ρ)
  | 0, _ => throw (refusal "GSC pagination limit reached; refusing partial response")
  | left + 1, paging => do
      let page ← requestPage lower config paging.startRow
      let taken ← Prog.ofExcept (takePage request paging page)
      if taken.1.length < request.rowLimit then pure taken.2
      else
        queryPages lower config request left
          { taken.2 with startRow := taken.2.startRow + request.rowLimit }

structure RawPayload (ρ : Type) where
  startDate : Int
  endDate : Int
  rows : List ρ
  dimensions : List String
  dataState : String
  responseAggregationType : Option String
  firstIncompleteDate : Option Int

/-- `query`, up to the id and the time of the response; `row_limit` is the one it is called with,
if any. -/
def query (lower strip : String → String) (config : GSCClientConfig) (siteUrl : String)
    (startDate endDate : Int) (dimensions : List String) (rowLimit : Option Nat) :
    GscProc ρ (RawPayload ρ) := do
  let request : GSCRequest :=
    { siteUrl, startDate, endDate, dimensions, rowLimit := rowLimit.getD config.pageSize }
  Prog.ofExcept (request.validate strip)
  let paging ← queryPages lower config request config.maxPages {}
  pure {
    startDate
    endDate
    rows := paging.rows
    dimensions
    dataState := config.dataState
    responseAggregationType := paging.aggregation
    firstIncompleteDate := paging.incompleteDates.min? }

end SeoAgent.Gsc
