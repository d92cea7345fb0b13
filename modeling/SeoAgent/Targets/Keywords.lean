import Mathlib.Data.List.Sort

/-!
# Target keywords

The record of a site's target words (`app/models/target_keywords.py`), the words
of a model's answer (`parse_keyword_answer`), and every change that is made to the
record: `add_keyword`, `set_status`, `set_brief`, `suggest` and `propose_title` of
`app/api/target_routes.py`, and the suggestion job and the rank check of
`app/targets/handler.py`.

Each change is a function of the set it is worked out from. What a request looks
up elsewhere before it turns to the set (the pages of the latest scan, the plan,
the requests of the tenant's other sites, the site's adapter, the run of an
earlier title) comes as the answer it got. Instants are microseconds.
-/

namespace SeoAgent.Targets

/-! ## The record -/

structure RankCheck where
  checkedAt : Int
  position : Option Nat
  url : Option String
deriving DecidableEq

inductive KeywordStatus
  | suggested
  | confirmed
  | dismissed
deriving DecidableEq

inductive KeywordSource
  | model
  | customer
deriving DecidableEq

inductive KeywordIntent
  | transactional
  | commercial
  | informational
  | navigational
deriving DecidableEq

structure TargetKeyword where
  keyword : String
  url : String
  status : KeywordStatus := .suggested
  source : KeywordSource := .model
  intent : Option KeywordIntent := none
  reason : Option String := none
  checks : List RankCheck := []
  addedAt : Int
  titleRunId : Option String := none
  titleRequestedAt : Option Int := none
deriving DecidableEq

inductive SuggestionStatus
  | idle
  | running
  | failed
deriving DecidableEq

structure TargetKeywordSet where
  siteId : String
  tenantId : String
  description : String := ""
  seeds : List String := []
  keywords : List TargetKeyword := []
  suggestionStatus : SuggestionStatus := .idle
  suggestionJobId : Option String := none
  suggestedAt : Option Int := none
  suggestionError : Option String := none
  suggestRequests : List Int := []
  titleRequests : List Int := []
  updatedAt : Int
deriving DecidableEq

/-! ## The limits -/

def maxWords : Nat := 100
def maxConfirmed : Nat := 20
def keptChecks : Nat := 26
def keptRequests : Nat := 50
def minute : Int := 60 * 1000000
def suggestCooldown : Int := 10 * minute
def suggestStaleAfter : Int := 15 * minute
def suggestsPerTenantPerDay : Nat := 10
def titleCooldown : Int := 30 * minute
def titleStaleAfter : Int := 15 * minute
def titlesPerTenantPerDay : Nat := 20
def rankEvery : Int := 7 * 24 * 60 * minute

/-- The last `n` elements: `xs[-n:]`. -/
def lastOf {α : Type} (n : Nat) (xs : List α) : List α := xs.drop (xs.length - n)

/-- The list with room for `wanted` more words, made by forgetting the oldest
dismissed ones. -/
def makeRoom (keywords : List TargetKeyword) (wanted : Nat) : List TargetKeyword :=
  let excess := keywords.length + wanted - maxWords
  if excess = 0 then keywords
  else
    let dismissed := (keywords.filter fun item => item.status = .dismissed).insertionSort
      fun a b => a.addedAt ≤ b.addedAt
    let forgotten := (dismissed.take excess).map TargetKeyword.keyword
    keywords.filter fun item => item.keyword ∉ forgotten

/-! ## The words of an answer -/

/-- An item of the model's answer that is one: `KeywordSuggestionPayload`. -/
structure KeywordSuggestionPayload where
  keyword : String
  url : String
  intent : KeywordIntent
  reason : String

structure KeywordSuggestion where
  keyword : String
  url : String
  intent : KeywordIntent
  reason : String
deriving DecidableEq

def maxKeywords : Nat := 20
def perPage : Nat := 3
def maxAnswerItems : Nat := 60

variable (normalizeQuery : String → String)

/-- One item of an answer after those that were kept. An item that is not the
schema is nothing; `known` gives the page that was shown for an address. -/
def keepItem (known : String → Option String) (clean : String → String)
    (kept : List KeywordSuggestion) :
    Option KeywordSuggestionPayload → List KeywordSuggestion
  | none => kept
  | some item =>
      let keyword := normalizeQuery item.keyword
      match known item.url with
      | none => kept
      | some url =>
          if keyword = "" ∨ 80 < keyword.length ∨ keyword ∈ kept.map KeywordSuggestion.keyword then
            kept
          else if perPage ≤ (kept.filter fun k => k.url = url).length ∨
              maxKeywords ≤ kept.length then
            kept
          else kept ++ [⟨keyword, url, item.intent, clean item.reason⟩]

/-- `parse_keyword_answer`, of an answer that is a list of items. -/
def parseKeywordAnswer (known : String → Option String) (clean : String → String)
    (items : List (Option KeywordSuggestionPayload)) : List KeywordSuggestion :=
  (items.take maxAnswerItems).foldl (keepItem normalizeQuery known clean) []

/-! ## Requests -/

inductive HttpError
  | conflict (detail : String)
  | notFound (detail : String)
  | unprocessable (detail : String)
  | tooMany (detail : String)
deriving DecidableEq

def isConfirmed (item : TargetKeyword) : Bool := item.status = .confirmed

def confirmedCount (keywords : List TargetKeyword) : Nat := keywords.countP isConfirmed

/-- The list with one word's entry changed. -/
def updateWord (keywords : List TargetKeyword) (word : String)
    (f : TargetKeyword → TargetKeyword) : List TargetKeyword :=
  keywords.map fun item => if item.keyword = word then f item else item

def findKeyword (current : TargetKeywordSet) (word : String) : Option TargetKeyword :=
  current.keywords.find? fun item => item.keyword = normalizeQuery word

def mostKeywords : HttpError :=
  .conflict "This site already has the most target keywords it can have."

/-- `add_keyword`, for the address of a page the scan read. -/
def addKeyword (keyword url : String) (now : Int) (current : TargetKeywordSet) :
    Except HttpError TargetKeywordSet :=
  let word := normalizeQuery keyword
  if word = "" ∨ 80 < word.length then .error (.unprocessable "The keyword is empty.")
  else
    match current.keywords.find? fun item => item.keyword = word with
    | some existing =>
        if existing.status ≠ .confirmed ∧ maxConfirmed ≤ confirmedCount current.keywords then
          .error mostKeywords
        else
          let added := { existing with url := url, status := .confirmed, source := .customer }
          .ok { current with
            keywords := updateWord current.keywords word fun _ => added, updatedAt := now }
    | none =>
        if maxConfirmed ≤ confirmedCount current.keywords then .error mostKeywords
        else
          .ok { current with
            keywords := makeRoom current.keywords 1 ++ [{
              keyword := word, url := url, status := .confirmed, source := .customer,
              addedAt := now }],
            updatedAt := now }

def setStatus (keyword : String) (status : KeywordStatus) (now : Int)
    (current : TargetKeywordSet) : Except HttpError TargetKeywordSet :=
  match findKeyword normalizeQuery current keyword with
  | none => .error (.notFound "No such target keyword.")
  | some item =>
      if status = .confirmed ∧ item.status ≠ .confirmed ∧
          maxConfirmed ≤ confirmedCount current.keywords then
        .error mostKeywords
      else
        .ok { current with
          keywords := updateWord current.keywords item.keyword fun entry =>
            { entry with status := status },
          updatedAt := now }

/-- `set_brief`; `description` has no blanks at its ends. -/
def setBrief (description : String) (seeds : List String) (now : Int)
    (current : TargetKeywordSet) : Except HttpError TargetKeywordSet :=
  .ok { current with
    description := description,
    seeds := ((seeds.map normalizeQuery).filter fun word => word ≠ "").reverse.dedup.reverse,
    updatedAt := now }

/-- `suggest`, with the number of suggestions the tenant asked for today. -/
def suggest (jobId : String) (tenantRequests : Nat) (now : Int) (current : TargetKeywordSet) :
    Except HttpError TargetKeywordSet :=
  if current.suggestionStatus = .running ∧ now - current.updatedAt < suggestStaleAfter then
    .error (.conflict "Suggestions for this site are already being made.")
  else if ∃ last ∈ current.suggestRequests.getLast?, now - last < suggestCooldown then
    .error (.tooMany "Words were suggested a moment ago.")
  else if suggestsPerTenantPerDay ≤ tenantRequests then
    .error (.tooMany "Too many suggestions asked for today.")
  else
    .ok { current with
      suggestionStatus := .running,
      suggestionJobId := some jobId,
      suggestionError := none,
      suggestRequests := lastOf keptRequests (current.suggestRequests ++ [now]),
      updatedAt := now }

/-- `propose_title`, with whether the run of the last title is unfinished and the
number of titles the tenant asked for today. -/
def proposeTitle (keyword runId : String) (unfinished : Bool) (tenantRequests : Nat) (now : Int)
    (current : TargetKeywordSet) : Except HttpError TargetKeywordSet :=
  match findKeyword normalizeQuery current keyword with
  | none => .error (.notFound "No such target keyword.")
  | some item =>
      if item.status ≠ .confirmed then
        .error (.conflict "Keep the keyword first, then ask for a title.")
      else if unfinished ∧ item.titleRunId.isSome ∧
          ∃ last ∈ item.titleRequestedAt, now - last < titleStaleAfter then
        .error (.conflict "A title for this keyword is already being made.")
      else if ∃ last ∈ item.titleRequestedAt, now - last < titleCooldown then
        .error (.tooMany "A title for this keyword was asked for a moment ago.")
      else if titlesPerTenantPerDay ≤ tenantRequests then
        .error (.tooMany "Too many titles asked for today.")
      else
        let asked := { item with titleRunId := some runId, titleRequestedAt := some now }
        .ok { current with
          keywords := updateWord current.keywords item.keyword fun _ => asked,
          titleRequests := lastOf keptRequests (current.titleRequests ++ [now]),
          updatedAt := now }

/-! ## The suggestion job -/

/-- The set still waits for this job. -/
def mine (current : TargetKeywordSet) (jobId : String) : Prop :=
  current.suggestionStatus = .running ∧ current.suggestionJobId = some jobId

instance (current : TargetKeywordSet) (jobId : String) : Decidable (mine current jobId) :=
  inferInstanceAs (Decidable (_ ∧ _))

/-- The change of `fail`. -/
def failSuggestion (jobId error : String) (now : Int) (current : TargetKeywordSet) :
    Option TargetKeywordSet :=
  if mine current jobId then
    some { current with
      suggestionStatus := .failed, suggestionError := some error, updatedAt := now }
  else none

/-- The change of the job: what the customer decided stays, the earlier
suggestions give way to the new ones. -/
def keepSuggestions (jobId : String) (found : List KeywordSuggestion) (now : Int)
    (latest : TargetKeywordSet) : Option TargetKeywordSet :=
  if mine latest jobId then
    let decided := latest.keywords.filter fun item => item.status ≠ .suggested
    let taken := decided.map TargetKeyword.keyword
    let fresh := (found.filter fun item => item.keyword ∉ taken).map fun item =>
      ({ keyword := item.keyword, url := item.url, intent := some item.intent,
         reason := if item.reason = "" then none else some item.reason,
         addedAt := now } : TargetKeyword)
    let decided := makeRoom decided fresh.length
    some { latest with
      keywords := decided ++ fresh.take (maxWords - decided.length),
      suggestionStatus := .idle,
      suggestionError := none,
      suggestedAt := some now,
      updatedAt := now }
  else none

/-! ## The rank check -/

/-- What a search for a word gave: when, and the first result of the site. -/
structure Standing where
  fetchedAt : Int
  mine : Option (Nat × String)

/-- The confirmed words whose last check is a week old. -/
def isDue (now : Int) (item : TargetKeyword) : Prop :=
  item.status = .confirmed ∧ ∀ last ∈ item.checks.getLast?, rankEvery ≤ now - last.checkedAt

instance (now : Int) (item : TargetKeyword) : Decidable (isDue now item) :=
  inferInstanceAs (Decidable (_ ∧ ∀ last ∈ item.checks.getLast?, _))

/-- The checks of a round for one site: one search for each due word, as many as
the round has left; a search that raises ends the round. -/
def lookUp (search : String → Option Standing) : List TargetKeyword → List (String × RankCheck)
  | [] => []
  | item :: due =>
      match search item.keyword with
      | none => []
      | some snapshot =>
          if ∃ last ∈ item.checks.getLast?, snapshot.fetchedAt ≤ last.checkedAt then
            lookUp search due
          else (item.keyword, ⟨snapshot.fetchedAt, snapshot.mine.map Prod.fst,
            snapshot.mine.map Prod.snd⟩) :: lookUp search due

/-- What one round finds for the set it was listed with. -/
def foundChecks (search : String → Option Standing) (left : Nat) (now : Int)
    (listed : TargetKeywordSet) : List (String × RankCheck) :=
  lookUp search ((listed.keywords.filter fun item => isDue now item).take left)

/-- One word with its new check, when that is newer than what is there. -/
def withCheck (found : List (String × RankCheck)) (item : TargetKeyword) : TargetKeyword :=
  match found.lookup item.keyword with
  | none => item
  | some check =>
      if ∀ last ∈ item.checks.getLast?, last.checkedAt < check.checkedAt then
        { item with checks := lastOf keptChecks (item.checks ++ [check]) }
      else item

/-- The change of `_save`. -/
def saveChecks (found : List (String × RankCheck)) (latest : TargetKeywordSet) :
    Option TargetKeywordSet :=
  let updated := latest.keywords.map (withCheck found)
  if found = [] ∨ updated = latest.keywords then none
  else some { latest with keywords := updated }

end SeoAgent.Targets
