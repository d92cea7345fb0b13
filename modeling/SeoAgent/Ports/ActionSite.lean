import SeoAgent.Ports.Aggregates

/-!
# The customer's site

What the action processes talk to besides the repository: the tenant's plan,
the stored site, the adapter built for it, the page, and the measurement of an
action.

The site keeps the renderings of a page, newest first, and a read gives any of
them, because a page cache may still serve an older one until it expires. A
write under an idempotency key that was accepted before changes nothing and
answers with the original change id; a write may also be accepted and its answer
lost.
-/

namespace SeoAgent.Ports

open Verified

/-! ## Adapters -/

/-- `ExecutionCapability`. -/
inductive ExecutionCapability
  | readPage
  | updateTitle
  | updateMetaDescription
  | updateContent
  | updateInternalLinks
  | publishContent
  | rollbackChange
  deriving DecidableEq, Repr

/-- The stored text of a capability. -/
def ExecutionCapability.value : ExecutionCapability → String
  | readPage => "read_page"
  | updateTitle => "update_title"
  | updateMetaDescription => "update_meta_description"
  | updateContent => "update_content"
  | updateInternalLinks => "update_internal_links"
  | publishContent => "publish_content"
  | rollbackChange => "rollback_change"

open ExecutionCapability in
/-- `required_capabilities_for_action`. -/
def requiredCapabilities : ActionType → List ExecutionCapability
  | .optimizeTitle => [updateTitle]
  | .optimizeMetaDescription => [updateMetaDescription]
  | .investigateCannibalization => [readPage]
  | .improveInternalLinking => [readPage, updateInternalLinks]
  | .improveContentDepth => [readPage, updateContent]
  | .monitor => [readPage]

/-- A stored site, with the connection its changes go through. -/
structure Site where
  siteId : String
  adapterType : Option String
  deriving DecidableEq

/-- What the executor asks an adapter about itself. -/
structure Adapter where
  adapterId : String
  capabilities : List ExecutionCapability
  manualApply : Bool
  exactRollback : Bool
  deriving DecidableEq

/-- The capabilities an action needs and an adapter lacks. -/
def missingCapabilities (action : Action) (adapter : Adapter) :
    List ExecutionCapability :=
  (requiredCapabilities action.actionType).filter
    fun c => !adapter.capabilities.contains c

/-- `AdapterOperationResult`, with the fields the executor reads. -/
structure OperationResult where
  success : Bool
  message : String
  changeId : Option String
  deriving DecidableEq

/-! ## Operations -/

/-- What the action processes ask of the outside. An adapter is built for the
stored site with an id. -/
inductive SiteOp
  | requirePlan (tenantId : String)
  | getSite (siteId : String)
  | buildAdapter (siteId : String)
  | readPage (siteId url : String)
  | write (siteId url : String) (field : PageField) (value key : String)
  | rollbackChange (siteId url changeId key : String)
  | evaluate (managed : ManagedAction)
  deriving DecidableEq

@[reducible] def SiteOp.Res : SiteOp → Type
  | requirePlan _ => Unit
  | getSite _ => Site
  | buildAdapter _ => Adapter
  | readPage _ _ => SitePage
  | write _ _ _ _ _ => OperationResult
  | rollbackChange _ _ _ _ => OperationResult
  | evaluate _ => Option Outcome

/-- How an operation of the outside comes out. An accepted change gets the
given change id, unless it is a repeated one. -/
inductive SiteChoice
  | raises (exc : Exc)
  | allowed
  | site (site : Site)
  | adapter (adapter : Adapter)
  | shows (age : Nat) (metadata : List (String × Option String))
  | accepts (changeId : Option String)
  | acceptsLost (changeId : Option String) (exc : Exc)
  | refuses (message : String)
  | evaluated (outcome : Option Outcome)

/-! ## The site's own state -/

/-- A change the site has accepted. -/
structure AcceptedChange where
  key : String
  siteId : String
  url : String
  field : PageField
  before : String
  value : String
  changeId : Option String
  deriving DecidableEq

/-- The renderings of every page, newest first, and every accepted change. -/
structure SiteState where
  shown : String → String → List SitePage
  accepted : List AcceptedChange

/-- A page with another value in one field. -/
def SitePage.withField (page : SitePage) (field : PageField) (value : String) :
    SitePage :=
  match field with
  | .title => { page with title := value }
  | .description => { page with metaDescription := value }

namespace SiteState

/-- Sites as they are before anything was changed. -/
def untouched (pages : String → String → SitePage) : SiteState :=
  { shown := fun siteId url => [pages siteId url], accepted := [] }

/-- A page's next rendering. -/
def render (s : SiteState) (siteId url : String) (page : SitePage) : SiteState :=
  { s with
    shown := fun siteId' url' =>
      if siteId' = siteId ∧ url' = url then page :: s.shown siteId' url'
      else s.shown siteId' url' }

/-- The caches of a page expire: only its newest rendering is left. -/
def expire (s : SiteState) (siteId url : String) : SiteState :=
  { s with
    shown := fun siteId' url' =>
      if siteId' = siteId ∧ url' = url then (s.shown siteId' url').take 1
      else s.shown siteId' url' }

/-- The change accepted under a key. -/
def change? (s : SiteState) (key : String) : Option AcceptedChange :=
  s.accepted.find? fun change => change.key = key

/-- Accepts a write: once for each key. -/
def accept (s : SiteState) (siteId url : String) (field : PageField)
    (value key : String) (changeId : Option String) :
    Option (OperationResult × SiteState) :=
  match s.change? key with
  | some change => some (⟨true, "", change.changeId⟩, s)
  | none =>
      match s.shown siteId url with
      | [] => none
      | page :: _ =>
          let after := s.render siteId url (page.withField field value)
          some (⟨true, "", changeId⟩,
            { after with
              accepted := ⟨key, siteId, url, field, field.onPage page, value,
                changeId⟩ :: s.accepted })

/-- Accepts the undoing of the change with an id, through the site's own record
of it. -/
def undo (s : SiteState) (siteId url changeId key : String)
    (undoId : Option String) : Option (OperationResult × SiteState) :=
  match s.accepted.find? fun change => change.changeId = some changeId with
  | some change => s.accept siteId url change.field change.before key undoId
  | none => none

end SiteState

/-! ## The outside -/

/-- One operation. -/
def siteExec (s : SiteState) :
    (o : SiteOp) → SiteChoice → Option (Except Exc o.Res × SiteState)
  | .requirePlan _, .allowed => some (.ok (), s)
  | .getSite _, .site site => some (.ok site, s)
  | .buildAdapter _, .adapter adapter => some (.ok adapter, s)
  | .readPage siteId url, .shows age metadata =>
      (s.shown siteId url)[age]?.map fun page =>
        (.ok { page with metadata }, s)
  | .write siteId url field value key, .accepts changeId =>
      (s.accept siteId url field value key changeId).map fun x => (.ok x.1, x.2)
  | .write siteId url field value key, .acceptsLost changeId exc =>
      (s.accept siteId url field value key changeId).map fun x => (.error exc, x.2)
  | .write _ _ _ _ _, .refuses message => some (.ok ⟨false, message, none⟩, s)
  | .rollbackChange siteId url changeId key, .accepts undoId =>
      (s.undo siteId url changeId key undoId).map fun x => (.ok x.1, x.2)
  | .rollbackChange siteId url changeId key, .acceptsLost undoId exc =>
      (s.undo siteId url changeId key undoId).map fun x => (.error exc, x.2)
  | .rollbackChange _ _ _ _, .refuses message => some (.ok ⟨false, message, none⟩, s)
  | .evaluate _, .evaluated outcome => some (.ok outcome, s)
  | _, .raises exc => some (.error exc, s)
  | _, _ => none

/-- What happens to a page by itself: its owner edits it, or its caches
expire. -/
inductive PageEvent
  | edit (siteId url : String) (page : SitePage)
  | expire (siteId url : String)

/-- A page after an event. -/
def SiteState.happen (s : SiteState) : PageEvent → SiteState
  | .edit siteId url page => s.render siteId url page
  | .expire siteId url => s.expire siteId url

/-- The site and the services around it. -/
@[reducible] def actionSite : Outside Exc where
  Op := SiteOp
  Res := SiteOp.Res
  State := SiteState
  Choice := SiteChoice
  Env := PageEvent
  exec := siteExec
  change := fun s event => some (s.happen event)

/-! ## What an operation does to the site -/

section
variable {s s' : SiteState}

@[simp] theorem accepted_render (siteId url : String) (page : SitePage) :
    (s.render siteId url page).accepted = s.accepted := rfl

/-- An accepted write is repeated, or new. -/
theorem accept_cases {siteId url : String} {field : PageField}
    {value key : String} {changeId : Option String} {r : OperationResult}
    (h : s.accept siteId url field value key changeId = some (r, s')) :
    r.success = true ∧
      ((∃ change, s.change? key = some change ∧ s' = s) ∨
        ∃ page older, s.change? key = none ∧
          s.shown siteId url = page :: older ∧
          s'.accepted = ⟨key, siteId, url, field, field.onPage page, value,
            changeId⟩ :: s.accepted ∧
          s'.shown = (s.render siteId url (page.withField field value)).shown) := by
  unfold SiteState.accept at h
  split at h
  · next change hc =>
      cases h
      exact ⟨rfl, .inl ⟨change, hc, rfl⟩⟩
  · next hc =>
      split at h
      · cases h
      · next page older hs =>
          cases h
          exact ⟨rfl, .inr ⟨page, older, hc, hs, rfl, rfl⟩⟩

theorem undo_accepts {siteId url changeId key : String}
    {undoId : Option String} {r : OperationResult}
    (h : s.undo siteId url changeId key undoId = some (r, s')) :
    ∃ field value, s.accept siteId url field value key undoId = some (r, s') := by
  unfold SiteState.undo at h
  split at h
  · next change _ => exact ⟨_, _, h⟩
  · cases h

/-- The key a change of the site is asked for under. -/
def SiteOp.key? : SiteOp → Option String
  | write _ _ _ _ key | rollbackChange _ _ _ key => some key
  | _ => none

/-- What one operation does to the site: nothing, or it accepts a change. -/
theorem siteExec_cases {o : SiteOp} {ch : SiteChoice} {r : Except Exc o.Res}
    (h : siteExec s o ch = some (r, s')) :
    s' = s ∨
      (∃ siteId url field value key changeId result,
        o = .write siteId url field value key ∧
        s.accept siteId url field value key changeId = some (result, s')) ∨
      ∃ siteId url changeId key undoId result,
        o = .rollbackChange siteId url changeId key ∧
        s.undo siteId url changeId key undoId = some (result, s') := by
  unfold siteExec at h
  split at h
  case h_4 =>
    obtain ⟨page, -, hp⟩ := Option.map_eq_some_iff.mp h
    cases hp
    exact .inl rfl
  case h_5 siteId url field value key changeId =>
    obtain ⟨⟨result, s''⟩, hx, hr⟩ := Option.map_eq_some_iff.mp h
    cases hr
    exact .inr (.inl ⟨_, _, _, _, _, _, result, rfl, hx⟩)
  case h_6 siteId url field value key changeId exc =>
    obtain ⟨⟨result, s''⟩, hx, hr⟩ := Option.map_eq_some_iff.mp h
    cases hr
    exact .inr (.inl ⟨_, _, _, _, _, _, result, rfl, hx⟩)
  case h_8 siteId url changeId key undoId =>
    obtain ⟨⟨result, s''⟩, hx, hr⟩ := Option.map_eq_some_iff.mp h
    cases hr
    exact .inr (.inr ⟨_, _, _, _, _, result, rfl, hx⟩)
  case h_9 siteId url changeId key undoId exc =>
    obtain ⟨⟨result, s''⟩, hx, hr⟩ := Option.map_eq_some_iff.mp h
    cases hr
    exact .inr (.inr ⟨_, _, _, _, _, result, rfl, hx⟩)
  all_goals cases h
  all_goals exact .inl rfl

/-- A read gives one of the renderings, with metadata of its own. -/
theorem siteExec_readPage {siteId url : String} {ch : SiteChoice}
    {page : SitePage}
    (h : siteExec s (.readPage siteId url) ch = some (.ok page, s')) :
    s' = s ∧ ∃ rendering ∈ s.shown siteId url, ∀ field : PageField,
      field.onPage page = field.onPage rendering := by
  cases ch with
  | shows age metadata =>
      obtain ⟨rendering, hr, hp⟩ := Option.map_eq_some_iff.mp h
      cases hp
      refine ⟨rfl, rendering, List.mem_of_getElem? hr, fun field => ?_⟩
      cases field <;> rfl
  | _ => cases h

/-- A write answered with success was accepted. -/
theorem siteExec_write_ok {siteId url : String} {field : PageField}
    {value key : String} {ch : SiteChoice} {r : OperationResult}
    (h : siteExec s (.write siteId url field value key) ch = some (.ok r, s'))
    (hr : r.success = true) :
    ∃ changeId, s.accept siteId url field value key changeId = some (r, s') := by
  cases ch with
  | accepts changeId =>
      obtain ⟨⟨result, s''⟩, hx, hp⟩ := Option.map_eq_some_iff.mp h
      cases hp
      exact ⟨changeId, hx⟩
  | acceptsLost changeId exc =>
      obtain ⟨⟨result, s''⟩, hx, hp⟩ := Option.map_eq_some_iff.mp h
      cases hp
  | refuses message =>
      cases h
      cases hr
  | _ => cases h

end

end SeoAgent.Ports
