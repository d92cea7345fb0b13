import SeoAgent.Ports.TitleStore
import SeoAgent.Verified.UndoStack

/-!
# The history of a title

The changes in force form a stack over the override: each found what the one
before it left. A rollback is allowed when the override is the title of its
change, so the stack is taken back from the top as long as no later change in
force has that title (`OwnTitle`). The history is written after the override, so
a call that is interrupted between the two leaves them apart (`Whole`).

## Main results

* `held_of_calls` — the history is the end of the ledger, and the ledger's changes
  in force lead to the override.
* `rollbacks_last_in_first_out` — a rollback discards no newer change.
* `title_store_repeatable` — a repeated call changes nothing.
* `older_rolled_back`, `interrupted_apply` — the conditions are needed.
-/

namespace SeoAgent.Ports

open Verified

/-! ## Changes as they were recorded -/

/-- A change as it was recorded. -/
def TitleChange.asMade (entry : TitleChange) : TitleChange :=
  { entry with rolledBack := false }

@[simp] theorem TitleChange.asMade_changeId (entry : TitleChange) :
    entry.asMade.changeId = entry.changeId := rfl

@[simp] theorem TitleChange.asMade_idempotencyKey (entry : TitleChange) :
    entry.asMade.idempotencyKey = entry.idempotencyKey := rfl

@[simp] theorem TitleChange.asMade_previous (entry : TitleChange) :
    entry.asMade.previous = entry.previous := rfl

theorem TitleChange.asMade_of_inForce {entry : TitleChange}
    (h : entry.rolledBack = false) : entry.asMade = entry := by
  unfold TitleChange.asMade
  rw [← h]

/-- A change whose texts are stored as they are, and are not empty. -/
structure TitleChange.Stored (entry : TitleChange) : Prop where
  changeId : Php.Plain entry.changeId
  key : Php.Plain entry.idempotencyKey
  new : Php.Plain entry.new ∧ entry.new ≠ ""
  previous : ∀ t ∈ entry.previous, Php.Plain t ∧ t ≠ ""

theorem TitleChange.Stored.unslash {entry : TitleChange} (h : entry.Stored) :
    entry.unslash = entry := by
  obtain ⟨changeId, key, previous, new, rolledBack⟩ := entry
  simp only [TitleChange.unslash, Php.stripslashes_of_plain h.changeId,
    Php.stripslashes_of_plain h.key, Php.stripslashes_of_plain h.new.1]
  cases previous with
  | none => rfl
  | some t => rw [Option.map_some, Php.stripslashes_of_plain (h.previous t rfl).1]

theorem TitleChange.map_unslash {history : List TitleChange}
    (h : ∀ x ∈ history, x.Stored) : history.map TitleChange.unslash = history := by
  calc history.map TitleChange.unslash
      = history.map id := List.map_congr_left fun x hx => (h x hx).unslash
    _ = history := List.map_id _

namespace TitleStore

/-- The change a call recorded, when it reached the store. -/
def changed (wp : WordPress) (e : Event) : Option TitleChange :=
  if e.done = 0 then none else recorded wp e.before e.call

/-- The change a call took back, when it reached the store. -/
def takenBack (wp : WordPress) (e : Event) : Option TitleChange :=
  if e.done = 0 then none else undone wp e.before e.call

/-- All changes that were recorded, newest first. -/
def made (wp : WordPress) (past : List Event) : List TitleChange :=
  past.filterMap (changed wp)

/-- All changes that were recorded, oldest first, those taken back marked: the
history, if it were not cut. -/
def ledger (wp : WordPress) : List Event → List TitleChange
  | [] => []
  | e :: past =>
      match changed wp e, takenBack wp e with
      | some entry, _ => ledger wp past ++ [entry]
      | none, some entry => markRolledBack entry.changeId (ledger wp past)
      | none, none => ledger wp past

/-- The changes of a history that are in force. -/
def inForce (history : List TitleChange) : List TitleChange :=
  history.filter fun entry => !entry.rolledBack

/-- The changes of a history after a change. -/
def later (changeId : String) (history : List TitleChange) : List TitleChange :=
  (history.dropWhile fun entry => entry.changeId ≠ changeId).tail

/-- The title a change leaves. -/
def left (entry : TitleChange) : Option String := some entry.new

/-! ## The conditions -/

/-- A new change gets an id no change had. -/
def Fresh (wp : WordPress) (past : List Event) (e : Event) : Prop :=
  ∀ x ∈ recorded wp e.before e.call, ∀ y ∈ ledger wp past, y.changeId ≠ x.changeId

/-- A call is not interrupted between its two writes. -/
def Whole (wp : WordPress) (e : Event) : Prop :=
  e.done = 1 → (request wp e.before e.call).writes = []

/-- The texts of a new change are stored as they are. -/
def Unslashed (wp : WordPress) (e : Event) : Prop :=
  ∀ x ∈ recorded wp e.before e.call, Php.Plain x.new ∧ Php.Plain x.idempotencyKey ∧
    ∀ t ∈ x.previous, Php.Plain t

/-- No later change in force has the title of a change that is taken back. -/
def OwnTitle (wp : WordPress) (e : Event) : Prop :=
  ∀ x ∈ undone wp e.before e.call, ∀ y ∈ later x.changeId e.before.history,
    y.rolledBack = false → y.new ≠ x.new

/-- A key or a change that is named again is still in the history. -/
def Recent (wp : WordPress) (past : List Event) (e : Event) : Prop :=
  match e.call with
  | .apply _ _ key =>
      wp.sanitizeTextField key ∈ (ledger wp past).map TitleChange.idempotencyKey →
        wp.sanitizeTextField key ∈ e.before.history.map TitleChange.idempotencyKey
  | .rollback changeId =>
      wp.sanitizeTextField changeId ∈ (ledger wp past).map TitleChange.changeId →
        wp.sanitizeTextField changeId ∈ e.before.history.map TitleChange.changeId

/-- What a rollback needs to be right. -/
structure Orderly (wp : WordPress) (past : List Event) (e : Event) : Prop where
  fresh : Fresh wp past e
  whole : Whole wp e
  unslashed : Unslashed wp e
  ownTitle : OwnTitle wp e

/-- What repeated calls need to be right. -/
structure Repeatable (wp : WordPress) (past : List Event) (e : Event) : Prop
    extends Orderly wp past e where
  recent : Recent wp past e

section
variable (wp : WordPress) (past : List Event) (e : Event)

instance : Decidable (Fresh wp past e) := by unfold Fresh; infer_instance

instance : Decidable (Whole wp e) := by unfold Whole; infer_instance

instance : Decidable (Unslashed wp e) := by unfold Unslashed; infer_instance

instance : Decidable (OwnTitle wp e) := by unfold OwnTitle; infer_instance

instance : Decidable (Recent wp past e) := by unfold Recent; split <;> infer_instance

instance : Decidable (Orderly wp past e) :=
  decidable_of_iff (Fresh wp past e ∧ Whole wp e ∧ Unslashed wp e ∧ OwnTitle wp e)
    ⟨fun ⟨h₁, h₂, h₃, h₄⟩ => ⟨h₁, h₂, h₃, h₄⟩, fun ⟨h₁, h₂, h₃, h₄⟩ => ⟨h₁, h₂, h₃, h₄⟩⟩

instance : Decidable (Repeatable wp past e) :=
  decidable_of_iff (Orderly wp past e ∧ Recent wp past e)
    ⟨fun ⟨h₁, h₂⟩ => ⟨h₁, h₂⟩, fun ⟨h₁, h₂⟩ => ⟨h₁, h₂⟩⟩

end

/-! ## Lists of changes -/

section Lists
variable {history : List TitleChange} {entry : TitleChange} {changeId : String}

theorem kept_of_le (h : history.length ≤ historySize) : kept history = history := by
  unfold kept
  rw [Nat.sub_eq_zero_of_le h]
  rfl

theorem kept_suffix (history : List TitleChange) : kept history <:+ history :=
  List.drop_suffix _ _

theorem length_kept_le (history : List TitleChange) :
    (kept history).length ≤ historySize := by
  unfold kept
  rw [List.length_drop]
  omega

/-- A history that was cut before loses nothing else to a new entry. -/
theorem kept_kept_append (history : List TitleChange) (entry : TitleChange) :
    kept (kept history ++ [entry]) = kept (history ++ [entry]) := by
  unfold kept
  simp only [List.length_append, List.length_drop, List.length_singleton]
  rw [List.drop_append, List.drop_append, List.drop_drop]
  simp only [List.length_drop]
  unfold historySize
  congr 2 <;> omega

theorem markRolledBack_append {front back : List TitleChange}
    (h : ∀ x ∈ front, x.changeId ≠ changeId) :
    markRolledBack changeId (front ++ back) = front ++ markRolledBack changeId back := by
  induction front with
  | nil => rfl
  | cons x front ih =>
      rw [List.cons_append, markRolledBack, if_neg (h x (by simp)),
        ih fun y hy => h y (List.mem_cons_of_mem _ hy), List.cons_append]

theorem length_markRolledBack (changeId : String) (history : List TitleChange) :
    (markRolledBack changeId history).length = history.length := by
  induction history with
  | nil => rfl
  | cons entry history ih =>
      unfold markRolledBack
      split
      · rfl
      · rw [List.length_cons, ih, List.length_cons]

theorem map_asMade_markRolledBack (changeId : String) (history : List TitleChange) :
    (markRolledBack changeId history).map TitleChange.asMade =
      history.map TitleChange.asMade := by
  induction history with
  | nil => rfl
  | cons entry history ih =>
      unfold markRolledBack
      split
      · rfl
      · rw [List.map_cons, ih, List.map_cons]

/-- What is said of a change whether it is in force or not. -/
theorem map_eq_of_asMade {α : Type} {f : TitleChange → α} {h h' : List TitleChange}
    (hf : ∀ x : TitleChange, f x.asMade = f x)
    (heq : h.map TitleChange.asMade = h'.map TitleChange.asMade) : h.map f = h'.map f := by
  have hmap : ∀ l : List TitleChange, l.map f = (l.map TitleChange.asMade).map f := by
    intro l
    rw [List.map_map]
    exact List.map_congr_left fun x _ => (hf x).symm
  rw [hmap h, hmap h', heq]

theorem stored_markRolledBack (h : ∀ x ∈ history, x.Stored) :
    ∀ x ∈ markRolledBack changeId history, x.Stored := by
  intro x hx
  have hmade := List.mem_map_of_mem (f := TitleChange.asMade) hx
  rw [map_asMade_markRolledBack] at hmade
  obtain ⟨y, hy, hxy⟩ := List.mem_map.mp hmade
  obtain ⟨h₁, h₂, h₃, h₄⟩ := h y hy
  exact ⟨congrArg TitleChange.changeId hxy ▸ h₁, congrArg TitleChange.idempotencyKey hxy ▸ h₂,
    congrArg TitleChange.new hxy ▸ h₃, congrArg TitleChange.previous hxy ▸ h₄⟩

/-- What was cut from a history is about other changes than what is kept. -/
theorem cut_of_mem_kept (hn : (history.map TitleChange.changeId).Nodup)
    (hmem : entry ∈ kept history) :
    ∃ front, front ++ kept history = history ∧ front.length = history.length - historySize ∧
      ∀ x ∈ front, x.changeId ≠ entry.changeId := by
  obtain ⟨front, hfront⟩ := kept_suffix history
  refine ⟨front, hfront, ?_, ?_⟩
  · have := congrArg List.length hfront
    rw [List.length_append, kept, List.length_drop] at this
    omega
  · intro x hx he
    rw [← hfront, List.map_append] at hn
    exact (List.nodup_append.mp hn).2.2 _ (List.mem_map_of_mem hx) _
      (List.mem_map_of_mem hmem) he

/-- A change of the history is marked there as in the whole ledger. -/
theorem kept_markRolledBack (hn : (history.map TitleChange.changeId).Nodup)
    (hmem : entry ∈ kept history) :
    kept (markRolledBack entry.changeId history) =
      markRolledBack entry.changeId (kept history) := by
  obtain ⟨front, hfront, hlen, hout⟩ := cut_of_mem_kept hn hmem
  have hmark : markRolledBack entry.changeId history =
      front ++ markRolledBack entry.changeId (kept history) := by
    rw [← markRolledBack_append hout, hfront]
  calc kept (markRolledBack entry.changeId history)
      = (markRolledBack entry.changeId history).drop front.length := by
        rw [kept, length_markRolledBack, hlen]
    _ = markRolledBack entry.changeId (kept history) := by
        rw [hmark, List.drop_left]

/-- What comes after a change of the history is all that comes after it. -/
theorem later_kept (hn : (history.map TitleChange.changeId).Nodup)
    (hmem : entry ∈ kept history) :
    later entry.changeId (kept history) = later entry.changeId history := by
  obtain ⟨front, hfront, -, hout⟩ := cut_of_mem_kept hn hmem
  have hdrop : (front ++ kept history).dropWhile (fun x => x.changeId ≠ entry.changeId) =
      (kept history).dropWhile fun x => x.changeId ≠ entry.changeId :=
    List.dropWhile_append_of_pos fun x hx => decide_eq_true (hout x hx)
  rw [hfront] at hdrop
  unfold later
  rw [hdrop]

/-- Marking a change takes it out of those in force. -/
theorem inForce_markRolledBack (hn : (history.map TitleChange.changeId).Nodup) :
    inForce (markRolledBack changeId history) =
      (inForce history).filter fun entry => entry.changeId ≠ changeId := by
  induction history with
  | nil => rfl
  | cons entry history ih =>
      rw [List.map_cons, List.nodup_cons] at hn
      unfold markRolledBack
      by_cases hid : entry.changeId = changeId
      · have hkeep : (inForce history).filter (fun x => x.changeId ≠ changeId) =
            inForce history := by
          refine List.filter_eq_self.mpr fun x hx => ?_
          have hx' : x.changeId ≠ changeId := fun he =>
            hn.1 (hid ▸ he ▸ List.mem_map.mpr ⟨x, List.mem_of_mem_filter hx, rfl⟩)
          simpa using hx'
        rw [if_pos hid]
        unfold inForce at hkeep ⊢
        rw [List.filter_cons_of_neg (by simp), List.filter_cons]
        split
        · rw [List.filter_cons_of_neg (by simpa using hid), hkeep]
        · rw [hkeep]
      · rw [if_neg hid]
        unfold inForce at ih ⊢
        rw [List.filter_cons, List.filter_cons, ih hn.2]
        split
        · rw [List.filter_cons_of_pos (by simpa using hid)]
        · rfl

/-- What is before a change, the change, and what is after it. -/
theorem split_later (hn : (history.map TitleChange.changeId).Nodup)
    (hmem : entry ∈ history) :
    ∃ front, history = front ++ entry :: later entry.changeId history ∧
      ∀ x ∈ later entry.changeId history, x.changeId ≠ entry.changeId := by
  obtain ⟨front, back, rfl⟩ := List.append_of_mem hmem
  rw [List.map_append, List.map_cons] at hn
  obtain ⟨-, hback, hout⟩ := List.nodup_append.mp hn
  have hlater : later entry.changeId (front ++ entry :: back) = back := by
    unfold later
    rw [List.dropWhile_append_of_pos fun x hx =>
        decide_eq_true (hout _ (List.mem_map_of_mem hx) _ (by simp)),
      List.dropWhile_cons_of_neg (by simp), List.tail_cons]
  rw [hlater]
  exact ⟨front, rfl, fun x hx he =>
    (List.nodup_cons.mp hback).1 (he ▸ List.mem_map_of_mem hx)⟩

/-- The last change in force, seen from one in force. -/
theorem inForce_split {front : List TitleChange} {last : TitleChange}
    (hn : (history.map TitleChange.changeId).Nodup) (hmem : entry ∈ history)
    (hentry : entry.rolledBack = false) (hlast : inForce history = front ++ [last]) :
    inForce (later entry.changeId history) = [] ∧ entry = last ∨
      last ∈ inForce (later entry.changeId history) := by
  obtain ⟨before, hsplit, -⟩ := split_later hn hmem
  have hforce : inForce history =
      inForce before ++ entry :: inForce (later entry.changeId history) := by
    conv_lhs => rw [hsplit]
    unfold inForce
    rw [List.filter_append, List.filter_cons_of_pos (by simpa using hentry)]
  rw [hlast] at hforce
  rcases List.eq_nil_or_concat (inForce (later entry.changeId history)) with
    hnil | ⟨l, z, hz⟩
  · rw [hnil] at hforce
    exact .inl ⟨hnil, (List.append_singleton_inj.mp hforce).2.symm⟩
  · rw [List.concat_eq_append] at hz
    rw [hz, ← List.cons_append, ← List.append_assoc] at hforce
    rw [hz, (List.append_singleton_inj.mp hforce).2]
    exact .inr (by simp)

/-- A change that is not the last one in force has one in force after it. -/
theorem mem_later {front : List TitleChange} {last : TitleChange}
    (hn : (history.map TitleChange.changeId).Nodup) (hmem : entry ∈ history)
    (hentry : entry.rolledBack = false) (hlast : inForce history = front ++ [last])
    (hne : entry ≠ last) : last ∈ later entry.changeId history := by
  rcases inForce_split hn hmem hentry hlast with ⟨-, heq⟩ | hin
  · exact absurd heq hne
  · exact List.mem_of_mem_filter hin

/-- Nothing is in force after the last change in force. -/
theorem later_of_last {front : List TitleChange}
    (hn : (history.map TitleChange.changeId).Nodup) (hmem : entry ∈ history)
    (hentry : entry.rolledBack = false) (hlast : inForce history = front ++ [entry]) :
    ∀ y ∈ later entry.changeId history, y.rolledBack = true := by
  obtain ⟨-, -, hout⟩ := split_later hn hmem
  intro y hy
  rcases inForce_split hn hmem hentry hlast with ⟨hnil, -⟩ | hin
  · by_contra hforce
    have : y ∈ inForce (later entry.changeId history) :=
      List.mem_filter.mpr ⟨hy, by simpa using hforce⟩
    rw [hnil] at this
    cases this
  · exact absurd rfl (hout entry (List.mem_of_mem_filter hin))

end Lists

/-! ## What is held over a run -/

section Calls
variable {wp : WordPress} {title : Option String} {past : List Event} {post : PostMeta}

/-- The ledger lists what the calls recorded. -/
theorem ledger_asMade (h : ∀ e ∈ past, ∀ x ∈ changed wp e, x.rolledBack = false) :
    (ledger wp past).map TitleChange.asMade = (made wp past).reverse := by
  induction past with
  | nil => rfl
  | cons e past ih =>
      have ih' := ih fun e' he' => h e' (List.mem_cons_of_mem _ he')
      unfold ledger made
      cases hc : changed wp e with
      | some x =>
          have hx := TitleChange.asMade_of_inForce (h e (by simp) x hc)
          rw [List.filterMap_cons_some hc, List.reverse_cons, List.map_append, ih']
          simp only [List.map_cons, List.map_nil, hx]
          rfl
      | none =>
          rw [List.filterMap_cons_none hc]
          cases ht : takenBack wp e with
          | some x => exact (map_asMade_markRolledBack _ _).trans ih'
          | none => exact ih'

/-- What the post holds after some calls. -/
structure Held (wp : WordPress) (title : Option String) (past : List Event)
    (post : PostMeta) : Prop where
  history : post.history = kept (ledger wp past)
  ids : ((ledger wp past).map TitleChange.changeId).Nodup
  stored : ∀ x ∈ ledger wp past, x.Stored
  stacked : Stacked TitleChange.previous left (get ⟨title, []⟩)
    (inForce (ledger wp past)) (get post)

/-- What a call did: nothing, or all it was going to do. -/
inductive Effect (wp : WordPress) (e : Event) : Prop
  | nothing (after : e.after wp = e.before) (changed : changed wp e = none)
      (takenBack : takenBack wp e = none)
  | records (entry : TitleChange) (changed : changed wp e = some entry)
      (recording : Recording wp e.before e.call entry)
      (after : e.after wp = MetaWrite.perform
        (MetaWrite.perform e.before (.updateTitle entry.new))
        (saveHistory (e.before.history ++ [entry])))
  | takesBack (entry : TitleChange) (changed : changed wp e = none)
      (takenBack : takenBack wp e = some entry) (undoing : Undoing wp e.before e.call entry)
      (after : e.after wp = MetaWrite.perform
        (MetaWrite.perform e.before (restore entry.previous))
        (saveHistory (markRolledBack entry.changeId e.before.history)))

theorem Whole.effect {e : Event} (h : Whole wp e) : Effect wp e := by
  by_cases hzero : e.done = 0
  · refine .nothing ?_ (if_pos hzero) (if_pos hzero)
    rw [Event.after, hzero]
    rfl
  have htake : (request wp e.before e.call).writes.length = 2 →
      e.after wp = (request wp e.before e.call).writes.foldl MetaWrite.perform e.before := by
    intro hlen
    have hne : e.done ≠ 1 := fun hone => by
      rw [h hone] at hlen
      cases hlen
    rw [Event.after, List.take_of_length_le (by omega)]
  have hcases : Silent wp e.before e.call ∨ _ := request_cases e.call
  rcases hcases with ⟨hw, hr, hu⟩ | ⟨x, hr, hu, hx⟩ | ⟨x, hr, hu, hx⟩
  · refine .nothing ?_ ((if_neg hzero).trans hr) ((if_neg hzero).trans hu)
    rw [Event.after, hw, List.take_nil]
    rfl
  · refine .records x ((if_neg hzero).trans hr) hx ?_
    rw [htake (by rw [hx.writes]; rfl), hx.writes]
    rfl
  · refine .takesBack x ((if_neg hzero).trans hr) ((if_neg hzero).trans hu) hx ?_
    rw [htake (by rw [hx.writes]; rfl), hx.writes]
    rfl

theorem get_nonempty {t : String} (h : get post = some t) : t ≠ "" := by
  have := (Option.filter_eq_some_iff.mp h).2
  simpa using this

/-- The title of a stored change becomes the override. -/
theorem get_update {t : String} (h : Php.Plain t ∧ t ≠ "") (write : MetaWrite)
    (hw : ∀ p : PostMeta, (MetaWrite.perform p write).title = p.title) :
    get (MetaWrite.perform (MetaWrite.perform post (.updateTitle t)) write) = some t := by
  unfold get
  rw [hw]
  show (some (Php.stripslashes t)).filter _ = _
  rw [Php.stripslashes_of_plain h.1]
  simp [h.2]

/-- The override before a stored change comes back. -/
theorem get_restore {previous : Option String}
    (h : ∀ t ∈ previous, Php.Plain t ∧ t ≠ "") (write : MetaWrite)
    (hw : ∀ p : PostMeta, (MetaWrite.perform p write).title = p.title) :
    get (MetaWrite.perform (MetaWrite.perform post (restore previous)) write) =
      previous := by
  cases previous with
  | none =>
      unfold get
      rw [hw]
      rfl
  | some t => exact get_update (h t rfl) write hw

/-- A change that is taken back is the last one in force. -/
theorem Held.last {e : Event} (h : Held wp title past e.before) (own : OwnTitle wp e)
    {entry : TitleChange} (hu : undone wp e.before e.call = some entry)
    (hx : Undoing wp e.before e.call entry) :
    ∃ front, inForce (ledger wp past) = front ++ [entry] := by
  have hmem : entry ∈ kept (ledger wp past) := h.history ▸ List.mem_of_find?_eq_some hx.found
  have hall : entry ∈ ledger wp past := (kept_suffix _).mem hmem
  have hin : entry ∈ inForce (ledger wp past) :=
    List.mem_filter.mpr ⟨hall, by simpa using hx.inForce⟩
  rcases List.eq_nil_or_concat (inForce (ledger wp past)) with hnil | ⟨front, last, hlast⟩
  · rw [hnil] at hin
    cases hin
  rw [List.concat_eq_append] at hlast
  have htop : get e.before = left last := (hlast ▸ h.stacked).pop.1
  by_cases hne : entry = last
  · exact ⟨front, hne ▸ hlast⟩
  · have hforce : last ∈ inForce (ledger wp past) := by rw [hlast]; simp
    have hlater : last ∈ later entry.changeId e.before.history := by
      rw [h.history, later_kept h.ids hmem]
      exact mem_later h.ids hall hx.inForce hlast hne
    have htitle : last.new = entry.new :=
      Option.some.inj (htop.symm.trans hx.current)
    exact absurd htitle
      (own entry hu last hlater (by simpa using (List.mem_filter.mp hforce).2))

/-- What a new change finds is stored as it is. -/
theorem Recording.stored {call : Call} {entry : TitleChange}
    (hx : Recording wp post call entry)
    (hplain : Php.Plain entry.new ∧ Php.Plain entry.idempotencyKey ∧
      ∀ t ∈ entry.previous, Php.Plain t) : entry.Stored := by
  obtain ⟨changeId, -, -, -, hid, -, -⟩ := hx.arguments
  refine ⟨hid ▸ changeId.plain, hplain.2.1, ⟨hplain.1, hx.nonempty⟩, fun t ht => ?_⟩
  exact ⟨hplain.2.2 t ht, get_nonempty (hx.previous ▸ ht)⟩

theorem Held.start : Held wp title [] ⟨title, []⟩ :=
  ⟨rfl, List.nodup_nil, fun _ h => (by cases h), rfl⟩

/-- One call. -/
theorem Held.call {e : Event} (h : Held wp title past e.before)
    (ok : Orderly wp past e) : Held wp title (e :: past) (e.after wp) := by
  cases ok.whole.effect with
  | nothing hafter hc ht =>
      have hledger : ledger wp (e :: past) = ledger wp past := by rw [ledger, hc, ht]
      rw [hafter]
      exact ⟨hledger ▸ h.history, hledger ▸ h.ids, hledger ▸ h.stored, hledger ▸ h.stacked⟩
  | records entry hc hx hafter =>
      have hledger : ledger wp (e :: past) = ledger wp past ++ [entry] := by rw [ledger, hc]
      have hr : recorded wp e.before e.call = some entry := by
        unfold changed at hc
        split at hc
        · cases hc
        · exact hc
      have hstored : entry.Stored := hx.stored (ok.unslashed entry hr)
      have hall : ∀ x ∈ ledger wp past ++ [entry], x.Stored := by
        intro x hx'
        rcases List.mem_append.mp hx' with hold | hnew
        · exact h.stored x hold
        · rw [List.mem_singleton.mp hnew]
          exact hstored
      have hforce : inForce (ledger wp past ++ [entry]) =
          inForce (ledger wp past) ++ [entry] := by
        unfold inForce
        rw [List.filter_append, List.filter_cons_of_pos (by simp [hx.inForce])]
        rfl
      rw [hafter]
      refine ⟨?_, ?_, hledger ▸ hall, ?_⟩
      · show (kept _).map TitleChange.unslash = _
        rw [h.history, kept_kept_append, hledger]
        exact TitleChange.map_unslash fun x hx' => hall x ((kept_suffix _).mem hx')
      · rw [hledger, List.map_append, List.nodup_append]
        refine ⟨h.ids, List.nodup_singleton _, fun i hi j hj heq => ?_⟩
        obtain ⟨y, hy, rfl⟩ := List.mem_map.mp hi
        rw [List.map_singleton, List.mem_singleton] at hj
        exact ok.fresh entry hr y hy (heq.trans hj)
      · rw [hledger, hforce]
        rw [get_update hstored.new _ fun p => rfl]
        exact h.stacked.push hx.previous
  | takesBack entry hc ht hx hafter =>
      have hledger : ledger wp (e :: past) =
          markRolledBack entry.changeId (ledger wp past) := by rw [ledger, hc, ht]
      have hu : undone wp e.before e.call = some entry := by
        unfold takenBack at ht
        split at ht
        · cases ht
        · exact ht
      obtain ⟨front, hfront⟩ := h.last ok.ownTitle hu hx
      have hmem : entry ∈ kept (ledger wp past) :=
        h.history ▸ List.mem_of_find?_eq_some hx.found
      have hstored : entry.Stored := h.stored entry ((kept_suffix _).mem hmem)
      have hforce : inForce (markRolledBack entry.changeId (ledger wp past)) = front := by
        rw [inForce_markRolledBack h.ids, hfront]
        have hids : ((front ++ [entry]).map TitleChange.changeId).Nodup :=
          hfront ▸ h.ids.sublist (List.filter_sublist.map _)
        rw [List.map_append, List.nodup_append] at hids
        rw [List.filter_append, List.filter_eq_self.mpr, List.filter_cons_of_neg (by simp)]
        · exact List.append_nil _
        · intro x hx'
          simpa using hids.2.2 _ (List.mem_map_of_mem hx') _ (by simp)
      rw [hafter]
      refine ⟨?_, ?_, ?_, ?_⟩
      · show (kept _).map TitleChange.unslash = _
        rw [h.history, kept_of_le (Nat.le_trans (Nat.le_of_eq (length_markRolledBack _ _))
            (length_kept_le _)),
          ← kept_markRolledBack h.ids hmem, hledger]
        exact TitleChange.map_unslash fun x hx' =>
          stored_markRolledBack h.stored x ((kept_suffix _).mem hx')
      · rw [hledger, map_eq_of_asMade (fun _ => rfl) (map_asMade_markRolledBack _ _)]
        exact h.ids
      · rw [hledger]
        exact stored_markRolledBack h.stored
      · rw [hledger, hforce, get_restore hstored.previous _ fun p => rfl]
        exact (hfront ▸ h.stacked).pop.2

/-- **Every run.** -/
theorem held_of_calls (h : Calls wp (Orderly wp) title past post) :
    Held wp title past post := by
  induction h with
  | start => exact .start
  | call call done _ ok ih => exact ih.call ok


theorem made_inForce {e : Event} {x : TitleChange} (h : changed wp e = some x) :
    x.rolledBack = false ∧ x.previous = get e.before := by
  unfold changed at h
  split at h
  · cases h
  · have hcases : Silent wp e.before e.call ∨ _ := request_cases e.call
    rcases hcases with ⟨-, hr, -⟩ | ⟨y, hr, -, hy⟩ | ⟨y, hr, -, -⟩
    · rw [hr] at h
      cases h
    · rw [hr] at h
      obtain rfl := Option.some.inj h
      exact ⟨hy.inForce, hy.previous⟩
    · rw [hr] at h
      cases h

/-- What some call recorded is in the ledger, and nothing else is. -/
theorem mem_made {x : TitleChange} :
    x ∈ made wp past ↔ ∃ z ∈ ledger wp past, z.asMade = x := by
  rw [← List.mem_reverse, ← ledger_asMade fun e _ x hx => (made_inForce hx).1,
    List.mem_map]

theorem Calls.split {good : List Event → Event → Prop} {newer older : List Event}
    {e : Event} (h : Calls wp good title past post) (hp : past = newer ++ e :: older) :
    Calls wp good title older e.before ∧ good older e := by
  induction h generalizing newer with
  | start => cases newer <;> cases hp
  | call call done before ok ih =>
      cases newer with
      | nil =>
          obtain ⟨rfl, rfl⟩ := List.cons.inj hp
          exact ⟨before, ok⟩
      | cons e' newer => exact ih (List.cons.inj hp).2

/-! ## Rollbacks -/

/-- A rollback that is answered found its change rolled back already, or takes it
back. -/
theorem rollback_answered {changeId : String} {answer : TitleChange}
    (h : (rollback wp post changeId).answer = .ok answer) :
    ((rollback wp post changeId).writes = [] ∧ answer ∈ post.history ∧
        answer.rolledBack = true) ∨
      ∃ entry, undone wp post (.rollback changeId) = some entry ∧
        Undoing wp post (.rollback changeId) entry := by
  have hcases : Silent wp post (.rollback changeId) ∨ _ := rollback_cases changeId
  rcases hcases with ⟨hw, -, -⟩ | ⟨entry, -, hu, hx⟩
  · refine .inl ⟨hw, ?_⟩
    cases hfind : post.history.find? fun entry =>
        entry.changeId = wp.sanitizeTextField changeId with
    | none =>
        simp only [rollback, hfind] at h
        cases h
    | some x =>
        by_cases hback : x.rolledBack = true
        · simp only [rollback, hfind, hback, if_true] at h
          obtain rfl := Except.ok.inj h
          exact ⟨List.mem_of_find?_eq_some hfind, hback⟩
        · by_cases hsince : get post = some x.new
          · simp [request, rollback, hfind, hback, hsince] at hw
          · simp [rollback, hfind, hback, hsince, refuse] at h
  · exact .inr ⟨entry, hu, hx⟩

/-- Every rollback that was answered found its change rolled back already, and
wrote nothing, or took back the last change in force and put back what the
override was when that change was recorded. -/
def LastInFirstOut (wp : WordPress) (past : List Event) : Prop :=
  ∀ newer e older, past = newer ++ e :: older →
    ∀ changeId answer, e.call = .rollback changeId →
      (request wp e.before e.call).answer = .ok answer →
      (answer ∈ e.before.history ∧ answer.rolledBack = true ∧ e.after wp = e.before) ∨
      ∃ entry, undone wp e.before e.call = some entry ∧
        (∀ y ∈ later entry.changeId (ledger wp older), y.rolledBack = true) ∧
        ∃ first ∈ older, changed wp first = some entry ∧
          (e.done ≠ 0 → get (e.after wp) = get first.before)

/-- **A rollback discards no newer change.** -/
theorem rollbacks_last_in_first_out (wp : WordPress) (title : Option String)
    (past : List Event) (post : PostMeta)
    (h : Calls wp (Orderly wp) title past post) : LastInFirstOut wp past := by
  intro newer e older hp changeId answer hcall hanswer
  obtain ⟨hbefore, ok⟩ := h.split hp
  have held := held_of_calls hbefore
  rw [hcall] at hanswer
  rcases rollback_answered hanswer with ⟨hw, hmem, hback⟩ | ⟨entry, hu, hx⟩
  · refine .inl ⟨hmem, hback, ?_⟩
    rw [Event.after, hcall]
    show ((rollback wp e.before changeId).writes.take e.done).foldl _ _ = _
    rw [hw, List.take_nil]
    rfl
  · rw [← hcall] at hu hx
    have hmem : entry ∈ ledger wp older :=
      (kept_suffix _).mem (held.history ▸ List.mem_of_find?_eq_some hx.found)
    obtain ⟨front, hlast⟩ := held.last ok.ownTitle hu hx
    refine .inr ⟨entry, hu, later_of_last held.ids hmem hx.inForce hlast, ?_⟩
    obtain ⟨first, hfirst, hchanged⟩ := List.mem_filterMap.mp
      (mem_made.mpr ⟨entry, hmem, TitleChange.asMade_of_inForce hx.inForce⟩)
    refine ⟨first, hfirst, hchanged, fun hdone => ?_⟩
    rw [← (made_inForce hchanged).2]
    cases ok.whole.effect with
    | nothing _ _ ht =>
        rw [takenBack, if_neg hdone, hu] at ht
        cases ht
    | records x hc =>
        obtain ⟨i, t, k, hargs, -⟩ := ‹Recording wp e.before e.call x›.arguments
        rw [hcall] at hargs
        cases hargs
    | takesBack x _ ht _ hafter =>
        rw [takenBack, if_neg hdone, hu] at ht
        obtain rfl := Option.some.inj ht
        rw [hafter]
        exact get_restore (held.stored entry hmem).previous _ fun p => rfl

/-- Arguments that are clean already. -/
def plainWordPress : WordPress := ⟨id, id, id⟩

def firstId : ChangeId := ⟨"7:00000000-0000-4000-8000-000000000001", by decide⟩

def secondId : ChangeId := ⟨"7:00000000-0000-4000-8000-000000000002", by decide⟩

/-- Two changes, and both rolled back. -/
def undoneCalls : Option (List Event × PostMeta) :=
  makeCalls plainWordPress (Orderly plainWordPress) [] ⟨some "Z", []⟩
    [(.apply firstId "A" "k1", 2), (.apply secondId "B" "k2", 2),
      (.rollback secondId.text, 2), (.rollback firstId.text, 2)]

theorem rollbacks_last_in_first_out_undone :
    LastInFirstOut plainWordPress (undoneCalls.get (by decide)).1 :=
  rollbacks_last_in_first_out plainWordPress (some "Z") _ _ (Calls.of_get (by decide))

/-- The title of a change is used again, and the older change is rolled back: no
call is interrupted and every id is new. -/
def reusedCalls : Option (List Event × PostMeta) :=
  makeCalls plainWordPress
    (fun past e => Fresh plainWordPress past e ∧ Whole plainWordPress e) [] ⟨none, []⟩
    [(.apply firstId "A" "k1", 2), (.apply secondId "A" "k2", 2),
      (.rollback firstId.text, 2)]

theorem older_rolled_back :
    ¬ ∀ past post, Calls plainWordPress
      (fun past e => Fresh plainWordPress past e ∧ Whole plainWordPress e) none past post →
      LastInFirstOut plainWordPress past := by
  intro h
  have run : Calls plainWordPress _ none (reusedCalls.get (by decide)).1 _ :=
    Calls.of_get (by decide)
  rcases h _ _ run [] _ _ rfl _ _ rfl rfl with ⟨-, -, hafter⟩ | ⟨entry, hu, hlater, -⟩
  · exact absurd hafter (by decide)
  · obtain rfl := Option.some.inj hu
    exact absurd hlater (by decide)

/-! ## Repeated calls -/

/-- The key of an apply. -/
def Event.key (wp : WordPress) (e : Event) : Option String :=
  match e.call with
  | .apply _ _ key => some (wp.sanitizeTextField key)
  | .rollback _ => none

/-- A call that wrote anything. -/
def Wrote (wp : WordPress) (e : Event) : Prop :=
  e.done ≠ 0 ∧ (request wp e.before e.call).writes ≠ []

/-- An apply that wrote anything recorded a change under its key. -/
theorem Wrote.changed {e : Event} {key : String} (h : Wrote wp e)
    (hkey : e.key wp = some key) :
    ∃ x, changed wp e = some x ∧ x.idempotencyKey = key := by
  have hcases : Silent wp e.before e.call ∨ _ := request_cases e.call
  rcases hcases with ⟨hw, -, -⟩ | ⟨x, hr, -, hx⟩ | ⟨x, -, -, hx⟩
  · exact absurd hw h.2
  · obtain ⟨i, t, k, hcall, -, hk, -⟩ := hx.arguments
    refine ⟨x, (if_neg h.1).trans hr, hk.trans ?_⟩
    rw [Event.key, hcall] at hkey
    exact Option.some.inj hkey
  · obtain ⟨i, hcall, -⟩ := hx.arguments
    rw [Event.key, hcall] at hkey
    cases hkey

/-- A call that recorded a change wrote it. -/
theorem Wrote.of_changed {e : Event} {x : TitleChange} (h : TitleStore.changed wp e = some x) :
    Wrote wp e ∧ e.key wp = some x.idempotencyKey := by
  unfold TitleStore.changed at h
  split at h
  · cases h
  next hdone =>
  have hcases : Silent wp e.before e.call ∨ _ := request_cases e.call
  rcases hcases with ⟨-, hr, -⟩ | ⟨y, hr, -, hy⟩ | ⟨y, hr, -, -⟩
  · exact absurd (hr.symm.trans h) (by simp)
  · obtain rfl := Option.some.inj (hr.symm.trans h)
    obtain ⟨i, t, k, hcall, -, hk, -⟩ := hy.arguments
    refine ⟨⟨hdone, by simp [hy.writes]⟩, ?_⟩
    rw [Event.key, hcall]
    exact congrArg some hk.symm
  · exact absurd (hr.symm.trans h) (by simp)

/-- A rollback that wrote anything took its change back. -/
theorem Wrote.takenBack {e : Event} {changeId : String} (h : Wrote wp e)
    (hcall : e.call = .rollback changeId) :
    ∃ x, takenBack wp e = some x ∧ x.changeId = wp.sanitizeTextField changeId := by
  have hcases : Silent wp e.before e.call ∨ _ := request_cases e.call
  rcases hcases with ⟨hw, -, -⟩ | ⟨x, -, -, hx⟩ | ⟨x, -, hu, hx⟩
  · exact absurd hw h.2
  · obtain ⟨i, t, k, hc, -⟩ := hx.arguments
    rw [hcall] at hc
    cases hc
  · obtain ⟨i, hc, hi⟩ := hx.arguments
    rw [hcall] at hc
    cases hc
    exact ⟨x, (if_neg h.1).trans hu, hi⟩

/-- What the ledger says of the keys and of the changes taken back. -/
structure Settled (wp : WordPress) (past : List Event) : Prop where
  keys : ((ledger wp past).map TitleChange.idempotencyKey).Nodup
  known : ∀ e ∈ past, ∀ x ∈ takenBack wp e,
    x.changeId ∈ (ledger wp past).map TitleChange.changeId
  marked : ∀ e ∈ past, ∀ x ∈ takenBack wp e, ∀ z ∈ ledger wp past,
    z.changeId = x.changeId → z.rolledBack = true

theorem Settled.start : Settled wp [] :=
  ⟨List.nodup_nil, fun _ h => (by cases h), fun _ h => (by cases h)⟩

/-- Marking takes no mark away. -/
theorem mem_markRolledBack {history : List TitleChange} {changeId : String}
    {z : TitleChange} (h : z ∈ markRolledBack changeId history) :
    z ∈ history ∨ z.rolledBack = true := by
  induction history with
  | nil => cases h
  | cons x history ih =>
      unfold markRolledBack at h
      split at h
      · rcases List.mem_cons.mp h with rfl | h
        · exact .inr rfl
        · exact .inl (List.mem_cons_of_mem _ h)
      · rcases List.mem_cons.mp h with rfl | h
        · exact .inl (by simp)
        · exact (ih h).imp_left (List.mem_cons_of_mem _)

theorem Settled.call {e : Event} (h : Settled wp past) (held : Held wp title past e.before)
    (ok : Repeatable wp past e) : Settled wp (e :: past) := by
  cases ok.whole.effect with
  | nothing _ hc ht =>
      have hledger : ledger wp (e :: past) = ledger wp past := by rw [ledger, hc, ht]
      refine ⟨hledger ▸ h.keys, fun e' he' x hx => ?_, fun e' he' x hx => ?_⟩
      all_goals
        rw [hledger]
        rcases List.mem_cons.mp he' with rfl | he'
        · rw [ht] at hx
          cases hx
      · exact h.known e' he' x hx
      · exact h.marked e' he' x hx
  | records entry hc hx _ =>
      have hledger : ledger wp (e :: past) = ledger wp past ++ [entry] := by rw [ledger, hc]
      have hnone : takenBack wp e = none := by
        obtain ⟨i, t, k, hcall, -⟩ := hx.arguments
        unfold TitleStore.takenBack
        rw [hcall]
        exact ite_self none
      have hrecord : recorded wp e.before e.call = some entry := by
        unfold TitleStore.changed at hc
        split at hc
        · cases hc
        · exact hc
      refine ⟨?_, fun e' he' x hx' => ?_, fun e' he' x hx' z hz hid => ?_⟩
      · rw [hledger, List.map_append, List.nodup_append]
        refine ⟨h.keys, List.nodup_singleton _, fun i hi j hj heq => ?_⟩
        rw [List.map_singleton, List.mem_singleton] at hj
        obtain ⟨c, t, k, hcall, -, hk, -⟩ := hx.arguments
        have hrecent := ok.recent
        unfold Recent at hrecent
        rw [hcall] at hrecent
        obtain ⟨y, hy, hyk⟩ := List.mem_map.mp (hrecent (hk ▸ hj ▸ heq ▸ hi))
        exact hx.fresh y hy (hyk.trans hk.symm)
      · rcases List.mem_cons.mp he' with rfl | he'
        · rw [hnone] at hx'
          cases hx'
        · rw [hledger, List.map_append]
          exact List.mem_append_left _ (h.known e' he' x hx')
      · rcases List.mem_cons.mp he' with rfl | he'
        · rw [hnone] at hx'
          cases hx'
        · rw [hledger] at hz
          rcases List.mem_append.mp hz with hold | hnew
          · exact h.marked e' he' x hx' z hold hid
          · obtain ⟨y, hy, hyid⟩ := List.mem_map.mp (h.known e' he' x hx')
            rw [List.mem_singleton.mp hnew] at hid
            exact absurd (hyid.trans hid.symm) (ok.fresh entry hrecord y hy)
  | takesBack entry hc ht hx _ =>
      have hledger : ledger wp (e :: past) =
          markRolledBack entry.changeId (ledger wp past) := by rw [ledger, hc, ht]
      have hmap := map_asMade_markRolledBack entry.changeId (ledger wp past)
      have hids := map_eq_of_asMade (f := TitleChange.changeId) (fun _ => rfl) hmap
      have hentry : entry ∈ ledger wp past :=
        (kept_suffix _).mem (held.history ▸ List.mem_of_find?_eq_some hx.found)
      refine ⟨?_, fun e' he' x hx' => ?_, fun e' he' x hx' z hz hid => ?_⟩
      · rw [hledger, map_eq_of_asMade (fun _ => rfl) hmap]
        exact h.keys
      · rw [hledger, hids]
        rcases List.mem_cons.mp he' with rfl | he'
        · rw [ht] at hx'
          obtain rfl := Option.some.inj hx'
          exact List.mem_map_of_mem hentry
        · exact h.known e' he' x hx'
      · rw [hledger] at hz
        rcases List.mem_cons.mp he' with rfl | he'
        · rw [ht] at hx'
          obtain rfl := Option.some.inj hx'
          by_contra hforce
          have hin : z ∈ inForce (markRolledBack entry.changeId (ledger wp past)) :=
            List.mem_filter.mpr ⟨hz, by simpa using hforce⟩
          rw [inForce_markRolledBack held.ids] at hin
          simp [hid] at hin
        · rcases mem_markRolledBack hz with hold | hback
          · exact h.marked e' he' x hx' z hold hid
          · exact hback

theorem settled_of_calls (h : Calls wp (Repeatable wp) title past post) :
    Settled wp past := by
  induction h with
  | start => exact .start
  | call call done before ok ih =>
      exact ih.call (held_of_calls (before.mono fun _ _ h => h.toOrderly)) ok

/-- One change of a history, carried out again. -/
def replayed (override : Option String) (entry : TitleChange) : Option String :=
  if entry.rolledBack then override else left entry

theorem foldl_replayed (override : Option String) (history : List TitleChange) :
    history.foldl replayed override =
      (inForce history).foldl (fun _ entry => left entry) override := by
  induction history generalizing override with
  | nil => rfl
  | cons x history ih =>
      rw [List.foldl_cons, ih]
      unfold replayed inForce
      rw [List.filter_cons]
      cases x.rolledBack <;> rfl

/-- What is promised of repeated calls. -/
structure Repeats (wp : WordPress) (title : Option String) (past : List Event)
    (post : PostMeta) : Prop where
  /-- A key makes at most one change. -/
  once : past.Pairwise fun later earlier =>
    ∀ key, later.key wp = some key → earlier.key wp = some key →
      ¬ (Wrote wp later ∧ Wrote wp earlier)
  /-- What is recorded under a key found the override from before the first call
  with that key that wrote anything. -/
  previous : ∀ x ∈ post.history,
    (∃ e ∈ past, e.key wp = some x.idempotencyKey ∧ Wrote wp e) ∧
      ∀ e ∈ past, e.key wp = some x.idempotencyKey → Wrote wp e →
        x.previous = get e.before
  /-- A rollback that wrote anything is answered when it is repeated. -/
  repeated : past.Pairwise fun later earlier =>
    ∀ changeId, later.call = .rollback changeId → earlier.call = .rollback changeId →
      Wrote wp earlier → ∃ x, (request wp later.before later.call).answer = .ok x
  /-- The history is the end of what was recorded. -/
  recorded : post.history = kept (ledger wp past)
  /-- What was recorded leads from the first override to the present one. -/
  replay : (ledger wp past).foldl replayed (get ⟨title, []⟩) = get post
  /-- So does the history, from anywhere, when a change of it is in force. -/
  replayKept : inForce post.history ≠ [] →
    ∀ override, post.history.foldl replayed override = get post

/-- A change that is marked answers a rollback. -/
theorem rollback_of_marked {changeId : String}
    (hmem : wp.sanitizeTextField changeId ∈ post.history.map TitleChange.changeId)
    (hback : ∀ z ∈ post.history, z.changeId = wp.sanitizeTextField changeId →
      z.rolledBack = true) : ∃ x, (rollback wp post changeId).answer = .ok x := by
  cases hfind : post.history.find? fun entry =>
      entry.changeId = wp.sanitizeTextField changeId with
  | none =>
      obtain ⟨z, hz, hid⟩ := List.mem_map.mp hmem
      exact absurd hid (by simpa using List.find?_eq_none.mp hfind z hz)
  | some x =>
      have hx := hback x (List.mem_of_find?_eq_some hfind)
        (by simpa using List.find?_some hfind)
      exact ⟨x, by simp [rollback, hfind, hx]⟩

/-- A call of a run repeats none of the calls before it with other words. -/
theorem repeats_of_call {e earlier : Event} (held : Held wp title past e.before)
    (settled : Settled wp past) (ok : Repeatable wp past e) (he : earlier ∈ past) :
    (∀ key, e.key wp = some key → earlier.key wp = some key →
      ¬ (Wrote wp e ∧ Wrote wp earlier)) ∧
    ∀ changeId, e.call = .rollback changeId → earlier.call = .rollback changeId →
      Wrote wp earlier → ∃ x, (request wp e.before e.call).answer = .ok x := by
  constructor
  · rintro key hk hk' ⟨hw, hw'⟩
    obtain ⟨x, hx, hxk⟩ := hw.changed hk
    obtain ⟨y, hy, hyk⟩ := hw'.changed hk'
    obtain ⟨z, hz, rfl⟩ := mem_made.mp (List.mem_filterMap.mpr ⟨earlier, he, hy⟩)
    cases ok.whole.effect with
    | nothing _ hc _ => exact absurd (hx.symm.trans hc) (by simp)
    | takesBack _ hc => exact absurd (hx.symm.trans hc) (by simp)
    | records x' hc hrec _ =>
        obtain rfl := Option.some.inj (hx.symm.trans hc)
        have hrecent := ok.recent
        obtain ⟨c, t, k, hcall, -, hkk, -⟩ := hrec.arguments
        unfold Recent at hrecent
        rw [hcall] at hrecent
        have hzk : wp.sanitizeTextField k = z.idempotencyKey :=
          hkk.symm.trans (hxk.trans hyk.symm)
        obtain ⟨w, hw, hwk⟩ := List.mem_map.mp (hrecent (hzk ▸ List.mem_map_of_mem hz))
        exact hrec.fresh w hw (hwk.trans hkk.symm)
  · intro changeId hc hc' hw'
    obtain ⟨x, hx, hid⟩ := hw'.takenBack hc'
    have hrecent := ok.recent
    unfold Recent at hrecent
    rw [hc] at hrecent ⊢
    refine rollback_of_marked (hrecent (hid ▸ settled.known earlier he x hx)) ?_
    intro z hz hzid
    exact settled.marked earlier he x hx z
      ((kept_suffix _).mem (held.history ▸ hz)) (hzid.trans hid.symm)

theorem pairwise_of_calls (h : Calls wp (Repeatable wp) title past post) :
    past.Pairwise fun later earlier =>
      (∀ key, later.key wp = some key → earlier.key wp = some key →
        ¬ (Wrote wp later ∧ Wrote wp earlier)) ∧
      ∀ changeId, later.call = .rollback changeId → earlier.call = .rollback changeId →
        Wrote wp earlier → ∃ x, (request wp later.before later.call).answer = .ok x := by
  induction h with
  | start => exact .nil
  | call call done before ok ih =>
      have held := held_of_calls (before.mono fun _ _ h => h.toOrderly)
      exact .cons (fun earlier he => repeats_of_call held (settled_of_calls before) ok he) ih

/-- **Repeated calls change nothing.** -/
theorem title_store_repeatable (wp : WordPress) (title : Option String)
    (past : List Event) (post : PostMeta)
    (h : Calls wp (Repeatable wp) title past post) : Repeats wp title past post := by
  have held := held_of_calls (h.mono fun _ _ h => h.toOrderly)
  have settled := settled_of_calls h
  have hpairs := pairwise_of_calls h
  refine ⟨hpairs.imp And.left, fun x hx => ⟨?_, ?_⟩, hpairs.imp And.right, held.history,
    ?_, ?_⟩
  · obtain ⟨e, he, hc⟩ := List.mem_filterMap.mp
      (mem_made.mpr ⟨x, (kept_suffix _).mem (held.history ▸ hx), rfl⟩)
    obtain ⟨hwrote, hkey⟩ := Wrote.of_changed hc
    exact ⟨e, he, hkey, hwrote⟩
  · intro e he hkey hw
    obtain ⟨y, hy, hyk⟩ := hw.changed hkey
    obtain ⟨z, hz, hzy⟩ := mem_made.mp (List.mem_filterMap.mpr ⟨e, he, hy⟩)
    have hzx : z = x := by
      refine List.inj_on_of_nodup_map settled.keys hz
        ((kept_suffix _).mem (held.history ▸ hx)) ?_
      rw [← hyk, ← hzy]
      rfl
    rw [← (made_inForce hy).2, ← hzy, hzx]
    rfl
  · rw [foldl_replayed]
    exact held.stacked.replay
  · intro hne override
    rw [foldl_replayed]
    have hsuffix : inForce post.history <:+ inForce (ledger wp past) :=
      held.history ▸ (kept_suffix _).filter _
    obtain ⟨mid, hmid⟩ := held.stacked.of_suffix hsuffix
    rw [← hmid.replay]
    cases hforce : inForce post.history with
    | nil => exact absurd hforce hne
    | cons c cs => rfl

/-- Calls that are unanswered and repeated. -/
def repeatedCalls : Option (List Event × PostMeta) :=
  makeCalls plainWordPress (Repeatable plainWordPress) [] ⟨some "Z", []⟩
    [(.apply firstId "A" "k1", 0), (.apply firstId "A" "k1", 2),
      (.apply secondId "A" "k1", 2), (.rollback firstId.text, 2),
      (.rollback firstId.text, 2)]

theorem title_store_repeatable_repeated :
    Repeats plainWordPress (some "Z") (repeatedCalls.get (by decide)).1
      (repeatedCalls.get (by decide)).2 :=
  title_store_repeatable plainWordPress (some "Z") _ _ (Calls.of_get (by decide))

/-- An apply is interrupted between its two writes, and repeated. -/
def interruptedCalls : Option (List Event × PostMeta) :=
  makeCalls plainWordPress (Fresh plainWordPress) [] ⟨none, []⟩
    [(.apply firstId "A" "k1", 1), (.apply secondId "A" "k1", 2)]

theorem interrupted_apply :
    ¬ ∀ past post, Calls plainWordPress (Fresh plainWordPress) none past post →
      Repeats plainWordPress none past post := by
  intro h
  have run : Calls plainWordPress _ none (interruptedCalls.get (by decide)).1
      (interruptedCalls.get (by decide)).2 := Calls.of_get (by decide)
  have hprevious := (h _ _ run).previous
    ⟨secondId.text, "k1", some "A", "A", false⟩ (by decide)
  have := hprevious.2 ⟨⟨none, []⟩, .apply firstId "A" "k1", 1⟩ (.tail _ (.head _)) rfl
    ⟨by decide, by decide⟩
  cases this

end Calls

end TitleStore

end SeoAgent.Ports
