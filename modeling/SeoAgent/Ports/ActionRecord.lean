import SeoAgent.Ports.ActionWorld

/-!
# The versions of an action

`ActionRecord` is what holds of all stored versions of one action: histories
extend each other, every version keeps the lifecycle, and its proposal is that
of the first version with the reviewer's text of the first approval.

## Main results

* `ActionRecord.append` — a write from any version, over a current one whose
  history it extends, keeps the record.
* `ActionRecord.sameProposal` — two versions of which both were approved propose
  the same.
-/

namespace SeoAgent.Ports

open Verified Verified.Machine
open Service (Op iface World)

/-! ## The proposal as it was decided -/

/-- What an approval leaves of a proposal, from the first approval in a
history. -/
def decidedProposal (first : Action) (history : List ActionEvent) : Action :=
  match history.find? fun e => e.status = .approved with
  | some e => { first with parameters := approvedParameters first e.detail }
  | none => first

theorem approvedParameters_congr {a b : Action} (h : a.SameProposal b)
    (detail : Dict) : approvedParameters b detail = approvedParameters a detail := by
  unfold approvedParameters
  rw [fieldOf_congr h, h.parameters]

/-- A status the state machine leads to only before a decision. -/
def undecided (s : ActionStatus) : Prop := s = .planned ∨ s = .awaitingApproval

theorem Follows.decided {a b : ActionStatus} (h : Follows a b)
    (ha : ¬ undecided a) : ¬ undecided b := by
  rcases h with rfl | h
  · exact ha
  · revert ha h
    unfold undecided
    cases a <;> cases b <;> decide

theorem Follows.absorbed {a b : ActionStatus} (h : Follows a b)
    (ha : allowedTransitions a = []) : b = a := by
  rcases h with rfl | h
  · rfl
  · rw [ha] at h
    cases h

/-- What a chain of steps keeps holds of its last element once it held of
some. -/
theorem getLast?_of_isChain {α : Type} {R : α → α → Prop} {P : α → Prop}
    (hs : ∀ a b, R a b → P a → P b) {l : List α} (hc : l.IsChain R) {a : α}
    (ha : a ∈ l) (hP : P a) : ∀ b ∈ l.getLast?, P b := by
  induction l generalizing a with
  | nil => cases ha
  | cons x l ih =>
      cases l with
      | nil =>
          intro b hb
          obtain rfl := List.mem_singleton.mp ha
          exact Option.mem_some_iff.mp hb ▸ hP
      | cons y l =>
          rw [List.getLast?_cons_cons]
          obtain ⟨hxy, htail⟩ := List.isChain_cons_cons.mp hc
          rcases List.mem_cons.mp ha with rfl | ha
          · exact ih htail List.mem_cons_self (hs _ _ hxy hP)
          · exact ih htail ha hP

section
variable {v : ManagedAction}

/-- Nothing was approved in the history of an action that waits for approval. -/
theorem Lifecycle.not_approved (hv : Lifecycle v)
    (hst : v.status = .awaitingApproval) : ∀ e ∈ v.history, e.status ≠ .approved := by
  intro e he hap
  have hmem : ActionStatus.approved ∈ v.statuses :=
    hap ▸ List.mem_map.mpr ⟨e, he, rfl⟩
  exact getLast?_of_isChain (P := fun s => ¬ undecided s)
    (fun _ _ h => h.decided) hv.moves hmem (by unfold undecided; decide) v.status hv.last
    (.inr hst)

/-- A status nothing leads out of stays the status. -/
theorem Lifecycle.absorbed (hv : Lifecycle v) {s : ActionStatus}
    (hs : allowedTransitions s = []) (hmem : s ∈ v.statuses) : v.status = s :=
  getLast?_of_isChain (P := fun t => t = s)
    (fun _ _ h ha => (h.absorbed (ha ▸ hs)).trans ha) hv.moves hmem rfl v.status hv.last

theorem Lifecycle.mem_statuses (hv : Lifecycle v) : v.status ∈ v.statuses :=
  List.mem_of_getLast? hv.last

end

/-! ## All versions of an action -/

/-- What holds of the versions of an action, oldest first. -/
structure ActionRecord (versions : List ManagedAction) : Prop where
  appended : versions.Pairwise fun a b => a.history <+: b.history
  lawful : ∀ v ∈ versions, Lifecycle v
  proposed : ∀ f ∈ versions.head?, f.statuses = [.awaitingApproval]
  decided : ∀ f ∈ versions.head?, ∀ v ∈ versions,
    (decidedProposal f.action v.history).SameProposal v.action ∧
      v.observedValue = f.observedValue
  approved : ∀ v ∈ versions, v.status = .executing →
    ∃ w ∈ versions, w.status = .approved ∧ w.history <+: v.history

theorem prefix_statuses {a b : ManagedAction} (h : a.history <+: b.history) :
    a.statuses <+: b.statuses := by
  obtain ⟨t, ht⟩ := h
  refine ⟨t.map ActionEvent.status, ?_⟩
  rw [ManagedAction.statuses, ManagedAction.statuses, ← ht, List.map_append]

section Record
variable {versions : List ManagedAction} {role : JobRole} {past : ActionPast}
  {f b m v : ManagedAction}

/-- One event keeps a proposal the one that was decided. -/
theorem ActionStep.decided (hb : Lifecycle b)
    (hd : (decidedProposal f.action b.history).SameProposal b.action)
    (h : ActionStep role past b v) :
    (decidedProposal f.action v.history).SameProposal v.action := by
  obtain ⟨e, he, hh, hs, -⟩ := h.event
  by_cases happ : b.status = .awaitingApproval ∧ e.status = .approved
  · have hnone : b.history.find? (fun e => e.status = .approved) = none := by
      rw [List.find?_eq_none]
      simpa using hb.not_approved happ.1
    have hdec : decidedProposal f.action b.history = f.action := by
      unfold decidedProposal
      rw [hnone]
    rw [hdec] at hd
    have hnew : decidedProposal f.action v.history =
        { f.action with parameters := approvedParameters f.action e.detail } := by
      unfold decidedProposal
      rw [hh, List.find?_append, hnone]
      simp [happ.2]
    rw [proposalAfter, if_pos happ] at hs
    rw [hnew]
    exact ⟨hs.1.trans hd.1, hs.2.trans hd.2, hs.3.trans hd.3, hs.4.trans hd.4,
      hs.5.trans (approvedParameters_congr hd e.detail)⟩
  · rw [proposalAfter, if_neg happ] at hs
    have hsame : v.history.find? (fun e => e.status = .approved) =
        b.history.find? (fun e => e.status = .approved) := by
      rw [hh, List.find?_append]
      by_cases hea : e.status = .approved
      · -- An event of an approved action, not its approval.
        have hst : b.status = .approved := by
          rcases h.moves with hm | hm
          · rw [← hm, ← he, hea]
          · rw [← he, hea] at hm
            have : b.status = .awaitingApproval := by
              revert hm
              generalize b.status = s
              cases s <;> decide
            exact absurd ⟨this, hea⟩ happ
        obtain ⟨e', he', hst'⟩ := List.mem_map.mp hb.mem_statuses
        have hsome : (b.history.find? fun e => e.status = .approved).isSome := by
          rw [List.find?_isSome]
          exact ⟨e', he', by simp [hst', hst]⟩
        obtain ⟨x, hx⟩ := Option.isSome_iff_exists.mp hsome
        rw [hx]
        rfl
      · simp [hea]
    have hdec : decidedProposal f.action v.history =
        decidedProposal f.action b.history := by
      unfold decidedProposal
      rw [hsame]
    rw [hdec]
    exact hd.trans hs

theorem ActionWrite.decided (hb : Lifecycle b)
    (hd : (decidedProposal f.action b.history).SameProposal b.action)
    (h : ActionWrite role past b v) :
    (decidedProposal f.action v.history).SameProposal v.action := by
  cases h with
  | one step => exact step.decided hb hd
  | two first second => exact second.decided (hb.step first) (first.decided hb hd)

theorem ActionWrite.observedValue (h : ActionWrite role past b v) :
    v.observedValue = b.observedValue := by
  cases h with
  | one step => exact step.observedValue
  | two first second => exact second.observedValue.trans first.observedValue

/-- An action comes under way only from an approved one. -/
theorem ActionWrite.begun (h : ActionWrite role past b v)
    (hv : v.status = .executing) : b.status = .executing ∨ b.status = .approved := by
  have hfrom : ∀ {x y : ManagedAction}, ActionStep role past x y →
      y.status = .executing → x.status = .executing ∨ x.status = .approved := by
    intro x y hxy hy
    rcases hxy.moves with hm | hm
    · exact .inl (hm.symm.trans hy)
    · rw [hy] at hm
      revert hm
      generalize x.status = s
      cases s <;> decide
  cases h with
  | one step => exact hfrom step hv
  | two first second started =>
      rcases started with hs | hs <;> rcases hfrom second hv with h | h <;>
        rw [hs] at h <;> cases h

/-- A proposal is a record. -/
theorem ActionRecord.single (hst : m.status = .awaitingApproval)
    (hh : m.statuses = [.awaitingApproval]) (ha : m.applied = none)
    (hr : m.rolledBack = none) : ActionRecord [m] where
  appended := List.pairwise_singleton _ _
  lawful := by
    intro v hv
    obtain rfl := List.mem_singleton.mp hv
    exact
      { last := by rw [hh, hst]; rfl
        moves := by rw [hh]; exact .singleton _
        applied := by rw [ha, hh]; decide
        rolledBack := by rw [hr, hst]; decide }
  proposed := by
    intro f hf
    exact Option.mem_some_iff.mp hf ▸ hh
  decided := by
    intro f hf v hv
    obtain rfl := List.mem_singleton.mp hv
    obtain rfl := Option.mem_some_iff.mp hf
    refine ⟨?_, rfl⟩
    have hnone : v.history.find? (fun e => e.status = .approved) = none := by
      rw [List.find?_eq_none]
      intro e he hap
      have : e.status ∈ v.statuses := List.mem_map.mpr ⟨e, he, rfl⟩
      rw [hh, List.mem_singleton] at this
      simp [this] at hap
    rw [decidedProposal, hnone]
    exact .refl _
  approved := by
    intro v hv hex
    obtain rfl := List.mem_singleton.mp hv
    rw [hst] at hex
    cases hex

/-- What an approval leaves of a proposal is of one kind in all versions. -/
private theorem ActionRecord.first (h : ActionRecord versions) (hv : v ∈ versions) :
    ∃ f, versions.head? = some f ∧ v.action.siteId = f.action.siteId ∧
      v.action.actionType = f.action.actionType := by
  obtain ⟨f, hf⟩ := Option.isSome_iff_exists.mp
    (List.isSome_head?.mpr (List.ne_nil_of_mem hv))
  obtain ⟨hsame, -⟩ := h.decided f hf v hv
  refine ⟨f, hf, ?_⟩
  rw [hsame.siteId, hsame.actionType]
  unfold decidedProposal
  split <;> exact ⟨rfl, rfl⟩

/-- All versions are about one site. -/
theorem ActionRecord.siteId (h : ActionRecord versions) (hb : b ∈ versions)
    (hm : m ∈ versions) : m.siteId = b.siteId := by
  obtain ⟨f, hf, hfb, -⟩ := h.first hb
  obtain ⟨g, hg, hgm, -⟩ := h.first hm
  obtain rfl := Option.some.inj (hf.symm.trans hg)
  exact hgm.trans hfb.symm

/-- All versions are of one type. -/
theorem ActionRecord.actionType (h : ActionRecord versions) (hb : b ∈ versions)
    (hm : m ∈ versions) : m.action.actionType = b.action.actionType := by
  obtain ⟨f, hf, -, hfb⟩ := h.first hb
  obtain ⟨g, hg, -, hgm⟩ := h.first hm
  obtain rfl := Option.some.inj (hf.symm.trans hg)
  exact hgm.trans hfb.symm

/-- Every history is the beginning of the last one. -/
theorem ActionRecord.prefix_last (h : ActionRecord versions) (hb : b ∈ versions)
    (hm : versions.getLast? = some m) : b.history <+: m.history := by
  obtain ⟨front, rfl⟩ := List.getLast?_eq_some_iff.mp hm
  rcases List.mem_append.mp hb with hb | hb
  · exact (List.pairwise_append.mp h.appended).2.2 b hb m List.mem_cons_self
  · exact List.mem_singleton.mp hb ▸ List.prefix_refl _

/-- A write from a version, over a current one whose history it extends. -/
theorem ActionRecord.append (h : ActionRecord versions) (hb : b ∈ versions)
    (hm : versions.getLast? = some m) (hext : m.history <+: v.history)
    (hw : ActionWrite role past b v) : ActionRecord (versions ++ [v]) where
  appended := by
    refine List.pairwise_append.mpr
      ⟨h.appended, List.pairwise_singleton _ _, fun a ha x hx => ?_⟩
    obtain rfl := List.mem_singleton.mp hx
    exact (h.prefix_last ha hm).trans hext
  lawful := by
    intro x hx
    rcases List.mem_append.mp hx with hx | hx
    · exact h.lawful x hx
    · exact List.mem_singleton.mp hx ▸ (h.lawful b hb).write hw
  proposed := by
    cases versions with
    | nil => cases hb
    | cons f versions => exact h.proposed
  decided := by
    cases versions with
    | nil => cases hb
    | cons g versions =>
        intro f hf x hx
        rcases List.mem_append.mp hx with hx | hx
        · exact h.decided f hf x hx
        · obtain rfl := List.mem_singleton.mp hx
          obtain ⟨hd, ho⟩ := h.decided f hf b hb
          exact ⟨hw.decided (h.lawful b hb) hd, hw.observedValue.trans ho⟩
  approved := by
    intro x hx hex
    rcases List.mem_append.mp hx with hx | hx
    · obtain ⟨w, hw', hst, hp⟩ := h.approved x hx hex
      exact ⟨w, List.mem_append_left _ hw', hst, hp⟩
    · obtain rfl := List.mem_singleton.mp hx
      rcases hw.begun hex with hst | hst
      · obtain ⟨w, hw', hst', hp⟩ := h.approved b hb hst
        exact ⟨w, List.mem_append_left _ hw', hst', hp.trans hw.history⟩
      · exact ⟨b, List.mem_append_left _ hb, hst, hw.history⟩

/-- Two versions of which both were approved propose the same. -/
theorem ActionRecord.sameProposal (h : ActionRecord versions) {a b : ManagedAction}
    (ha : a ∈ versions) (hb : b ∈ versions) (hap : .approved ∈ a.statuses)
    (hbp : .approved ∈ b.statuses) : a.action.SameProposal b.action := by
  have hcmp : ∀ {x y : ManagedAction}, x ∈ versions → y ∈ versions →
      x.history <+: y.history ∨ y.history <+: x.history := by
    intro x y hx hy
    obtain ⟨i, hi, rfl⟩ := List.getElem_of_mem hx
    obtain ⟨j, hj, rfl⟩ := List.getElem_of_mem hy
    have key := List.pairwise_iff_getElem.mp h.appended
    rcases Nat.lt_trichotomy i j with hij | rfl | hij
    · exact .inl (key i j hi hj hij)
    · exact .inl (List.prefix_refl _)
    · exact .inr (key j i hj hi hij)
  have hfind : ∀ {x : ManagedAction}, .approved ∈ x.statuses →
      ∃ e, x.history.find? (fun e => e.status = .approved) = some e := by
    intro x hx
    obtain ⟨e, he, hst⟩ := List.mem_map.mp hx
    exact Option.isSome_iff_exists.mp
      (List.find?_isSome.mpr ⟨e, he, by simp [hst]⟩)
  have hsame : ∀ {x y : ManagedAction}, .approved ∈ x.statuses →
      x.history <+: y.history → ∀ first, decidedProposal first x.history =
        decidedProposal first y.history := by
    intro x y hx hp first
    obtain ⟨e, he⟩ := hfind hx
    unfold decidedProposal
    rw [he, hp.find?_eq_some he]
  obtain ⟨g, hg⟩ : ∃ g, versions.head? = some g := by
    cases versions with
    | nil => cases ha
    | cons g versions => exact ⟨g, rfl⟩
  have hda := (h.decided g hg a ha).1
  have hdb := (h.decided g hg b hb).1
  have heq : decidedProposal g.action a.history = decidedProposal g.action b.history := by
    rcases hcmp ha hb with hp | hp
    · exact hsame hap hp _
    · exact (hsame hbp hp _).symm
  rw [heq] at hda
  exact ⟨hdb.1.trans hda.1.symm, hdb.2.trans hda.2.symm, hdb.3.trans hda.3.symm,
    hdb.4.trans hda.4.symm, hdb.5.trans hda.5.symm⟩

end Record

end SeoAgent.Ports
