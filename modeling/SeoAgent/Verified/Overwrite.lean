import SeoAgent.Verified.Requests

/-!
# Writes over whatever is stored

A store that reads the current version inside its write gives no protection to the copy
its caller changed: the write succeeds over whatever is there. `saveLatest` is such a
write; `permitted_of_run` and `ends_of_run` say what the processes of a run still have to
do, for proofs that follow one of them from step to step.

## Main results

* `saveLatest_bind` — the rule of such a write.
* `ends_of_run` — what bodies end in, the processes of a run are on their way to.
* `permitted_of_run`, `past_permitted` — the next operation of any process is permitted, and
  what follows of all that it was answered.
* `outside_permitted` — an invariant of the outside, from permitted operations.
-/

namespace SeoAgent.Verified.Service

open Repository Machine

variable {B : Backend} {X : Outside B.Exn} {α : Type}

/-! ## The write -/

/-- The write over what was read: the first version, or the next one. -/
def overWrite (t : B.T) (i : String) (v : B.Payload t) : Option (B.Payload t × Nat) → Write B.T B.Payload
  | none => .create t i v
  | some (_, n) => .replace t i v n

/-- Reads the current version and writes over it. -/
def saveLatest (t : B.T) (i : String) (v : B.Payload t) : Proc B X Unit := do
  let current ← find t i
  commit [overWrite t i v current]

theorem overWrite_carries {V : (t : B.T) → String → B.Payload t → Prop} {t : B.T} {i : String}
    {v : B.Payload t} (h : V t i v) (current : Option (B.Payload t × Nat)) :
    (overWrite t i v current).Carries V := by
  rcases current with _ | ⟨_, _⟩ <;> exact h

@[simp] theorem overWrite_target {t : B.T} {i : String} {v : B.Payload t}
    {current : Option (B.Payload t × Nat)} : (overWrite t i v current).target = (t, i) := by
  rcases current with _ | ⟨_, _⟩ <;> rfl

/-- A write over the current version adds a version. -/
theorem append_of_overWrite {r s : Repository B.T B.Payload} {t : B.T} {i : String}
    {v : B.Payload t} {current : Option (B.Payload t × Nat)}
    (h : r.commit [overWrite t i v current] = .ok s) : s = r.append t i v := by
  rcases current with _ | ⟨_, _⟩
  · exact (apply_create (commit_singleton.mp h)).2
  · exact (apply_replace (commit_singleton.mp h)).2

/-- A write over what was read, with the record as it is. -/
theorem current_of_overWrite {r s : Repository B.T B.Payload} {t : B.T} {i : String}
    {v : B.Payload t} {current : Option (B.Payload t × Nat)}
    (htold : ∀ w n, current = some (w, n) → r.versionAt t i n = some w)
    (h : r.commit [overWrite t i v current] = .ok s) : r.current t i = current := by
  rcases current with _ | ⟨w, n⟩
  · exact current_eq_none_iff.mpr (apply_create (commit_singleton.mp h)).1
  · exact current_eq_some_iff.mpr
      ⟨htold w n rfl, (apply_replace (commit_singleton.mp h)).1⟩

/-- What was written is a version. -/
theorem Told.wrote {r : Repository B.T B.Payload} {past : Past B X} (h : Told r past)
    {t : B.T} {i : String} {v : B.Payload t} {current : Option (B.Payload t × Nat)}
    (hmem : (⟨.commit [overWrite t i v current], .ok ()⟩ : (iface B X).Event) ∈ past) :
    v ∈ r.versions t i := by
  obtain ⟨before, rest, rfl⟩ := List.append_of_mem hmem
  have hsuffix := List.suffix_append before
    ((⟨.commit [overWrite t i v current], .ok ()⟩ : (iface B X).Event) :: rest)
  rcases current with _ | ⟨w, n⟩
  · exact mem_of_versionAt (h _ hsuffix t i v 1 (by simp [Service.seen, tells, lastWrite, overWrite, writeTells]))
  · exact mem_of_versionAt
      (h _ hsuffix t i v (n + 1) (by simp [Service.seen, tells, lastWrite, overWrite, writeTells]))

/-- A transaction is not made, or it is, and then only its answer may be lost. -/
theorem exec_commit {w w' : World B X} {ws : Writes B} {ch : Choice X} {r : Except B.Exn Unit}
    (h : exec w (.commit ws) ch = some (r, w')) :
    w'.outside = w.outside ∧
      ((w' = w ∧ ((commitOr w.records ws).toOption = none ∨ ∃ m, ch = .fail m)) ∨
        (w.records.commit ws = .ok w'.records ∧ (r = .ok () ∨ ∃ m, ch = .lost m))) := by
  cases ch with
  | fail m =>
      cases h
      exact ⟨rfl, .inl ⟨rfl, .inr ⟨m, rfl⟩⟩⟩
  | done =>
      simp only [exec] at h
      split at h
      · next hc =>
          cases h
          exact ⟨rfl, .inr ⟨commit_of_commitOr hc, .inl rfl⟩⟩
      · next hc =>
          cases h
          exact ⟨rfl, .inl ⟨rfl, .inl (by rw [hc]; rfl)⟩⟩
  | lost m =>
      simp only [exec] at h
      split at h
      · next hc =>
          cases h
          exact ⟨rfl, .inr ⟨commit_of_commitOr hc, .inr ⟨m, rfl⟩⟩⟩
      · cases h
  | _ => cases h

section Rules
variable {V : (t : B.T) → String → B.Payload t → Prop} {K : Past B X → Writes B → Prop}
  {past : Past B X} {Q : Past B X → Except B.Exn α → Prop}

/-- What a write over the current version may find, and what comes of it. -/
theorem saveLatest_bind {t : B.T} {i : String} {v : B.Payload t} {f : Unit → Proc B X α}
    (hV : V t i v)
    (hK : ∀ current : Option (B.Payload t × Nat),
      K (⟨.find t i, .ok current⟩ :: past) [overWrite t i v current])
    (hok : ∀ current : Option (B.Payload t × Nat), Prog.wp (commitContract V K) Q (f ())
      (⟨.commit [overWrite t i v current], .ok ()⟩ :: ⟨.find t i, .ok current⟩ :: past))
    (hfind : ∀ e : B.Exn, Q (⟨.find t i, .error e⟩ :: past) (.error e))
    (hcommit : ∀ (current : Option (B.Payload t × Nat)) (e : B.Exn),
      Q (⟨.commit [overWrite t i v current], .error e⟩ :: ⟨.find t i, .ok current⟩ :: past)
        (.error e)) :
    Prog.wp (commitContract V K) Q (saveLatest t i v >>= f) past := by
  have hrule : ∀ current : Option (B.Payload t × Nat), Prog.wp (commitContract V K)
      (Prog.after (commitContract V K) Q f) (commit [overWrite t i v current])
      (⟨.find t i, .ok current⟩ :: past) := by
    intro current
    refine commit_wp (hK current) (fun w hw => ?_) fun r => ?_
    · rw [List.mem_singleton.mp hw]
      exact overWrite_carries hV current
    · cases r with
      | ok a => exact hok current
      | error e => exact hcommit current e
  unfold saveLatest
  rw [Prog.wp_bind]
  exact find_bind (fun w n _ => hrule (some (w, n))) (hrule none) hfind

end Rules

/-! ## What processes still have to do -/

section Runs
variable {P : Processes B X} {T : Terms P} {good : Condition (machine P)} {w₀ : World B X}
  {c : Config (machine P)}

theorem ends_of_run (hT : T.Kept) (h₀ : AllValid T.Valid w₀.records)
    {Q : P.Kind → Past B X → Except B.Exn Unit → Prop}
    (hbody : ∀ k, Prog.wp (T.contract k) (Q k) (P.body k) [])
    (hr : Run good ⟨w₀, []⟩ c) :
    ∀ th ∈ c.pool, Prog.wp (T.contract th.kind) (Q th.kind) th.rest th.past := by
  let K : Config (machine P) → Prop := fun c =>
    ∀ th ∈ c.pool, Prog.wp (T.contract th.kind) (Q th.kind) th.rest th.past
  refine Run.invariant (P := K) (fun th hth => absurd hth List.not_mem_nil)
    (fun c m c' hc hold _ hf => ?_) hr
  obtain ⟨k, rfl, -, rfl⟩ | ⟨t, ch, k, o, f, past, r, s, rfl, hp, hx, rfl⟩ | ⟨t, rfl, rfl⟩ |
    ⟨e, s, rfl, -, rfl⟩ := fire_cases hf
  · intro th hth
    rcases List.mem_append.mp hth with hth | hth
    · exact hold th hth
    · rw [List.mem_singleton.mp hth]
      exact hbody k
  · intro th hth
    rcases List.mem_or_eq_of_mem_set hth with hth | rfl
    · exact hold th hth
    · exact (hold _ (List.mem_of_getElem? hp)).2 r ((valid_of_run hT h₀ hc).reads hx)
  · exact fun th hth => hold th (List.mem_of_mem_eraseIdx hth)
  · exact hold

theorem permitted_of_run (hT : T.Kept) (h₀ : AllValid T.Valid w₀.records)
    (hr : Run good ⟨w₀, []⟩ c) {t : Nat} {k : P.Kind} {o : Op B X}
    {f : (iface B X).Answer o → Prog (iface B X) Unit} {past : Past B X}
    (hp : c.pool[t]? = some ⟨k, .call o f, past⟩) :
    T.permits k past o ∧ writesValid T.Valid o :=
  (ends_of_run (Q := fun _ _ _ => True) hT h₀ hT hr _ (List.mem_of_getElem? hp)).1

/-- What holds of every answer to a permitted operation holds of the whole past of a
process. -/
theorem past_permitted (hT : T.Kept) (hV : AllValid T.Valid w₀.records)
    {F : P.Kind → Past B X → Prop} (h₀ : ∀ k, F k [])
    (hstep : ∀ {c : Config (machine P)} {t ch k o f past r s}, Told c.shared.records past →
      T.permits k past o → good c (.act t ch) → c.pool[t]? = some ⟨k, .call o f, past⟩ →
      exec c.shared o ch = some (r, s) → F k past → F k (⟨o, r⟩ :: past))
    (hr : Run good ⟨w₀, []⟩ c) : ∀ th ∈ c.pool, F th.kind th.past := by
  refine Run.invariant (P := fun c => ∀ th ∈ c.pool, F th.kind th.past)
    (fun th hth => absurd hth List.not_mem_nil) (fun c m c' hc hold hgood hf th hth => ?_) hr
  obtain ⟨k, rfl, -, rfl⟩ | ⟨t, ch, k, o, f, past, r, s, rfl, hp, hx, rfl⟩ | ⟨t, rfl, rfl⟩ |
    ⟨e, s, rfl, -, rfl⟩ := fire_cases hf
  · rcases List.mem_append.mp hth with hth | hth
    · exact hold th hth
    · rw [List.mem_singleton.mp hth]
      exact h₀ k
  · have hmem := List.mem_of_getElem? hp
    rcases List.mem_or_eq_of_mem_set hth with hth | rfl
    · exact hold th hth
    · exact hstep (told_of_run hc _ hmem) (permitted_of_run hT hV hc hp).1 hgood hp hx
        (hold _ hmem)
  · exact hold th (List.mem_of_mem_eraseIdx hth)
  · exact hold th hth

/-- An invariant of the outside that holds with the repository, from what one permitted
operation keeps. -/
theorem outside_permitted (hT : T.Kept) (h₀ : AllValid T.Valid w₀.records) {J : X.State → Prop}
    (hstep : ∀ {k past x ch s r s'}, T.permits k past (.ext x) →
      X.exec s x ch = some (r, s') → J s → J s')
    (hchange : ∀ {s e s'}, X.change s e = some s' → J s → J s') (hJ : J w₀.outside)
    (hr : Run good ⟨w₀, []⟩ c) : J c.shared.outside := by
  let K : Config (machine P) → Prop := fun c => J c.shared.outside
  refine Run.invariant (P := K) hJ (fun c m c' hc hold _ hf => ?_) hr
  obtain ⟨k, rfl, -, rfl⟩ | ⟨t, ch, k, o, f, past, r, s, rfl, hp, hx, rfl⟩ | ⟨t, rfl, rfl⟩ |
    ⟨e, s, rfl, hs, rfl⟩ := fire_cases hf
  · exact hold
  · have hx' : exec c.shared o ch = some (r, s) := hx
    rcases exec_outside hx' with hsame | ⟨x, xc, rfl, rfl, -⟩
    · show J s.outside
      rw [hsame]
      exact hold
    · obtain ⟨xc', hxc, hex, -⟩ := exec_ext hx'
      exact hstep (permitted_of_run hT h₀ hc hp).1 hex hold
  · exact hold
  · obtain ⟨s', hs', rfl⟩ := change_cases hs
    exact hchange hs' hold

end Runs

end SeoAgent.Verified.Service
