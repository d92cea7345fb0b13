import SeoAgent.Verified.Prog

/-!
# What a process asks for

`Reaches p past q` says that the process `p` has become `q` after it was answered as in
`past`, whatever the answers were. What a contract permits is then a property of every
operation a process can ever ask for.

## Main results

* `permitted_of_reaches` — a process that keeps a contract asks for nothing else.
* `returns_bind` — sequencing, for postconditions of returned values only.
* `gives_bind`, `gives_ask`, `gives_tryCatch` — the values a process returns, for contracts
  that do not depend on what was asked before.
-/

namespace SeoAgent.Verified.Prog

variable {I : Interface} {α : Type}

/-- `p` has become `q` after the answers of `past`. -/
inductive Reaches (p : Prog I α) : I.Past → Prog I α → Prop
  | start : Reaches p [] p
  | answered {past : I.Past} {o : I.Op} {k : I.Answer o → Prog I α} (r : I.Answer o)
      (before : Reaches p past (.call o k)) : Reaches p (⟨o, r⟩ :: past) (k r)

/-- The contract that permits what `permits` does and trusts nothing. -/
@[reducible] def asking (permits : I.Past → I.Op → Prop) : Contract I where
  permits := permits
  trusts := fun _ _ => True

variable {permits : I.Past → I.Op → Prop} {Q : I.Past → Except I.Exn α → Prop}
  {p : Prog I α} {past : I.Past}

theorem wp_of_reaches (h : wp (asking permits) Q p []) {q : Prog I α}
    (hr : Reaches p past q) : wp (asking permits) Q q past := by
  induction hr with
  | start => exact h
  | answered r _ ih => exact ih.2 r trivial

theorem permitted_of_reaches (h : wp (asking permits) Q p []) {o : I.Op}
    {k : I.Answer o → Prog I α} (hr : Reaches p past (.call o k)) : permits past o :=
  (wp_of_reaches h hr).1

/-! ## Evaluation -/

/-- What the process asks for next. -/
def next? : Prog I α → Option I.Op
  | .call o _ => some o
  | _ => none

/-- The process after these answers, the oldest first. -/
def replay [DecidableEq I.Op] : List I.Event → Prog I α → Option (Prog I α)
  | [], p => some p
  | ⟨o, r⟩ :: rest, .call o' k => if h : o = o' then replay rest (k (h ▸ r)) else none
  | _ :: _, _ => none

theorem reaches_of_replay [DecidableEq I.Op] {p₀ q : Prog I α} {evs : List I.Event}
    (h : replay evs p = some q) (hr : Reaches p₀ past p) : Reaches p₀ (evs.reverse ++ past) q := by
  induction evs generalizing p past with
  | nil =>
      obtain rfl := Option.some.inj h
      exact hr
  | cons ev rest ih =>
      obtain ⟨o, r⟩ := ev
      cases p with
      | ret a => cases h
      | raise e => cases h
      | call o' k =>
          unfold replay at h
          split at h
          · next heq =>
              subst heq
              rw [List.reverse_cons, List.append_assoc]
              exact ih h (.answered r hr)
          · cases h

/-- A process that evaluates to one that asks for `o` reaches it. -/
theorem reaches_call [DecidableEq I.Op] {evs : List I.Event} {o : I.Op}
    (h : (replay evs p).bind next? = some o) : ∃ k, Reaches p evs.reverse (.call o k) := by
  obtain ⟨q, hq, ho⟩ := Option.bind_eq_some_iff.mp h
  have hr := reaches_of_replay hq (.start (p := p))
  rw [List.append_nil] at hr
  cases q with
  | ret a => cases ho
  | raise e => cases ho
  | call o' k =>
      obtain rfl := Option.some.inj ho
      exact ⟨k, hr⟩

/-! ## What holds when a value is returned -/

/-- A postcondition of the outcomes that are values. -/
def Returns (P : I.Past → α → Prop) : I.Past → Except I.Exn α → Prop
  | past, .ok a => P past a
  | _, .error _ => True

@[simp] theorem returns_ok {P : I.Past → α → Prop} (a : α) :
    Returns P past (.ok a) = P past a := rfl

theorem returns_error {P : I.Past → α → Prop} (e : I.Exn) : Returns P past (.error e) :=
  trivial

variable {β : Type} {C : Contract I} {P : I.Past → α → Prop} {R : I.Past → β → Prop}

/-- A part that returns with `P`, and what makes `R` of it. -/
theorem returns_bind {f : α → Prog I β} (hp : wp C (Returns P) p past)
    (hf : ∀ past' a, past <:+ past' → P past' a → wp C (Returns R) (f a) past') :
    wp C (Returns R) (p >>= f) past :=
  wp_seq hp (fun past' a hs ha => hf past' a hs ha) fun _ e _ _ =>
    returns_error (P := R) e

theorem returns_mono {P' : I.Past → α → Prop} (h : ∀ past a, P past a → P' past a)
    (hp : wp C (Returns P) p past) : wp C (Returns P') p past := by
  refine wp_mono (fun past' r _ hr => ?_) hp
  cases r with
  | ok a => exact h past' a hr
  | error e => trivial

/-- A computed outcome, and what makes `R` of its value. -/
theorem returns_ofExcept_bind {x : Except I.Exn α} {f : α → Prog I β}
    (hf : ∀ a, x = .ok a → wp C (Returns R) (f a) past) :
    wp C (Returns R) (ofExcept x >>= f) past :=
  wp_ofExcept_bind hf fun e _ => returns_error (P := R) e

/-! ## What a process returns whatever was asked before -/

/-- `p` keeps the contract, and every value it returns has `G`. -/
def Gives (C : Contract I) (G : α → Prop) (p : Prog I α) : Prop :=
  ∀ past, wp C (Returns fun _ a => G a) p past

section Gives
variable {G : α → Prop} {H : β → Prop}

theorem gives_bind {f : α → Prog I β} (hp : Gives C G p) (hf : ∀ a, G a → Gives C H (f a)) :
    Gives C H (p >>= f) :=
  fun past => returns_bind (hp past) fun past' a _ ha => hf a ha past'

theorem gives_pure {a : α} (h : G a) : Gives C G (pure a) := fun _ => h

theorem gives_throw {e : I.Exn} : Gives C G (throw e) := fun _ => trivial

theorem gives_ofExcept {x : Except I.Exn α} (h : ∀ a, x = .ok a → G a) :
    Gives C G (ofExcept x) := by
  intro past
  rw [wp_ofExcept]
  cases x with
  | ok a => exact h a rfl
  | error e => trivial

/-- One operation, and what its answers have in common. -/
theorem gives_ask {o : I.Op} {G : I.Res o → Prop} (hp : ∀ past, C.permits past o)
    (h : ∀ a, C.trusts o (.ok a) → G a) : Gives C G (ask o) :=
  fun past => wp_ask (hp past) fun r hr =>
    match r, hr with
    | .ok a, hr => h a hr
    | .error _, _ => trivial

theorem gives_tryCatch {h : I.Exn → Prog I α} (hp : Gives C G p) (hh : ∀ e, Gives C G (h e)) :
    Gives C G (tryCatch p h) :=
  fun past => wp_try (hp past) (fun _ _ _ ha => ha) fun past' e _ _ => hh e past'

theorem Gives.mono {G' : α → Prop} (h : Gives C G p) (hG : ∀ a, G a → G' a) : Gives C G' p := by
  intro past
  refine wp_mono (fun past' r _ hr => ?_) (h past)
  cases r with
  | ok a => exact hG a hr
  | error e => trivial

/-- A part whose operations leave a view of the past alone, under a contract that allows
more. -/
theorem wp_framed {D : Contract I} {γ : Type} {F : I.Past → γ}
    (hpermits : ∀ past o, C.permits past o →
      D.permits past o ∧ ∀ r : I.Answer o, F (⟨o, r⟩ :: past) = F past)
    (htrusts : ∀ o r, D.trusts o r → C.trusts o r)
    (h : wp C (Returns fun _ a => G a) p past) :
    wp D (Returns fun past' a => G a ∧ F past' = F past) p past := by
  induction p generalizing past with
  | ret a => exact ⟨h, rfl⟩
  | raise e => trivial
  | call o k ih =>
      refine ⟨(hpermits past o h.1).1, fun r hr => ?_⟩
      have hframe : F (⟨o, r⟩ :: past) = F past := (hpermits past o h.1).2 r
      have hrest := ih r (h.2 r (htrusts o r hr))
      rwa [hframe] at hrest

/-- A part whose operations keep a property of the past, under a contract that allows more
while the property holds. -/
theorem wp_within {D : Contract I} {F : I.Past → Prop} (hF : F past)
    (hpermits : ∀ past o, F past → C.permits past o →
      D.permits past o ∧ ∀ r : I.Answer o, F (⟨o, r⟩ :: past))
    (htrusts : ∀ o r, D.trusts o r → C.trusts o r)
    (h : wp C (Returns fun _ a => G a) p past) :
    wp D (Returns fun past' a => G a ∧ F past') p past := by
  induction p generalizing past with
  | ret a => exact ⟨h, hF⟩
  | raise e => trivial
  | call o k ih =>
      obtain ⟨hpermitted, hkept⟩ := hpermits past o hF h.1
      exact ⟨hpermitted, fun r hr => ih r (hkept r) (h.2 r (htrusts o r hr))⟩

/-- A part whose operations keep a property of the past, and what it returns of its past. -/
theorem returns_within {D : Contract I} {F : I.Past → Prop} (hF : F past)
    (hpermits : ∀ past o, F past → C.permits past o →
      D.permits past o ∧ ∀ r : I.Answer o, F (⟨o, r⟩ :: past))
    (htrusts : ∀ o r, D.trusts o r → C.trusts o r) (h : wp C (Returns P) p past) :
    wp D (Returns fun past' a => P past' a ∧ F past') p past := by
  induction p generalizing past with
  | ret a => exact ⟨h, hF⟩
  | raise e => trivial
  | call o k ih =>
      obtain ⟨hpermitted, hkept⟩ := hpermits past o hF h.1
      exact ⟨hpermitted, fun r hr => ih r (hkept r) (h.2 r (htrusts o r hr))⟩

/-- A process of which nothing is said keeps the contract. -/
theorem Gives.keeps (h : Gives C G p) : wp C (fun _ _ => True) p past :=
  wp_mono (fun _ _ _ _ => trivial) (h past)

end Gives

end SeoAgent.Verified.Prog
