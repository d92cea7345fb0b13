/-!
# Programs that ask an outside world for everything

A process is written here as the tree of the operations it asks for. A node
carries one operation and, for every answer it may get, the rest of the
process; an answer is a value or an exception, because in the systems this is
for every operation can fail. Leaves return or raise.

Two things are built on the tree. The `Monad` and `MonadExcept` instances let a
process be written in `do` notation with `throw` and `try … catch`. `Prog.wp`
says what a process may ask for: `wp C Q p past` holds when, started after the
operations and answers in `past` (newest first), `p` asks only for what the
contract `C` permits at that point, whatever it is answered among the answers
`C` trusts to come, and ends in `Q`. What is trusted is a debt: a proof about a
machine has to show that only such answers come.

## Main results

* `Prog.wp_bind`, `Prog.wp_tryCatch` — sequencing and exception handling.
* `Prog.wp_mono`, `Prog.wp_ask` — weakening and one operation.
-/

namespace SeoAgent.Verified

/-! ## Outcomes -/

/-- A sequence of two fallible steps succeeds when both do. -/
theorem bind_eq_ok {ε α β : Type} {x : Except ε α} {f : α → Except ε β}
    {b : β} : (x >>= f) = .ok b ↔ ∃ a, x = .ok a ∧ f a = .ok b := by
  cases x with
  | error e => exact ⟨nofun, nofun⟩
  | ok a =>
      exact ⟨fun h => ⟨a, rfl, h⟩, fun ⟨_, ha, h⟩ => Except.ok.inj ha ▸ h⟩

/-! ## Interfaces and programs -/

/-- The operations a family of processes may ask for: what each one answers
and the exceptions that can come instead. -/
structure Interface where
  Op : Type
  Res : Op → Type
  Exn : Type

namespace Interface

/-- What comes back from one operation. -/
abbrev Answer (I : Interface) (o : I.Op) : Type := Except I.Exn (I.Res o)

/-- One operation a process asked for, with the answer it got. -/
structure Event (I : Interface) where
  op : I.Op
  answer : I.Answer op

/-- What a process has asked and been answered so far, newest first. -/
abbrev Past (I : Interface) : Type := List I.Event

end Interface

/-- A process over the interface `I` that ends with a value of type `α`. -/
inductive Prog (I : Interface) (α : Type) : Type
  | ret (a : α)
  | raise (e : I.Exn)
  | call (o : I.Op) (k : I.Answer o → Prog I α)

namespace Prog

variable {I : Interface} {α β γ : Type}

/-- Sequencing: an exception of the first part skips the second. -/
def bind : Prog I α → (α → Prog I β) → Prog I β
  | ret a, f => f a
  | raise e, _ => raise e
  | call o k, f => call o (fun r => (k r).bind f)

/-- Exception handling: a value of the first part skips the handler. -/
def handle : Prog I α → (I.Exn → Prog I α) → Prog I α
  | ret a, _ => ret a
  | raise e, h => h e
  | call o k, h => call o (fun r => (k r).handle h)

/-- A computed outcome as a process that asks for nothing. -/
def ofExcept : Except I.Exn α → Prog I α
  | .ok a => ret a
  | .error e => raise e

/-- Asks for one operation and takes its answer as the outcome. -/
def ask (o : I.Op) : Prog I (I.Res o) := call o ofExcept

/-- A process whose value nobody waits for. -/
def void (p : Prog I α) : Prog I Unit := p.bind fun _ => ret ()

instance : Monad (Prog I) where
  pure := ret
  bind := bind

instance : MonadExcept I.Exn (Prog I) where
  throw := raise
  tryCatch := handle

/-! ## Contracts and weakest preconditions -/

/-- When an operation may be asked for, given what was asked before it, and
which answers are trusted to come. -/
structure Contract (I : Interface) where
  permits : I.Past → I.Op → Prop
  trusts : (o : I.Op) → I.Answer o → Prop

/-- The contract that permits everything and trusts nothing. -/
def Contract.any (I : Interface) : Contract I := ⟨fun _ _ => True, fun _ _ => True⟩

/-- `wp C Q p past`: after `past`, the process `p` asks only for what `C`
permits, under all answers `C` trusts to come, and ends in `Q`. -/
def wp (C : Contract I) (Q : I.Past → Except I.Exn α → Prop) :
    Prog I α → I.Past → Prop
  | ret a, past => Q past (.ok a)
  | raise e, past => Q past (.error e)
  | call o k, past =>
      C.permits past o ∧ ∀ r, C.trusts o r → wp C Q (k r) (⟨o, r⟩ :: past)

variable {C : Contract I} {Q Q' : I.Past → Except I.Exn α → Prop} {past : I.Past}

@[simp] theorem wp_ret (a : α) : wp C Q (ret a) past = Q past (.ok a) := rfl

@[simp] theorem wp_pure (a : α) : wp C Q (pure a) past = Q past (.ok a) := rfl

@[simp] theorem wp_raise (e : I.Exn) :
    wp C Q (raise e) past = Q past (.error e) := rfl

@[simp] theorem wp_throw (e : I.Exn) :
    wp C Q (throw e : Prog I α) past = Q past (.error e) := rfl

theorem wp_call (o : I.Op) (k : I.Answer o → Prog I α) :
    wp C Q (call o k) past =
      (C.permits past o ∧
        ∀ r, C.trusts o r → wp C Q (k r) (⟨o, r⟩ :: past)) := rfl

@[simp] theorem wp_ofExcept (x : Except I.Exn α) :
    wp C Q (ofExcept x) past = Q past x := by
  cases x <;> rfl

/-- One operation: it must be permitted, and every trusted answer must do. -/
theorem wp_ask {o : I.Op} {Q : I.Past → Except I.Exn (I.Res o) → Prop}
    (hp : C.permits past o)
    (h : ∀ r, C.trusts o r → Q (⟨o, r⟩ :: past) r) : wp C Q (ask o) past :=
  ⟨hp, fun r hr => by rw [wp_ofExcept]; exact h r hr⟩

/-- What the second part of a sequence has to achieve after the first. -/
def after (C : Contract I) (Q : I.Past → Except I.Exn β → Prop)
    (f : α → Prog I β) : I.Past → Except I.Exn α → Prop
  | past, .ok a => wp C Q (f a) past
  | past, .error e => Q past (.error e)

@[simp] theorem after_ok {Q : I.Past → Except I.Exn β → Prop}
    {f : α → Prog I β} (a : α) :
    after C Q f past (.ok a) = wp C Q (f a) past := rfl

@[simp] theorem after_error {Q : I.Past → Except I.Exn β → Prop}
    {f : α → Prog I β} (e : I.Exn) :
    after C Q f past (.error e) = Q past (.error e) := rfl

theorem wp_bind {Q : I.Past → Except I.Exn β → Prop} (p : Prog I α)
    (f : α → Prog I β) :
    wp C Q (p >>= f) past ↔ wp C (after C Q f) p past := by
  change wp C Q (p.bind f) past ↔ _
  induction p generalizing past with
  | ret a => rfl
  | raise e => rfl
  | call o k ih =>
      simp only [bind, wp_call]
      exact and_congr_right fun _ =>
        forall_congr' fun r => imp_congr_right fun _ => ih r

/-- What the handler of a `try` has to achieve after the guarded part. -/
def recovering (C : Contract I) (Q : I.Past → Except I.Exn α → Prop)
    (h : I.Exn → Prog I α) : I.Past → Except I.Exn α → Prop
  | past, .ok a => Q past (.ok a)
  | past, .error e => wp C Q (h e) past

@[simp] theorem recovering_ok {h : I.Exn → Prog I α} (a : α) :
    recovering C Q h past (.ok a) = Q past (.ok a) := rfl

@[simp] theorem recovering_error {h : I.Exn → Prog I α} (e : I.Exn) :
    recovering C Q h past (.error e) = wp C Q (h e) past := rfl

theorem wp_tryCatch (p : Prog I α) (h : I.Exn → Prog I α) :
    wp C Q (tryCatch p h) past ↔ wp C (recovering C Q h) p past := by
  change wp C Q (p.handle h) past ↔ _
  induction p generalizing past with
  | ret a => rfl
  | raise e => rfl
  | call o k ih =>
      simp only [handle, wp_call]
      exact and_congr_right fun _ =>
        forall_congr' fun r => imp_congr_right fun _ => ih r

/-- A pure step that may fail, before the rest. -/
theorem wp_ofExcept_bind {Q : I.Past → Except I.Exn β → Prop}
    {x : Except I.Exn α} {f : α → Prog I β}
    (hok : ∀ a, x = .ok a → wp C Q (f a) past)
    (herr : ∀ e, x = .error e → Q past (.error e)) :
    wp C Q (ofExcept x >>= f) past := by
  rw [wp_bind, wp_ofExcept]
  cases x with
  | ok a => exact hok a rfl
  | error e => exact herr e rfl

/-- One operation, before the rest. -/
theorem wp_ask_bind {Q : I.Past → Except I.Exn β → Prop} {o : I.Op}
    {f : I.Res o → Prog I β} (hp : C.permits past o)
    (hok : ∀ a, C.trusts o (.ok a) → wp C Q (f a) (⟨o, .ok a⟩ :: past))
    (herr : ∀ e, C.trusts o (.error e) → Q (⟨o, .error e⟩ :: past) (.error e)) :
    wp C Q (ask o >>= f) past := by
  rw [wp_bind]
  refine wp_ask hp fun r hr => ?_
  cases r with
  | ok a => exact hok a hr
  | error e => exact herr e hr

/-- Weakening: only outcomes reached by adding to `past` matter. -/
theorem wp_mono {p : Prog I α}
    (h : ∀ past' r, past <:+ past' → Q past' r → Q' past' r) :
    wp C Q p past → wp C Q' p past := by
  induction p generalizing past with
  | ret a => exact h past _ (List.suffix_refl past)
  | raise e => exact h past _ (List.suffix_refl past)
  | call o k ih =>
      rintro ⟨hC, hk⟩
      refine ⟨hC, fun r ht => ih r (fun past' r' hs => ?_) (hk r ht)⟩
      exact h past' r' ((List.suffix_cons _ _).trans hs)

/-- A contract that permits more and trusts more is met by every process that
met the other. -/
theorem wp_mono_contract {C' : Contract I} {p : Prog I α}
    (hp : ∀ past o, C.permits past o → C'.permits past o)
    (ht : ∀ o r, C'.trusts o r → C.trusts o r) :
    wp C Q p past → wp C' Q p past := by
  induction p generalizing past with
  | ret a => exact id
  | raise e => exact id
  | call o k ih =>
      exact fun ⟨hC, hk⟩ => ⟨hp _ _ hC, fun r hr => ih r (hk r (ht o r hr))⟩

/-- Every process keeps the contract that permits everything. -/
theorem wp_anything (p : Prog I α) :
    wp (.any I) (fun _ _ => True) p past := by
  induction p generalizing past with
  | ret a => trivial
  | raise e => trivial
  | call o k ih => exact ⟨trivial, fun r _ => ih r⟩

/-- A sequence, from a known outcome of its first part. -/
theorem wp_seq {Q' : I.Past → Except I.Exn β → Prop} {p : Prog I α}
    {f : α → Prog I β} (hp : wp C Q p past)
    (hok : ∀ past' a, past <:+ past' → Q past' (.ok a) → wp C Q' (f a) past')
    (herr : ∀ past' e, past <:+ past' → Q past' (.error e) →
      Q' past' (.error e)) :
    wp C Q' (p >>= f) past := by
  rw [wp_bind]
  refine wp_mono (fun past' r hs hQ => ?_) hp
  cases r with
  | ok a => exact hok past' a hs hQ
  | error e => exact herr past' e hs hQ

theorem wp_void {p : Prog I α} (h : wp C (fun _ _ => True) p past) :
    wp C (fun _ _ => True) p.void past :=
  wp_seq (f := fun _ => ret ()) h (fun _ _ _ _ => trivial) fun _ _ _ _ => trivial

/-- A guarded part, from a known outcome of it. -/
theorem wp_try {Q' : I.Past → Except I.Exn α → Prop} {p : Prog I α}
    {h : I.Exn → Prog I α} (hp : wp C Q p past)
    (hok : ∀ past' a, past <:+ past' → Q past' (.ok a) → Q' past' (.ok a))
    (herr : ∀ past' e, past <:+ past' → Q past' (.error e) →
      wp C Q' (h e) past') :
    wp C Q' (tryCatch p h) past := by
  rw [wp_tryCatch]
  refine wp_mono (fun past' r hs hQ => ?_) hp
  cases r with
  | ok a => exact hok past' a hs hQ
  | error e => exact herr past' e hs hQ

end Prog

end SeoAgent.Verified
