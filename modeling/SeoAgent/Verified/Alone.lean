import SeoAgent.Verified.Asks
import SeoAgent.Verified.Requests

/-!
# A process alone with its world

A process can also be run on its own: a handler answers each operation from a state, and the
state is nobody else's. What comes out is the outcome, the state at the end, and what was
asked and answered on the way.

For a service the state is its world with an oracle, which says how each operation comes out.

## Main results

* `alone_bind`, `alone_tryCatch` — sequencing and exception handling.
* `wp_alone` — what a contract says of a process it says of the process alone, with what the
  permitted operations keep of the state.
* `invariant_alone` — the same for a service whose stored values are valid.
-/

namespace SeoAgent.Verified

namespace Prog

/-- How a process comes out on its own. -/
structure Ended (I : Interface) (S α : Type) where
  result : Except I.Exn α
  state : S
  past : I.Past

variable {I : Interface} {S α β : Type}

/-- Runs a process; `handle` answers each operation. -/
def alone (handle : S → (o : I.Op) → I.Answer o × S) : Prog I α → S → I.Past → Ended I S α
  | ret a, s, past => ⟨.ok a, s, past⟩
  | raise e, s, past => ⟨.error e, s, past⟩
  | call o k, s, past =>
      (k (handle s o).1).alone handle (handle s o).2 (⟨o, (handle s o).1⟩ :: past)

variable {handle : S → (o : I.Op) → I.Answer o × S} {s : S} {past : I.Past}

@[simp] theorem alone_pure (a : α) :
    (pure a : Prog I α).alone handle s past = ⟨.ok a, s, past⟩ := rfl

@[simp] theorem alone_throw (e : I.Exn) :
    (throw e : Prog I α).alone handle s past = ⟨.error e, s, past⟩ := rfl

theorem alone_ask_bind (o : I.Op) (f : I.Res o → Prog I α) :
    (ask o >>= f).alone handle s past =
      (ofExcept (handle s o).1 >>= f).alone handle (handle s o).2
        (⟨o, (handle s o).1⟩ :: past) := rfl

/-- The second part goes on where the first one ended. -/
theorem alone_bind (p : Prog I α) (f : α → Prog I β) :
    (p >>= f).alone handle s past =
      match p.alone handle s past with
      | ⟨.ok a, s, past⟩ => (f a).alone handle s past
      | ⟨.error e, s, past⟩ => ⟨.error e, s, past⟩ := by
  change (p.bind f).alone handle s past = _
  induction p generalizing s past with
  | ret a => rfl
  | raise e => rfl
  | call o k ih => exact ih _

/-- The handler of a `try` goes on where the guarded part raised. -/
theorem alone_tryCatch (p : Prog I α) (h : I.Exn → Prog I α) :
    (tryCatch p h).alone handle s past =
      match p.alone handle s past with
      | ⟨.ok a, s, past⟩ => ⟨.ok a, s, past⟩
      | ⟨.error e, s, past⟩ => (h e).alone handle s past := by
  change (p.handle h).alone handle s past = _
  induction p generalizing s past with
  | ret a => rfl
  | raise e => rfl
  | call o k ih => exact ih _

/-- What was asked before stays in the past. -/
theorem alone_past (p : Prog I α) : past <:+ (p.alone handle s past).past := by
  induction p generalizing s past with
  | ret a => exact List.suffix_refl past
  | raise e => exact List.suffix_refl past
  | call o k ih => exact (List.suffix_cons _ past).trans (ih _)

/-- What a process comes out as alone is what it has become. -/
theorem reaches_alone {p₀ p : Prog I α} {a : α} (h : Reaches p₀ past p)
    (ha : (p.alone handle s past).result = .ok a) :
    Reaches p₀ (p.alone handle s past).past (.ret a) := by
  induction p generalizing s past with
  | ret b =>
      obtain rfl := Except.ok.inj ha
      exact h
  | raise e => cases ha
  | call o k ih => exact ih _ (.answered _ h) ha


/-- A contract, and what the operations it permits keep of the state. -/
theorem wp_alone {C : Contract I} {Q : I.Past → Except I.Exn α → Prop} {J : S → Prop}
    (hstep : ∀ s past o, J s → C.permits past o →
      C.trusts o (handle s o).1 ∧ J (handle s o).2)
    {p : Prog I α} (hwp : wp C Q p past) (hJ : J s) :
    J (p.alone handle s past).state ∧
      Q (p.alone handle s past).past (p.alone handle s past).result := by
  induction p generalizing s past with
  | ret a => exact ⟨hJ, hwp⟩
  | raise e => exact ⟨hJ, hwp⟩
  | call o k ih =>
      obtain ⟨hpermits, hrest⟩ := hwp
      obtain ⟨htrusts, hJ⟩ := hstep s past o hJ hpermits
      exact ih _ (hrest _ htrusts) hJ

end Prog

namespace Service

open Repository

variable {B : Backend} {X : Outside B.Exn} {G : Type}

/-- How each operation comes out. -/
abbrev Oracle (B : Backend) (X : Outside B.Exn) (G : Type) : Type :=
  G → Op B X → Choice X × G

/-- The handler of a service alone; what the oracle cannot mean is a failure. -/
def served (oracle : Oracle B X G) (s : World B X × G) (o : (iface B X).Op) :
    (iface B X).Answer o × (World B X × G) :=
  match exec s.1 o (oracle s.2 o).1 with
  | some (r, w) => (r, (w, (oracle s.2 o).2))
  | none => (.error (B.broken "unanswered"), (s.1, (oracle s.2 o).2))

section Served
variable {oracle : Oracle B X G} {w w' : World B X} {g : G}
  {V : (t : B.T) → String → B.Payload t → Prop}

/-- The world and the answer of one operation. -/
theorem served_cases (oracle : Oracle B X G) (s : World B X × G) (o : (iface B X).Op) :
    exec s.1 o (oracle s.2 o).1 = some ((served oracle s o).1, (served oracle s o).2.1) ∨
      (served oracle s o).2.1 = s.1 ∧
        (served oracle s o).1 = .error (B.broken "unanswered") := by
  unfold served
  cases hexec : exec s.1 o (oracle s.2 o).1 with
  | none => exact Or.inr ⟨rfl, rfl⟩
  | some come => exact Or.inl rfl

theorem served_reads (s : World B X × G) (o : (iface B X).Op) (h : AllValid V s.1.records) :
    readsValid V o (served oracle s o).1 := by
  rcases served_cases oracle s o with hexec | ⟨-, hbroken⟩
  · exact h.reads hexec
  · rw [hbroken]
    cases o <;> trivial

/-- What a permitted commit keeps, one operation keeps. -/
theorem served_keeps {J : Repository B.T B.Payload → Prop} (s : World B X × G)
    (o : (iface B X).Op) (hJ : J s.1.records)
    (hcommit : ∀ ws r, o = .commit ws → s.1.records.commit ws = .ok r → J r) :
    J (served oracle s o).2.1.records := by
  rcases served_cases oracle s o with hexec | ⟨hsame, -⟩
  · rcases exec_records hexec with hsame | ⟨ws, ho, hws⟩
    · rwa [hsame]
    · exact hcommit ws _ ho hws
  · rwa [hsame]

/-- What is stored stays valid, and what each permitted commit keeps is kept. -/
theorem invariant_alone (oracle : Oracle B X G) {K : (iface B X).Past → Writes B → Prop}
    {Q : (iface B X).Past → Except B.Exn α → Prop} {J : Repository B.T B.Payload → Prop}
    {past : (iface B X).Past} {p : Proc B X α}
    (hJ : ∀ past ws r r', K past ws → J r → r.commit ws = .ok r' → J r')
    (hwp : Prog.wp (commitContract V K) Q p past) {s : World B X × G}
    (hvalid : AllValid V s.1.records) (hs : J s.1.records) :
    (AllValid V (p.alone (served oracle) s past).state.1.records ∧
        J (p.alone (served oracle) s past).state.1.records) ∧
      Q (p.alone (served oracle) s past).past (p.alone (served oracle) s past).result := by
  refine Prog.wp_alone (J := fun s : World B X × G => AllValid V s.1.records ∧ J s.1.records)
    (fun s past o hs hpermits => ⟨served_reads s o hs.1, ?_⟩) hwp ⟨hvalid, hs⟩
  refine served_keeps (J := fun r => AllValid V r ∧ J r) s o hs fun ws r ho hws => ?_
  subst ho
  refine ⟨?_, hJ past ws _ _ hpermits.1 hs.2 hws⟩
  exact commit_preserves (P := AllValid V)
    (fun x hx _ _ _ hu ha => apply_all ha (hpermits.2 x hx) hu) hs.1 hws

end Served

end Service

end SeoAgent.Verified
