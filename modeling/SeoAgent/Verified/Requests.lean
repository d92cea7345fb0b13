import SeoAgent.Verified.Service

/-!
# What a process of a service asks for

The operations of a `Service` as programs, and the rule of each one for processes
whose contract restricts their commits only (`commitContract`): a read or an outside
operation needs no permission, so its rule has one obligation for the answer and one
for the exception.

## Main results

* `find_bind`, `list_bind`, `commit_bind`, `now_bind`, `newId_bind`, `ext_bind` — one
  operation before the rest.
-/

namespace SeoAgent.Verified.Service

open Repository

variable {B : Backend} {X : Outside B.Exn} {α : Type}

/-! ## Operations as programs -/

/-- A process of a service. -/
abbrev Proc (B : Backend) (X : Outside B.Exn) (α : Type) : Type := Prog (iface B X) α

/-- What a process has asked and been answered. -/
abbrev Past (B : Backend) (X : Outside B.Exn) : Type := (iface B X).Past

/-- The writes of a backend. -/
abbrev Writes (B : Backend) : Type := List (Write B.T B.Payload)

/-- The latest version of a record with its number. -/
def find (t : B.T) (i : String) : Proc B X (Option (B.Payload t × Nat)) :=
  Prog.ask (I := iface B X) (.find t i)

/-- The latest versions of all records of a type. -/
def list (t : B.T) : Proc B X (Listing (B.Payload t × Nat)) :=
  Prog.ask (I := iface B X) (.list t)

/-- The writes of one transaction. -/
def commit (ws : Writes B) : Proc B X Unit := Prog.ask (I := iface B X) (.commit ws)

def now : Proc B X Int := Prog.ask (I := iface B X) .now

def newId : Proc B X String := Prog.ask (I := iface B X) .newId

/-- An operation of the outside. -/
def ext (x : X.Op) : Proc B X (X.Res x) := Prog.ask (I := iface B X) (.ext x)

/-! ## Contracts about commits -/

/-- A permission that restricts commits only. -/
def commitsOnly (K : Past B X → Writes B → Prop) (past : Past B X) : Op B X → Prop
  | .commit ws => K past ws
  | _ => True

/-- Commits as `K` permits them, of values that are valid. -/
@[reducible] def commitContract (V : (t : B.T) → String → B.Payload t → Prop)
    (K : Past B X → Writes B → Prop) : Prog.Contract (iface B X) where
  permits past o := commitsOnly K past o ∧ writesValid V o
  trusts := readsValid V

section Rules
variable {V : (t : B.T) → String → B.Payload t → Prop} {K : Past B X → Writes B → Prop}
  {past : Past B X} {Q : Past B X → Except B.Exn α → Prop}

theorem find_bind {t : B.T} {i : String} {f : Option (B.Payload t × Nat) → Proc B X α}
    (hsome : ∀ (v : B.Payload t) (n : Nat), V t i v →
      Prog.wp (commitContract V K) Q (f (some (v, n))) (⟨.find t i, .ok (some (v, n))⟩ :: past))
    (hnone : Prog.wp (commitContract V K) Q (f none) (⟨.find t i, .ok none⟩ :: past))
    (herr : ∀ e : B.Exn, Q (⟨.find t i, .error e⟩ :: past) (.error e)) :
    Prog.wp (commitContract V K) Q (find t i >>= f) past := by
  refine Prog.wp_ask_bind ⟨trivial, trivial⟩ (fun a ha => ?_) fun e _ => herr e
  rcases a with _ | ⟨v, n⟩
  · exact hnone
  · exact hsome v n ha

theorem list_bind {t : B.T} {f : Listing (B.Payload t × Nat) → Proc B X α}
    (hok : ∀ xs : Listing (B.Payload t × Nat), (∀ e ∈ xs.entries, V t e.1 e.2.1) →
      Prog.wp (commitContract V K) Q (f xs) (⟨.list t, .ok xs⟩ :: past))
    (herr : ∀ e : B.Exn, Q (⟨.list t, .error e⟩ :: past) (.error e)) :
    Prog.wp (commitContract V K) Q (list t >>= f) past :=
  Prog.wp_ask_bind ⟨trivial, trivial⟩ (fun xs hxs => hok xs hxs) fun e _ => herr e

theorem commit_wp {ws : Writes B} {Q : Past B X → Except B.Exn Unit → Prop}
    (hK : K past ws) (hV : ∀ w ∈ ws, w.Carries V)
    (h : ∀ r : Except B.Exn Unit, Q (⟨.commit ws, r⟩ :: past) r) :
    Prog.wp (commitContract V K) Q (commit ws) past :=
  Prog.wp_ask ⟨hK, hV⟩ fun r _ => h r

theorem commit_bind {ws : Writes B} {f : Unit → Proc B X α}
    (hK : K past ws) (hV : ∀ w ∈ ws, w.Carries V)
    (hok : Prog.wp (commitContract V K) Q (f ()) (⟨.commit ws, .ok ()⟩ :: past))
    (herr : ∀ e : B.Exn, Q (⟨.commit ws, .error e⟩ :: past) (.error e)) :
    Prog.wp (commitContract V K) Q (commit ws >>= f) past :=
  Prog.wp_ask_bind ⟨hK, hV⟩ (fun _ _ => hok) fun e _ => herr e

theorem now_bind {f : Int → Proc B X α}
    (hok : ∀ t : Int, Prog.wp (commitContract V K) Q (f t) (⟨.now, .ok t⟩ :: past))
    (herr : ∀ e : B.Exn, Q (⟨.now, .error e⟩ :: past) (.error e)) :
    Prog.wp (commitContract V K) Q (now >>= f) past :=
  Prog.wp_ask_bind ⟨trivial, trivial⟩ (fun t _ => hok t) fun e _ => herr e

theorem newId_bind {f : String → Proc B X α}
    (hok : ∀ i : String, Prog.wp (commitContract V K) Q (f i) (⟨.newId, .ok i⟩ :: past))
    (herr : ∀ e : B.Exn, Q (⟨.newId, .error e⟩ :: past) (.error e)) :
    Prog.wp (commitContract V K) Q (newId >>= f) past :=
  Prog.wp_ask_bind ⟨trivial, trivial⟩ (fun i _ => hok i) fun e _ => herr e

theorem ext_wp {x : X.Op} {Q : Past B X → Except B.Exn (X.Res x) → Prop}
    (h : ∀ r : Except B.Exn (X.Res x), Q (⟨.ext x, r⟩ :: past) r) :
    Prog.wp (commitContract V K) Q (ext x) past :=
  Prog.wp_ask ⟨trivial, trivial⟩ fun r _ => h r

theorem ext_bind {x : X.Op} {f : X.Res x → Proc B X α}
    (hok : ∀ a : X.Res x, Prog.wp (commitContract V K) Q (f a) (⟨.ext x, .ok a⟩ :: past))
    (herr : ∀ e : B.Exn, Q (⟨.ext x, .error e⟩ :: past) (.error e)) :
    Prog.wp (commitContract V K) Q (ext x >>= f) past :=
  Prog.wp_ask_bind ⟨trivial, trivial⟩ (fun a _ => hok a) fun e _ => herr e

end Rules

end SeoAgent.Verified.Service
