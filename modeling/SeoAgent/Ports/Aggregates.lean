import SeoAgent.Ports.Job
import SeoAgent.Ports.ManagedAction
import SeoAgent.Ports.Outcomes
import SeoAgent.Ports.SeoRun
import SeoAgent.Ports.TitleProposal
import SeoAgent.Verified.Service

/-!
# The stored aggregates

Every aggregate of the application is kept in one repository, under its
aggregate type and id. This module says which types there are, what each one
stores, and which exceptions the repository raises.
-/

namespace SeoAgent.Ports

open Verified

/-- The aggregate types of the modelled stores. -/
inductive AggregateType
  | job
  | managedAction
  | actionOutcome
  | learningFeedback
  | seoRun
  | titleProposal
  deriving DecidableEq, Repr

namespace AggregateType

/-- The stored text of an aggregate type. -/
def name : AggregateType → String
  | job => "job"
  | managedAction => "managed_action"
  | actionOutcome => "action_outcome"
  | learningFeedback => "learning_feedback"
  | seoRun => "seo_run"
  | titleProposal => "title_proposal"

/-- What is stored under an aggregate type. -/
@[reducible] def Payload : AggregateType → Type
  | job => Job
  | managedAction => ManagedAction
  | actionOutcome => Outcome
  | learningFeedback => FeedbackEvent
  | seoRun => SeoRun
  | titleProposal => TitleProposal

instance decidableEqPayload : (t : AggregateType) → DecidableEq t.Payload
  | job => inferInstanceAs (DecidableEq Job)
  | managedAction => inferInstanceAs (DecidableEq ManagedAction)
  | actionOutcome => inferInstanceAs (DecidableEq Outcome)
  | learningFeedback => inferInstanceAs (DecidableEq FeedbackEvent)
  | seoRun => inferInstanceAs (DecidableEq SeoRun)
  | titleProposal => inferInstanceAs (DecidableEq TitleProposal)

/-- The exception for a refused write. -/
def refused (t : AggregateType) (i : String) :
    Repository.Refusal → Exc
  | .taken => ⟨.persistenceConflictError,
      s!"aggregate already exists: {t.name}:{i}"⟩
  | .stale expected found => ⟨.persistenceConflictError,
      s!"optimistic concurrency conflict: expected version {expected}, found {found}"⟩
  | .notFound => ⟨.persistenceNotFoundError,
      s!"aggregate not found: {t.name}:{i}"⟩

end AggregateType

/-- The exception of a database that could not be reached. -/
def databaseError (message : String) : Exc := ⟨.other "OperationalError", message⟩

/-- The application's repository, as the backend of its services. -/
@[reducible] def backend : Backend where
  T := AggregateType
  Payload := AggregateType.Payload
  Exn := Exc
  refused := AggregateType.refused
  broken := databaseError

/-- The records of the application. -/
abbrev Records : Type := Repository AggregateType AggregateType.Payload

/-- Jobs and actions are stored under their own ids. -/
def storedUnderItsId : (t : AggregateType) → String → t.Payload → Prop
  | .job, i, job => job.jobId = i
  | .managedAction, i, managed => managed.actionId = i
  | _, _, _ => True

/-! ## Asking the repository -/

section Asking

variable {X : Outside Exc}

/-- A process of the application. -/
abbrev Proc (X : Outside Exc) (α : Type) : Type :=
  Prog (Service.iface backend X) α

/-- What a process of the application has asked and been answered. -/
abbrev ProcPast (X : Outside Exc) : Type := (Service.iface backend X).Past

/-- How an operation of a process comes out. -/
abbrev ProcChoice (X : Outside Exc) : Type := Service.Choice (B := backend) X

/-- `repository.get`: the latest version of a record with its number. -/
def find (t : AggregateType) (i : String) : Proc X (Option (t.Payload × Nat)) :=
  Prog.ask (I := Service.iface backend X) (.find t i)

/-- `repository.list`. -/
def list (t : AggregateType) : Proc X (Listing (t.Payload × Nat)) :=
  Prog.ask (I := Service.iface backend X) (.list t)

/-- The writes of one transaction. -/
def commit (ws : List (Repository.Write AggregateType AggregateType.Payload)) :
    Proc X Unit :=
  Prog.ask (I := Service.iface backend X) (.commit ws)

/-- `datetime.now(timezone.utc)`. -/
def now : Proc X Int := Prog.ask (I := Service.iface backend X) .now

/-- A fresh id. -/
def newId : Proc X String := Prog.ask (I := Service.iface backend X) .newId

/-- An operation of the outside. -/
def ext (x : X.Op) : Proc X (X.Res x) :=
  Prog.ask (I := Service.iface backend X) (.ext x)

/-- What a process last learned about a record. -/
def seen (t : AggregateType) (i : String) (past : ProcPast X) :
    Option (t.Payload × Nat) :=
  Service.seen (B := backend) t i past

end Asking

/-! ## Reasoning about one operation -/

section Reasoning

variable {X : Outside Exc} {α : Type}
  {C : Prog.Contract (Service.iface backend X)} {past : ProcPast X}
  {Q : ProcPast X → Except Exc α → Prop}

theorem find_bind {t : AggregateType} {i : String}
    {f : Option (t.Payload × Nat) → Proc X α} (hp : C.permits past (.find t i))
    (hsome : ∀ (v : t.Payload) (n : Nat),
      C.trusts (.find t i) (.ok (some (v, n))) →
        Prog.wp C Q (f (some (v, n))) (⟨.find t i, .ok (some (v, n))⟩ :: past))
    (hnone : Prog.wp C Q (f none) (⟨.find t i, .ok none⟩ :: past))
    (herr : ∀ e : Exc, Q (⟨.find t i, .error e⟩ :: past) (.error e)) :
    Prog.wp C Q (find t i >>= f) past := by
  refine Prog.wp_ask_bind hp (fun a ha => ?_) fun e _ => herr e
  rcases a with _ | ⟨v, n⟩
  · exact hnone
  · exact hsome v n ha

theorem list_bind {t : AggregateType} {f : Listing (t.Payload × Nat) → Proc X α}
    (hp : C.permits past (.list t))
    (hok : ∀ xs : Listing (t.Payload × Nat), C.trusts (.list t) (.ok xs) →
      Prog.wp C Q (f xs) (⟨.list t, .ok xs⟩ :: past))
    (herr : ∀ e : Exc, Q (⟨.list t, .error e⟩ :: past) (.error e)) :
    Prog.wp C Q (list t >>= f) past :=
  Prog.wp_ask_bind hp hok fun e _ => herr e

theorem commit_bind
    {ws : List (Repository.Write AggregateType AggregateType.Payload)}
    {f : Unit → Proc X α} (hp : C.permits past (.commit ws))
    (hok : Prog.wp C Q (f ()) (⟨.commit ws, .ok ()⟩ :: past))
    (herr : ∀ e : Exc, Q (⟨.commit ws, .error e⟩ :: past) (.error e)) :
    Prog.wp C Q (commit ws >>= f) past :=
  Prog.wp_ask_bind hp (fun _ _ => hok) fun e _ => herr e

theorem now_bind {f : Int → Proc X α} (hp : C.permits past .now)
    (hok : ∀ t : Int, Prog.wp C Q (f t) (⟨.now, .ok t⟩ :: past))
    (herr : ∀ e : Exc, Q (⟨.now, .error e⟩ :: past) (.error e)) :
    Prog.wp C Q (now >>= f) past :=
  Prog.wp_ask_bind hp (fun t _ => hok t) fun e _ => herr e

theorem newId_bind {f : String → Proc X α} (hp : C.permits past .newId)
    (hok : ∀ i : String, Prog.wp C Q (f i) (⟨.newId, .ok i⟩ :: past))
    (herr : ∀ e : Exc, Q (⟨.newId, .error e⟩ :: past) (.error e)) :
    Prog.wp C Q (newId >>= f) past :=
  Prog.wp_ask_bind hp (fun i _ => hok i) fun e _ => herr e

theorem ext_bind {x : X.Op} {f : X.Res x → Proc X α}
    (hp : C.permits past (.ext x))
    (hok : ∀ a : X.Res x, Prog.wp C Q (f a) (⟨.ext x, .ok a⟩ :: past))
    (herr : ∀ e : Exc, Q (⟨.ext x, .error e⟩ :: past) (.error e)) :
    Prog.wp C Q (ext x >>= f) past :=
  Prog.wp_ask_bind hp (fun a _ => hok a) fun e _ => herr e

theorem ext_wp {x : X.Op} {Q : ProcPast X → Except Exc (X.Res x) → Prop}
    (hp : C.permits past (.ext x))
    (h : ∀ r : Except Exc (X.Res x), Q (⟨.ext x, r⟩ :: past) r) :
    Prog.wp C Q (ext x) past :=
  Prog.wp_ask hp fun r _ => h r

/-! ## What is seen -/

variable {t : AggregateType} {i : String}

@[simp] theorem seen_nil : seen (X := X) t i [] = none := rfl

@[simp] theorem seen_find (x : Option (t.Payload × Nat)) :
    seen t i (⟨.find t i, .ok x⟩ :: past) = x :=
  Service.seen_find (B := backend) x

@[simp] theorem seen_find_error {t' : AggregateType} {j : String} (e : Exc) :
    seen t i (⟨.find t' j, .error e⟩ :: past) = seen t i past := rfl

theorem seen_find_of_ne {u : AggregateType} {j : String}
    (x : Option (u.Payload × Nat)) (h : (t, i) ≠ (u, j)) :
    seen t i (⟨.find u j, .ok x⟩ :: past) = seen t i past :=
  Service.seen_find_of_ne (B := backend) x (Ne.symm h)

@[simp] theorem seen_list (xs : Listing (t.Payload × Nat)) :
    seen t i (⟨.list t, .ok xs⟩ :: past) = xs.entries.lookup i :=
  Service.seen_list (B := backend) xs

theorem seen_list_of_ne {u : AggregateType} (r : Except Exc (Listing (u.Payload × Nat)))
    (h : t ≠ u) : seen t i (⟨.list u, r⟩ :: past) = seen t i past :=
  Service.seen_list_of_ne (B := backend) r (Ne.symm h)

@[simp] theorem seen_now (r : Except Exc Int) :
    seen t i (⟨.now, r⟩ :: past) = seen t i past :=
  Service.seen_now r

@[simp] theorem seen_newId (r : Except Exc String) :
    seen t i (⟨.newId, r⟩ :: past) = seen t i past :=
  Service.seen_newId r

@[simp] theorem seen_ext {x : X.Op} (r : Except Exc (X.Res x)) :
    seen t i (⟨.ext x, r⟩ :: past) = seen t i past :=
  Service.seen_ext r

theorem seen_commit_of_ne
    {ws : List (Repository.Write AggregateType AggregateType.Payload)}
    {r : Except Exc Unit} (h : ∀ w ∈ ws, (t, i) ≠ w.target) :
    seen t i (⟨.commit ws, r⟩ :: past) = seen t i past :=
  Service.seen_commit_of_ne fun w hw => Ne.symm (h w hw)

theorem seen_commit_replace
    {ws ws' : List (Repository.Write AggregateType AggregateType.Payload)}
    (v : t.Payload) (n : Nat) (h : ∀ w ∈ ws ++ ws', (t, i) ≠ w.target) :
    seen t i (⟨.commit (ws ++ .replace t i v n :: ws'), .ok ()⟩ :: past) =
      some (v, n + 1) :=
  Service.seen_commit_replace (B := backend) v n fun w hw => Ne.symm (h w hw)

@[simp] theorem seen_replace (v : t.Payload) (n : Nat) :
    seen t i (⟨.commit [.replace t i v n], .ok ()⟩ :: past) =
      some (v, n + 1) := by
  simp [seen, Service.seen, Service.tells, Service.lastWrite,
    Service.writeTells]

end Reasoning

end SeoAgent.Ports
