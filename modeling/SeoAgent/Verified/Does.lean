import SeoAgent.Verified.Alone

/-!
# What a process does alone

`Does handle view F p r Q` says how a process comes out on its own: started in a state that
looks like `r`, it ends in an outcome and a state that `Q` accepts. `F` is what a fault of the
world means, an operation that was answered with an exception; a proof that ends in an
exception it did not raise itself gets `F` for it.

For a service the view is its records, and the rules are those of its operations: a read
brings what is stored, and a commit whose answer is not lost either is made or changes nothing.

## Main results

* `does_bind`, `does_tryCatch`, `Does.mono` — sequencing, exception handling and weakening.
* `does_find_bind`, `does_list_bind`, `does_commit` — one operation of a service.
-/

namespace SeoAgent.Verified

namespace Prog

variable {I : Interface} {S R α β : Type}

/-! ## Faults -/

/-- An operation was answered with an exception. -/
def Faulted (past : I.Past) : Prop := ∃ event ∈ past, ∃ e, event.answer = .error e

theorem Faulted.mono {past past' : I.Past} (h : Faulted past) (hs : past <:+ past') :
    Faulted past' := by
  obtain ⟨event, hmem, herror⟩ := h
  exact ⟨event, hs.subset hmem, herror⟩

/-! ## The rules -/

/-- From a state that looks like `r` the process comes out as `Q` says; `F` holds if an
operation was answered with an exception. -/
def Does (handle : S → (o : I.Op) → I.Answer o × S) (view : S → R) (F : Prop) (p : Prog I α)
    (r : R) (Q : Except I.Exn α → R → Prop) : Prop :=
  ∀ s past, view s = r → (Faulted (p.alone handle s past).past → F) →
    Q (p.alone handle s past).result (view (p.alone handle s past).state)

variable {handle : S → (o : I.Op) → I.Answer o × S} {view : S → R} {F : Prop} {r : R}

theorem does_pure {a : α} {Q : Except I.Exn α → R → Prop} (h : Q (.ok a) r) :
    Does handle view F (pure a) r Q := by
  intro s past hs _
  rw [alone_pure]
  exact hs ▸ h

theorem does_throw {e : I.Exn} {Q : Except I.Exn α → R → Prop} (h : Q (.error e) r) :
    Does handle view F (throw e) r Q := by
  intro s past hs _
  rw [alone_throw]
  exact hs ▸ h

theorem does_ofExcept {x : Except I.Exn α} {Q : Except I.Exn α → R → Prop} (h : Q x r) :
    Does handle view F (ofExcept x) r Q := by
  cases x with
  | ok a => exact does_pure h
  | error e => exact does_throw h

theorem Does.mono {p : Prog I α} {Q Q' : Except I.Exn α → R → Prop}
    (h : Does handle view F p r Q) (hQ : ∀ x r', Q x r' → Q' x r') : Does handle view F p r Q' :=
  fun s past hs hF => hQ _ _ (h s past hs hF)

theorem does_bind {p : Prog I α} {f : α → Prog I β} {Q : Except I.Exn α → R → Prop}
    {Q' : Except I.Exn β → R → Prop} (hp : Does handle view F p r Q)
    (hok : ∀ a r', Q (.ok a) r' → Does handle view F (f a) r' Q')
    (herr : ∀ e r', Q (.error e) r' → Q' (.error e) r') :
    Does handle view F (p >>= f) r Q' := by
  intro s past hs hF
  have hcome := hp s past hs
  rw [alone_bind] at hF ⊢
  generalize p.alone handle s past = ended at hF hcome ⊢
  obtain ⟨result, s', past'⟩ := ended
  cases result with
  | error e => exact herr e _ (hcome hF)
  | ok a =>
      have hfault : Faulted past' → F := fun h => hF (h.mono (alone_past _))
      exact hok a _ (hcome hfault) s' past' rfl hF

theorem does_tryCatch {p : Prog I α} {h : I.Exn → Prog I α} {Q Q' : Except I.Exn α → R → Prop}
    (hp : Does handle view F p r Q) (hok : ∀ a r', Q (.ok a) r' → Q' (.ok a) r')
    (herr : ∀ e r', Q (.error e) r' → Does handle view F (h e) r' Q') :
    Does handle view F (tryCatch p h) r Q' := by
  intro s past hs hF
  have hcome := hp s past hs
  rw [alone_tryCatch] at hF ⊢
  generalize p.alone handle s past = ended at hF hcome ⊢
  obtain ⟨result, s', past'⟩ := ended
  cases result with
  | ok a => exact hok a _ (hcome hF)
  | error e =>
      have hfault : Faulted past' → F := fun h => hF (h.mono (alone_past _))
      exact herr e _ (hcome hfault) s' past' rfl hF

/-- One operation, from what its handler can do. -/
theorem does_ask {o : I.Op} {Q : Except I.Exn (I.Res o) → R → Prop}
    (h : ∀ s, view s = r → (∀ e, (handle s o).1 = .error e → F) →
      Q (handle s o).1 (view (handle s o).2)) : Does handle view F (ask o) r Q := by
  intro s past hs hF
  have hrun : (ask o).alone handle s past =
      ⟨(handle s o).1, (handle s o).2, ⟨o, (handle s o).1⟩ :: past⟩ := by
    show (ofExcept (handle s o).1).alone handle (handle s o).2 (⟨o, (handle s o).1⟩ :: past) = _
    cases hanswer : (handle s o).1 with
    | ok a => rfl
    | error e => rfl
  rw [hrun] at hF ⊢
  exact h s hs fun e he => hF ⟨_, List.mem_cons_self, e, he⟩

end Prog

namespace Service

open Repository

variable {B : Backend} {X : Outside B.Exn} {G α β : Type}

/-- What a process of a service does to the records, with an oracle for the rest. -/
abbrev Does (oracle : Oracle B X G) (F : Prop) (p : Proc B X α)
    (r : Repository B.T B.Payload) (Q : Except B.Exn α → Repository B.T B.Payload → Prop) : Prop :=
  Prog.Does (served oracle) (fun s => s.1.records) F p r Q

variable {oracle : Oracle B X G} {F : Prop} {r : Repository B.T B.Payload}

/-- An operation that commits nothing leaves the records alone. -/
theorem does_read {o : Op B X} {Q : Except B.Exn o.Res → Repository B.T B.Payload → Prop}
    (hcommit : ∀ ws, o ≠ .commit ws)
    (hok : ∀ w g w' a, w.records = r → exec w o (oracle g o).1 = some (.ok a, w') → Q (.ok a) r)
    (herr : ∀ e, F → Q (.error e) r) :
    Does oracle F (Prog.ask (I := iface B X) o) r Q := by
  refine Prog.does_ask fun s hs hF => ?_
  have hsame : (served oracle s o).2.1.records = r := by
    refine hs ▸ served_keeps (J := fun r' => r' = s.1.records) s o rfl fun ws _ ho => ?_
    exact absurd ho (hcommit ws)
  rw [hsame]
  rcases served_cases oracle s o with hexec | ⟨-, hbroken⟩
  · cases hanswer : (served oracle s o).1 with
    | ok a =>
        rw [hanswer] at hexec
        exact hok s.1 s.2 _ a hs hexec
    | error e => exact herr e (hF e hanswer)
  · rw [hbroken]
    exact herr _ (hF _ hbroken)

theorem does_find {t : B.T} {i : String}
    {Q : Except B.Exn (Option (B.Payload t × Nat)) → Repository B.T B.Payload → Prop}
    (hok : Q (.ok (r.current t i)) r) (herr : ∀ e, F → Q (.error e) r) :
    Does oracle F (find t i) r Q := by
  refine does_read (fun _ h => by cases h) (fun w g w' a hw hexec => ?_) herr
  obtain ⟨ha, -⟩ := exec_find_ok hexec
  rw [← ha, hw]
  exact hok

theorem does_list {t : B.T}
    {Q : Except B.Exn (Listing (B.Payload t × Nat)) → Repository B.T B.Payload → Prop}
    (hok : Q (.ok (r.list t)) r) (herr : ∀ e, F → Q (.error e) r) :
    Does oracle F (list t) r Q := by
  refine does_read (fun _ h => by cases h) (fun w g w' a hw hexec => ?_) herr
  obtain ⟨ha, -⟩ := exec_list_ok hexec
  rw [← ha, hw]
  exact hok

theorem does_now {at_ : Int} {Q : Except B.Exn Int → Repository B.T B.Payload → Prop}
    (hclock : ∀ g, (oracle g .now).1 = .clock at_) (hok : Q (.ok at_) r)
    (herr : ∀ e, F → Q (.error e) r) : Does oracle F now r Q := by
  refine does_read (fun _ h => by cases h) (fun w g w' a hw hexec => ?_) herr
  rw [hclock] at hexec
  cases hexec
  exact hok

theorem does_newId {Q : Except B.Exn String → Repository B.T B.Payload → Prop}
    (hok : ∀ g name, (oracle g .newId).1 = .name name → Q (.ok name) r)
    (herr : ∀ e, F → Q (.error e) r) : Does oracle F newId r Q := by
  refine does_read (fun _ h => by cases h) (fun w g w' a hw hexec => ?_) herr
  cases hch : (oracle g .newId).1 with
  | name id =>
      rw [hch] at hexec
      cases hexec
      exact hok g _ hch
  | _ =>
      rw [hch] at hexec
      cases hexec

theorem does_ext {x : X.Op} {Q : Except B.Exn (X.Res x) → Repository B.T B.Payload → Prop}
    (hok : ∀ s g c a s', (oracle g (.ext x)).1 = .ext c → X.exec s x c = some (.ok a, s') →
      Q (.ok a) r) (herr : ∀ e, F → Q (.error e) r) : Does oracle F (ext x) r Q := by
  refine does_read (fun _ h => by cases h) (fun w g w' a hw hexec => ?_) herr
  obtain ⟨c, hc, hanswer, -⟩ := exec_ext hexec
  exact hok _ g c a _ hc hanswer

/-- A commit that was answered with an exception and whose answer was not lost changed
nothing. -/
theorem exec_commit_error {w w' : World B X} {ws : Writes B} {ch : Choice X} {e : B.Exn}
    (h : exec w (.commit ws) ch = some (.error e, w')) (hlost : ∀ m, ch ≠ .lost m) :
    w'.records = w.records := by
  cases ch with
  | done =>
      simp only [exec] at h
      split at h
      · cases h
      · cases h
        rfl
  | fail m =>
      cases h
      rfl
  | lost m => exact absurd rfl (hlost m)
  | _ => cases h

/-- A commit is made, or it is a fault and changes nothing, where no answer is lost. -/
theorem does_commit {ws : Writes B} {Q : Except B.Exn Unit → Repository B.T B.Payload → Prop}
    (hlost : ∀ g m, (oracle g (.commit ws)).1 ≠ .lost m)
    (hok : ∀ r', r.commit ws = .ok r' → Q (.ok ()) r') (herr : ∀ e, F → Q (.error e) r) :
    Does oracle F (commit ws) r Q := by
  refine Prog.does_ask fun s hs hF => ?_
  rcases served_cases oracle s (.commit ws) with hexec | ⟨hsame, hbroken⟩
  · cases hanswer : (served oracle s (.commit ws)).1 with
    | ok a =>
        rw [hanswer] at hexec
        exact hok _ (hs ▸ (exec_commit_ok hexec).1)
    | error e =>
        rw [hanswer] at hexec
        have hkept := exec_commit_error hexec (hlost s.2)
        rw [hkept, hs]
        exact herr e (hF e hanswer)
  · rw [hsame, hbroken, hs]
    exact herr _ (hF _ hbroken)

/-- A commit that was answered without an exception was made. -/
theorem does_commit_ok {ws : Writes B} {Q : Except B.Exn Unit → Repository B.T B.Payload → Prop}
    (hok : ∀ r', r.commit ws = .ok r' → Q (.ok ()) r') (herr : ∀ e r', Q (.error e) r') :
    Does oracle F (commit ws) r Q := by
  refine Prog.does_ask fun s hs _ => ?_
  rcases served_cases oracle s (.commit ws) with hexec | ⟨-, hbroken⟩
  · cases hanswer : (served oracle s (.commit ws)).1 with
    | ok a =>
        rw [hanswer] at hexec
        exact hok _ (hs ▸ (exec_commit_ok hexec).1)
    | error e => exact herr e _
  · rw [hbroken]
    exact herr _ _

/-! ## Processes that only read -/

/-- Nothing is changed and `a` is returned, unless there was a fault. -/
def Brings (F : Prop) (r : Repository B.T B.Payload) (a : α) (x : Except B.Exn α)
    (r' : Repository B.T B.Payload) : Prop :=
  r' = r ∧ (x = .ok a ∨ (∃ e, x = .error e) ∧ F)

theorem brings_ok (a : α) : Brings F r a (.ok a) r := ⟨rfl, .inl rfl⟩

theorem brings_error {a : α} (e : B.Exn) (hF : F) : Brings F r a (.error e) r :=
  ⟨rfl, .inr ⟨⟨e, rfl⟩, hF⟩⟩

theorem brings_pure (a : α) : Does oracle F (pure a) r (Brings F r a) :=
  Prog.does_pure (brings_ok a)

theorem brings_find (t : B.T) (i : String) :
    Does oracle F (find t i) r (Brings F r (r.current t i)) :=
  does_find (brings_ok _) brings_error

theorem brings_list (t : B.T) : Does oracle F (list t) r (Brings F r (r.list t)) :=
  does_list (brings_ok _) brings_error

theorem brings_bind {p : Proc B X α} {f : α → Proc B X β} {a : α}
    {Q : Except B.Exn β → Repository B.T B.Payload → Prop} (hp : Does oracle F p r (Brings F r a))
    (hf : Does oracle F (f a) r Q) (herr : ∀ e, F → Q (.error e) r) :
    Does oracle F (p >>= f) r Q := by
  refine Prog.does_bind hp (fun b r' hb => ?_) fun e r' he => ?_
  · obtain ⟨rfl, hok | ⟨⟨e, he⟩, -⟩⟩ := hb
    · obtain rfl := Except.ok.inj hok
      exact hf
    · cases he
  · obtain ⟨rfl, hok | ⟨-, hF⟩⟩ := he
    · cases hok
    · exact herr e hF

/-- A process that only reads, before one that brings something. -/
theorem brings_then {p : Proc B X α} {f : α → Proc B X β} {a : α} {b : β}
    (hp : Does oracle F p r (Brings F r a)) (hf : Does oracle F (f a) r (Brings F r b)) :
    Does oracle F (p >>= f) r (Brings F r b) :=
  brings_bind hp hf brings_error

end Service

end SeoAgent.Verified
