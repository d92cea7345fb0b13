import SeoAgent.Verified.Machine
import SeoAgent.Verified.Repository

/-!
# Processes over a repository and an outside world

A `Service` is a machine whose processes read and write one `Repository`, read
a clock, draw fresh names, and ask an `Outside` for everything else. Each read
and each commit is one operation, so a read-compute-write sequence of one
process is open to the others between any two of its operations. Every
operation may fail; a commit may also take effect and still answer with an
exception (its answer was lost).

`seen t i past` is what a process last learned about a record: from a read, a
listing or a commit of its own. A version once seen stays a version of the
record (`Told`), however old it has become.

## Main results

* `told_of_run` — in every reachable state everything any process has seen is
  a version of the record.
* `valid_of_run` — processes that write only valid values, trusting to read
  valid ones, keep all stored values valid.
* `past_of_run`, `outside_invariant` — invariants of what processes were answered and of
  the outside, one operation at a time.
* `repository_invariant`, `record_invariant` — an invariant of the repository from
  what one commit keeps, and of the version lists of one aggregate type from what
  one write adds to one list.
* `seen_current` — what the only writer of records has seen of them is current.
-/

namespace SeoAgent.Verified

/-- What the stored processes of one system have in common. -/
structure Backend where
  T : Type
  [decT : DecidableEq T]
  Payload : T → Type
  [decPayload : ∀ t, DecidableEq (Payload t)]
  Exn : Type
  /-- The exception for a write the repository refused. -/
  refused : T → String → Repository.Refusal → Exn
  /-- The exception for a repository that could not be reached. -/
  broken : String → Exn

attribute [instance] Backend.decT Backend.decPayload

/-- The part of the world a service talks to besides its repository. -/
structure Outside (Exn : Type) where
  Op : Type
  Res : Op → Type
  State : Type
  Choice : Type
  Env : Type
  exec : State → (o : Op) → Choice → Option (Except Exn (Res o) × State)
  change : State → Env → Option State

namespace Service

open Repository

variable {B : Backend} {X : Outside B.Exn}

/-! ## Operations -/

/-- The operations of a service. -/
inductive Op (B : Backend) (X : Outside B.Exn)
  | find (t : B.T) (i : String)
  | list (t : B.T)
  | commit (ws : List (Write B.T B.Payload))
  | now
  | newId
  | ext (x : X.Op)

/-- What each operation answers; clock readings are in microseconds. -/
@[reducible] def Op.Res : Op B X → Type
  | .find t _ => Option (B.Payload t × Nat)
  | .list t => Listing (B.Payload t × Nat)
  | .commit _ => Unit
  | .now => Int
  | .newId => String
  | .ext x => X.Res x

@[reducible] def iface (B : Backend) (X : Outside B.Exn) : Interface where
  Op := Op B X
  Res := Op.Res
  Exn := B.Exn

/-- The shared state of a service. -/
structure World (B : Backend) (X : Outside B.Exn) where
  records : Repository B.T B.Payload
  outside : X.State

/-- How an operation comes out: done, failed without an effect, done with its
answer lost, or with the value the world gives. -/
inductive Choice (X : Outside B.Exn)
  | done
  | fail (message : String)
  | lost (message : String)
  | clock (at_ : Int)
  | name (id : String)
  | ext (c : X.Choice)

/-- Commits, with the exception of the write that was refused. -/
def commitOr (r : Repository B.T B.Payload) :
    List (Write B.T B.Payload) → Except B.Exn (Repository B.T B.Payload)
  | [] => .ok r
  | w :: ws =>
      match r.apply w with
      | .ok s => commitOr s ws
      | .error e => .error (B.refused w.target.1 w.target.2 e)

theorem commit_of_commitOr {r s : Repository B.T B.Payload}
    {ws : List (Write B.T B.Payload)} (h : commitOr r ws = .ok s) :
    r.commit ws = .ok s := by
  induction ws generalizing r with
  | nil => exact congrArg _ (Except.ok.inj h)
  | cons w ws ih =>
      simp only [commitOr] at h
      split at h
      · next u hu => exact commit_cons.mpr ⟨u, hu, ih h⟩
      · cases h

/-- One operation on the world. -/
def exec (w : World B X) :
    (o : Op B X) → Choice X → Option (Except B.Exn o.Res × World B X)
  | .find t i, .done => some (.ok (w.records.current t i), w)
  | .find _ _, .fail m => some (.error (B.broken m), w)
  | .list t, .done => some (.ok (w.records.list t), w)
  | .list _, .fail m => some (.error (B.broken m), w)
  | .commit ws, .done =>
      match commitOr w.records ws with
      | .ok r => some (.ok (), { w with records := r })
      | .error e => some (.error e, w)
  | .commit _, .fail m => some (.error (B.broken m), w)
  | .commit ws, .lost m =>
      match commitOr w.records ws with
      | .ok r => some (.error (B.broken m), { w with records := r })
      | .error _ => none
  | .now, .clock t => some (.ok t, w)
  | .newId, .name s => some (.ok s, w)
  | .ext x, .ext c =>
      (X.exec w.outside x c).map fun y => (y.1, { w with outside := y.2 })
  | _, _ => none

/-- What one operation can do to the repository. -/
theorem exec_records {w w' : World B X} {o : Op B X} {ch : Choice X}
    {r : Except B.Exn o.Res} (h : exec w o ch = some (r, w')) :
    w'.records = w.records ∨
      ∃ ws, o = .commit ws ∧ w.records.commit ws = .ok w'.records := by
  unfold exec at h
  split at h
  case h_5 ws =>
    split at h
    · next hc => cases h; exact .inr ⟨ws, rfl, commit_of_commitOr hc⟩
    · cases h; exact .inl rfl
  case h_7 ws _ =>
    split at h
    · next hc => cases h; exact .inr ⟨ws, rfl, commit_of_commitOr hc⟩
    · cases h
  case h_10 =>
    obtain ⟨y, -, hy⟩ := Option.map_eq_some_iff.mp h
    cases hy
    exact .inl rfl
  all_goals cases h
  all_goals exact .inl rfl

theorem exec_grows {w w' : World B X} {o : Op B X} {ch : Choice X}
    {r : Except B.Exn o.Res} (h : exec w o ch = some (r, w')) :
    w.records.Grows w'.records := by
  rcases exec_records h with he | ⟨ws, -, hc⟩
  · exact he ▸ Grows.refl _
  · exact commit_grows hc

/-- A commit answered without an exception was made. -/
theorem exec_commit_ok {w w' : World B X} {ws : List (Write B.T B.Payload)}
    {ch : Choice X} (h : exec w (.commit ws) ch = some (.ok (), w')) :
    w.records.commit ws = .ok w'.records ∧ w'.outside = w.outside := by
  cases ch with
  | done =>
      simp only [exec] at h
      split at h
      · next hc => cases h; exact ⟨commit_of_commitOr hc, rfl⟩
      · cases h
  | lost m =>
      simp only [exec] at h
      split at h <;> cases h
  | _ => cases h

/-- Why an operation is answered with an exception. -/
theorem exec_error {w w' : World B X} {o : Op B X} {ch : Choice X} {e : B.Exn}
    (h : exec w o ch = some (.error e, w')) :
    (∃ m, ch = .fail m) ∨ (∃ m, ch = .lost m) ∨ (∃ x, o = .ext x) ∨
      ∃ ws, o = .commit ws ∧ commitOr w.records ws = .error e := by
  cases ch with
  | fail m => exact .inl ⟨m, rfl⟩
  | lost m => exact .inr (.inl ⟨m, rfl⟩)
  | done =>
      cases o with
      | commit ws =>
          refine .inr (.inr (.inr ⟨ws, rfl, ?_⟩))
          simp only [exec] at h
          split at h
          · cases h
          · next hc => cases h; exact hc
      | ext x => exact .inr (.inr (.inl ⟨x, rfl⟩))
      | _ => cases h
  | ext x =>
      cases o with
      | ext y => exact .inr (.inr (.inl ⟨y, rfl⟩))
      | _ => cases h
  | _ => cases o <;> cases h

theorem exec_find_ok {w w' : World B X} {t : B.T} {i : String} {ch : Choice X}
    {x : Option (B.Payload t × Nat)}
    (h : exec w (.find t i) ch = some (.ok x, w')) :
    w.records.current t i = x ∧ w = w' := by
  cases ch with
  | done =>
      obtain ⟨hx, hw⟩ := Prod.mk.inj (Option.some.inj h)
      exact ⟨Except.ok.inj hx, hw⟩
  | fail m => cases h
  | _ => cases h

theorem exec_list_ok {w w' : World B X} {t : B.T} {ch : Choice X}
    {x : Listing (B.Payload t × Nat)}
    (h : exec w (.list t) ch = some (.ok x, w')) :
    w.records.list t = x ∧ w = w' := by
  cases ch with
  | done =>
      obtain ⟨hx, hw⟩ := Prod.mk.inj (Option.some.inj h)
      exact ⟨Except.ok.inj hx, hw⟩
  | fail m => cases h
  | _ => cases h

/-- Only an outside operation changes the outside. -/
theorem exec_outside {w w' : World B X} {o : Op B X} {ch : Choice X}
    {r : Except B.Exn o.Res} (h : exec w o ch = some (r, w')) :
    w'.outside = w.outside ∨
      ∃ x c, o = .ext x ∧ ch = .ext c ∧ w'.records = w.records := by
  unfold exec at h
  split at h
  case h_5 =>
    split at h <;> cases h <;> exact .inl rfl
  case h_7 =>
    split at h
    · cases h; exact .inl rfl
    · cases h
  case h_10 x c =>
    obtain ⟨y, -, hy⟩ := Option.map_eq_some_iff.mp h
    cases hy
    exact .inr ⟨x, c, rfl, rfl, rfl⟩
  all_goals cases h
  all_goals exact .inl rfl

/-- An outside operation is answered by the outside and by nothing else. -/
theorem exec_ext {w w' : World B X} {x : X.Op} {ch : Choice X}
    {r : Except B.Exn (X.Res x)} (h : exec w (.ext x) ch = some (r, w')) :
    ∃ c, ch = .ext c ∧ X.exec w.outside x c = some (r, w'.outside) ∧
      w'.records = w.records := by
  cases ch with
  | ext c =>
      obtain ⟨y, hy, hyw⟩ := Option.map_eq_some_iff.mp h
      cases hyw
      exact ⟨c, rfl, hy, rfl⟩
  | _ => cases h

/-! ## Machines -/

/-- The kinds of processes of a service. -/
structure Processes (B : Backend) (X : Outside B.Exn) where
  Kind : Type
  body : Kind → Prog (iface B X) Unit
  admits : List Kind → Kind → Bool

/-- A service as a machine. -/
@[reducible] def machine (P : Processes B X) : Machine (iface B X) where
  Shared := World B X
  Choice := Choice X
  Kind := P.Kind
  Env := X.Env
  exec := exec
  change := fun w e => (X.change w.outside e).map fun s => { w with outside := s }
  body := P.body
  admits := P.admits

/-- The environment changes the outside only. -/
theorem change_cases {P : Processes B X} {w w' : World B X} {e : X.Env}
    (h : (machine P).change w e = some w') :
    ∃ s, X.change w.outside e = some s ∧ w' = { w with outside := s } := by
  obtain ⟨s, hs, rfl⟩ := Option.map_eq_some_iff.mp h
  exact ⟨s, hs, rfl⟩

/-! ## What a process has seen -/

/-- The version one write makes of a record; `some none` when the write is
about the record without saying which version is there. -/
def writeTells (t : B.T) (i : String) :
    Write B.T B.Payload → Option (Option (B.Payload t × Nat))
  | .create t' i' v =>
      if h : t' = t then if i' = i then some (some (h ▸ v, 1)) else none else none
  | .replace t' i' v n =>
      if h : t' = t then if i' = i then some (some (h ▸ v, n + 1)) else none
      else none
  | .ensure t' i' _ => if t' = t ∧ i' = i then some none else none

/-- What the last of several writes that is about a record makes of it. -/
def lastWrite (t : B.T) (i : String) :
    List (Write B.T B.Payload) → Option (Option (B.Payload t × Nat))
  | [] => none
  | w :: ws => (lastWrite t i ws).or (writeTells t i w)

/-- What one answered operation says about a record: nothing, or its current
version, or (`some none`) that nothing is known any more. -/
def tells (t : B.T) (i : String) :
    (iface B X).Event → Option (Option (B.Payload t × Nat))
  | ⟨.find t' i', .ok x⟩ =>
      if h : t' = t then if i' = i then some (h ▸ x) else none else none
  | ⟨.list t', .ok xs⟩ =>
      if h : t' = t then some ((h ▸ xs : Listing (B.Payload t × Nat)).entries.lookup i)
      else none
  | ⟨.commit ws, .ok _⟩ => lastWrite t i ws
  | ⟨.commit ws, .error _⟩ => (lastWrite t i ws).map fun _ => none
  | _ => none

/-- What a process last learned about a record. -/
def seen (t : B.T) (i : String) :
    (iface B X).Past → Option (B.Payload t × Nat)
  | [] => none
  | ev :: past => (tells t i ev).getD (seen t i past)

theorem writeTells_of_ne {w : Write B.T B.Payload} {t : B.T} {i : String}
    (h : w.target ≠ (t, i)) : writeTells t i w = none := by
  cases w with
  | create t' i' v =>
      by_cases ht : t' = t
      · subst ht
        simp [writeTells, show i' ≠ i from fun hi => h (hi ▸ rfl)]
      · simp [writeTells, ht]
  | replace t' i' v n =>
      by_cases ht : t' = t
      · subst ht
        simp [writeTells, show i' ≠ i from fun hi => h (hi ▸ rfl)]
      · simp [writeTells, ht]
  | ensure t' i' v =>
      have : ¬(t' = t ∧ i' = i) := fun ⟨ht, hi⟩ => h (ht ▸ hi ▸ rfl)
      simp [writeTells, this]

theorem lastWrite_of_ne {ws : List (Write B.T B.Payload)} {t : B.T}
    {i : String} (h : ∀ w ∈ ws, w.target ≠ (t, i)) : lastWrite t i ws = none := by
  induction ws with
  | nil => rfl
  | cons w ws ih =>
      simp only [lastWrite, ih fun w' hw' => h w' (List.mem_cons_of_mem _ hw'),
        Option.none_or]
      exact writeTells_of_ne (h w List.mem_cons_self)

theorem lastWrite_isSome {ws : List (Write B.T B.Payload)}
    {w : Write B.T B.Payload} {t : B.T} {i : String} (hw : w ∈ ws)
    (h : w.target = (t, i)) : (lastWrite t i ws).isSome := by
  induction ws with
  | nil => cases hw
  | cons w' ws ih =>
      rw [lastWrite, Option.isSome_or, Bool.or_eq_true]
      rcases List.mem_cons.mp hw with rfl | hw
      · refine .inr ?_
        cases w <;> obtain ⟨rfl, rfl⟩ := Prod.mk.inj h <;> simp [writeTells]
      · exact .inl (ih hw)

theorem lastWrite_append (t : B.T) (i : String)
    (ws ws' : List (Write B.T B.Payload)) :
    lastWrite t i (ws ++ ws') = (lastWrite t i ws').or (lastWrite t i ws) := by
  induction ws with
  | nil => simp [lastWrite]
  | cons w ws ih => simp only [List.cons_append, lastWrite, ih, Option.or_assoc]

section Seen
variable {t : B.T} {i : String} {past : (iface B X).Past}

@[simp] theorem seen_find (x : Option (B.Payload t × Nat)) :
    seen t i (⟨.find t i, .ok x⟩ :: past) = x := by
  simp [seen, tells]

@[simp] theorem seen_find_error {t' : B.T} {i' : String} (e : B.Exn) :
    seen t i (⟨.find t' i', .error e⟩ :: past) = seen t i past := rfl

theorem seen_find_of_ne {t' : B.T} {i' : String} (x : Option (B.Payload t' × Nat))
    (h : (t', i') ≠ (t, i)) :
    seen t i (⟨.find t' i', .ok x⟩ :: past) = seen t i past := by
  by_cases ht : t' = t
  · subst ht
    simp [seen, tells, show i' ≠ i from fun hi => h (by rw [hi])]
  · simp [seen, tells, ht]

@[simp] theorem seen_list (xs : Listing (B.Payload t × Nat)) :
    seen t i (⟨.list t, .ok xs⟩ :: past) = xs.entries.lookup i := by
  simp [seen, tells]

theorem seen_list_of_ne {t' : B.T} (r : Except B.Exn (Listing (B.Payload t' × Nat)))
    (h : t' ≠ t) : seen t i (⟨.list t', r⟩ :: past) = seen t i past := by
  cases r <;> simp [seen, tells, h]

@[simp] theorem seen_list_error {t' : B.T} (e : B.Exn) :
    seen t i (⟨.list t', .error e⟩ :: past) = seen t i past := rfl

@[simp] theorem seen_now (r : Except B.Exn Int) :
    seen t i (⟨.now, r⟩ :: past) = seen t i past := by
  cases r <;> rfl

@[simp] theorem seen_newId (r : Except B.Exn String) :
    seen t i (⟨.newId, r⟩ :: past) = seen t i past := by
  cases r <;> rfl

@[simp] theorem seen_ext {x : X.Op} (r : Except B.Exn (X.Res x)) :
    seen t i (⟨.ext x, r⟩ :: past) = seen t i past := by
  cases r <;> rfl

theorem seen_commit_of_ne {ws : List (Write B.T B.Payload)}
    {r : Except B.Exn Unit} (h : ∀ w ∈ ws, w.target ≠ (t, i)) :
    seen t i (⟨.commit ws, r⟩ :: past) = seen t i past := by
  have hnone := lastWrite_of_ne h
  cases r <;> simp [seen, tells, hnone]

/-- A replacement committed among writes of other records. -/
theorem seen_commit_replace {ws ws' : List (Write B.T B.Payload)}
    (v : B.Payload t) (n : Nat) (h : ∀ w ∈ ws ++ ws', w.target ≠ (t, i)) :
    seen t i (⟨.commit (ws ++ .replace t i v n :: ws'), .ok ()⟩ :: past) =
      some (v, n + 1) := by
  have hnone := lastWrite_of_ne fun w hw => h w (List.mem_append_right _ hw)
  simp [seen, tells, lastWrite_append, lastWrite, hnone, writeTells]

@[simp] theorem seen_commit_error {ws : List (Write B.T B.Payload)}
    {w : Write B.T B.Payload} (e : B.Exn) (hw : w ∈ ws)
    (h : w.target = (t, i)) :
    seen t i (⟨.commit ws, .error e⟩ :: past) = none := by
  have hsome := lastWrite_isSome hw h
  obtain ⟨x, hx⟩ := Option.isSome_iff_exists.mp hsome
  simp [seen, tells, hx]

end Seen

/-- Everything ever seen is a version of its record. -/
def Told (r : Repository B.T B.Payload) (past : (iface B X).Past) : Prop :=
  ∀ rest, rest <:+ past → ∀ t i v n,
    seen t i rest = some (v, n) → r.versionAt t i n = some v

theorem told_nil (r : Repository B.T B.Payload) :
    Told (X := X) r [] := by
  intro rest hrest t i v n h
  rw [List.suffix_nil.mp hrest] at h
  cases h

theorem Told.mono {r s : Repository B.T B.Payload} {past : (iface B X).Past}
    (h : Told r past) (hg : r.Grows s) : Told s past :=
  fun rest hrest t i v n hs => versionAt_mono hg (h rest hrest t i v n hs)

theorem Told.seen {r : Repository B.T B.Payload} {past : (iface B X).Past}
    (h : Told r past) {t : B.T} {i : String} {v : B.Payload t} {n : Nat}
    (hs : seen t i past = some (v, n)) : r.versionAt t i n = some v :=
  h past (List.suffix_refl _) t i v n hs

/-- What any find brought is a version. -/
theorem Told.found {r : Repository B.T B.Payload} {past : (iface B X).Past} (h : Told r past)
    {t : B.T} {i : String} {v : B.Payload t} {n : Nat}
    (hmem : (⟨.find t i, .ok (some (v, n))⟩ : (iface B X).Event) ∈ past) :
    r.versionAt t i n = some v := by
  obtain ⟨before, rest, rfl⟩ := List.append_of_mem hmem
  exact h _ (List.suffix_append before _) t i v n (seen_find _)

theorem Told.tail {r : Repository B.T B.Payload} {past : (iface B X).Past}
    {ev : (iface B X).Event} (h : Told r (ev :: past)) : Told r past :=
  fun rest hrest => h rest (hrest.trans (List.suffix_cons _ _))

private theorem writeTells_current {r s : Repository B.T B.Payload}
    {w : Write B.T B.Payload} (ha : Applied r w s) {t : B.T} {i : String}
    {v : B.Payload t} {n : Nat} (h : writeTells t i w = some (some (v, n))) :
    s.current t i = some (v, n) := by
  have key : ∀ (t' : B.T) (i' : String) (v' : B.Payload t') (n' : Nat),
      (r.versions t' i').length + 1 = n' →
      (if ht : t' = t then if i' = i then some (some (ht ▸ v', n')) else none
        else none) = some (some (v, n)) →
      (r.append t' i' v').current t i = some (v, n) := by
    intro t' i' v' n' hl h
    by_cases ht : t' = t
    · subst ht
      by_cases hi : i' = i
      · subst hi
        simp only [dite_true, if_true, Option.some.injEq, Prod.mk.injEq] at h
        obtain ⟨rfl, rfl⟩ := h
        rw [current_append_self, hl]
      · simp [hi] at h
    · simp [ht] at h
  cases ha with
  | create fresh => exact key _ _ _ 1 (by rw [fresh]; rfl) h
  | replace _ expected => exact key _ _ _ _ (by rw [expected]) h
  | ensure => simp [writeTells] at h
  | same => simp [writeTells] at h

private theorem lastWrite_current {r s : Repository B.T B.Payload}
    {ws : List (Write B.T B.Payload)} (hc : r.commit ws = .ok s) {t : B.T}
    {i : String} {v : B.Payload t} {n : Nat}
    (h : lastWrite t i ws = some (some (v, n))) : s.current t i = some (v, n) := by
  induction ws generalizing r with
  | nil => cases h
  | cons w ws ih =>
      obtain ⟨u, hu, hs⟩ := commit_cons.mp hc
      rw [lastWrite] at h
      rcases Option.or_eq_some_iff.mp h with h | ⟨hnone, h⟩
      · exact ih hs h
      · have hkeep : s.versions t i = u.versions t i := by
          refine commit_versions_of_ne hs fun w' hw' ht => ?_
          have := lastWrite_isSome hw' ht
          rw [hnone] at this
          cases this
        rw [current_congr hkeep]
        exact writeTells_current (applied_of_apply hu) h

/-- In a listing, an id is listed with at most one value. -/
theorem Listing.lookup_of_mem {α : Type} {xs : List (String × α)}
    (hn : (xs.map Prod.fst).Nodup) {i : String} {x : α} (h : (i, x) ∈ xs) :
    xs.lookup i = some x := by
  induction xs with
  | nil => cases h
  | cons y ys ih =>
      obtain ⟨j, y⟩ := y
      rw [List.map_cons, List.nodup_cons] at hn
      rw [List.lookup_cons]
      rcases List.mem_cons.mp h with he | h
      · obtain ⟨rfl, rfl⟩ := Prod.mk.inj he
        simp
      · have hne : i ≠ j := fun e => hn.1 (e ▸ List.mem_map.mpr ⟨_, h, rfl⟩)
        rw [beq_false_of_ne hne]
        exact ih hn.2 h

private theorem lookup_mem {α : Type} {xs : List (String × α)} {i : String}
    {x : α} (h : xs.lookup i = some x) : (i, x) ∈ xs := by
  induction xs with
  | nil => cases h
  | cons y ys ih =>
      obtain ⟨j, y⟩ := y
      simp only [List.lookup_cons] at h
      split at h
      · next hj =>
          rw [eq_of_beq hj]
          exact (Option.some.inj h) ▸ List.mem_cons_self
      · exact List.mem_cons_of_mem _ (ih h)

/-- What an answered operation tells about a record is its current version. -/
private theorem tells_current {w w' : World B X} {o : Op B X} {ch : Choice X}
    {r : Except B.Exn o.Res} (he : exec w o ch = some (r, w')) {t : B.T}
    {i : String} {v : B.Payload t} {n : Nat}
    (h : tells t i ⟨o, r⟩ = some (some (v, n))) :
    w'.records.current t i = some (v, n) := by
  cases r with
  | error e =>
      cases o <;> simp [tells] at h
  | ok x =>
      cases o with
      | find t' i' =>
          obtain ⟨rfl, rfl⟩ := exec_find_ok he
          by_cases ht : t' = t
          · subst ht
            by_cases hi : i' = i
            · subst hi
              simp only [tells, dite_true, if_true, Option.some.injEq] at h
              exact h
            · simp [tells, hi] at h
          · simp [tells, ht] at h
      | list t' =>
          obtain ⟨rfl, rfl⟩ := exec_list_ok he
          by_cases ht : t' = t
          · subst ht
            simp only [tells, dite_true, Option.some.injEq] at h
            exact mem_list_iff.mp (lookup_mem h)
          · simp [tells, ht] at h
      | commit ws => exact lastWrite_current (exec_commit_ok he).1 h
      | now => cases h
      | newId => cases h
      | ext x => cases h

/-- An operation that tells nothing about a record leaves it alone. -/
private theorem versions_of_tells_none {w w' : World B X} {o : Op B X}
    {ch : Choice X} {r : Except B.Exn o.Res} (he : exec w o ch = some (r, w'))
    {t : B.T} {i : String} (h : tells t i ⟨o, r⟩ = none) :
    w'.records.versions t i = w.records.versions t i := by
  rcases exec_records he with heq | ⟨ws, rfl, hc⟩
  · rw [heq]
  · refine commit_versions_of_ne hc fun x hx ht => ?_
    obtain ⟨y, hy⟩ := Option.isSome_iff_exists.mp (lastWrite_isSome hx ht)
    cases r <;> simp [tells, hy] at h

/-- What a process sees of a record is current, or it is what it saw before of
a record its operation left alone. -/
theorem seen_step {w w' : World B X} {past : (iface B X).Past} {o : Op B X}
    {ch : Choice X} {r : Except B.Exn o.Res} (he : exec w o ch = some (r, w'))
    {t : B.T} {i : String} {v : B.Payload t} {n : Nat}
    (h : seen t i (⟨o, r⟩ :: past) = some (v, n)) :
    w'.records.current t i = some (v, n) ∨
      (seen t i past = some (v, n) ∧
        w'.records.versions t i = w.records.versions t i) := by
  simp only [seen] at h
  cases hte : tells t i ⟨o, r⟩ with
  | none => exact .inr ⟨by rwa [hte] at h, versions_of_tells_none he hte⟩
  | some x =>
      rw [hte, Option.getD_some] at h
      exact .inl (tells_current he (hte.trans (congrArg some h)))

/-- What a process sees by one operation is a version, and what it had seen
stays one. -/
theorem Told.step {w w' : World B X} {past : (iface B X).Past} {o : Op B X}
    {ch : Choice X} {r : Except B.Exn o.Res} (h : Told w.records past)
    (he : exec w o ch = some (r, w')) :
    Told (X := X) w'.records (⟨o, r⟩ :: past) := by
  have hold := h.mono (exec_grows he)
  intro rest hrest t i v n hs
  rcases List.suffix_cons_iff.mp hrest with rfl | hrest
  case inr => exact hold rest hrest t i v n hs
  rcases seen_step he hs with hc | ⟨hs, -⟩
  · exact (current_eq_some_iff.mp hc).1
  · exact hold.seen hs

/-! ## Terms -/

/-- Every stored value is a valid one for its id. -/
def AllValid (V : (t : B.T) → String → B.Payload t → Prop)
    (r : Repository B.T B.Payload) : Prop :=
  ∀ t i, ∀ v ∈ r.versions t i, V t i v

/-- The values a read brings are valid. -/
def readsValid (V : (t : B.T) → String → B.Payload t → Prop) :
    (o : Op B X) → Except B.Exn o.Res → Prop
  | .find t i, .ok (some (v, _)) => V t i v
  | .list t, .ok xs => ∀ e ∈ xs.entries, V t e.1 e.2.1
  | _, _ => True

/-- The values a commit writes are valid. -/
def writesValid (V : (t : B.T) → String → B.Payload t → Prop) :
    Op B X → Prop
  | .commit ws => ∀ w ∈ ws, w.Carries V
  | _ => True

/-- What the processes of a service agree on: which values may be stored under
which id, and what each kind of process may ask for. -/
structure Terms (P : Processes B X) where
  Valid : (t : B.T) → String → B.Payload t → Prop
  permits : P.Kind → (iface B X).Past → Op B X → Prop

/-- A process keeps the terms: it writes valid values only, trusting to read
valid ones, and asks for what its kind may. -/
def Terms.contract {P : Processes B X} (T : Terms P) (k : P.Kind) :
    Prog.Contract (iface B X) where
  permits past o := T.permits k past o ∧ writesValid T.Valid o
  trusts := readsValid T.Valid

/-- Every kind of process keeps the terms from its start. -/
def Terms.Kept {P : Processes B X} (T : Terms P) : Prop :=
  ∀ k, Prog.wp (T.contract k) (fun _ _ => True) (P.body k) []

theorem AllValid.step {V : (t : B.T) → String → B.Payload t → Prop}
    {w w' : World B X} {o : Op B X} {ch : Choice X} {r : Except B.Exn o.Res}
    (h : AllValid V w.records) (ho : writesValid V o)
    (he : exec w o ch = some (r, w')) : AllValid V w'.records := by
  rcases exec_records he with heq | ⟨ws, rfl, hc⟩
  · exact heq ▸ h
  · exact commit_preserves (P := AllValid V)
      (fun x hx _ _ _ hu ha => apply_all ha (ho x hx) hu) h hc

theorem AllValid.reads {V : (t : B.T) → String → B.Payload t → Prop}
    {w w' : World B X} {o : Op B X} {ch : Choice X} {r : Except B.Exn o.Res}
    (h : AllValid V w.records) (he : exec w o ch = some (r, w')) :
    readsValid V o r := by
  have key : ∀ t i x, w.records.current t i = some x → V t i x.1 := by
    rintro t i ⟨v, n⟩ hx
    exact h t i v (mem_of_versionAt (current_eq_some_iff.mp hx).1)
  cases r with
  | error e => cases o <;> trivial
  | ok x =>
      cases o with
      | find t i =>
          cases x with
          | none => trivial
          | some x => exact key t i x (exec_find_ok he).1
      | list t =>
          intro e hm
          obtain ⟨rfl, -⟩ := exec_list_ok he
          exact key t e.1 e.2 (mem_list_iff.mp hm)
      | commit ws => trivial
      | now => trivial
      | newId => trivial
      | ext x => trivial

/-! ## Runs -/

section Runs
open Machine

variable {P : Processes B X} {good : Condition (machine P)}
  {w₀ : World B X} {c : Config (machine P)}

/-- The records only grow. -/
theorem grows_of_run {c₀ : Config (machine P)} (hr : Run good c₀ c) :
    c₀.shared.records.Grows c.shared.records := by
  induction hr with
  | start => exact Grows.refl _
  | move m before ok fired ih =>
      obtain ⟨k, rfl, -, rfl⟩ | ⟨t, ch, k, o, f, past, r, s, rfl, -, hx, rfl⟩ | ⟨t, rfl, rfl⟩ |
        ⟨e, s, rfl, hs, rfl⟩ := fire_cases fired
      · exact ih
      · exact ih.trans (exec_grows hx)
      · exact ih
      · obtain ⟨s', -, rfl⟩ := change_cases hs
        exact ih

/-- In every reachable state everything any process has seen is a version of
its record. -/
theorem told_of_run (hr : Run good ⟨w₀, []⟩ c) :
    ∀ th ∈ c.pool, Told c.shared.records th.past := by
  let D : Discipline (machine P) :=
    { inv := fun _ => True
      knows := fun _ w past => Told w.records past
      contract := fun _ => .any _
      coexist := fun _ _ _ _ => True }
  have hS : D.Sound good ⟨w₀, []⟩ :=
    { symm := fun _ => trivial
      admits := fun _ _ _ _ => trivial
      body := fun _ => Prog.wp_anything _
      start := fun _ _ => told_nil _
      trusted := fun _ => trivial
      inv := fun _ => trivial
      own := fun ha => ha.knows.step ha.exec
      frame := fun ha _ _ _ hk => hk.mono (exec_grows ha.exec)
      together := fun _ _ _ _ _ => trivial
      envInv := fun _ _ _ _ => trivial
      envFrame := fun _ _ _ hs _ _ hk => by
        obtain ⟨s, -, rfl⟩ := change_cases hs
        exact hk }
  exact fun th hth => ((hS.sound (.of_no_process trivial) hr).threads th hth).knows

/-- What holds of every answer a process may be given holds of its whole past. -/
theorem past_of_run {F : P.Kind → (iface B X).Past → Prop} (h₀ : ∀ k, F k [])
    (hstep : ∀ {c : Config (machine P)} {t ch k o f past r s}, Told c.shared.records past →
      good c (.act t ch) → c.pool[t]? = some ⟨k, .call o f, past⟩ →
      exec c.shared o ch = some (r, s) → F k past → F k (⟨o, r⟩ :: past))
    (hr : Run good ⟨w₀, []⟩ c) : ∀ th ∈ c.pool, F th.kind th.past := by
  let D : Discipline (machine P) :=
    { inv := fun _ => True
      knows := fun k _ past => F k past
      contract := fun _ => .any _
      coexist := fun _ _ _ _ => True }
  have hS : D.Sound good ⟨w₀, []⟩ :=
    { symm := fun _ => trivial
      admits := fun _ _ _ _ => trivial
      body := fun _ => Prog.wp_anything _
      start := fun k _ => h₀ k
      trusted := fun _ => trivial
      inv := fun _ => trivial
      own := fun ha => hstep (told_of_run ha.reached _ (List.mem_of_getElem? ha.here)) ha.ok
        ha.here ha.exec ha.knows
      frame := fun _ _ _ _ hk => hk
      together := fun _ _ _ _ _ => trivial
      envInv := fun _ _ _ _ => trivial
      envFrame := fun _ _ _ _ _ _ hk => hk }
  exact fun th hth => ((hS.sound (.of_no_process trivial) hr).threads th hth).knows

/-- An invariant of the outside, from what one outside operation and one change keep. -/
theorem outside_invariant {J : X.State → Prop}
    (hstep : ∀ {c : Config (machine P)} {t ch k x f past r s}, good c (.act t (.ext ch)) →
      c.pool[t]? = some ⟨k, .call (.ext x) f, past⟩ →
      X.exec c.shared.outside x ch = some (r, s) → J c.shared.outside → J s)
    (hchange : ∀ {s e s'}, X.change s e = some s' → J s → J s') (h₀ : J w₀.outside)
    (hr : Run good ⟨w₀, []⟩ c) : J c.shared.outside := by
  let K : Config (machine P) → Prop := fun c => J c.shared.outside
  refine Run.invariant (P := K) h₀ (fun c m c' _ hJ hgood hfire => ?_) hr
  obtain ⟨k, -, -, rfl⟩ | ⟨t, ch, k, o, f, past, r, s, rfl, hp, hx, rfl⟩ | ⟨t, -, rfl⟩ |
    ⟨e, s, -, hs, rfl⟩ := fire_cases hfire
  · exact hJ
  · have hx' : exec c.shared o ch = some (r, s) := hx
    rcases exec_outside hx' with hsame | ⟨x, xc, rfl, rfl, -⟩
    · show J s.outside
      rw [hsame]
      exact hJ
    · obtain ⟨xc', hxc, hex, -⟩ := exec_ext hx'
      cases hxc
      exact hstep hgood hp hex hJ
  · exact hJ
  · obtain ⟨s', hs', rfl⟩ := change_cases hs
    exact hchange hs' hJ

/-- In every reachable state every stored value is valid. -/
theorem valid_of_run {T : Terms P} (hT : T.Kept)
    (h₀ : AllValid T.Valid w₀.records) (hr : Run good ⟨w₀, []⟩ c) :
    AllValid T.Valid c.shared.records := by
  let D : Discipline (machine P) :=
    { inv := fun w => AllValid T.Valid w.records
      knows := fun _ _ _ => True
      contract := T.contract
      coexist := fun _ _ _ _ => True }
  have hS : D.Sound good ⟨w₀, []⟩ :=
    { symm := fun _ => trivial
      admits := fun _ _ _ _ => trivial
      body := hT
      start := fun _ _ => trivial
      trusted := fun ha => ha.holds.inv.reads ha.exec
      inv := fun ha => ha.holds.inv.step ha.permitted.2 ha.exec
      own := fun _ => trivial
      frame := fun _ _ _ _ _ => trivial
      together := fun _ _ _ _ _ => trivial
      envInv := fun _ hh _ hs => by
        obtain ⟨s, -, rfl⟩ := change_cases hs
        exact hh.inv
      envFrame := fun _ _ _ _ _ _ _ => trivial }
  exact (hS.sound (.of_no_process h₀) hr).inv

/-- A commit about to be carried out, with what is known at that point. -/
structure Committing (T : Terms P) (good : Condition (machine P))
    (w₀ : World B X) (c : Config (machine P)) (ch : Choice X) (k : P.Kind)
    (past : (iface B X).Past) (ws : List (Write B.T B.Payload)) : Prop where
  reached : Run good ⟨w₀, []⟩ c
  told : Told c.shared.records past
  valid : AllValid T.Valid c.shared.records
  ok : ∃ t, good c (.act t ch) ∧
    ∃ f, c.pool[t]? = some ⟨k, .call (.commit ws) f, past⟩
  permitted : T.permits k past (.commit ws)
  writes : ∀ w ∈ ws, w.Carries T.Valid

/-- An invariant of the repository, from what one permitted commit keeps. -/
theorem repository_invariant {T : Terms P} (hT : T.Kept)
    (hV : AllValid T.Valid w₀.records) {K : Repository B.T B.Payload → Prop}
    (hstep : ∀ {c ch k past ws r}, Committing T good w₀ c ch k past ws →
      K c.shared.records → c.shared.records.commit ws = .ok r → K r)
    (h₀ : K w₀.records) (hr : Run good ⟨w₀, []⟩ c) : K c.shared.records := by
  let D : Discipline (machine P) :=
    { inv := fun w => K w.records
      knows := fun _ _ _ => True
      contract := T.contract
      coexist := fun _ _ _ _ => True }
  have hS : D.Sound good ⟨w₀, []⟩ :=
    { symm := fun _ => trivial
      admits := fun _ _ _ _ => trivial
      body := hT
      start := fun _ _ => trivial
      trusted := fun ha => (valid_of_run hT hV ha.reached).reads ha.exec
      inv := fun {c tid ch k o f past r s} ha => by
        rcases exec_records ha.exec with he | ⟨ws, rfl, hc⟩
        · have hsame : K s.records ↔ K c.shared.records := by rw [he]
          exact hsame.mpr ha.holds.inv
        · have hcom : Committing T good w₀ c ch k past ws :=
            { reached := ha.reached
              told := told_of_run ha.reached _ (List.mem_of_getElem? ha.here)
              valid := valid_of_run hT hV ha.reached
              ok := ⟨tid, ha.ok, f, ha.here⟩
              permitted := ha.permitted.1
              writes := ha.permitted.2 }
          exact hstep hcom ha.holds.inv hc
      own := fun _ => trivial
      frame := fun _ _ _ _ _ => trivial
      together := fun _ _ _ _ _ => trivial
      envInv := fun _ hh _ hs => by
        obtain ⟨s, -, rfl⟩ := change_cases hs
        exact hh.inv
      envFrame := fun _ _ _ _ _ _ _ => trivial }
  exact (hS.sound (.of_no_process h₀) hr).inv

/-- What one write may add to the versions of a record of type `t`. -/
structure RecordRule (T : Terms P) (good : Condition (machine P))
    (w₀ : World B X) (t : B.T) (Good : String → List (B.Payload t) → Prop) :
    Prop where
  first : ∀ {c ch k past ws i v}, Committing T good w₀ c ch k past ws →
    .create t i v ∈ ws ∨ .ensure t i v ∈ ws → Good i [v]
  next : ∀ {c ch k past ws i v vs}, Committing T good w₀ c ch k past ws →
    .replace t i v vs.length ∈ ws → vs ≠ [] →
    c.shared.records.versions t i <+: vs → Good i vs → Good i (vs ++ [v])

private theorem RecordRule.apply_keeps {T : Terms P} {t : B.T}
    {Good : String → List (B.Payload t) → Prop}
    (hR : RecordRule T good w₀ t Good) {ch : Choice X} {k : P.Kind}
    {past : (iface B X).Past} {ws : List (Write B.T B.Payload)}
    (hc : Committing T good w₀ c ch k past ws) {w : Write B.T B.Payload}
    (hw : w ∈ ws) {u u' : Repository B.T B.Payload}
    (hg : c.shared.records.Grows u) (hu : ∀ i, Good i (u.versions t i))
    (ha : u.apply w = .ok u') : ∀ i, Good i (u'.versions t i) := by
  intro i
  by_cases hi : w.target = (t, i)
  case neg => rw [apply_versions_of_ne ha hi]; exact hu i
  cases applied_of_apply ha with
  | @create t' i' v fresh =>
      obtain ⟨rfl, rfl⟩ := Prod.mk.inj hi
      rw [versions_append_self, fresh]
      exact hR.first hc (.inl hw)
  | @replace t' i' v n present expected =>
      obtain ⟨rfl, rfl⟩ := Prod.mk.inj hi
      rw [versions_append_self]
      exact hR.next hc (expected ▸ hw) present (hg _ _) (hu _)
  | @ensure t' i' v fresh =>
      obtain ⟨rfl, rfl⟩ := Prod.mk.inj hi
      rw [versions_append_self, fresh]
      exact hR.first hc (.inr hw)
  | same => exact hu i

/-- An invariant of the versions of every record of type `t`. -/
theorem record_invariant {T : Terms P} (hT : T.Kept)
    (hV : AllValid T.Valid w₀.records) {t : B.T}
    {Good : String → List (B.Payload t) → Prop}
    (hR : RecordRule T good w₀ t Good)
    (h₀ : ∀ i, Good i (w₀.records.versions t i))
    (hr : Run good ⟨w₀, []⟩ c) : ∀ i, Good i (c.shared.records.versions t i) :=
  repository_invariant (K := fun r => ∀ i, Good i (r.versions t i)) hT hV
    (fun hcom hinv hc => commit_preserves
      (fun _ hw _ _ hg hu happ => hR.apply_keeps hcom hw hg hu happ) hinv hc)
    h₀ hr

/-! ## Records with one writer -/

/-- Processes of the kinds `Writes` run one at a time, and the others only create
records of type `t`. -/
structure SoleWriter (T : Terms P) (t : B.T) (Writes : P.Kind → Prop) : Prop where
  alone : ∀ {ks k}, P.admits ks k = true → Writes k → ∀ k' ∈ ks, ¬Writes k'
  others : ∀ {k past ws}, T.permits k past (.commit ws) → ¬Writes k →
    ∀ w ∈ ws, ∀ i, w.target = (t, i) → ∃ v, w = .create t i v

/-- A record that is there is left alone by commits that only create such records. -/
private theorem versions_of_creates {r s : Repository B.T B.Payload} {t : B.T}
    {ws : List (Write B.T B.Payload)} (hc : r.commit ws = .ok s)
    (hcreate : ∀ w ∈ ws, ∀ i, w.target = (t, i) → ∃ v, w = .create t i v) {i : String}
    (hne : r.versions t i ≠ []) : s.versions t i = r.versions t i := by
  refine commit_preserves (P := fun u => u.versions t i = r.versions t i)
    (fun w hw u u' _ hu happ => ?_) rfl hc
  by_cases ht : w.target = (t, i)
  · obtain ⟨v, rfl⟩ := hcreate w hw i ht
    have hfresh : u.versions t i = [] := (apply_create happ).1
    exact absurd (hu.symm.trans hfresh) hne
  · rw [apply_versions_of_ne happ ht, hu]

/-- What the one writer has seen of its records is how they are stored. -/
theorem seen_current {T : Terms P} (hT : T.Kept) (hV : AllValid T.Valid w₀.records)
    {t : B.T} {Writes : P.Kind → Prop} (hW : SoleWriter T t Writes)
    (hr : Run good ⟨w₀, []⟩ c) : ∀ th ∈ c.pool, Writes th.kind → ∀ {i v n},
      seen t i th.past = some (v, n) → c.shared.records.current t i = some (v, n) := by
  let D : Discipline (machine P) :=
    { inv := fun _ => True
      knows := fun k w past => Writes k → ∀ {i v n}, seen t i past = some (v, n) →
        w.records.current t i = some (v, n)
      contract := T.contract
      coexist := fun k _ k' _ => ¬(Writes k ∧ Writes k') }
  have hS : D.Sound good ⟨w₀, []⟩ :=
    { symm := fun h hk => h hk.symm
      admits := fun hadm k' hk' _ hk => hW.alone hadm hk.2 k' hk' hk.1
      body := hT
      start := fun _ _ _ => nofun
      trusted := fun ha => (valid_of_run hT hV ha.reached).reads ha.exec
      inv := fun _ => trivial
      own := fun ha hk i v n hs => by
        rcases seen_step ha.exec hs with hc | ⟨hs, hsame⟩
        · exact hc
        · rw [current_congr hsame]
          exact ha.knows hk hs
      frame := fun {c tid ch k o f past r s} ha th _ hco hknows hk i v n hs => by
        have hcur := hknows hk hs
        rcases exec_records ha.exec with he | ⟨ws, rfl, hc⟩
        · exact he ▸ hcur
        · have hne : c.shared.records.versions t i ≠ [] := fun h => by
            rw [current_eq_none_iff.mpr h] at hcur
            cases hcur
          have hcreate := hW.others ha.permitted.1 fun hw => hco ⟨hw, hk⟩
          rw [current_congr (versions_of_creates hc hcreate hne)]
          exact hcur
      together := fun _ _ _ hco _ => hco
      envInv := fun _ _ _ _ => trivial
      envFrame := fun _ _ _ hs _ _ hknows hk i v n hseen => by
        obtain ⟨s, -, rfl⟩ := change_cases hs
        exact hknows hk hseen }
  exact fun th hth hk i v n hs => ((hS.sound (.of_no_process trivial) hr).threads th hth).knows hk hs

end Runs

end Service

end SeoAgent.Verified
