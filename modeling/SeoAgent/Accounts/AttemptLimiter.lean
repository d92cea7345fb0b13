import Mathlib
import SeoAgent.Verified.SlidingWindow
import SeoAgent.Verified.Steps
import SeoAgent.Verified.Table

/-!
# The attempt limiter

`AttemptLimiter` (`app/accounts/service.py`): events per key in a sliding window, in memory,
with a bound on the keys. The lock makes each call one step. Times are the readings of the
clock as rationals.

`cancel` takes back the newest event of a key. When attempts of one key overlap, the attempt
that turned out to succeed need not be the newest: the event that goes is then one of another
attempt, and that one counts for too short a time.

## Main results

* `Tidy.steps` — in every run the table holds few keys, and every deque is sorted and has
  events.
* `attempts_limited` — the limit, in every run that takes back only the latest attempt of a
  key.
* `overlapping_exceeds` — a run that takes back an older one.
-/

namespace SeoAgent.Accounts

open SeoAgent.Verified SlidingWindow

/-! ## The table of events -/

/-- What a limiter is made with. -/
structure LimiterConfig where
  limit : Int
  windowSeconds : ℚ
  maxKeys : Nat
  deriving DecidableEq

/-- `_events`: a deque of times for each key. -/
abbrev Events (κ : Type) : Type := Table κ (List ℚ)

section Calls
variable {κ : Type} [DecidableEq κ] (cfg : LimiterConfig)

/-- An event that is out of the window. -/
def agedOut (now event : ℚ) : Bool := cfg.windowSeconds < now - event

/-- A deque without events is deleted. -/
def keep (events : Events κ) (key : κ) : List ℚ → Events κ
  | [] => events.drop key
  | first :: rest => events.put key (first :: rest)

/-- `_expire`: the table it leaves; the deque it returns is the one of the key in it. -/
def expire (now : ℚ) (events : Events κ) (key : κ) : Events κ :=
  match events.get? key with
  | none => events
  | some deque => keep events key (deque.dropWhile (agedOut cfg now))

/-- Every key is looked at for events that have aged out. -/
def expireAll (now : ℚ) (events : Events κ) : Events κ :=
  (events.map Prod.fst).foldl (expire cfg now) events

/-- The last event of a deque. -/
def lastEvent (deque : List ℚ) : ℚ := deque.getLastD 0

/-- The keys that are too many for one more, by their last event. -/
def overflowing (events : Events κ) : List κ :=
  ((events.insertionSort fun a b => lastEvent a.2 ≤ lastEvent b.2).take
    (events.length + 1 - cfg.maxKeys)).map Prod.fst

/-- `_prune`. -/
def prune (now : ℚ) (events : Events κ) : Events κ :=
  (expireAll cfg now events).dropAll (overflowing cfg (expireAll cfg now events))

/-- `_append`, which is also `record`. -/
def append (now : ℚ) (events : Events κ) (key : κ) : Events κ :=
  let live := expire cfg now events key
  match live.get? key with
  | some deque => live.put key (deque ++ [now])
  | none => (if cfg.maxKeys ≤ live.length then prune cfg now live else live).put key [now]

/-- The key is at its limit, by the deque that `_expire` returned. -/
def atLimit (events : Events κ) (key : κ) : Bool :=
  match events.get? key with
  | some deque => cfg.limit ≤ deque.length
  | none => false

/-- `blocked`. -/
def blocked (now : ℚ) (events : Events κ) (key : κ) : Bool × Events κ :=
  (atLimit cfg (expire cfg now events key) key, expire cfg now events key)

/-- `attempt`. -/
def attempt (now : ℚ) (events : Events κ) (key : κ) : Bool × Events κ :=
  let live := expire cfg now events key
  if atLimit cfg live key then (false, live) else (true, append cfg now live key)

/-- `cancel`. -/
def cancel (events : Events κ) (key : κ) : Events κ :=
  match events.get? key with
  | none => events
  | some deque => if deque = [] then events else keep events key deque.dropLast

/-- `succeeded`. -/
def succeeded (events : Events κ) (key : κ) : Events κ := events.drop key

/-! ## Runs -/

inductive LimiterCall (κ : Type)
  | attempt (now : ℚ) (key : κ)
  | record (now : ℚ) (key : κ)
  | blocked (now : ℚ) (key : κ)
  | succeeded (key : κ)
  /-- An attempt of the key that was let through at a time is taken back. -/
  | cancel (key : κ) (attemptedAt : ℚ)

/-- The limiter, with the last reading of its clock, the attempts that were let through and
stand, those that a success has cleared, and the keys that went because there were too many. -/
structure Limiter (κ : Type) where
  events : Events κ := []
  now : ℚ
  standing : κ → List ℚ := fun _ => []
  cleared : κ → List ℚ := fun _ => []
  evicted : List κ := []

/-- The keys that go for a new key. -/
def evictedBy (now : ℚ) (events : Events κ) (key : κ) : List κ :=
  let live := expire cfg now events key
  if live.get? key = none ∧ cfg.maxKeys ≤ live.length then
    overflowing cfg (expireAll cfg now live)
  else []

/-- One call. The clock does not go back, and an attempt is taken back once. -/
def limiterStep (s : Limiter κ) : LimiterCall κ → Option (Limiter κ)
  | .attempt now key =>
      if now < s.now then none
      else if (attempt cfg now s.events key).1 then
        some { s with
          events := (attempt cfg now s.events key).2, now
          standing := Function.update s.standing key (s.standing key ++ [now])
          evicted := s.evicted ++ evictedBy cfg now (expire cfg now s.events key) key }
      else some { s with events := (attempt cfg now s.events key).2, now }
  | .record now key =>
      if now < s.now then none
      else some { s with
        events := append cfg now s.events key, now
        evicted := s.evicted ++ evictedBy cfg now s.events key }
  | .blocked now key =>
      if now < s.now then none
      else some { s with events := (blocked cfg now s.events key).2, now }
  | .succeeded key => some { s with
      events := succeeded s.events key
      standing := Function.update s.standing key []
      cleared := Function.update s.cleared key (s.cleared key ++ s.standing key) }
  | .cancel key at_ =>
      if at_ ∈ s.standing key then some { s with
        events := cancel s.events key
        standing := Function.update s.standing key ((s.standing key).erase at_) }
      else if at_ ∈ s.cleared key then some { s with
        events := cancel s.events key
        cleared := Function.update s.cleared key ((s.cleared key).erase at_) }
      else none

end Calls

/-- An attempt is refused when its key is at the limit, and let through otherwise. -/
theorem step_attempt {κ : Type} [DecidableEq κ] {cfg : LimiterConfig} {s s' : Limiter κ} {now : ℚ}
    {key : κ} (hs : limiterStep cfg s (.attempt now key) = some s') :
    s.now ≤ now ∧
      ((atLimit cfg (expire cfg now s.events key) key = true ∧
          s' = { s with events := expire cfg now s.events key, now }) ∨
        (atLimit cfg (expire cfg now s.events key) key = false ∧
          s' = { s with
            events := append cfg now (expire cfg now s.events key) key, now
            standing := Function.update s.standing key (s.standing key ++ [now])
            evicted := s.evicted ++ evictedBy cfg now (expire cfg now s.events key) key })) := by
  simp only [limiterStep, attempt] at hs
  split at hs
  · cases hs
  next hnow =>
  refine ⟨le_of_not_gt hnow, ?_⟩
  cases hlimit : atLimit cfg (expire cfg now s.events key) key with
  | true =>
      simp only [hlimit, if_true, Bool.false_eq_true, if_false, Option.some.injEq] at hs
      exact .inl ⟨rfl, hs.symm⟩
  | false =>
      simp only [hlimit, Bool.false_eq_true, if_false, if_true, Option.some.injEq] at hs
      exact .inr ⟨rfl, hs.symm⟩

/-! ## What each call stores -/

section Stored
variable {κ : Type} [DecidableEq κ] {cfg : LimiterConfig} {now : ℚ} {events : Events κ}
  {key k : κ} {deque : List ℚ}

/-- The events of a key. -/
def held (events : Events κ) (key : κ) : List ℚ := (events.get? key).getD []

theorem held_of_get? (h : events.get? key = some deque) : held events key = deque := by
  rw [held, h, Option.getD_some]

theorem held_of_none (h : events.get? key = none) : held events key = [] := by
  rw [held, h, Option.getD_none]

theorem held_put (events : Events κ) (key k : κ) (deque : List ℚ) :
    held (events.put key deque) k = if k = key then deque else held events k := by
  unfold held
  rw [Table.get?_put]
  split <;> rfl

theorem held_drop (events : Events κ) (key k : κ) :
    held (events.drop key) k = if k = key then [] else held events k := by
  unfold held
  rw [Table.get?_drop]
  split <;> rfl

theorem held_keep (events : Events κ) (key k : κ) (deque : List ℚ) :
    held (keep events key deque) k = if k = key then deque else held events k := by
  cases deque with
  | nil => exact held_drop events key k
  | cons first rest => exact held_put events key k (first :: rest)

theorem held_expire (cfg : LimiterConfig) (now : ℚ) (events : Events κ) (key k : κ) :
    held (expire cfg now events key) k =
      if k = key then (held events key).dropWhile (agedOut cfg now) else held events k := by
  unfold expire
  split
  · next hnone =>
      split
      · next hk => rw [hk, held_of_none hnone, List.dropWhile_nil]
      · rfl
  · next deque hsome => rw [held_keep, held_of_get? hsome]

theorem held_cancel (events : Events κ) (key k : κ) :
    held (cancel events key) k =
      if k = key then (held events key).dropLast else held events k := by
  unfold cancel
  split
  · next hnone =>
      split
      · next hk => rw [hk, held_of_none hnone, List.dropLast_nil]
      · rfl
  · next deque hsome =>
      split
      · next hempty =>
          split
          · next hk => rw [hk, held_of_get? hsome, hempty, List.dropLast_nil]
          · rfl
      · rw [held_keep, held_of_get? hsome]

/-- A new event comes after what has not aged out. -/
theorem held_append_self (cfg : LimiterConfig) (now : ℚ) (events : Events κ) (key : κ) :
    held (append cfg now events key) key =
      (held events key).dropWhile (agedOut cfg now) ++ [now] := by
  have hlive := held_expire cfg now events key key
  rw [if_pos rfl] at hlive
  unfold append
  dsimp only
  split
  · next deque hsome => rw [held_put, if_pos rfl, ← hlive, held_of_get? hsome]
  · next hnone => rw [held_put, if_pos rfl, ← hlive, held_of_none hnone, List.nil_append]

end Stored

/-! ## The table in every run -/

section Tidiness
variable {κ : Type} [DecidableEq κ] {cfg : LimiterConfig} {now now' : ℚ} {events : Events κ}
  {key : κ} {deque : List ℚ}

/-- The events of a deque are sorted, and none is of the future. -/
def InOrder (now : ℚ) (deque : List ℚ) : Prop := deque.Pairwise (· ≤ ·) ∧ ∀ e ∈ deque, e ≤ now

theorem InOrder.sublist {less : List ℚ} (h : InOrder now deque) (hsub : less.Sublist deque) :
    InOrder now less :=
  ⟨h.1.sublist hsub, fun e he => h.2 e (hsub.subset he)⟩

theorem InOrder.later (h : InOrder now deque) (hnow : now ≤ now') : InOrder now' deque :=
  ⟨h.1, fun e he => (h.2 e he).trans hnow⟩

theorem InOrder.add (h : InOrder now deque) : InOrder now (deque ++ [now]) := by
  refine ⟨List.pairwise_append.mpr ⟨h.1, List.pairwise_singleton _ _, ?_⟩, fun e he => ?_⟩
  · intro e he last hlast
    rw [List.mem_singleton.mp hlast]
    exact h.2 e he
  · rcases List.mem_append.mp he with he | he
    · exact h.2 e he
    · exact (List.mem_singleton.mp he).le

/-- Every deque has events, and they are in order. -/
def DequesOk (now : ℚ) (events : Events κ) : Prop :=
  ∀ entry ∈ events, entry.2 ≠ [] ∧ InOrder now entry.2

omit [DecidableEq κ] in
theorem DequesOk.later (h : DequesOk now events) (hnow : now ≤ now') : DequesOk now' events :=
  fun entry hentry => ⟨(h entry hentry).1, (h entry hentry).2.later hnow⟩

omit [DecidableEq κ] in
theorem DequesOk.filter (h : DequesOk now events) (p : κ × List ℚ → Bool) :
    DequesOk now (events.filter p) :=
  fun entry hentry => h entry (List.mem_filter.mp hentry).1

theorem DequesOk.get (h : DequesOk now events) (hget : events.get? key = some deque) :
    InOrder now deque :=
  (h _ (Table.mem_of_get? hget)).2

theorem DequesOk.put (h : DequesOk now events) (key : κ) (hne : deque ≠ [])
    (hdeque : InOrder now deque) : DequesOk now (events.put key deque) := by
  intro entry hentry
  rcases Table.mem_put hentry with rfl | hentry
  · exact ⟨hne, hdeque⟩
  · exact h entry hentry

theorem DequesOk.keep (h : DequesOk now events) (key : κ) (hdeque : InOrder now deque) :
    DequesOk now (keep events key deque) := by
  cases deque with
  | nil => exact h.filter _
  | cons first rest => exact h.put key (List.cons_ne_nil first rest) hdeque

theorem DequesOk.expire (h : DequesOk now events) (cfg : LimiterConfig) (at_ : ℚ) (key : κ) :
    DequesOk now (expire cfg at_ events key) := by
  unfold Accounts.expire
  split
  · exact h
  · next deque hsome => exact h.keep key ((h.get hsome).sublist (List.dropWhile_sublist _))

theorem length_keep_le {old : List ℚ} (hget : events.get? key = some old) (deque : List ℚ) :
    (keep events key deque).length ≤ events.length := by
  cases deque with
  | nil => exact List.length_filter_le _ _
  | cons first rest => exact (Table.length_put_of_get? hget _).le

theorem length_expire_le (cfg : LimiterConfig) (now : ℚ) (events : Events κ) (key : κ) :
    (expire cfg now events key).length ≤ events.length := by
  unfold expire
  split
  · exact Nat.le_refl _
  · next deque hsome => exact length_keep_le hsome _

theorem DequesOk.expireAll (h : DequesOk now events) (cfg : LimiterConfig) (at_ : ℚ) :
    DequesOk now (expireAll cfg at_ events) := by
  unfold Accounts.expireAll
  generalize events.map Prod.fst = keys
  induction keys generalizing events with
  | nil => exact h
  | cons key keys ih => exact ih (h.expire cfg at_ key)

/-- After pruning there is room for one more key. -/
theorem length_prune_lt (hmax : 1 ≤ cfg.maxKeys) (now : ℚ) (events : Events κ) :
    (prune cfg now events).length < cfg.maxKeys := by
  have hle : (prune cfg now events).length ≤ (expireAll cfg now events).length -
      ((expireAll cfg now events).length + 1 - cfg.maxKeys) :=
    Table.length_dropAll_take_le (List.perm_insertionSort _ _) _
  omega

theorem DequesOk.append (h : DequesOk now events) (cfg : LimiterConfig) (key : κ) :
    DequesOk now (append cfg now events key) := by
  have hlive := h.expire cfg now key
  unfold Accounts.append
  dsimp only
  split
  · next deque hsome =>
      exact hlive.put key (List.append_ne_nil_of_right_ne_nil _ (List.cons_ne_nil _ _))
        (hlive.get hsome).add
  · have hone : InOrder now ([] ++ [now]) := InOrder.add ⟨List.Pairwise.nil, nofun⟩
    refine DequesOk.put ?_ key (List.cons_ne_nil _ _) hone
    split
    · exact (hlive.expireAll cfg now).filter _
    · exact hlive

theorem length_append_le (hmax : 1 ≤ cfg.maxKeys) (h : events.length ≤ cfg.maxKeys) (now : ℚ)
    (key : κ) : (append cfg now events key).length ≤ cfg.maxKeys := by
  have hlive := (length_expire_le cfg now events key).trans h
  unfold append
  dsimp only
  split
  · next deque hsome => exact (Table.length_put_of_get? hsome _).le.trans hlive
  · refine (Table.length_put_le _ _ _).trans ?_
    split
    · exact length_prune_lt hmax _ _
    · next hroom => exact Nat.lt_of_not_le hroom

/-- The table has not too many keys, and its deques are in order. -/
structure Tidy (cfg : LimiterConfig) (s : Limiter κ) : Prop where
  size : s.events.length ≤ cfg.maxKeys
  deques : DequesOk s.now s.events

theorem Tidy.step (hmax : 1 ≤ cfg.maxKeys) {s s' : Limiter κ} {call : LimiterCall κ}
    (h : Tidy cfg s) (hs : limiterStep cfg s call = some s') : Tidy cfg s' := by
  have hexpire : ∀ now key, s.now ≤ now → DequesOk now (expire cfg now s.events key) :=
    fun now key hnow => (h.deques.later hnow).expire cfg now key
  have hsize : ∀ now key, (expire cfg now s.events key).length ≤ cfg.maxKeys :=
    fun now key => (length_expire_le cfg now s.events key).trans h.size
  have hcancel : ∀ key, DequesOk s.now (cancel s.events key) ∧
      (cancel s.events key).length ≤ cfg.maxKeys := by
    intro key
    unfold cancel
    split
    · exact ⟨h.deques, h.size⟩
    · next deque hsome =>
        split
        · exact ⟨h.deques, h.size⟩
        · exact ⟨h.deques.keep key ((h.deques.get hsome).sublist (List.dropLast_sublist _)),
            (length_keep_le hsome _).trans h.size⟩
  cases call with
  | attempt now key =>
      obtain ⟨hnow, ⟨-, rfl⟩ | ⟨-, rfl⟩⟩ := step_attempt hs
      · exact ⟨hsize now key, hexpire now key hnow⟩
      · exact ⟨length_append_le hmax (hsize now key) now key, (hexpire now key hnow).append cfg key⟩
  | record now key =>
      simp only [limiterStep] at hs
      split at hs
      · cases hs
      · next hnow =>
          cases hs
          exact ⟨length_append_le hmax h.size now key,
            (h.deques.later (le_of_not_gt hnow)).append cfg key⟩
  | blocked now key =>
      simp only [limiterStep] at hs
      split at hs
      · cases hs
      · next hnow =>
          cases hs
          exact ⟨hsize now key, hexpire now key (le_of_not_gt hnow)⟩
  | succeeded key =>
      cases hs
      exact ⟨(List.length_filter_le _ _).trans h.size, h.deques.filter _⟩
  | cancel key at_ =>
      simp only [limiterStep] at hs
      split at hs
      · cases hs
        exact ⟨(hcancel key).2, (hcancel key).1⟩
      · split at hs
        · cases hs
          exact ⟨(hcancel key).2, (hcancel key).1⟩
        · cases hs

/-- A limiter that nobody has called. -/
def noAttempts (start : ℚ) : Limiter κ := { now := start }

/-- In every run. -/
theorem Tidy.steps (hmax : 1 ≤ cfg.maxKeys) {good : Limiter κ → LimiterCall κ → Prop} {start : ℚ}
    {s : Limiter κ} (h : Steps (limiterStep cfg) good (noAttempts start) s) : Tidy cfg s :=
  Steps.invariant (P := Tidy cfg) ⟨Nat.zero_le _, fun _ hentry => absurd hentry List.not_mem_nil⟩
    (fun _ _ _ hs _ hstep => hs.step hmax hstep) h

end Tidiness

/-! ## The limit -/

section Limit
variable {κ : Type} [DecidableEq κ] {cfg : LimiterConfig} {now cut : ℚ} {events : Events κ}
  {key k : κ} {times : List ℚ}

/-- The attempt that is taken back is the latest of its key that stands, or the key has no
events. -/
def TakesBackLatest (s : Limiter κ) : LimiterCall κ → Prop
  | .cancel key at_ => s.events.get? key = none ∨
      (at_ ∈ s.standing key ∧ ∀ t ∈ s.standing key, t ≤ at_)
  | _ => True

instance (s : Limiter κ) (call : LimiterCall κ) : Decidable (TakesBackLatest s call) :=
  match call with
  | .attempt _ _ => .isTrue trivial
  | .record _ _ => .isTrue trivial
  | .blocked _ _ => .isTrue trivial
  | .succeeded _ => .isTrue trivial
  | .cancel key at_ => inferInstanceAs (Decidable (s.events.get? key = none ∨
      (at_ ∈ s.standing key ∧ ∀ t ∈ s.standing key, t ≤ at_)))

/-- When the window of an event ends. -/
def windowStart (cfg : LimiterConfig) (now : ℚ) : ℚ := now - cfg.windowSeconds

theorem agedOut_lt {event : ℚ} (h : agedOut cfg now event = true) : event < windowStart cfg now := by
  have hold : cfg.windowSeconds < now - event := of_decide_eq_true h
  unfold windowStart
  linarith

/-- The events of a key stand for its attempts after some have aged out. -/
theorem standsFor_expire (h : StandsFor (windowStart cfg now) (held events k) times) (key : κ) :
    StandsFor (windowStart cfg now) (held (expire cfg now events key) k) times := by
  rw [held_expire]
  split
  · next hk =>
      rw [← hk]
      exact h.expire fun _ => agedOut_lt
  · exact h

theorem standsFor_expireAll (h : StandsFor (windowStart cfg now) (held events k) times) :
    StandsFor (windowStart cfg now) (held (expireAll cfg now events) k) times := by
  unfold expireAll
  generalize events.map Prod.fst = keys
  induction keys generalizing events with
  | nil => exact h
  | cons key keys ih => exact ih (standsFor_expire h key)

/-- The events of another key that is not evicted. -/
theorem standsFor_append_of_ne (h : StandsFor (windowStart cfg now) (held events k) times)
    (hne : k ≠ key) (hkept : k ∉ evictedBy cfg now events key) :
    StandsFor (windowStart cfg now) (held (append cfg now events key) k) times := by
  have hlive := standsFor_expire h key
  unfold append
  dsimp only
  split
  · rwa [held_put, if_neg hne]
  · next hnone =>
      rw [held_put, if_neg hne]
      split
      · next hfull =>
          have hover : k ∉ overflowing cfg (expireAll cfg now (expire cfg now events key)) := by
            unfold evictedBy at hkept
            rwa [if_pos ⟨hnone, hfull⟩] at hkept
          have hpruned : held (prune cfg now (expire cfg now events key)) k =
              held (expireAll cfg now (expire cfg now events key)) k := by
            unfold held prune
            rw [Table.get?_dropAll, if_neg hover]
          rw [hpruned]
          exact standsFor_expireAll hlive
      · exact hlive

/-- The events of every key with a new one of one key. -/
theorem standsFor_append (h : StandsFor (windowStart cfg now) (held events k) times)
    (hkept : k ∉ evictedBy cfg now events key) :
    StandsFor (windowStart cfg now) (held (append cfg now events key) k)
      (if k = key then times ++ [now] else times) := by
  split
  · next hk =>
      rw [hk] at h ⊢
      rw [held_append_self]
      exact (h.expire fun _ => agedOut_lt).add now
  · next hk => exact standsFor_append_of_ne h hk hkept

/-- An attempt that is let through finds fewer than the limit in its window. -/
theorem few_of_not_atLimit (hlimit : 1 ≤ cfg.limit)
    (h : StandsFor (windowStart cfg now) (held events key) times)
    (hfree : atLimit cfg events key = false) :
    (since (now - cfg.windowSeconds) times : Int) < cfg.limit := by
  have hle : since (windowStart cfg now) times ≤ (held events key).length :=
    (h _ le_rfl).trans (since_le_length _ _)
  have hlength : ((held events key).length : Int) < cfg.limit := by
    unfold atLimit at hfree
    split at hfree
    · next deque hsome =>
        rw [held_of_get? hsome]
        exact Int.not_le.mp (of_decide_eq_false hfree)
    · next hnone =>
        rw [held_of_none hnone]
        exact hlimit
  unfold windowStart at hle
  omega

/-- Of a key that was not evicted, the events stand for the attempts, which are within the
limit. -/
structure Counted (cfg : LimiterConfig) (s : Limiter κ) : Prop where
  stands : ∀ k ∉ s.evicted,
    StandsFor (windowStart cfg s.now) (held s.events k) (s.standing k)
  bounded : ∀ k ∉ s.evicted, Bounded cfg.limit cfg.windowSeconds (s.standing k)

theorem Counted.later {s : Limiter κ} (h : Counted cfg s) (hnow : s.now ≤ now) (hk : k ∉ s.evicted) :
    StandsFor (windowStart cfg now) (held s.events k) (s.standing k) :=
  (h.stands k hk).later (sub_le_sub_right hnow _)

theorem Counted.step (hlimit : 1 ≤ cfg.limit) {s s' : Limiter κ} {call : LimiterCall κ}
    (h : Counted cfg s) (hgood : TakesBackLatest s call) (hs : limiterStep cfg s call = some s') :
    Counted cfg s' := by
  cases call with
  | attempt now key =>
      obtain ⟨hnow, ⟨-, rfl⟩ | ⟨hfree, rfl⟩⟩ := step_attempt hs
      · exact ⟨fun k hk => standsFor_expire (h.later hnow hk) key, h.bounded⟩
      · refine ⟨fun k hk => ?_, fun k hk => ?_⟩
        · obtain ⟨hold, hkept⟩ := not_or.mp (mt List.mem_append.mpr hk)
          have := standsFor_append (standsFor_expire (h.later hnow hold) key) hkept
          dsimp only
          rw [Function.update_apply]
          split at this
          · next heq =>
              rw [if_pos heq]
              exact heq ▸ this
          · next hne =>
              rw [if_neg hne]
              exact this
        · obtain ⟨hold, -⟩ := not_or.mp (mt List.mem_append.mpr hk)
          dsimp only
          rw [Function.update_apply]
          split
          · next heq =>
              rw [heq] at hold
              exact (h.bounded key hold).add (few_of_not_atLimit hlimit
                (standsFor_expire (h.later hnow hold) key) hfree)
          · exact h.bounded k hold
  | record now key =>
      simp only [limiterStep] at hs
      split at hs
      · cases hs
      next hnow =>
      cases hs
      refine ⟨fun k hk => ?_, fun k hk => h.bounded k fun hmem => hk (List.mem_append_left _ hmem)⟩
      obtain ⟨hold, hkept⟩ := not_or.mp (mt List.mem_append.mpr hk)
      have hstands := h.later (le_of_not_gt hnow) hold
      by_cases heq : k = key
      · subst heq
        rw [held_append_self]
        exact (hstands.expire fun _ => agedOut_lt).entry now
      · exact standsFor_append_of_ne hstands heq hkept
  | blocked now key =>
      simp only [limiterStep] at hs
      split at hs
      · cases hs
      next hnow =>
      cases hs
      exact ⟨fun k hk => standsFor_expire (h.later (le_of_not_gt hnow) hk) key, h.bounded⟩
  | succeeded key =>
      cases hs
      refine ⟨fun k hk => ?_, fun k hk => ?_⟩
      · dsimp only
        rw [Function.update_apply, succeeded, held_drop]
        split
        · exact .nil _
        · exact h.stands k hk
      · dsimp only
        rw [Function.update_apply]
        split
        · exact .nil (by omega)
        · exact h.bounded k hk
  | cancel key at_ =>
      have hothers : ∀ k, k ≠ key → k ∉ s.evicted →
          StandsFor (windowStart cfg s.now) (held (cancel s.events key) k) (s.standing k) := by
        intro k hne hk
        rw [held_cancel, if_neg hne]
        exact h.stands k hk
      have hself : key ∉ s.evicted → StandsFor (windowStart cfg s.now)
          (held (cancel s.events key) key) ((s.standing key).erase at_) := by
        intro hk
        rw [held_cancel, if_pos rfl]
        rcases hgood with hnone | ⟨hmem, hlatest⟩
        · have hstands := h.stands key hk
          rw [held_of_none hnone] at hstands ⊢
          intro t ht
          have hzero : since t (s.standing key) = 0 := Nat.le_zero.mp (hstands t ht)
          exact (List.erase_sublist.countP_le.trans hzero.le).trans (Nat.zero_le _)
        · exact (h.stands key hk).pop hmem hlatest
      simp only [limiterStep] at hs
      split at hs
      · cases hs
        refine ⟨fun k hk => ?_, fun k hk => ?_⟩
        · dsimp only
          rw [Function.update_apply]
          split
          · next heq => exact heq ▸ hself (heq ▸ hk)
          · next hne => exact hothers k hne hk
        · dsimp only
          rw [Function.update_apply]
          split
          · next heq => exact (heq ▸ h.bounded k hk).sublist List.erase_sublist
          · exact h.bounded k hk
      · next hgone =>
          split at hs
          · cases hs
            refine ⟨fun k hk => ?_, h.bounded⟩
            by_cases heq : k = key
            · subst heq
              have := hself hk
              rwa [List.erase_of_not_mem hgone] at this
            · exact hothers k heq hk
          · cases hs

theorem Counted.steps (hlimit : 1 ≤ cfg.limit) {start : ℚ} {s : Limiter κ}
    (h : Steps (limiterStep cfg) TakesBackLatest (noAttempts start) s) : Counted cfg s :=
  Steps.invariant (P := Counted cfg) ⟨fun _ _ => .nil _, fun _ _ => .nil (by omega)⟩
    (fun _ _ _ hs hgood hstep => hs.step hlimit hgood hstep) h

/-- What a limiter is for: of a key that was not evicted no window has more attempts than the
limit, and the table is small and in order. -/
structure Limited (cfg : LimiterConfig) (s : Limiter κ) : Prop where
  bounded : ∀ k ∉ s.evicted, Bounded cfg.limit cfg.windowSeconds (s.standing k)
  size : s.events.length ≤ cfg.maxKeys
  deques : ∀ entry ∈ s.events, entry.2 ≠ [] ∧ entry.2.Pairwise (· ≤ ·)

/-- In every run in which only the latest attempt of a key is taken back. -/
theorem attempts_limited (hlimit : 1 ≤ cfg.limit) (hmax : 1 ≤ cfg.maxKeys) {start : ℚ}
    {s : Limiter κ} (h : Steps (limiterStep cfg) TakesBackLatest (noAttempts start) s) :
    Limited cfg s where
  bounded := (Counted.steps hlimit h).bounded
  size := (Tidy.steps hmax h).size
  deques entry hentry :=
    have htidy := (Tidy.steps hmax h).deques entry hentry
    ⟨htidy.1, htidy.2.1⟩

end Limit

/-! ## Two runs -/

/-- Two attempts in a quarter of an hour. -/
def twoAttempts : LimiterConfig := ⟨2, 900, 10000⟩

/-- The later of two attempts is taken back, and one more is made. -/
def takesBackLater : List (LimiterCall String) :=
  [.attempt 0 "a@x.com", .attempt 600 "a@x.com", .cancel "a@x.com" 600, .attempt 901 "a@x.com"]

theorem attempts_limited_takesBackLater : ∃ s : Limiter String,
    s.standing "a@x.com" = [0, 901] ∧ Limited twoAttempts s := by
  have h : (stepsIf (limiterStep twoAttempts) TakesBackLatest (noAttempts 0) takesBackLater).map
      (fun s => s.standing "a@x.com") = some [0, 901] := by
    decide +kernel
  obtain ⟨s, hs, hstanding⟩ := Option.map_eq_some_iff.mp h
  exact ⟨s, hstanding, attempts_limited (by decide) (by decide) (Steps.of_stepsIf hs)⟩

/-- The earlier of two attempts is taken back, and two more are made once it is out of the
window. -/
def takesBackEarlier : List (LimiterCall String) :=
  [.attempt 0 "a@x.com", .attempt 600 "a@x.com", .cancel "a@x.com" 0, .attempt 901 "a@x.com",
    .attempt 902 "a@x.com"]

/-- Three attempts are let through within five minutes and two seconds. -/
theorem overlapping_exceeds : ∃ s : Limiter String,
    Steps (limiterStep twoAttempts) anyStep (noAttempts 0) s ∧ "a@x.com" ∉ s.evicted ∧
      ¬Bounded twoAttempts.limit twoAttempts.windowSeconds (s.standing "a@x.com") := by
  have h : (stepsIf (limiterStep twoAttempts) anyStep (noAttempts 0) takesBackEarlier).map
      (fun s => (s.standing "a@x.com", s.evicted)) = some ([600, 901, 902], []) := by
    decide +kernel
  obtain ⟨s, hs, hfinal⟩ := Option.map_eq_some_iff.mp h
  obtain ⟨hstanding, hevicted⟩ := Prod.mk.inj hfinal
  refine ⟨s, Steps.of_stepsIf hs, hevicted ▸ List.not_mem_nil, fun hbounded => ?_⟩
  rw [hstanding] at hbounded
  have hthree : inWindow twoAttempts.windowSeconds 600 [600, 901, 902] = 3 := by decide +kernel
  have hle := hbounded 600
  rw [hthree] at hle
  exact absurd hle (by decide)

end SeoAgent.Accounts
