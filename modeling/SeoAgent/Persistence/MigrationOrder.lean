import SeoAgent.Persistence.Migrator
import SeoAgent.Verified.Steps

/-!
# Migrations are applied once and in order

The runner records a migration by the text of its version and orders migrations
by its number. `1_a.sql` and `001_a.sql` have one number and two versions, so a
file that is renamed so is executed again; and a file that is added late with a
lower number is executed after the higher ones. `Forward` is the condition that
neither happens: when a start reads the table, every file that it goes on to
execute has a number above those of all recorded versions.

Under it the transactions that have committed are, over any number of starts
that interleave and fail anywhere, one for each migration, with the SQL of the
file and its record, in ascending order of number. A start that comes upon a
changed file has committed nothing, because recorded files have lower numbers
than the files it executes; a start that fails leaves what it had committed.

## Main results

* `Inv.step` — one request of one start keeps the invariant.
* `migrations_once_in_order` — over every run of forward starts.
* `renamed_twice` — a renamed file is executed twice without the condition.
-/

namespace SeoAgent.Persistence.Migrator

open SeoAgent.Verified

variable {digits : Digits} {checksum : String → String}

/-! ## The condition -/

variable (checksum) in
/-- The file is recorded with another checksum. -/
def Changed (recorded : List Row) (m : Migration) : Prop :=
  ∃ c ∈ recordedChecksum recorded m.version, c ≠ m.checksumOf checksum

instance (recorded : List Row) (m : Migration) : Decidable (Changed checksum recorded m) :=
  inferInstanceAs (Decidable (∃ c ∈ recordedChecksum recorded m.version, _))

variable (checksum) in
/-- The files a start executes that reads `recorded`: those before the first
changed one whose version is not recorded. -/
def pending (recorded : List Row) (ms : List Migration) : List Migration :=
  (ms.takeWhile fun m => ¬ Changed checksum recorded m).filter fun m =>
    recordedChecksum recorded m.version = none

variable (digits) in
/-- The number is above those of all the rows. -/
def Ahead (table : List Row) (m : Migration) : Prop :=
  ∀ r ∈ table, numberOf digits r.version < m.sortKey digits

instance (table : List Row) (m : Migration) : Decidable (Ahead digits table m) :=
  inferInstanceAs (Decidable (∀ r ∈ table, _))

/-- The files of a start that has the lock and is about to read the table. -/
def State.about (s : State) (k : Nat) : List Migration :=
  match s.starts[k]? with
  | some (.locked ms) => ms
  | _ => []

variable (digits checksum) in
/-- A start that reads the table has only files to execute with numbers above
those of all recorded versions. -/
def Forward (s : State) : Action → Prop
  | .read k => ∀ m ∈ pending checksum (rows s.committed) (s.about k),
      Ahead digits (rows s.committed) m
  | _ => True

instance (s : State) : (a : Action) → Decidable (Forward digits checksum s a)
  | .read k => inferInstanceAs (Decidable (∀ m ∈ pending checksum (rows s.committed) (s.about k),
      Ahead digits (rows s.committed) m))
  | .start _ | .lock _ | .check _ | .record _ | .commit _ | .fail _ => .isTrue trivial

/-! ## The invariant -/

/-- The transactions of one start. -/
def byStart (k : Nat) (committed : List Transaction) : List Transaction :=
  committed.filter fun tx => tx.start = k

/-- The versions that one start has recorded. -/
def versionsOf (k : Nat) (committed : List Transaction) : List String :=
  (rows (byStart k committed)).map Row.version

variable (checksum) in
/-- The transaction in which a start applies a migration: the SQL of the file
and the record. -/
def transactionOf (a : Nat × Migration) : Transaction :=
  ⟨a.1, [a.2.sql], [a.2.row checksum]⟩

variable (digits checksum) in
/-- What has committed is one migration after the other, in ascending order. -/
def InOrder (committed : List Transaction) : Prop :=
  ∃ applied : List (Nat × Migration), committed = applied.map (transactionOf checksum) ∧
    applied.Pairwise fun a b => a.2.sortKey digits < b.2.sortKey digits

/-- The phases in which a start has the lock. -/
def Phase.holds : Phase → Bool
  | .locked _ | .looping _ | .applying _ _ _ => true
  | _ => false

variable (digits) in
/-- The order in which the files come. -/
def Ascending (ms : List Migration) : Prop :=
  ms.Pairwise fun a b => a.sortKey digits < b.sortKey digits

variable (digits checksum) in
/-- What a start knows in its loop. -/
structure LoopOk (committed : List Transaction) (k : Nat) (l : Loop) : Prop where
  applied : versionsOf k committed = l.applied
  ascending : Ascending digits l.rest
  read : ∀ r ∈ l.recorded, r ∈ rows committed
  ahead : ∀ m ∈ pending checksum l.recorded l.rest, Ahead digits (rows committed) m
  unrecorded : l.applied ≠ [] → ∀ m ∈ l.rest, recordedChecksum l.recorded m.version = none

variable (digits checksum) in
/-- What a start knows while a transaction is open. -/
structure ApplyingOk (committed : List Transaction) (k : Nat) (l : Loop) (m : Migration)
    (tx : Transaction) : Prop where
  loop : LoopOk digits checksum committed k l
  ahead : Ahead digits (rows committed) m
  before : ∀ m' ∈ l.rest, m.sortKey digits < m'.sortKey digits
  start : tx.start = k
  executed : tx.executed = [m.sql]
  inserted : tx.inserted = [] ∨ tx.inserted = [m.row checksum]

variable (digits checksum) in
/-- What is true of a start in each phase. -/
def PhaseOk (committed : List Transaction) (k : Nat) : Phase → Prop
  | .undiscovered _ => versionsOf k committed = []
  | .connected ms => byStart k committed = [] ∧ Ascending digits ms
  | .locked ms => byStart k committed = [] ∧ Ascending digits ms
  | .looping l => LoopOk digits checksum committed k l
  | .applying l m tx => ApplyingOk digits checksum committed k l m tx
  | .changed _ _ => byStart k committed = []
  | .failed applied m => versionsOf k committed = applied ∧
      ∀ m' ∈ m, ∀ v ∈ applied, numberOf digits v < m'.sortKey digits
  | .finished applied _ => versionsOf k committed = applied

variable (digits checksum) in
/-- The invariant of the database and its starts. -/
structure Inv (s : State) : Prop where
  history : InOrder digits checksum s.committed
  lock : ∀ k p, s.starts[k]? = some p → p.holds = true → s.lock = some k
  known : ∀ tx ∈ s.committed, tx.start < s.starts.length
  phases : ∀ k p, s.starts[k]? = some p → PhaseOk digits checksum s.committed k p

/-! ## Discovery -/

theorem load_mem {seen : List (Nat × String)} {files : List File} {ms : List Migration}
    (h : load digits seen files = .ok ms) :
    (∀ m ∈ ms, ∀ other ∈ seen, other.1 ≠ m.sortKey digits) ∧
      (ms.map (Migration.sortKey digits)).Nodup := by
  induction files generalizing seen ms with
  | nil =>
      cases h
      exact ⟨fun _ hm => absurd hm List.not_mem_nil, List.nodup_nil⟩
  | cons f fs ih =>
      simp only [load] at h
      split at h
      · cases h
      next version name _ =>
      split at h
      · cases h
      next hseen =>
      split at h
      · cases h
      next sql _ =>
      split at h
      · cases h
      cases hl : load digits ((numberOf digits version, f.name) :: seen) fs with
      | error e => rw [hl] at h; cases h
      | ok ms' =>
          rw [hl] at h
          cases h
          obtain ⟨hnew, hnodup⟩ := ih hl
          have hfirst : ∀ other ∈ seen, other.1 ≠ numberOf digits version := by
            intro other ho heq
            have hmem := List.lookup_eq_none_iff.mp hseen other ho
            simp [heq] at hmem
          constructor
          · intro m hm other ho
            rcases List.mem_cons.mp hm with rfl | hm
            · exact hfirst other ho
            · exact hnew m hm other (List.mem_cons_of_mem _ ho)
          · rw [List.map_cons, List.nodup_cons]
            refine ⟨fun hin => ?_, hnodup⟩
            obtain ⟨m, hm, hkey⟩ := List.mem_map.mp hin
            exact hnew m hm _ List.mem_cons_self hkey.symm

/-- The files of a directory are in strictly ascending order of number. -/
theorem discoverMigrations_ascending {dir : Directory} {ms : List Migration}
    (h : discoverMigrations digits dir = .ok ms) : Ascending digits ms := by
  simp only [discoverMigrations] at h
  split at h
  · cases h
  split at h
  · cases h
  · cases h
  next m ms' hl =>
  cases h
  have hsorted := List.pairwise_insertionSort
    (fun a b : Migration => a.sortKey digits ≤ b.sortKey digits) (m :: ms')
  have hnodup := (load_mem hl).2
  have hperm := List.perm_insertionSort
    (fun a b : Migration => a.sortKey digits ≤ b.sortKey digits) (m :: ms')
  have hkeys := (hperm.map (Migration.sortKey digits)).nodup_iff.mpr hnodup
  exact hsorted.imp₂ (fun a b hle hne => Nat.lt_of_le_of_ne hle hne) (List.pairwise_map.mp hkeys)

/-! ## The table -/

theorem rows_append (a b : List Transaction) : rows (a ++ b) = rows a ++ rows b :=
  List.flatMap_append

theorem mem_rows_of_recordedChecksum {table : List Row} {version c : String}
    (h : recordedChecksum table version = some c) : ∃ r ∈ table, r.version = version := by
  obtain ⟨r, hr, -⟩ := Option.map_eq_some_iff.mp h
  exact ⟨r, List.mem_of_find?_eq_some hr, by simpa using List.find?_some hr⟩

theorem recordedChecksum_of_ahead {table : List Row} {m : Migration}
    (h : Ahead digits table m) : recordedChecksum table m.version = none := by
  cases hc : recordedChecksum table m.version with
  | none => rfl
  | some c =>
      obtain ⟨r, hr, hv⟩ := mem_rows_of_recordedChecksum hc
      have hlt := h r hr
      rw [hv] at hlt
      exact absurd hlt (Nat.lt_irrefl _)

theorem mem_pending_of_rest {recorded : List Row} {m m' : Migration} {rest : List Migration}
    (hm : ¬ Changed checksum recorded m) (h : m' ∈ pending checksum recorded rest) :
    m' ∈ pending checksum recorded (m :: rest) := by
  simp only [pending, List.takeWhile_cons, decide_eq_true hm, if_true, List.filter_cons]
  split
  · exact List.mem_cons_of_mem _ h
  · exact h

theorem not_changed_of_none {recorded : List Row} {m : Migration}
    (h : recordedChecksum recorded m.version = none) : ¬ Changed checksum recorded m := by
  rintro ⟨c, hc, -⟩
  rw [h] at hc
  cases hc

theorem mem_pending_head {recorded : List Row} {m : Migration} {rest : List Migration}
    (h : recordedChecksum recorded m.version = none) :
    m ∈ pending checksum recorded (m :: rest) := by
  simp only [pending, List.takeWhile_cons, decide_eq_true (not_changed_of_none h), if_true,
    List.filter_cons, h, decide_true]
  exact List.mem_cons_self

theorem byStart_append (k : Nat) (a : List Transaction) (tx : Transaction) :
    byStart k (a ++ [tx]) = byStart k a ++ if tx.start = k then [tx] else [] := by
  simp only [byStart, List.filter_append, List.filter_cons, List.filter_nil, decide_eq_true_eq]

theorem byStart_other {k : Nat} {a : List Transaction} {tx : Transaction} (h : tx.start ≠ k) :
    byStart k (a ++ [tx]) = byStart k a := by
  rw [byStart_append, if_neg h, List.append_nil]

theorem versionsOf_nil {k : Nat} {committed : List Transaction} (h : byStart k committed = []) :
    versionsOf k committed = [] := by
  simp only [versionsOf, h]
  rfl

theorem mem_rows_of_mem_versionsOf {k : Nat} {committed : List Transaction} {v : String}
    (h : v ∈ versionsOf k committed) : ∃ r ∈ rows committed, r.version = v := by
  obtain ⟨r, hr, rfl⟩ := List.mem_map.mp h
  obtain ⟨tx, htx, hin⟩ := List.mem_flatMap.mp hr
  exact ⟨r, List.mem_flatMap.mpr ⟨tx, List.mem_of_mem_filter htx, hin⟩, rfl⟩

/-! ## The commit -/

section Commit

variable {committed : List Transaction} {k : Nat} {l : Loop} {m : Migration} {tx : Transaction}

/-- The transaction that an open one becomes once its record is inserted. -/
theorem ApplyingOk.eq_transactionOf (h : ApplyingOk digits checksum committed k l m tx)
    (hins : tx.inserted ≠ []) : tx = transactionOf checksum (k, m) := by
  obtain hnil | hrow := h.inserted
  · exact absurd hnil hins
  · cases tx
    cases h.start
    cases h.executed
    cases hrow
    rfl

/-- A commit appends the next migration. -/
theorem InOrder.commit (hist : InOrder digits checksum committed)
    (ahead : Ahead digits (rows committed) m) :
    InOrder digits checksum (committed ++ [transactionOf checksum (k, m)]) := by
  obtain ⟨applied, rfl, hord⟩ := hist
  refine ⟨applied ++ [(k, m)], by rw [List.map_append]; rfl, ?_⟩
  rw [List.pairwise_append]
  refine ⟨hord, List.pairwise_singleton _ _, fun a ha b hb => ?_⟩
  rw [List.mem_singleton.mp hb]
  have hrow : a.2.row checksum ∈ rows (applied.map (transactionOf checksum)) :=
    List.mem_flatMap.mpr ⟨_, List.mem_map_of_mem ha, List.mem_cons_self⟩
  exact ahead _ hrow

/-- After the commit the start is in its loop again, and what is left of its
files is above what it has just applied. -/
theorem ApplyingOk.commit (h : ApplyingOk digits checksum committed k l m tx)
    (hins : tx.inserted ≠ []) :
    LoopOk digits checksum (committed ++ [tx]) k { l with applied := l.applied ++ [m.version] } := by
  obtain rfl := h.eq_transactionOf hins
  have hrows : rows [transactionOf checksum (k, m)] = [m.row checksum] := rfl
  constructor
  · rw [versionsOf, byStart_append, if_pos (show (transactionOf checksum (k, m)).start = k from rfl),
      rows_append, List.map_append, ← versionsOf, h.loop.applied, hrows]
    rfl
  · exact h.loop.ascending
  · intro r hr
    rw [rows_append]
    exact List.mem_append_left _ (h.loop.read r hr)
  · intro m' hm' r hr
    rw [rows_append, hrows, List.mem_append, List.mem_singleton] at hr
    rcases hr with hr | rfl
    · exact h.loop.ahead m' hm' r hr
    · exact h.before m' ((List.takeWhile_sublist _).subset (List.mem_of_mem_filter hm'))
  · intro _ m' hm'
    have hahead : Ahead digits l.recorded m' := fun r hr =>
      Nat.lt_trans (h.ahead r (h.loop.read r hr)) (h.before m' hm')
    exact recordedChecksum_of_ahead hahead

/-- A start without the lock does not see what another start commits. -/
theorem PhaseOk.frame {p : Phase} (h : PhaseOk digits checksum committed k p)
    (hp : p.holds = false) (hne : tx.start ≠ k) :
    PhaseOk digits checksum (committed ++ [tx]) k p := by
  cases p with
  | undiscovered e => simpa only [PhaseOk, versionsOf, byStart_other hne] using h
  | connected ms => simpa only [PhaseOk, byStart_other hne] using h
  | locked ms => cases hp
  | looping l => cases hp
  | applying l m tx => cases hp
  | changed l m => simpa only [PhaseOk, byStart_other hne] using h
  | failed applied m => simpa only [PhaseOk, versionsOf, byStart_other hne] using h
  | finished applied skipped => simpa only [PhaseOk, versionsOf, byStart_other hne] using h

end Commit

/-! ## One request -/

section Requests

variable {s s' : State} {k : Nat} {p : Phase}

theorem lock_ended (s : State) (k : Nat) (p : Phase) :
    (s.ended k p).lock = if s.lock = some k then none else s.lock := rfl

/-- A start that moves to a phase it may be in, with or without the lock. -/
theorem Inv.moved (h : Inv digits checksum s) (hstarts : s'.starts = s.starts.set k p)
    (hcommitted : s'.committed = s.committed)
    (hothers : ∀ j, j ≠ k → s.lock = some j → s'.lock = some j)
    (hlock : p.holds = true → s'.lock = some k)
    (ok : PhaseOk digits checksum s.committed k p) : Inv digits checksum s' := by
  have hcases : ∀ j q, s'.starts[j]? = some q → (j = k ∧ q = p) ∨ (j ≠ k ∧ s.starts[j]? = some q) := by
    intro j q hq
    rw [hstarts, List.getElem?_set] at hq
    by_cases hj : k = j
    · subst hj
      rw [if_pos rfl] at hq
      split at hq
      · exact .inl ⟨rfl, (Option.some.inj hq).symm⟩
      · cases hq
    · rw [if_neg hj] at hq
      exact .inr ⟨fun heq => hj heq.symm, hq⟩
  constructor
  · rw [hcommitted]
    exact h.history
  · intro j q hq hq'
    rcases hcases j q hq with ⟨rfl, rfl⟩ | ⟨hne, hq⟩
    · exact hlock hq'
    · exact hothers j hne (h.lock j q hq hq')
  · rw [hcommitted, hstarts, List.length_set]
    exact h.known
  · intro j q hq
    rw [hcommitted]
    rcases hcases j q hq with ⟨rfl, rfl⟩ | ⟨-, hq⟩
    · exact ok
    · exact h.phases j q hq

/-- A start that goes on with the lock it has. -/
theorem Inv.put {q : Phase} (h : Inv digits checksum s) (hq : s.starts[k]? = some q)
    (hholds : q.holds = true) (ok : PhaseOk digits checksum s.committed k p) :
    Inv digits checksum (s.put k p) :=
  h.moved rfl rfl (fun _ _ hj => hj) (fun _ => h.lock k q hq hholds) ok

/-- A start that ends. -/
theorem Inv.ended (h : Inv digits checksum s) (hp : p.holds = false)
    (ok : PhaseOk digits checksum s.committed k p) : Inv digits checksum (s.ended k p) := by
  refine h.moved rfl rfl (fun j hne hj => ?_) (fun hp' => absurd hp' (by simp [hp])) ok
  rw [lock_ended, hj, if_neg (fun heq => hne (Option.some.inj heq))]

/-- The next file of a loop. -/
theorem Inv.checkNext {l : Loop} (h : Inv digits checksum s)
    (hk : s.starts[k]? = some (.looping l)) : Inv digits checksum (s.checkNext checksum k l) := by
  have hloop : LoopOk digits checksum s.committed k l := h.phases k _ hk
  cases hrest : l.rest with
  | nil =>
      simp only [State.checkNext, hrest]
      exact h.ended rfl hloop.applied
  | cons m rest =>
      have hasc := hrest ▸ hloop.ascending
      have hbefore := (List.pairwise_cons.mp hasc).1
      -- What is left after a file that is not refused.
      have htail : ∀ skipped, ¬ Changed checksum l.recorded m →
          LoopOk digits checksum s.committed k { l with skipped := skipped, rest := rest } := by
        intro skipped hsame
        refine ⟨hloop.applied, (List.pairwise_cons.mp hasc).2, hloop.read, fun m' hm' => ?_,
          fun hne m' hm' => ?_⟩
        · exact hloop.ahead m' (hrest ▸ mem_pending_of_rest hsame hm')
        · exact hloop.unrecorded hne m' (hrest ▸ List.mem_cons_of_mem _ hm')
      simp only [State.checkNext, hrest]
      split
      · next previous hprev =>
          split
          · -- A changed file is recorded, so nothing was applied before it.
            refine h.ended rfl ?_
            have hnone : l.applied = [] := by
              by_contra hne
              have hun := hloop.unrecorded hne m (hrest ▸ List.mem_cons_self)
              rw [hprev] at hun
              cases hun
            have hver := hloop.applied.trans hnone
            show byStart k s.committed = []
            by_contra hne
            obtain ⟨tx, htx⟩ := List.exists_mem_of_ne_nil _ hne
            obtain ⟨applied, heq, -⟩ := h.history
            rw [heq] at htx
            obtain ⟨a, ha, rfl⟩ := List.mem_map.mp (List.mem_of_mem_filter htx)
            have hin : a.2.version ∈ versionsOf k s.committed :=
              List.mem_map.mpr ⟨a.2.row checksum,
                List.mem_flatMap.mpr ⟨_, heq ▸ htx, List.mem_cons_self⟩, rfl⟩
            rw [hver] at hin
            cases hin
          · next hsame =>
              refine h.put hk rfl (htail _ ?_)
              rintro ⟨c, hc, hne⟩
              rw [hprev] at hc
              cases hc
              exact hsame hne
      · next hnone =>
          have hahead := hloop.ahead m (hrest ▸ mem_pending_head hnone)
          exact h.put hk rfl ⟨htail l.skipped (not_changed_of_none hnone), hahead, hbefore, rfl, rfl,
            .inl rfl⟩

/-- A start that fails leaves what it has committed. -/
theorem Inv.fail {q : Phase} (h : Inv digits checksum s) (hk : s.starts[k]? = some q)
    (hp : q.afterFailure = some p) : Inv digits checksum (s.ended k p) := by
  have hq := h.phases k q hk
  cases q with
  | undiscovered e => cases hp
  | connected ms =>
      cases hp
      exact h.ended rfl ⟨versionsOf_nil hq.1, fun _ hm => absurd hm (by simp)⟩
  | locked ms =>
      cases hp
      exact h.ended rfl ⟨versionsOf_nil hq.1, fun _ hm => absurd hm (by simp)⟩
  | looping l =>
      cases hp
      exact h.ended rfl ⟨LoopOk.applied hq, fun _ hm => absurd hm (by simp)⟩
  | applying l m tx =>
      cases hp
      have happ : ApplyingOk digits checksum s.committed k l m tx := hq
      refine h.ended rfl ⟨happ.loop.applied, fun m' hm' v hv => ?_⟩
      cases hm'
      rw [← happ.loop.applied] at hv
      obtain ⟨r, hr, rfl⟩ := mem_rows_of_mem_versionsOf hv
      exact happ.ahead r hr
  | changed l m => cases hp
  | failed applied m => cases hp
  | finished applied skipped => cases hp

/-- A start that commits. -/
theorem Inv.commit {l : Loop} {m : Migration} {tx : Transaction} (h : Inv digits checksum s)
    (hk : s.starts[k]? = some (.applying l m tx)) (hins : tx.inserted ≠ []) :
    Inv digits checksum { s.put k (.looping { l with applied := l.applied ++ [m.version] }) with
      committed := s.committed ++ [tx] } := by
  have happ : ApplyingOk digits checksum s.committed k l m tx := h.phases k _ hk
  have hlock := h.lock k _ hk rfl
  have hlt := (List.getElem?_eq_some_iff.mp hk).1
  constructor
  · rw [happ.eq_transactionOf hins]
    exact h.history.commit happ.ahead
  · intro j q hq hholds
    simp only [State.put, List.getElem?_set] at hq ⊢
    by_cases hj : k = j
    · exact hj ▸ hlock
    · rw [if_neg hj] at hq
      exact h.lock j q hq hholds
  · intro t ht
    simp only [State.put, List.length_set]
    rcases List.mem_append.mp ht with ht | ht
    · exact h.known t ht
    · rw [List.mem_singleton.mp ht, happ.start]
      exact hlt
  · intro j q hq
    simp only [State.put, List.getElem?_set] at hq
    by_cases hj : k = j
    · subst hj
      rw [if_pos rfl, if_pos hlt] at hq
      cases hq
      exact happ.commit hins
    · rw [if_neg hj] at hq
      refine (h.phases j q hq).frame ?_ (happ.start ▸ hj)
      -- Only one start has the lock.
      cases hholds : q.holds with
      | false => rfl
      | true => exact absurd (Option.some.inj (hlock.symm.trans (h.lock j q hq hholds))) hj

/-- A new start has committed nothing. -/
theorem Inv.start (h : Inv digits checksum s) (hp : p.holds = false)
    (ok : byStart s.starts.length s.committed = [] →
      PhaseOk digits checksum s.committed s.starts.length p) :
    Inv digits checksum { s with starts := s.starts ++ [p] } := by
  have hnone : byStart s.starts.length s.committed = [] := by
    rw [byStart, List.filter_eq_nil_iff]
    intro tx htx heq
    have hlt := h.known tx htx
    rw [of_decide_eq_true heq] at hlt
    exact absurd hlt (Nat.lt_irrefl _)
  have hcases : ∀ j q, (s.starts ++ [p])[j]? = some q →
      s.starts[j]? = some q ∨ (j = s.starts.length ∧ q = p) := by
    intro j q hq
    rw [List.getElem?_append] at hq
    split at hq
    · exact .inl hq
    · next hj =>
        obtain ⟨hlt, hq⟩ := List.getElem?_eq_some_iff.mp hq
        simp only [List.length_singleton, List.getElem_singleton] at hlt hq
        exact .inr ⟨by omega, hq.symm⟩
  constructor
  · exact h.history
  · intro j q hq hholds
    rcases hcases j q hq with hq | ⟨rfl, rfl⟩
    · exact h.lock j q hq hholds
    · rw [hp] at hholds
      cases hholds
  · intro tx htx
    rw [List.length_append]
    exact Nat.lt_add_right _ (h.known tx htx)
  · intro j q hq
    rcases hcases j q hq with hq | ⟨rfl, rfl⟩
    · exact h.phases j q hq
    · exact ok hnone

/-- One request of one start keeps the invariant. -/
theorem Inv.step {a : Action} (h : Inv digits checksum s) (good : Forward digits checksum s a)
    (hs : step digits checksum s a = some s') : Inv digits checksum s' := by
  cases a with
  | start dir =>
      cases hs
      cases hd : discoverMigrations digits dir with
      | error e => exact h.start rfl versionsOf_nil
      | ok ms => exact h.start rfl fun hnone => ⟨hnone, discoverMigrations_ascending hd⟩
  | lock k =>
      simp only [Migrator.step] at hs
      split at hs
      · next ms hk hfree =>
          cases hs
          have hq : byStart k s.committed = [] ∧ Ascending digits ms := h.phases k _ hk
          refine h.moved rfl rfl (fun j _ hj => ?_) (fun _ => rfl) hq
          rw [hfree] at hj
          cases hj
      · cases hs
  | read k =>
      simp only [Migrator.step] at hs
      split at hs
      · next ms hk =>
          cases hs
          have hq : byStart k s.committed = [] ∧ Ascending digits ms := h.phases k _ hk
          have hgood : ∀ m ∈ pending checksum (rows s.committed) ms,
              Ahead digits (rows s.committed) m := by
            simpa only [Forward, State.about, hk] using good
          exact h.put hk rfl ⟨versionsOf_nil hq.1, hq.2, fun r hr => hr, hgood,
            fun hne => absurd rfl hne⟩
      · cases hs
  | check k =>
      simp only [Migrator.step] at hs
      split at hs
      · next l hk =>
          cases hs
          exact h.checkNext hk
      · cases hs
  | record k =>
      simp only [Migrator.step] at hs
      split at hs
      · next l m j sql hk =>
          split at hs
          · cases hs
            have happ : ApplyingOk digits checksum s.committed k l m ⟨j, sql, []⟩ :=
              h.phases k _ hk
            exact h.put hk rfl { happ with inserted := .inr rfl }
          · cases hs
      · cases hs
  | commit k =>
      simp only [Migrator.step] at hs
      split at hs
      · next l m j sql r rs hk =>
          cases hs
          exact h.commit hk (List.cons_ne_nil _ _)
      · cases hs
  | fail k =>
      simp only [Migrator.step] at hs
      split at hs
      · next q hk =>
          obtain ⟨p, hp, rfl⟩ := Option.map_eq_some_iff.mp hs
          exact h.fail hk hp
      · cases hs

/-- What has committed stays committed. -/
theorem committed_of_step {a : Action} (hs : Migrator.step digits checksum s a = some s') :
    s.committed <+: s'.committed := by
  have hcheck : ∀ k l, (s.checkNext checksum k l).committed = s.committed := by
    intro k l
    unfold State.checkNext
    split
    · rfl
    · split
      · split <;> rfl
      · rfl
  cases a with
  | start dir =>
      cases hs
      exact List.prefix_rfl
  | lock k =>
      simp only [Migrator.step] at hs
      split at hs <;> cases hs
      exact List.prefix_rfl
  | read k =>
      simp only [Migrator.step] at hs
      split at hs <;> cases hs
      exact List.prefix_rfl
  | check k =>
      simp only [Migrator.step] at hs
      split at hs <;> cases hs
      have hsame := hcheck k
      simp only [hsame]
      exact List.prefix_rfl
  | record k =>
      simp only [Migrator.step] at hs
      split at hs
      · split at hs <;> cases hs
        exact List.prefix_rfl
      · cases hs
  | commit k =>
      simp only [Migrator.step] at hs
      split at hs <;> cases hs
      exact List.prefix_append _ _
  | fail k =>
      simp only [Migrator.step] at hs
      split at hs
      · obtain ⟨p, -, rfl⟩ := Option.map_eq_some_iff.mp hs
        exact List.prefix_rfl
      · cases hs

end Requests

/-! ## Runs -/

theorem Inv.fresh : Inv digits checksum .fresh where
  history := ⟨[], rfl, List.Pairwise.nil⟩
  lock := fun _ _ h => nomatch h
  known := fun _ h => nomatch h
  phases := fun _ _ h => nomatch h

/-- Over any number of forward starts, interleaved and failing anywhere: what
has committed is one transaction for each migration, with the SQL of its file
and its record, in strictly ascending order of number; a start that found a
changed file has committed nothing; a start that failed has committed and
recorded what it had applied before and nothing of the file it failed at; and
all of this stays so for as long as the database lives. -/
theorem migrations_once_in_order {s : State}
    (h : Steps (step digits checksum) (Forward digits checksum) .fresh s) :
    (∃ applied : List (Nat × Migration), s.committed = applied.map (transactionOf checksum) ∧
      applied.Pairwise fun a b => a.2.sortKey digits < b.2.sortKey digits) ∧
    (∀ k l m, s.starts[k]? = some (.changed l m) → byStart k s.committed = []) ∧
    (∀ k applied m, s.starts[k]? = some (.failed applied m) → versionsOf k s.committed = applied ∧
      ∀ m' ∈ m, ∀ v ∈ applied, numberOf digits v < m'.sortKey digits) ∧
    (∀ s', Steps (step digits checksum) anyStep s s' → s.committed <+: s'.committed) := by
  have hinv : Inv digits checksum s := h.invariant .fresh fun _ _ _ hi good hs => hi.step good hs
  refine ⟨hinv.history, fun k l m hk => ?_, fun k applied m hk => ?_, fun s' hs' => ?_⟩
  · exact hinv.phases k _ hk
  · exact hinv.phases k _ hk
  · exact hs'.related (R := fun a b => a.committed <+: b.committed) (fun _ => List.prefix_rfl)
      (fun _ _ _ => List.IsPrefix.trans) fun _ _ _ => committed_of_step

/-- The ten digits of ASCII. -/
def asciiDigits : Digits := fun c => if c.isDigit then some (c.toNat - '0'.toNat) else none

/-- A directory with the files of a deployment. -/
def deployed (files : List (String × String)) : Directory :=
  ⟨"migrations", some (files.map fun f => ⟨f.1, some f.2⟩)⟩

/-- Two instances start together, and the one that gets the lock fails at its
second file; a later deployment mends that file and adds a third. -/
def twoDeployments : List Action :=
  let first := deployed [("001_base.sql", "CREATE TABLE a"), ("002_runs.sql", "CREATE TABL b")]
  let second := deployed [("001_base.sql", "CREATE TABLE a"), ("002_runs.sql", "CREATE TABLE b"),
    ("003_scope.sql", "CREATE TABLE c")]
  [.start first, .start first, .lock 1, .read 1, .check 1, .record 1, .commit 1, .check 1, .fail 1,
    .start second, .lock 2, .read 2, .check 2, .check 2, .record 2, .commit 2, .check 2, .record 2,
    .commit 2, .check 2]

theorem migrations_once_of_twoDeployments :
    ∃ s : State, s.committed.map (fun tx => (tx.start, tx.executed)) =
        [(1, ["CREATE TABLE a"]), (2, ["CREATE TABLE b"]), (2, ["CREATE TABLE c"])] ∧
      (∃ applied : List (Nat × Migration), s.committed = applied.map (transactionOf id) ∧
        applied.Pairwise fun a b => a.2.sortKey asciiDigits < b.2.sortKey asciiDigits) := by
  have h : (stepsIf (step asciiDigits id) (Forward asciiDigits id) .fresh twoDeployments).map
      (fun s => s.committed.map fun tx => (tx.start, tx.executed)) =
        some [(1, ["CREATE TABLE a"]), (2, ["CREATE TABLE b"]), (2, ["CREATE TABLE c"])] := by
    decide +kernel
  obtain ⟨s, hs, hsql⟩ := Option.map_eq_some_iff.mp h
  exact ⟨s, hsql, (migrations_once_in_order (Steps.of_stepsIf hs)).1⟩

/-- A file is renamed from `1_base.sql` to `001_base.sql` between two starts. -/
def renamedFile : List Action :=
  [.start (deployed [("1_base.sql", "CREATE TABLE a")]), .lock 0, .read 0, .check 0, .record 0,
    .commit 0, .check 0,
    .start (deployed [("001_base.sql", "CREATE TABLE a")]), .lock 1, .read 1, .check 1, .record 1,
    .commit 1]

/-- Without the condition the SQL of one migration number is committed twice. -/
theorem renamed_twice : ¬ ∀ s, Steps (step asciiDigits id) anyStep .fresh s →
    (rows s.committed).Pairwise fun a b =>
      numberOf asciiDigits a.version < numberOf asciiDigits b.version := by
  intro hall
  have h : (stepsIf (step asciiDigits id) anyStep .fresh renamedFile).map
      (fun s => (rows s.committed).map fun r => numberOf asciiDigits r.version) = some [1, 1] := by
    decide +kernel
  obtain ⟨s, hs, hnumbers⟩ := Option.map_eq_some_iff.mp h
  have hsorted := List.pairwise_map.mpr (hall s (Steps.of_stepsIf hs))
  rw [hnumbers] at hsorted
  exact absurd hsorted (by decide)

end SeoAgent.Persistence.Migrator
