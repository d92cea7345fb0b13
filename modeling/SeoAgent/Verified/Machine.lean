import SeoAgent.Verified.Prog

/-!
# Processes interleaving over one shared state

A `Machine` runs any number of processes over a shared state. A move starts a
process of some kind, lets one process carry out its next operation, removes a
process (it has crashed, or it has finished), or lets the environment change
the shared state. Every operation is one move, so a run is an arbitrary
interleaving of the operations of all processes, with a crash possible between
any two of them.

`Run good c₀ c` says that `c` is reached from `c₀` by moves that each meet
`good`, a condition on the configuration before the move and on the move
itself; `Run.of_moves` builds runs by evaluation.

`Discipline` is the proof rule. It has an invariant of the shared state, what
each kind of process knows about the shared state after what it was answered,
the contract each kind keeps, and what holds between any two processes that
are alive at once; its obligations speak about one operation at a time and
`Discipline.Sound.sound` gives the conclusion for every reachable
configuration.

## Main results

* `Run.of_moves` — evaluation of a list of moves gives a run.
* `Discipline.Sound.sound` — one-operation obligations hold over every run.
* `Discipline.Sound.ends` — what the bodies end in, the processes of a run do.
-/

namespace SeoAgent.Verified

/-! ## Configurations and moves -/

/-- A family of processes over a shared state. -/
structure Machine (I : Interface) where
  Shared : Type
  /-- What the outside decides when it carries out an operation. -/
  Choice : Type
  Kind : Type
  Env : Type
  exec : Shared → (o : I.Op) → Choice → Option (I.Answer o × Shared)
  change : Shared → Env → Option Shared
  body : Kind → Prog I Unit
  /-- Whether a process of a kind may start beside the ones that are there. -/
  admits : List Kind → Kind → Bool

namespace Machine

variable {I : Interface} (M : Machine I)

/-- A process under way: what is left of it and what it was answered. -/
structure Thread where
  kind : M.Kind
  rest : Prog I Unit
  past : I.Past

/-- The shared state with the processes under way. -/
structure Config where
  shared : M.Shared
  pool : List M.Thread

/-- The moves of a machine. `stop` takes a process away at any point. -/
inductive Move
  | spawn (k : M.Kind)
  | act (t : Nat) (ch : M.Choice)
  | stop (t : Nat)
  | env (e : M.Env)

variable {M}

/-- The configuration after the process at `t` was answered `r`. -/
def Config.answered (c : M.Config) (t : Nat) (k : M.Kind) (past : I.Past)
    {o : I.Op} (r : I.Answer o) (f : I.Answer o → Prog I Unit)
    (s : M.Shared) : M.Config :=
  { shared := s, pool := c.pool.set t ⟨k, f r, ⟨o, r⟩ :: past⟩ }

/-- One move; `none` when the move is not possible. -/
def fire (c : M.Config) : M.Move → Option M.Config
  | .spawn k =>
      if M.admits (c.pool.map Thread.kind) k then
        some { c with pool := c.pool ++ [⟨k, M.body k, []⟩] }
      else none
  | .act t ch =>
      match c.pool[t]? with
      | some ⟨k, .call o f, past⟩ =>
          (M.exec c.shared o ch).map fun x => c.answered t k past x.1 f x.2
      | _ => none
  | .stop t =>
      if t < c.pool.length then some { c with pool := c.pool.eraseIdx t }
      else none
  | .env e => (M.change c.shared e).map fun s => { c with shared := s }

/-- What one move can do. -/
theorem fire_cases {c c' : M.Config} {m : M.Move} (h : fire c m = some c') :
    (∃ k, m = .spawn k ∧ M.admits (c.pool.map Thread.kind) k = true ∧
      c' = { c with pool := c.pool ++ [⟨k, M.body k, []⟩] }) ∨
    (∃ t ch k o f past r s, m = .act t ch ∧
      c.pool[t]? = some ⟨k, .call o f, past⟩ ∧
      M.exec c.shared o ch = some (r, s) ∧ c' = c.answered t k past r f s) ∨
    (∃ t, m = .stop t ∧ c' = { c with pool := c.pool.eraseIdx t }) ∨
    (∃ e s, m = .env e ∧ M.change c.shared e = some s ∧
      c' = { c with shared := s }) := by
  cases m with
  | spawn k =>
      simp only [fire] at h
      split at h
      · next ha => exact .inl ⟨k, rfl, ha, (Option.some.inj h).symm⟩
      · cases h
  | act t ch =>
      simp only [fire] at h
      split at h
      · next k o f past hp =>
          obtain ⟨⟨r, s⟩, hx, rfl⟩ := Option.map_eq_some_iff.mp h
          exact .inr (.inl ⟨t, ch, k, o, f, past, r, s, rfl, hp, hx, rfl⟩)
      · cases h
  | stop t =>
      simp only [fire] at h
      split at h
      · exact .inr (.inr (.inl ⟨t, rfl, (Option.some.inj h).symm⟩))
      · cases h
  | env e =>
      obtain ⟨s, hs, rfl⟩ := Option.map_eq_some_iff.mp h
      exact .inr (.inr (.inr ⟨e, s, rfl, hs, rfl⟩))

/-- A process that acts is answered, and nothing else moves. -/
theorem fire_act {c c' : M.Config} {t : Nat} {ch : M.Choice}
    (h : fire c (.act t ch) = some c') :
    ∃ k o f past r s, c.pool[t]? = some ⟨k, .call o f, past⟩ ∧
      M.exec c.shared o ch = some (r, s) ∧ c' = c.answered t k past r f s := by
  obtain ⟨_, hm, -⟩ | ⟨t', ch', k, o, f, past, r, s, hm, hp, hx, rfl⟩ | ⟨_, hm, -⟩ |
    ⟨_, _, hm, -⟩ := fire_cases h
  · cases hm
  · cases hm
    exact ⟨k, o, f, past, r, s, hp, hx, rfl⟩
  · cases hm
  · cases hm

/-! ## Runs -/

/-- A condition on a configuration and the move made from it. -/
abbrev Condition (M : Machine I) : Type := M.Config → M.Move → Prop

/-- No condition. -/
def anyMove : Condition M := fun _ _ => True

/-- A condition on the operations processes carry out. -/
def eachOp (P : M.Config → M.Kind → I.Past → I.Op → M.Choice → Prop) : Condition M
  | c, .act t ch =>
      match c.pool[t]? with
      | some ⟨k, .call o _, past⟩ => P c k past o ch
      | _ => True
  | _, _ => True

instance {P : M.Config → M.Kind → I.Past → I.Op → M.Choice → Prop}
    [∀ c k past o ch, Decidable (P c k past o ch)] (c : M.Config) (m : M.Move) :
    Decidable (eachOp P c m) := by
  unfold eachOp
  split
  · split <;> infer_instance
  · infer_instance

theorem eachOp_act {P : M.Config → M.Kind → I.Past → I.Op → M.Choice → Prop}
    {c : M.Config} {t : Nat} {ch : M.Choice} {k : M.Kind} {o : I.Op}
    {f : I.Answer o → Prog I Unit} {past : I.Past} (h : eachOp P c (.act t ch))
    (hp : c.pool[t]? = some ⟨k, .call o f, past⟩) : P c k past o ch := by
  simpa only [eachOp, hp] using h

theorem eachOp_mono {P Q : M.Config → M.Kind → I.Past → I.Op → M.Choice → Prop}
    (h : ∀ c k past o ch, P c k past o ch → Q c k past o ch) {c : M.Config} {m : M.Move}
    (hm : eachOp P c m) : eachOp Q c m := by
  cases m with
  | act t ch =>
      simp only [eachOp] at hm ⊢
      split
      · next hp =>
          rw [hp] at hm
          exact h _ _ _ _ _ hm
      · trivial
  | spawn k => trivial
  | stop t => trivial
  | env e => trivial

/-- A condition on what the environment does. -/
def eachEvent (P : M.Config → M.Env → Prop) : Condition M
  | c, .env e => P c e
  | _, _ => True

instance {P : M.Config → M.Env → Prop} [∀ c e, Decidable (P c e)] (c : M.Config)
    (m : M.Move) : Decidable (eachEvent P c m) := by
  unfold eachEvent
  split <;> infer_instance

/-- `c` is reached from `c₀` by moves that each meet `good`. -/
inductive Run (good : Condition M) (c₀ : M.Config) : M.Config → Prop
  | start : Run good c₀ c₀
  | move {c c' : M.Config} (m : M.Move) (before : Run good c₀ c)
      (ok : good c m) (fired : fire c m = some c') : Run good c₀ c'

/-- The configuration after a list of moves. -/
def fires (c : M.Config) (ms : List M.Move) : Option M.Config :=
  ms.foldlM fire c

/-- The configuration after a list of moves that each meet a condition. -/
def firesIf (good : Condition M) [∀ c m, Decidable (good c m)] :
    M.Config → List M.Move → Option M.Config
  | c, [] => some c
  | c, m :: ms =>
      if good c m then (fire c m).bind fun c' => firesIf good c' ms else none

namespace Run

variable {good good' : Condition M} {c₀ c c' : M.Config}

theorem mono (h : ∀ c m, good c m → good' c m) (hr : Run good c₀ c) :
    Run good' c₀ c := by
  induction hr with
  | start => exact .start
  | move m _ ok fired ih => exact .move m ih (h _ m ok) fired

/-- A run that meets a condition is a run. -/
theorem any (hr : Run good c₀ c) : Run anyMove c₀ c := hr.mono fun _ _ _ => trivial

theorem trans {c₁ : M.Config} (h₁ : Run good c₀ c₁) (h₂ : Run good c₁ c) :
    Run good c₀ c := by
  induction h₂ with
  | start => exact h₁
  | move m _ ok fired ih => exact .move m ih ok fired

/-- Moves that evaluate make a run. -/
theorem of_moves {c c' : M.Config} {ms : List M.Move}
    (h : fires c ms = some c') : Run anyMove c c' := by
  induction ms generalizing c with
  | nil => cases h; exact .start
  | cons m ms ih =>
      obtain ⟨c₁, h₁, h₂⟩ : ∃ c₁, fire c m = some c₁ ∧ fires c₁ ms = some c' :=
        Option.bind_eq_some_iff.mp h
      exact (Run.move m .start trivial h₁).trans (ih h₂)

/-- Moves that evaluate and each meet a decidable condition make a run. -/
theorem of_good_moves {good : Condition M} [∀ c m, Decidable (good c m)]
    {c c' : M.Config} {ms : List M.Move} (h : firesIf good c ms = some c') :
    Run good c c' := by
  induction ms generalizing c with
  | nil => cases h; exact .start
  | cons m ms ih =>
      simp only [firesIf] at h
      split at h
      · next hg =>
          obtain ⟨c₁, h₁, h₂⟩ := Option.bind_eq_some_iff.mp h
          exact (Run.move m .start hg h₁).trans (ih h₂)
      · cases h

/-- An invariant of the configurations of a run. -/
theorem invariant {P : M.Config → Prop} (h₀ : P c₀)
    (hstep : ∀ c m c', Run good c₀ c → P c → good c m →
      fire c m = some c' → P c')
    (hr : Run good c₀ c) : P c := by
  induction hr with
  | start => exact h₀
  | move m before ok fired ih => exact hstep _ m _ before ih ok fired

/-- The processes of a run are of the kinds that its moves may start. -/
theorem kinds {G : M.Kind → Prop} (hspawn : ∀ c k, good c (.spawn k) → G k)
    (h₀ : ∀ th ∈ c₀.pool, G th.kind) (hr : Run good c₀ c) : ∀ th ∈ c.pool, G th.kind := by
  refine Run.invariant (P := fun c => ∀ th ∈ c.pool, G th.kind) h₀
    (fun c m c' _ hold ok hf th hth => ?_) hr
  obtain ⟨k, rfl, -, rfl⟩ | ⟨t, ch, k, o, f, past, r, s, rfl, hp, -, rfl⟩ | ⟨t, rfl, rfl⟩ |
    ⟨e, s, rfl, -, rfl⟩ := fire_cases hf
  · rcases List.mem_append.mp hth with hth | hth
    · exact hold th hth
    · rw [List.mem_singleton.mp hth]
      exact hspawn c k ok
  · rcases List.mem_or_eq_of_mem_set hth with hth | rfl
    · exact hold th hth
    · have hk := hold _ (List.mem_of_getElem? hp)
      exact hk
  · exact hold th (List.mem_of_mem_eraseIdx hth)
  · exact hold th hth

end Run

/-! ## Counting moves -/

/-- A run with the number of its moves of some kind. -/
inductive Tally (good : Condition M) (counts : M.Config → M.Move → Bool) (c₀ : M.Config) :
    Nat → M.Config → Prop
  | start : Tally good counts c₀ 0 c₀
  | move {n : Nat} {c c' : M.Config} (m : M.Move) (before : Tally good counts c₀ n c)
      (ok : good c m) (fired : fire c m = some c') :
      Tally good counts c₀ (n + (counts c m).toNat) c'

namespace Tally

variable {good : Condition M} {counts : M.Config → M.Move → Bool} {c₀ c : M.Config} {n : Nat}

theorem run (h : Tally good counts c₀ n c) : Run good c₀ c := by
  induction h with
  | start => exact .start
  | move m _ ok fired ih => exact .move m ih ok fired

/-- Every run can be counted. -/
theorem of_run (hr : Run good c₀ c) : ∃ n, Tally good counts c₀ n c := by
  induction hr with
  | start => exact ⟨0, .start⟩
  | move m _ ok fired ih =>
      obtain ⟨n, hn⟩ := ih
      exact ⟨_, .move m hn ok fired⟩

/-- An invariant of the configurations of a run and the count so far. -/
theorem invariant {P : Nat → M.Config → Prop} (h₀ : P 0 c₀)
    (hstep : ∀ n c m c', Run good c₀ c → P n c → good c m → fire c m = some c' →
      P (n + (counts c m).toNat) c')
    (h : Tally good counts c₀ n c) : P n c := by
  induction h with
  | start => exact h₀
  | move m before ok fired ih => exact hstep _ _ m _ before.run ih ok fired

end Tally

/-! ## The proof rule -/

/-- What a proof about a machine says of its parts: an invariant of the shared
state, what a kind of process knows after what it was answered, the contract it
keeps, and what holds between two processes that are alive at once. -/
structure Discipline (M : Machine I) where
  inv : M.Shared → Prop
  knows : M.Kind → M.Shared → I.Past → Prop
  contract : M.Kind → Prog.Contract I
  coexist : M.Kind → I.Past → M.Kind → I.Past → Prop

namespace Discipline

variable (D : Discipline M)

/-- A process is in order: it knows what it should and keeps its contract from
here on. -/
structure InOrder (s : M.Shared) (th : M.Thread) : Prop where
  knows : D.knows th.kind s th.past
  keeps : Prog.wp (D.contract th.kind) (fun _ _ => True) th.rest th.past

/-- Every process is in order, the shared state keeps the invariant, and any
two processes may be alive at once. -/
structure Holds (c : M.Config) : Prop where
  inv : D.inv c.shared
  threads : ∀ th ∈ c.pool, D.InOrder c.shared th
  coexist : c.pool.Pairwise fun a b => D.coexist a.kind a.past b.kind b.past

/-- The operation a process is about to be answered, with all that is known at
that point. -/
structure Acting (good : Condition M) (c₀ c : M.Config) (t : Nat)
    (ch : M.Choice) (k : M.Kind) (o : I.Op) (f : I.Answer o → Prog I Unit)
    (past : I.Past) (r : I.Answer o) (s : M.Shared) : Prop where
  reached : Run good c₀ c
  holds : D.Holds c
  ok : good c (.act t ch)
  here : c.pool[t]? = some ⟨k, .call o f, past⟩
  exec : M.exec c.shared o ch = some (r, s)
  knows : D.knows k c.shared past
  permitted : (D.contract k).permits past o

/-- The configuration an operation leaves is reached too. -/
theorem Acting.next {D : Discipline M} {good : Condition M} {c₀ c : M.Config}
    {t : Nat} {ch : M.Choice} {k : M.Kind} {o : I.Op}
    {f : I.Answer o → Prog I Unit} {past : I.Past} {r : I.Answer o} {s : M.Shared}
    (ha : D.Acting good c₀ c t ch k o f past r s) :
    Run good c₀ (c.answered t k past r f s) :=
  .move (.act t ch) ha.reached ha.ok (by simp only [fire, ha.here, ha.exec, Option.map_some])

/-- What has to be shown, one operation at a time. -/
structure Sound (good : Condition M) (c₀ : M.Config) : Prop where
  symm : ∀ {k past k' past'},
    D.coexist k past k' past' → D.coexist k' past' k past
  admits : ∀ {ks k}, M.admits ks k = true →
    ∀ k' ∈ ks, ∀ past', D.coexist k' past' k []
  body : ∀ k, Prog.wp (D.contract k) (fun _ _ => True) (M.body k) []
  start : ∀ {s} (k), D.inv s → D.knows k s []
  trusted : ∀ {c t ch k o f past r s},
    D.Acting good c₀ c t ch k o f past r s → (D.contract k).trusts o r
  inv : ∀ {c t ch k o f past r s},
    D.Acting good c₀ c t ch k o f past r s → D.inv s
  own : ∀ {c t ch k o f past r s},
    D.Acting good c₀ c t ch k o f past r s →
      D.knows k s (⟨o, r⟩ :: past)
  frame : ∀ {c t ch k o f past r s},
    D.Acting good c₀ c t ch k o f past r s →
      ∀ th ∈ c.pool, D.coexist k past th.kind th.past →
        D.knows th.kind c.shared th.past → D.knows th.kind s th.past
  together : ∀ {c t ch k o f past r s},
    D.Acting good c₀ c t ch k o f past r s →
      ∀ th ∈ c.pool, D.coexist k past th.kind th.past →
        D.knows th.kind c.shared th.past →
          D.coexist k (⟨o, r⟩ :: past) th.kind th.past
  envInv : ∀ {c e s}, Run good c₀ c → D.Holds c → good c (.env e) →
    M.change c.shared e = some s → D.inv s
  envFrame : ∀ {c e s}, Run good c₀ c → D.Holds c → good c (.env e) →
    M.change c.shared e = some s →
      ∀ th ∈ c.pool, D.knows th.kind c.shared th.past →
        D.knows th.kind s th.past

variable {D}

/-- Before any process has started only the invariant has to hold. -/
theorem Holds.of_no_process {s : M.Shared} (h : D.inv s) : D.Holds ⟨s, []⟩ :=
  ⟨h, fun _ hth => absurd hth List.not_mem_nil, List.Pairwise.nil⟩

/-- Two different processes of a pool may be alive at once. -/
theorem Holds.coexist_of_ne {c : M.Config} (hc : D.Holds c)
    (symm : ∀ {k past k' past'},
      D.coexist k past k' past' → D.coexist k' past' k past)
    {t u : Nat} {a b : M.Thread} (hne : t ≠ u) (ha : c.pool[t]? = some a)
    (hb : c.pool[u]? = some b) : D.coexist a.kind a.past b.kind b.past := by
  obtain ⟨hlt, rfl⟩ := List.getElem?_eq_some_iff.mp ha
  obtain ⟨hlu, rfl⟩ := List.getElem?_eq_some_iff.mp hb
  have key := List.pairwise_iff_getElem.mp hc.coexist
  rcases Nat.lt_or_gt_of_ne hne with h | h
  · exact key t u hlt hlu h
  · exact symm (key u t hlu hlt h)

/-- A process in order keeps its contract at the operation it asks for. -/
theorem InOrder.permitted {s : M.Shared} {k : M.Kind} {o : I.Op}
    {f : I.Answer o → Prog I Unit} {past : I.Past}
    (h : D.InOrder s ⟨k, .call o f, past⟩) : (D.contract k).permits past o :=
  h.keeps.1

private theorem Sound.move_act {good : Condition M} {c₀ c : M.Config}
    (hS : D.Sound good c₀) {t : Nat} {ch : M.Choice} {k : M.Kind} {o : I.Op}
    {f : I.Answer o → Prog I Unit} {past : I.Past} {r : I.Answer o}
    {s : M.Shared} (ha : D.Acting good c₀ c t ch k o f past r s) :
    D.Holds (c.answered t k past r f s) := by
  have hmem : (⟨k, .call o f, past⟩ : M.Thread) ∈ c.pool :=
    List.mem_of_getElem? ha.here
  have hlt := (List.getElem?_eq_some_iff.mp ha.here).1
  refine ⟨hS.inv ha, fun th hth => ?_, ?_⟩
  · obtain ⟨u, hu⟩ := List.getElem?_of_mem hth
    simp only [Config.answered] at hu
    by_cases htu : t = u
    · subst htu
      rw [List.getElem?_set_self hlt] at hu
      obtain rfl := Option.some.inj hu
      exact ⟨hS.own ha, (ha.holds.threads _ hmem).keeps.2 r (hS.trusted ha)⟩
    · rw [List.getElem?_set_ne htu] at hu
      have hold := ha.holds.threads _ (List.mem_of_getElem? hu)
      have hco := ha.holds.coexist_of_ne hS.symm htu ha.here hu
      exact ⟨hS.frame ha th (List.mem_of_getElem? hu) hco hold.knows, hold.keeps⟩
  · -- The acting process against any other, and the others as they were.
    have hother : ∀ u (hu : u < c.pool.length), t ≠ u →
        D.coexist k (⟨o, r⟩ :: past) c.pool[u].kind c.pool[u].past := by
      intro u hu htu
      have hget : c.pool[u]? = some c.pool[u] := List.getElem?_eq_getElem hu
      exact hS.together ha _ (List.getElem_mem hu)
        (ha.holds.coexist_of_ne hS.symm htu ha.here hget)
        (ha.holds.threads _ (List.getElem_mem hu)).knows
    refine List.pairwise_iff_getElem.mpr fun i j hi hj hij => ?_
    simp only [Config.answered, List.length_set] at hi hj
    simp only [Config.answered, List.getElem_set]
    by_cases hti : t = i
    · have htj : t ≠ j := by omega
      simpa only [hti, if_true, htj, if_false, hti ▸ htj] using hother j hj htj
    · by_cases htj : t = j
      · simpa only [htj, if_true, hti, if_false, htj ▸ hti] using
          hS.symm (hother i hi hti)
      · simpa only [hti, htj, if_false] using
          List.pairwise_iff_getElem.mp ha.holds.coexist i j hi hj hij

/-- The obligations of a discipline hold over every run. -/
theorem Sound.sound {good : Condition M} {c₀ c : M.Config}
    (hS : D.Sound good c₀) (h₀ : D.Holds c₀) (hr : Run good c₀ c) :
    D.Holds c := by
  refine Run.invariant h₀ (fun c m c' hc hold ok hf => ?_) hr
  obtain ⟨k, rfl, hadm, rfl⟩ | ⟨t, ch, k, o, f, past, r, s, rfl, hp, hx, rfl⟩ |
    ⟨t, rfl, rfl⟩ | ⟨e, s, rfl, hs, rfl⟩ := fire_cases hf
  · refine ⟨hold.inv, fun th hth => ?_, ?_⟩
    · rcases List.mem_append.mp hth with hth | hth
      · exact hold.threads th hth
      · obtain rfl := List.mem_singleton.mp hth
        exact ⟨hS.start k hold.inv, hS.body k⟩
    · refine List.pairwise_append.mpr
        ⟨hold.coexist, List.pairwise_singleton _ _, fun a ha b hb => ?_⟩
      obtain rfl := List.mem_singleton.mp hb
      exact hS.admits hadm a.kind (List.mem_map.mpr ⟨a, ha, rfl⟩) a.past
  · have hin := hold.threads _ (List.mem_of_getElem? hp)
    exact hS.move_act
      ⟨hc, hold, ok, hp, hx, hin.knows, hin.permitted⟩
  · refine ⟨hold.inv, fun th hth => hold.threads th ?_, ?_⟩
    · exact List.mem_of_mem_eraseIdx hth
    · exact hold.coexist.sublist (List.eraseIdx_sublist _ _)
  · refine ⟨hS.envInv hc hold ok hs, fun th hth => ?_, hold.coexist⟩
    have hin := hold.threads th hth
    exact ⟨hS.envFrame hc hold ok hs th hth hin.knows, hin.keeps⟩

/-- What the bodies end in, under the contracts of a discipline, is what the
processes of every run end in. -/
theorem Sound.ends {good : Condition M} {s : M.Shared} {c : M.Config}
    (hS : D.Sound good ⟨s, []⟩) (h₀ : D.Holds ⟨s, []⟩)
    {Q : M.Kind → I.Past → Except I.Exn Unit → Prop}
    (hbody : ∀ k, Prog.wp (D.contract k) (Q k) (M.body k) [])
    (hr : Run good ⟨s, []⟩ c) :
    ∀ th ∈ c.pool, Prog.wp (D.contract th.kind) (Q th.kind) th.rest th.past := by
  refine Run.invariant (P := fun c => ∀ th ∈ c.pool,
      Prog.wp (D.contract th.kind) (Q th.kind) th.rest th.past)
    (fun th hth => absurd hth List.not_mem_nil) (fun c m c' hc hold ok hf => ?_) hr
  obtain ⟨k, rfl, hadm, rfl⟩ | ⟨t, ch, k, o, f, past, r, s', rfl, hp, hx, rfl⟩ |
    ⟨t, rfl, rfl⟩ | ⟨e, s', rfl, hs, rfl⟩ := fire_cases hf
  · intro th hth
    rcases List.mem_append.mp hth with hth | hth
    · exact hold th hth
    · exact List.mem_singleton.mp hth ▸ hbody k
  · intro th hth
    rcases List.mem_or_eq_of_mem_set hth with hth | rfl
    · exact hold th hth
    · have hmem := List.mem_of_getElem? hp
      have hall := hS.sound h₀ hc
      have hin := hall.threads _ hmem
      exact (hold _ hmem).2 r (hS.trusted ⟨hc, hall, ok, hp, hx, hin.knows, hin.permitted⟩)
  · exact fun th hth => hold th (List.mem_of_mem_eraseIdx hth)
  · exact hold

end Discipline

end Machine

end SeoAgent.Verified
