import SeoAgent.Verified.Prog

/-!
# Steps that may raise

`Except` without an effect of its own: a guard, a sequence of two steps, and one step
for every element of a list, which stops at the first exception.

## Main results

* `bind_isOk_iff` — when a sequence does not raise.
* `collect_isOk_iff`, `mem_collect` — when a list of steps does not, and what it gives.
-/

namespace SeoAgent.Verified

variable {ε α β : Type} {f g : α → Except ε β} {xs : List α} {ys : List β}

/-- Raises unless a condition holds. -/
def ensure (p : Prop) [Decidable p] (exc : ε) : Except ε Unit :=
  if p then .ok () else .error exc

theorem ensure_ok_iff {p : Prop} [Decidable p] {exc : ε} {u : Unit} :
    ensure p exc = .ok u ↔ p := by
  unfold ensure
  split
  · next h => exact iff_of_true rfl h
  · next h => exact iff_of_false (fun hok => by cases hok) h

theorem ensure_isOk_iff {p : Prop} [Decidable p] {exc : ε} :
    (∃ u, ensure p exc = .ok u) ↔ p :=
  ⟨fun ⟨_, h⟩ => ensure_ok_iff.mp h, fun h => ⟨(), ensure_ok_iff.mpr h⟩⟩

theorem bind_isOk_iff {x : Except ε α} :
    (∃ b, (x >>= f) = .ok b) ↔ ∃ a, x = .ok a ∧ ∃ b, f a = .ok b := by
  simp only [bind_eq_ok]
  constructor
  · rintro ⟨b, a, ha, hb⟩
    exact ⟨a, ha, b, hb⟩
  · rintro ⟨a, ha, b, hb⟩
    exact ⟨b, a, ha, hb⟩

/-- `f` on every element, up to the first that raises. -/
def collect (f : α → Except ε β) : List α → Except ε (List β)
  | [] => .ok []
  | x :: xs => do
      let y ← f x
      let ys ← collect f xs
      return y :: ys

theorem collect_ok_cons {x : α} : collect f (x :: xs) = .ok ys ↔
    ∃ y ys', f x = .ok y ∧ collect f xs = .ok ys' ∧ ys = y :: ys' := by
  rw [collect, bind_eq_ok]
  simp only [bind_eq_ok]
  constructor
  · rintro ⟨y, hy, ys', hys, hcons⟩
    exact ⟨y, ys', hy, hys, (Except.ok.inj hcons).symm⟩
  · rintro ⟨y, ys', hy, hys, rfl⟩
    exact ⟨y, hy, ys', hys, rfl⟩

theorem collect_isOk_iff : (∃ ys, collect f xs = .ok ys) ↔ ∀ x ∈ xs, ∃ y, f x = .ok y := by
  induction xs with
  | nil => exact ⟨fun _ _ h => absurd h List.not_mem_nil, fun _ => ⟨[], rfl⟩⟩
  | cons x xs ih =>
      rw [List.forall_mem_cons, ← ih]
      constructor
      · rintro ⟨ys, h⟩
        obtain ⟨y, ys', hy, hys, -⟩ := collect_ok_cons.mp h
        exact ⟨⟨y, hy⟩, ys', hys⟩
      · rintro ⟨⟨y, hy⟩, ys', hys⟩
        exact ⟨y :: ys', collect_ok_cons.mpr ⟨y, ys', hy, hys, rfl⟩⟩

theorem mem_collect (h : collect f xs = .ok ys) {y : β} :
    y ∈ ys ↔ ∃ x ∈ xs, f x = .ok y := by
  induction xs generalizing ys with
  | nil =>
      cases h
      simp
  | cons x xs ih =>
      obtain ⟨z, zs, hz, hzs, rfl⟩ := collect_ok_cons.mp h
      have hfirst : f x = .ok y ↔ y = z := by rw [hz, Except.ok.injEq, eq_comm]
      simp only [List.mem_cons, ih hzs, exists_eq_or_imp, hfirst]

theorem collect_congr (h : ∀ x ∈ xs, f x = g x) : collect f xs = collect g xs := by
  induction xs with
  | nil => rfl
  | cons x xs ih =>
      have hrest := ih fun x hx => h x (List.mem_cons_of_mem _ hx)
      unfold collect
      rw [h x List.mem_cons_self, hrest]

end SeoAgent.Verified
