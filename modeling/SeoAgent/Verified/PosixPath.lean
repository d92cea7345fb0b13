import Mathlib.Data.List.Basic
import Mathlib.Data.List.Infix

/-!
# Paths of components

`normpath` of `posixpath`: a path is split at its slashes, empty components and dots are
dropped, and two dots take back the component before them. A path from the root is its
components with a slash before each, `rooted`.

## Main results

* `readComponents_clean` — from the root, what is read has no empty component and no dots.
* `normpath_rooted` — the path of what is read, from the root.
* `weight_readComponents_le` — what is read is not longer.
-/

namespace SeoAgent.Verified.PosixPath

/-- One component is read onto those before it. -/
def readComponent (absolute : Bool) (comps : List (List Char)) (comp : List Char) :
    List (List Char) :=
  if comp = [] ∨ comp = ['.'] then comps
  else if comp ≠ ['.', '.'] ∨ (absolute = false ∧ comps = []) ∨
      comps.getLast? = some ['.', '.'] then comps ++ [comp]
  else comps.dropLast

def readComponents (absolute : Bool) (parts : List (List Char)) : List (List Char) :=
  parts.foldl (readComponent absolute) []

/-- One or two slashes in front stay, three or more are one. -/
def initialSlashes : List Char → Nat
  | '/' :: '/' :: '/' :: _ => 1
  | '/' :: '/' :: _ => 2
  | '/' :: _ => 1
  | _ => 0

/-- `posixpath.normpath`. -/
def normpath (path : List Char) : List Char :=
  if path = [] then ['.']
  else
    let slashes := initialSlashes path
    let comps := readComponents (slashes != 0) (path.splitOn '/')
    let joined := List.replicate slashes '/' ++ ['/'].intercalate comps
    if joined = [] then ['.'] else joined

/-- A component that stays: with a name, which is not dots. -/
structure Clean (comp : List Char) : Prop where
  ne_nil : comp ≠ []
  ne_dot : comp ≠ ['.']
  ne_dots : comp ≠ ['.', '.']

/-- The path of components from the root. -/
def rooted (parts : List (List Char)) : List Char := parts.flatMap ('/' :: ·)

/-- The length of a path of components. -/
def weight (parts : List (List Char)) : Nat := (rooted parts).length

variable {comps parts : List (List Char)} {comp s : List Char}

/-! ## Reading components -/

theorem getLast?_ne_dots (h : ∀ c ∈ comps, Clean c) : comps.getLast? ≠ some ['.', '.'] :=
  fun hlast => (h _ (List.mem_of_getLast? hlast)).ne_dots rfl

theorem readComponent_clean (h : ∀ c ∈ comps, Clean c) (comp : List Char) :
    ∀ c ∈ readComponent true comps comp, Clean c := by
  unfold readComponent
  split
  · exact h
  · next hname =>
      rw [not_or] at hname
      split
      · next hkept =>
          have hdots : comp ≠ ['.', '.'] := by
            rcases hkept with hdots | ⟨hfalse, -⟩ | hlast
            · exact hdots
            · cases hfalse
            · exact absurd hlast (getLast?_ne_dots h)
          intro c hc
          rcases List.mem_append.mp hc with hc | hc
          · exact h c hc
          · rw [List.mem_singleton.mp hc]
            exact ⟨hname.1, hname.2, hdots⟩
      · exact fun c hc => h c (List.mem_of_mem_dropLast hc)

theorem foldl_clean (parts : List (List Char)) (h : ∀ c ∈ comps, Clean c) :
    ∀ c ∈ parts.foldl (readComponent true) comps, Clean c := by
  induction parts generalizing comps with
  | nil => exact h
  | cons comp parts ih => exact ih (readComponent_clean h comp)

/-- From the root, what is read is clean. -/
theorem readComponents_clean (parts : List (List Char)) :
    ∀ c ∈ readComponents true parts, Clean c :=
  foldl_clean parts nofun

theorem readComponent_subset {absolute : Bool} {c : List Char}
    (h : c ∈ readComponent absolute comps comp) : c ∈ comps ∨ c = comp := by
  unfold readComponent at h
  split at h
  · exact .inl h
  · split at h
    · exact (List.mem_append.mp h).imp_right List.mem_singleton.mp
    · exact .inl (List.mem_of_mem_dropLast h)

theorem foldl_subset {absolute : Bool} {c : List Char} (parts : List (List Char))
    (h : c ∈ parts.foldl (readComponent absolute) comps) : c ∈ comps ∨ c ∈ parts := by
  induction parts generalizing comps with
  | nil => exact .inl h
  | cons comp parts ih =>
      rcases ih h with h | h
      · rcases readComponent_subset h with h | rfl
        · exact .inl h
        · exact .inr List.mem_cons_self
      · exact .inr (List.mem_cons_of_mem _ h)

/-- What is read was there. -/
theorem mem_of_readComponents {absolute : Bool} {c : List Char}
    (h : c ∈ readComponents absolute parts) : c ∈ parts :=
  (foldl_subset parts h).resolve_left List.not_mem_nil

theorem readComponent_of_clean {absolute : Bool} (h : Clean comp) :
    readComponent absolute comps comp = comps ++ [comp] := by
  unfold readComponent
  rw [if_neg (not_or.mpr ⟨h.ne_nil, h.ne_dot⟩), if_pos (.inl h.ne_dots)]

theorem readComponent_nil {absolute : Bool} : readComponent absolute comps [] = comps :=
  if_pos (.inl rfl)

theorem foldl_of_clean {absolute : Bool} (h : ∀ c ∈ parts, Clean c) :
    parts.foldl (readComponent absolute) comps = comps ++ parts := by
  induction parts generalizing comps with
  | nil => rw [List.foldl_nil, List.append_nil]
  | cons comp parts ih =>
      rw [List.foldl_cons, readComponent_of_clean (h comp List.mem_cons_self),
        ih fun c hc => h c (List.mem_cons_of_mem _ hc), List.append_assoc]
      rfl

/-- Clean components are read as they are. -/
theorem readComponents_of_clean {absolute : Bool} (h : ∀ c ∈ parts, Clean c) :
    readComponents absolute parts = parts := foldl_of_clean h

theorem readComponents_append_nil {absolute : Bool} (parts : List (List Char)) :
    readComponents absolute (parts ++ [[]]) = readComponents absolute parts := by
  unfold readComponents
  rw [List.foldl_append, List.foldl_cons, List.foldl_nil, readComponent_nil]

/-! ## Lengths -/

theorem weight_cons (comp : List Char) (parts : List (List Char)) :
    weight (comp :: parts) = comp.length + 1 + weight parts := by
  unfold weight rooted
  rw [List.flatMap_cons, List.length_append, List.length_cons]

theorem weight_append (parts parts' : List (List Char)) :
    weight (parts ++ parts') = weight parts + weight parts' := by
  unfold weight rooted
  rw [List.flatMap_append, List.length_append]

theorem weight_dropLast_le (comps : List (List Char)) : weight comps.dropLast ≤ weight comps := by
  induction comps using List.reverseRecOn with
  | nil => exact le_rfl
  | append_singleton comps comp _ =>
      rw [List.dropLast_concat, weight_append]
      exact Nat.le_add_right _ _

theorem weight_readComponent_le {absolute : Bool} :
    weight (readComponent absolute comps comp) ≤ weight comps + weight [comp] := by
  unfold readComponent
  split
  · exact Nat.le_add_right _ _
  · split
    · rw [weight_append]
    · exact (weight_dropLast_le comps).trans (Nat.le_add_right _ _)

theorem weight_foldl_le {absolute : Bool} (parts : List (List Char)) :
    weight (parts.foldl (readComponent absolute) comps) ≤ weight comps + weight parts := by
  induction parts generalizing comps with
  | nil => exact Nat.le_add_right _ _
  | cons comp parts ih =>
      have hfirst : weight (comp :: parts) = weight [comp] + weight parts :=
        weight_append [comp] parts
      calc weight (parts.foldl (readComponent absolute) (readComponent absolute comps comp))
          ≤ weight (readComponent absolute comps comp) + weight parts := ih
        _ ≤ weight comps + weight [comp] + weight parts :=
            Nat.add_le_add_right weight_readComponent_le _
        _ = weight comps + weight (comp :: parts) := by rw [hfirst, Nat.add_assoc]

/-- What is read is not longer. -/
theorem weight_readComponents_le {absolute : Bool} (parts : List (List Char)) :
    weight (readComponents absolute parts) ≤ weight parts :=
  (weight_foldl_le parts).trans_eq (Nat.zero_add _)

/-! ## Paths from the root -/

theorem rooted_cons (comp : List Char) (parts : List (List Char)) :
    rooted (comp :: parts) = '/' :: (comp ++ rooted parts) := rfl

theorem rooted_append (parts parts' : List (List Char)) :
    rooted (parts ++ parts') = rooted parts ++ rooted parts' := List.flatMap_append

/-- Components from the root are joined by slashes, after a slash. -/
theorem rooted_eq_intercalate (h : parts ≠ []) :
    rooted parts = '/' :: ['/'].intercalate parts := by
  induction parts with
  | nil => exact absurd rfl h
  | cons comp parts ih =>
      cases parts with
      | nil => simp [rooted]
      | cons next parts =>
          rw [rooted_cons, ih (List.cons_ne_nil _ _), List.intercalate_cons_cons]
          simp

theorem splitOn_rooted (h : ∀ c ∈ parts, '/' ∉ c) : (rooted parts).splitOn '/' = [] :: parts := by
  cases parts with
  | nil => rfl
  | cons comp parts =>
      rw [rooted_eq_intercalate (List.cons_ne_nil _ _), List.splitOn_cons_eq_if_modifyHead,
        if_pos (beq_self_eq_true _), List.splitOn_intercalate '/' h (List.cons_ne_nil _ _)]

/-- A text is its components joined, with a slash in front from the root. -/
theorem rooted_splitOn (s : List Char) : rooted (s.splitOn '/') = '/' :: s := by
  rw [rooted_eq_intercalate (List.splitOn_ne_nil '/' s), List.intercalate_splitOn]

theorem not_mem_of_mem_splitOn (h : comp ∈ s.splitOn '/') : '/' ∉ comp := by
  induction s generalizing comp with
  | nil =>
      rw [List.splitOn_nil, List.mem_singleton] at h
      rw [h]
      exact List.not_mem_nil
  | cons c s ih =>
      rw [List.splitOn_cons_eq_if_modifyHead] at h
      split at h
      · rcases List.mem_cons.mp h with rfl | h
        · exact List.not_mem_nil
        · exact ih h
      · next hc =>
          cases hsplit : s.splitOn '/' with
          | nil => exact absurd hsplit (List.splitOn_ne_nil '/' s)
          | cons first others =>
              rw [hsplit] at h ih
              rcases List.mem_cons.mp h with rfl | h
              · rw [List.mem_cons, not_or]
                exact ⟨fun heq => hc (beq_iff_eq.mpr heq.symm), ih List.mem_cons_self⟩
              · exact ih (List.mem_cons_of_mem _ h)

theorem initialSlashes_of_head (h : s.head? ≠ some '/') : initialSlashes ('/' :: s) = 1 := by
  cases s with
  | nil => rfl
  | cons c s =>
      have hc : c ≠ '/' := fun heq => h (by rw [heq]; rfl)
      unfold initialSlashes
      split
      · next heq => exact absurd (List.cons.inj (List.cons.inj heq).2).1 hc
      · next heq => exact absurd (List.cons.inj (List.cons.inj heq).2).1 hc
      · rfl
      · next hnone => exact absurd rfl (hnone _)

/-- The path of what is read, from the root. -/
theorem normpath_rooted (h : s.head? ≠ some '/') : normpath ('/' :: s) =
    if readComponents true (s.splitOn '/') = [] then ['/']
    else rooted (readComponents true (s.splitOn '/')) := by
  have hsplit : ('/' :: s).splitOn '/' = [] :: s.splitOn '/' := by
    rw [List.splitOn_cons_eq_if_modifyHead, if_pos (beq_self_eq_true _)]
  have hread : readComponents true ([] :: s.splitOn '/') = readComponents true (s.splitOn '/') := by
    unfold readComponents
    rw [List.foldl_cons, readComponent_nil]
  unfold normpath
  rw [if_neg (List.cons_ne_nil _ _), initialSlashes_of_head h, hsplit]
  dsimp only
  have hone : ((1 : Nat) != 0) = true := rfl
  rw [hone, hread, List.replicate_one, List.singleton_append, if_neg (List.cons_ne_nil _ _)]
  split
  · next hnil =>
      rw [hnil]
      rfl
  · next hne => rw [rooted_eq_intercalate hne]

example : normpath "/shop/./old/../new/".toList = "/shop/new".toList := by decide

end SeoAgent.Verified.PosixPath
