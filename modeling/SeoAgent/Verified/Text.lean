/-!
# Words of a text

`words` is `str.split()` with no argument: the maximal runs of characters that
are not white space. `normal` joins the words with single spaces, and `strip`
removes white space at both ends. White space is what `str.isspace` accepts.
-/

namespace SeoAgent.Verified.Text

/-- White space, as `str.isspace` has it. -/
def isSpace (c : Char) : Bool :=
  let n := c.toNat
  (9 ≤ n && n ≤ 13) || (28 ≤ n && n ≤ 32) || n == 0x85 || n == 0xa0 ||
    n == 0x1680 || (0x2000 ≤ n && n ≤ 0x200a) || n == 0x2028 || n == 0x2029 ||
    n == 0x202f || n == 0x205f || n == 0x3000

/-- The words of a text whose current word has been read as far as `word`,
reversed. -/
def wordsFrom : List Char → List Char → List (List Char)
  | [], word => if word.isEmpty then [] else [word.reverse]
  | c :: cs, word =>
      if isSpace c then
        if word.isEmpty then wordsFrom cs [] else word.reverse :: wordsFrom cs []
      else wordsFrom cs (c :: word)

/-- `s.split()`. -/
def words (s : String) : List String :=
  (wordsFrom s.toList []).map String.ofList

/-- `" ".join(s.split())`. -/
def normal (s : String) : String := " ".intercalate (words s)

/-- `s.strip()`. -/
def strip (s : String) : String :=
  String.ofList
    (((s.toList.dropWhile isSpace).reverse.dropWhile isSpace).reverse)

/-- The first `n` characters, `s[:n]`. -/
def cut (n : Nat) (s : String) : String := String.ofList (s.toList.take n)

/-- The first of two texts that is not empty, `s or t`. -/
def orElse (s t : String) : String := if s = "" then t else s

/-- What follows a prefix, when the text starts with it. -/
def dropPrefix? (pre s : String) : Option String :=
  if pre.toList.isPrefixOf s.toList then
    some (String.ofList (s.toList.drop pre.toList.length))
  else none

/-! ## What is cut off -/

theorem toList_strip (s : String) : (strip s).toList =
    ((s.toList.dropWhile isSpace).reverse.dropWhile isSpace).reverse := String.toList_ofList

/-- A text is its white space, what `strip` leaves, and white space again. -/
theorem strip_split (s : String) : ∃ before after, s.toList = before ++ (strip s).toList ++ after ∧
    (∀ c ∈ before, isSpace c = true) ∧ ∀ c ∈ after, isSpace c = true := by
  have hspace : ∀ (t : List Char), ∀ c ∈ t.takeWhile isSpace, isSpace c = true := by
    intro t
    exact fun c hc => List.all_eq_true.mp (List.all_takeWhile (p := isSpace) (l := t)) c hc
  refine ⟨s.toList.takeWhile isSpace,
    ((s.toList.dropWhile isSpace).reverse.takeWhile isSpace).reverse, ?_, hspace _,
    fun c hc => hspace _ c (List.mem_reverse.mp hc)⟩
  rw [toList_strip, List.append_assoc, ← List.reverse_append, List.takeWhile_append_dropWhile,
    List.reverse_reverse, List.takeWhile_append_dropWhile]

/-- What is left starts with no white space. -/
theorem head?_dropWhile_isSpace (t : List Char) :
    ∀ c ∈ (t.dropWhile isSpace).head?, isSpace c = false := by
  induction t with
  | nil => exact fun _ h => nomatch h
  | cons c t ih =>
      rw [List.dropWhile_cons]
      split
      · exact ih
      · next hc =>
          intro d hd
          rw [← Option.some.inj hd]
          exact Bool.eq_false_iff.mpr hc

theorem dropWhile_isSpace_of_head? {t : List Char} (h : ∀ c ∈ t.head?, isSpace c = false) :
    t.dropWhile isSpace = t := by
  cases t with
  | nil => rfl
  | cons c t => rw [List.dropWhile_cons, h c rfl, if_neg Bool.false_ne_true]

/-- Stripping again changes nothing. -/
theorem strip_strip (s : String) : strip (strip s) = strip s := by
  let front := s.toList.dropWhile isSpace
  let back := front.reverse.dropWhile isSpace
  have hfront : front = back.reverse ++ (front.reverse.takeWhile isSpace).reverse := by
    rw [← List.reverse_append, List.takeWhile_append_dropWhile, List.reverse_reverse]
  have hhead : back.reverse.dropWhile isSpace = back.reverse :=
    dropWhile_isSpace_of_head? fun c hc => by
      refine head?_dropWhile_isSpace s.toList c ?_
      show c ∈ front.head?
      rw [hfront, List.head?_append, hc]
      rfl
  have hback : back.dropWhile isSpace = back :=
    dropWhile_isSpace_of_head? (head?_dropWhile_isSpace front.reverse)
  have hlist : (strip s).toList = back.reverse := toList_strip s
  rw [strip, hlist, hhead, List.reverse_reverse, hback, ← hlist, String.ofList_toList]

theorem length_strip_le (s : String) : (strip s).length ≤ s.length := by
  obtain ⟨before, after, hs, -, -⟩ := strip_split s
  rw [← String.length_toList, ← String.length_toList, hs, List.length_append, List.length_append]
  omega

theorem toList_of_dropPrefix? {pre s t : String} (h : dropPrefix? pre s = some t) :
    s.toList = pre.toList ++ t.toList := by
  unfold dropPrefix? at h
  split at h
  · next hpre =>
      obtain ⟨rest, hrest⟩ := List.isPrefixOf_iff_prefix.mp hpre
      obtain rfl := Option.some.inj h
      rw [String.toList_ofList, ← hrest, List.drop_left]
  · cases h

theorem dropPrefix?_of_toList {pre s : String} {rest : List Char}
    (h : s.toList = pre.toList ++ rest) : dropPrefix? pre s = some (String.ofList rest) := by
  unfold dropPrefix?
  rw [h, if_pos (List.isPrefixOf_iff_prefix.mpr ⟨rest, rfl⟩), List.drop_left]

example : normal " a\u00a0 b\n" = "a b" := by decide

end SeoAgent.Verified.Text
