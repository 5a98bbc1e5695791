/-!
# Blank text

The characters that count as blank are those with the Unicode property `White_Space`. Trimming
removes them at the ends of a text; the more general `dropEndWhile` removes any class of
characters at the end.

## Main definitions

* `isBlank c`: the character is white space
* `dropEndWhile p l`: the list without its longest suffix of elements satisfying `p`
* `trim s`: the text without blank characters at its two ends
* `trimEndChar c s`: the text without the character `c` at its end

## Main results

* `dropEndWhile_append_dropped`, `dropEndWhile_append_cons`: what is dropped and what is kept
-/

namespace ReleasePublisher.Text

/-- White space: the characters with the Unicode property `White_Space`. -/
def isBlank (c : Char) : Bool :=
  let n := c.toNat
  (9 ≤ n && n ≤ 13) || n == 0x20 || n == 0x85 || n == 0xA0 || n == 0x1680 ||
    (0x2000 ≤ n && n ≤ 0x200A) || n == 0x2028 || n == 0x2029 || n == 0x202F ||
    n == 0x205F || n == 0x3000

variable {α : Type}

/-- The list without its longest suffix of elements satisfying `p`. -/
def dropEndWhile (p : α → Bool) (l : List α) : List α :=
  (l.reverse.dropWhile p).reverse

/-- The characters without blanks at the two ends. -/
def trimChars (l : List Char) : List Char :=
  dropEndWhile isBlank (l.dropWhile isBlank)

/-- The text without blank characters at its two ends. -/
def trim (s : String) : String :=
  String.ofList (trimChars s.toList)

/-- The text without the character `c` at its end, however often it stands there. -/
def trimEndChar (c : Char) (s : String) : String :=
  String.ofList (dropEndWhile (· == c) s.toList)

/-- The text holds no character that is not blank. -/
def isBlankText (s : String) : Bool :=
  s.toList.all isBlank

/-- What is dropped at the end is of the class. -/
theorem dropEndWhile_append_dropped (p : α → Bool) (l : List α) :
    ∃ dropped, l = dropEndWhile p l ++ dropped ∧ ∀ x ∈ dropped, p x = true := by
  refine ⟨(l.reverse.takeWhile p).reverse, ?_, fun x hx => ?_⟩
  · rw [dropEndWhile, ← List.reverse_append, List.takeWhile_append_dropWhile, List.reverse_reverse]
  · exact List.all_eq_true.mp List.all_takeWhile x (List.mem_reverse.mp hx)

/-- Nothing is dropped before an element outside the class. -/
theorem dropEndWhile_append_cons {p : α → Bool} {a : α} (h : p a = false) (l m : List α) :
    dropEndWhile p (l ++ a :: m) = l ++ a :: dropEndWhile p m := by
  simp only [dropEndWhile, List.reverse_append, List.reverse_cons, List.append_assoc,
    List.dropWhile_append]
  split <;> simp_all

end ReleasePublisher.Text
