import ReleasePublisher.Release.Config

/-!
# Trimmed texts

What trimming keeps and what it drops determine each other: a text is trimmed to the one piece of it that
has only dropped characters around it and none of them at its ends.

## Main definitions

* `TrimsTo raw url`: `url` is left of `raw` without the blanks around it and then the slashes at its end

## Main results

* `dropWhile_eq_iff`, `dropEndWhile_eq_iff`: what is dropped at the start and at the end of a list
* `trimChars_eq_iff`: what is left without blanks at both ends
* `trimBase_eq_iff`: a base address is trimmed in this way, and in no other
-/

namespace ReleasePublisher

namespace Text

variable {α : Type} {p : α → Bool} {l kept : List α}

/-- **What is dropped at the start of a list.** -/
theorem dropWhile_eq_iff :
    l.dropWhile p = kept ↔
      ∃ dropped, l = dropped ++ kept ∧ (∀ x ∈ dropped, p x = true) ∧ ∀ x ∈ kept.head?, p x = false := by
  constructor
  · rintro rfl
    refine ⟨l.takeWhile p, List.takeWhile_append_dropWhile.symm, ?_, ?_⟩
    · exact List.all_eq_true.mp List.all_takeWhile
    · intro x hx
      have hhead := List.head?_dropWhile_not p l
      rw [hx] at hhead
      simpa using hhead
  · rintro ⟨dropped, rfl, hdropped, hkept⟩
    rw [List.dropWhile_append_of_pos hdropped]
    cases kept with
    | nil => rfl
    | cons a kept => exact List.dropWhile_cons_of_neg (by simp [hkept a rfl])

/-- **What is dropped at the end of a list.** -/
theorem dropEndWhile_eq_iff :
    dropEndWhile p l = kept ↔
      ∃ dropped, l = kept ++ dropped ∧ (∀ x ∈ dropped, p x = true) ∧
        ∀ x ∈ kept.getLast?, p x = false := by
  rw [dropEndWhile, List.reverse_eq_iff, dropWhile_eq_iff, List.head?_reverse]
  constructor
  · rintro ⟨dropped, hl, hdropped, hkept⟩
    refine ⟨dropped.reverse, ?_, fun x hx => hdropped x (List.mem_reverse.mp hx), hkept⟩
    rw [← List.reverse_inj, hl, List.reverse_append, List.reverse_reverse]
  · rintro ⟨dropped, rfl, hdropped, hkept⟩
    exact ⟨dropped.reverse, List.reverse_append, fun x hx => hdropped x (List.mem_reverse.mp hx), hkept⟩

/-- **What is left without blanks at both ends.** -/
theorem trimChars_eq_iff {l kept : List Char} :
    trimChars l = kept ↔
      ∃ before after, l = before ++ kept ++ after ∧
        (∀ c ∈ before, isBlank c = true) ∧ (∀ c ∈ after, isBlank c = true) ∧
        (∀ c ∈ kept.head?, isBlank c = false) ∧ ∀ c ∈ kept.getLast?, isBlank c = false := by
  constructor
  · intro h
    obtain ⟨after, hrest, hafter, hlast⟩ := dropEndWhile_eq_iff.mp h
    obtain ⟨before, hl, hbefore, hhead⟩ := dropWhile_eq_iff.mp hrest
    refine ⟨before, after, by rw [hl, List.append_assoc], hbefore, hafter, ?_, hlast⟩
    intro c hc
    apply hhead
    rw [List.head?_append, hc]
    rfl
  · rintro ⟨before, after, rfl, hbefore, hafter, hhead, hlast⟩
    by_cases hkept : kept = []
    · -- All is blank, so that all is dropped at the start.
      subst hkept
      have hall : (before ++ [] ++ after).dropWhile isBlank = [] := by
        refine dropWhile_eq_iff.mpr ⟨before ++ after, by simp, fun c hc => ?_, nofun⟩
        exact (List.mem_append.mp hc).elim (hbefore c) (hafter c)
      rw [trimChars, hall]
      rfl
    · have hstart : (before ++ kept ++ after).dropWhile isBlank = kept ++ after := by
        refine dropWhile_eq_iff.mpr ⟨before, List.append_assoc _ _ _, hbefore, ?_⟩
        obtain ⟨c, rest, rfl⟩ := List.exists_cons_of_ne_nil hkept
        exact hhead
      rw [trimChars, hstart]
      exact dropEndWhile_eq_iff.mpr ⟨after, rfl, hafter, hlast⟩

end Text

/-- **What is left of a base address**: blanks are taken off at both ends, and then slashes at the end. -/
def TrimsTo (raw url : String) : Prop :=
  ∃ before slashes after,
    raw.toList = before ++ (url.toList ++ slashes) ++ after ∧
      (∀ c ∈ before, Text.isBlank c = true) ∧ (∀ c ∈ slashes, c = '/') ∧
      (∀ c ∈ after, Text.isBlank c = true) ∧
      (∀ c ∈ (url.toList ++ slashes).head?, Text.isBlank c = false) ∧
      (∀ c ∈ (url.toList ++ slashes).getLast?, Text.isBlank c = false) ∧
      ∀ c ∈ url.toList.getLast?, c ≠ '/'

/-- **A base address is trimmed** in this way, and in no other. -/
theorem trimBase_eq_iff {raw url : String} : trimBase raw = url ↔ TrimsTo raw url := by
  have hlists : trimBase raw = url ↔
      Text.dropEndWhile (· == '/') (Text.trimChars raw.toList) = url.toList := by
    rw [trimBase, Text.trimEndChar, Text.trim, String.toList_ofList, ← String.toList_inj,
      String.toList_ofList]
  rw [hlists, Text.dropEndWhile_eq_iff]
  simp only [Text.trimChars_eq_iff, beq_iff_eq, beq_eq_false_iff_ne]
  constructor
  · rintro ⟨slashes, ⟨before, after, hraw, hbefore, hafter, hhead, hlast⟩, hslashes, hurl⟩
    exact ⟨before, slashes, after, hraw, hbefore, hslashes, hafter, hhead, hlast, hurl⟩
  · rintro ⟨before, slashes, after, hraw, hbefore, hslashes, hafter, hhead, hlast, hurl⟩
    exact ⟨slashes, ⟨before, after, hraw, hbefore, hafter, hhead, hlast⟩, hslashes, hurl⟩

end ReleasePublisher
