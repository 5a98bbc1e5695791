import ReleasePublisher.Proofs.Url.Encoding
import ReleasePublisher.Url.Form

/-!
# Pairs in a query

What is written into a query is read from it again: no name and no value has a separator in it, and
each byte of a text is read from the characters that it was written with.

## Main results

* `Form.decode_encode`: a name or a value is read as it was written
* `Form.isEncoded_encode`: it stands for itself in a query, and has no separator in it
* `Form.pairs_addPair`: the address with one more pair states one more pair
-/

namespace ReleasePublisher

open Utf8 Url

namespace Form

/-! ### Names and values -/

/-- The character that a plus sign stands for. -/
def unplus (c : Char) : Char :=
  if c == '+' then ' ' else c

theorem encodeByte_cases (b : UInt8) :
    (∃ c, encodeByte b = [c] ∧ unplus c ≠ '%' ∧ encodeChar (unplus c) = [b]) ∨
      (encodeByte b = percentByte b ∧ (percentByte b).map unplus = percentByte b) := by
  have hbyte : (encodeByte b = percentByte b ∧ (percentByte b).map unplus = percentByte b) ∨
      ((encodeByte b).length = 1 ∧ unplus ((encodeByte b).headD ' ') ≠ '%' ∧
        encodeChar (unplus ((encodeByte b).headD ' ')) = [b]) :=
    forall_byte (P := fun b => (encodeByte b = percentByte b ∧
      (percentByte b).map unplus = percentByte b) ∨ ((encodeByte b).length = 1 ∧
        unplus ((encodeByte b).headD ' ') ≠ '%' ∧
        encodeChar (unplus ((encodeByte b).headD ' ')) = [b])) (by decide +kernel) b
  rcases hbyte with h | ⟨hl, hne, hc⟩
  · exact .inr h
  · obtain ⟨c, hc'⟩ := List.length_eq_one_iff.mp hl
    rw [hc'] at hne hc
    exact .inl ⟨c, hc', hne, hc⟩

/-- A byte is read from the characters that it was written with. -/
theorem percentDecode_encodeByte (b : UInt8) (rest : List Char) :
    percentDecode ((encodeByte b).map unplus ++ rest) = b :: percentDecode rest := by
  rcases encodeByte_cases b with ⟨c, hb, hne, hc⟩ | ⟨hb, hmap⟩
  · rw [hb, List.map_singleton, List.singleton_append, percentDecode_cons_of_ne hne, hc]
    rfl
  · rw [hb, hmap, percentDecode_percentByte]

/-- **A name or a value is read as it was written.** -/
theorem decode_encode (s : String) : decode (encode s) = s := by
  have hbytes : ∀ bs : Bytes, percentDecode ((bs.flatMap encodeByte).map unplus) = bs := by
    intro bs
    induction bs with
    | nil => rfl
    | cons b bs ih => rw [List.flatMap_cons, List.map_append, percentDecode_encodeByte, ih]
  show lossy (percentDecode ((encode s).map unplus)) = s
  rw [encode, hbytes, lossy_encode]

/-- **What is written of a name or a value** stands for itself in a query, and has no separator in
it. -/
theorem isEncoded_encode (s : String) :
    IsEncoded (fun c => specialQuerySet c || c == '&' || c == '=') (encode s) := by
  have hbyte (b : UInt8) : (encodeByte b).all (fun c => decide (c.toNat < 0x80) &&
      !(specialQuerySet c || c == '&' || c == '=')) = true :=
    forall_byte (P := fun b => (encodeByte b).all (fun c => decide (c.toNat < 0x80) &&
      !(specialQuerySet c || c == '&' || c == '=')) = true) (by decide +kernel) b
  intro c hc
  obtain ⟨b, -, hb⟩ := List.mem_flatMap.mp hc
  have hpart := List.all_eq_true.mp (hbyte b) c hb
  simpa only [Bool.and_eq_true, decide_eq_true_eq, Bool.not_eq_true'] using hpart

theorem not_mem_encode (s : String) : '&' ∉ encode s ∧ '=' ∉ encode s :=
  ⟨(isEncoded_encode s).not_mem (by decide), (isEncoded_encode s).not_mem (by decide)⟩

/-! ### Pairs -/

theorem pieces_ne_nil (cs : List Char) : pieces cs ≠ [] := by
  cases cs with
  | nil => simp [pieces]
  | cons c cs =>
    rw [pieces]
    split
    · simp
    · split <;> simp

theorem pieces_of_not_mem {cs : List Char} (h : '&' ∉ cs) : pieces cs = [cs] := by
  induction cs with
  | nil => rfl
  | cons c cs ih =>
    obtain ⟨hc, hcs⟩ := List.ne_and_not_mem_of_not_mem_cons h
    rw [pieces, if_neg (by simpa using hc.symm), ih hcs]

/-- The pieces behind an ampersand are further pieces. -/
theorem pieces_append (cs ds : List Char) : pieces (cs ++ '&' :: ds) = pieces cs ++ pieces ds := by
  induction cs with
  | nil => rfl
  | cons c cs ih =>
    rw [List.cons_append, pieces, pieces, ih]
    split
    · rfl
    · obtain ⟨p, ps, hp⟩ := List.exists_cons_of_ne_nil (pieces_ne_nil cs)
      rw [hp]
      rfl

/-- The pair that one piece states. -/
theorem pairs_pair (name value : String) :
    pairs (encode name ++ '=' :: encode value) = [(name, value)] := by
  have hname : ∀ c ∈ encode name, (c != '=') = true := by
    intro c hc
    have hne : c ≠ '=' := by
      rintro rfl
      exact (not_mem_encode name).2 hc
    simpa using hne
  have hamp : '&' ∉ encode name ++ '=' :: encode value := by
    simp [(not_mem_encode name).1, (not_mem_encode value).1]
  have hempty : (encode name ++ '=' :: encode value).isEmpty = false := by
    cases encode name <;> rfl
  rw [pairs, pieces_of_not_mem hamp, List.filter_cons_of_pos (by simp [hempty])]
  simp [List.takeWhile_append_of_pos hname, List.dropWhile_append_of_pos hname, decode_encode]

/-- **One more pair**: what a query states is kept, and the pair stands behind it. -/
theorem pairs_addPair (u : Url) (name value : String) :
    ∃ query, (u.addPair name value).query = some query ∧
      pairs query = pairs (u.query.getD []) ++ [(name, value)] := by
  refine ⟨_, rfl, ?_⟩
  cases hq : u.query.getD [] with
  | nil => exact pairs_pair name value
  | cons c cs =>
    have happ : pairs (c :: cs ++ '&' :: (encode name ++ '=' :: encode value)) =
        pairs (c :: cs) ++ pairs (encode name ++ '=' :: encode value) := by
      simp only [pairs, pieces_append, List.filter_append, List.map_append]
    rw [← pairs_pair name value, ← happ]
    simp

end Form

end ReleasePublisher
