import ReleasePublisher.Proofs.Json.Rendering

/-!
# Values that were written

What is written for a value, on one line or on indented lines, renders it. Therefore the value is read again
from it, as long as its integers fit 64 bits and not too many brackets are open at once.

## Main results

* `Json.Fits.renders_compact`, `Json.Fits.renders_pretty`: what is written for a value renders it
* `Json.parse_pretty`: a value is read again from its indented lines
-/

namespace ReleasePublisher.Json

open Utf8

variable {depth : Nat} {v : Json}

/-! ### Values on one line -/

theorem IsGap.nil : IsGap [] := nofun

/-- A name and a colon are a label. -/
theorem isLabel_textToken (name : String) : IsLabel name (textToken name ++ [':']) :=
  ⟨[], textToken name, [], .nil, .nil, isSpelling_textToken name, rfl⟩

theorem compactItems_eq (vs : List Json) : compactItems vs = vs.map compactChars := by
  induction vs with
  | nil => rfl
  | cons v vs ih => rw [compactItems, ih, List.map_cons]

theorem compactMembers_eq (ms : List (String × Json)) :
    compactMembers ms = ms.map fun m => textToken m.1 ++ ':' :: compactChars m.2 := by
  induction ms with
  | nil => rfl
  | cons m ms ih => rw [compactMembers, ih, List.map_cons]

/-- **A value on one line** is rendered. -/
theorem Fits.renders_compact (h : Fits depth v) : Renders v (compactChars v) := by
  induction h with
  | null => exact .null
  | bool b =>
    cases b with
    | true => exact .true
    | false => exact .false
  | @natural _ n _ => exact .natural n
  | @negative _ n _ _ => exact .negative n
  | text s => exact .text (isSpelling_textToken s)
  | @array depth vs _ ih =>
    have hitems : ∀ i ∈ vs.map fun v => (v, compactChars v), Renders i.1 i.2 :=
      List.forall_mem_map.mpr ih
    rw [compactChars, compactItems_eq]
    simpa [Function.comp_def] using Renders.array .nil hitems
  | @object depth ms _ ih =>
    let item (m : String × Json) : LabelledMember := ⟨m.1, m.2, textToken m.1 ++ [':'], compactChars m.2⟩
    have hlabel : ∀ i ∈ ms.map item, IsLabel i.name i.label :=
      List.forall_mem_map.mpr fun m _ => isLabel_textToken m.1
    have hitems : ∀ i ∈ ms.map item, Renders i.value i.text := List.forall_mem_map.mpr ih
    rw [compactChars, compactMembers_eq]
    simpa [Function.comp_def, item] using Renders.object .nil hlabel hitems

/-! ### Indented lines -/

theorem prettyItems_eq (level : Nat) (vs : List Json) :
    prettyItems level vs = vs.map (prettyChars level) := by
  induction vs with
  | nil => rfl
  | cons v vs ih => rw [prettyItems, ih, List.map_cons]

theorem prettyMembers_eq (level : Nat) (ms : List (String × Json)) :
    prettyMembers level ms =
      ms.map fun m => textToken m.1 ++ ':' :: ' ' :: prettyChars level m.2 := by
  induction ms with
  | nil => rfl
  | cons m ms ih => rw [prettyMembers, ih, List.map_cons]

theorem isGap_lineBreak (level : Nat) : IsGap (lineBreak level) := by
  intro c hc
  rcases List.mem_cons.mp hc with rfl | hc
  · decide
  · obtain rfl := List.eq_of_mem_replicate hc
    decide

/-- What stands behind each comma can be taken as the start of each piece. -/
theorem append_joined (gap p : List Char) (ps : List (List Char)) :
    gap ++ joined (',' :: gap) (p :: ps) = joined [','] ((p :: ps).map (gap ++ ·)) := by
  induction ps generalizing p with
  | nil => simp [joined]
  | cons q ps ih =>
    have hq := ih q
    simp only [joined, List.map_cons, List.intercalate_cons_cons] at hq ⊢
    simp [← hq]

/-- **A block** is its pieces with commas between them, where a line break stands before each piece and
before the last bracket, or two brackets. -/
theorem exists_block_eq (level : Nat) (first last : Char) (pieces : List (List Char)) :
    ∃ gap, IsGap gap ∧ block level first last pieces =
      first :: (joined [','] (pieces.map (lineBreak (level + 1) ++ ·)) ++ (gap ++ [last])) := by
  cases pieces with
  | nil => exact ⟨[], .nil, rfl⟩
  | cons p ps =>
    refine ⟨_, isGap_lineBreak level, ?_⟩
    rw [← append_joined]
    simp [block]

/-- **The indented lines of a value** render it. -/
theorem Fits.renders_pretty (h : Fits depth v) (level : Nat) : Renders v (prettyChars level v) := by
  induction h generalizing level with
  | null => exact .null
  | bool b => exact @Fits.renders_compact 0 _ (.bool b)
  | @natural _ n _ => exact .natural n
  | @negative _ n _ _ => exact .negative n
  | text s => exact .text (isSpelling_textToken s)
  | @array depth vs _ ih =>
    obtain ⟨gap, hgap, hblock⟩ := exists_block_eq level '[' ']' (prettyItems (level + 1) vs)
    let item (v : Json) : Json × List Char := (v, lineBreak (level + 1) ++ (prettyChars (level + 1) v ++ []))
    have hitems : ∀ i ∈ vs.map item, Renders i.1 i.2 := List.forall_mem_map.mpr fun v hv =>
      .padded (isGap_lineBreak _) .nil (ih v hv (level + 1))
    rw [prettyChars, hblock, prettyItems_eq]
    simpa [Function.comp_def, item] using Renders.array hgap hitems
  | @object depth ms _ ih =>
    obtain ⟨gap, hgap, hblock⟩ := exists_block_eq level '{' '}' (prettyMembers (level + 1) ms)
    let item (m : String × Json) : LabelledMember :=
      ⟨m.1, m.2, lineBreak (level + 1) ++ (textToken m.1 ++ ([] ++ [':'])),
        [' '] ++ (prettyChars (level + 1) m.2 ++ [])⟩
    have hlabel : ∀ i ∈ ms.map item, IsLabel i.name i.label := List.forall_mem_map.mpr fun m _ =>
      ⟨_, _, [], isGap_lineBreak _, .nil, isSpelling_textToken m.1, rfl⟩
    have hitems : ∀ i ∈ ms.map item, Renders i.value i.text := List.forall_mem_map.mpr fun m hm =>
      .padded (List.forall_mem_singleton.mpr (by decide)) .nil (ih m hm (level + 1))
    rw [prettyChars, hblock, prettyMembers_eq]
    simpa [Function.comp_def, item] using Renders.object hgap hlabel hitems

/-- **A value is read again** from its indented lines, with blanks behind them. -/
theorem parse_pretty {gap : Bytes} (h : Fits maxDepth v) (hgap : AreBlank gap) :
    parse (encode v.pretty ++ gap) = .ok v := by
  have htext : encode v.pretty = encodeChars (prettyChars 0 v) := by
    rw [encode, pretty, String.toList_ofList]
  have hpadded := ((h.renders_pretty 0).padded_states h).append .nil hgap
  rw [htext]
  exact hpadded.parse_eq

end ReleasePublisher.Json
