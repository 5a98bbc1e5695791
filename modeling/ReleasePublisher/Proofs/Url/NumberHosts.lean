import ReleasePublisher.Proofs.Url.Domain
import ReleasePublisher.Url.Host

/-!
# Addresses of the internet protocol, read again

Four decimal numbers, and groups of hexadecimal digits with a run of zeros left out, are read as what
they were written from.

## Main results

* `Url.ipv4_lt`, `Url.ipv4_ipv4Text`: four numbers
* `Url.ipv6_bounds`, `Url.bracketHost_ipv6Text`: eight groups
-/

namespace ReleasePublisher.Url

/-- Digits of a base state a number below a power of it. -/
theorem foldl_digits_lt {α : Type} {base : Nat} {f : α → Nat} (l : List α) (acc : Nat)
    (h : ∀ a ∈ l, f a < base) :
    l.foldl (fun n a => n * base + f a) acc < (acc + 1) * Nat.pow base l.length := by
  induction l generalizing acc with
  | nil => simp
  | cons a l ih =>
    obtain ⟨ha, hl⟩ := List.forall_mem_cons.mp h
    have hstep : acc * base + f a + 1 ≤ (acc + 1) * base := by
      rw [Nat.succ_mul]
      omega
    calc (a :: l).foldl (fun n a => n * base + f a) acc
        < (acc * base + f a + 1) * base ^ l.length := ih _ hl
      _ ≤ (acc + 1) * base * base ^ l.length := Nat.mul_le_mul_right _ hstep
      _ = (acc + 1) * base ^ (l.length + 1) := by rw [Nat.pow_succ, Nat.mul_assoc, Nat.mul_comm base]

/-! ### Four numbers -/

theorem value?_lt {c : Char} {n : Nat} (h : Hex.value? c = some n) : n < 16 := by
  have hle : ∀ {a b : Char}, a ≤ b → a.toNat ≤ b.toNat := fun h => h
  unfold Hex.value? at h
  simp only [Bool.and_eq_true, decide_eq_true_eq] at h
  split at h
  · rename_i hc
    have h₁ := hle hc.1
    have h₂ := hle hc.2
    cases h
    show c.toNat - 48 < 16
    change 48 ≤ _ at h₁
    change _ ≤ 57 at h₂
    omega
  split at h
  · rename_i hc
    have h₂ := hle hc.2
    cases h
    show c.toNat - 87 < 16
    change _ ≤ 102 at h₂
    omega
  split at h
  · rename_i hc
    have h₂ := hle hc.2
    cases h
    show c.toNat - 55 < 16
    change _ ≤ 70 at h₂
    omega
  · cases h

/-- The bytes of an address. -/
def bytesOf (n : Nat) : List Nat :=
  [n / 16777216, n / 65536 % 256, n / 256 % 256, n % 256]

theorem bytesOf_lt {n : Nat} (h : n < 4294967296) : ∀ b ∈ bytesOf n, b < 256 := by
  simp only [bytesOf, List.forall_mem_cons, List.not_mem_nil, false_implies, implies_true, and_true]
  omega

theorem partNumber?_toDigits : ∀ n < 256, partNumber? (Nat.toDigits 10 n) = some n := by
  decide +kernel

theorem isDomainChar_of_isDigit {c : Char} (h : c.isDigit = true) : IsDomainChar c ∧ c ≠ '.' := by
  have hall : ∀ k < 10, IsDomainChar (Char.ofNat (48 + k)) ∧ Char.ofNat (48 + k) ≠ '.' := by
    decide
  have hc : 48 ≤ c.toNat ∧ c.toNat ≤ 57 := Char.isDigit_iff_toNat.mp h
  have hk := hall (c.toNat - 48) (by omega)
  rwa [show 48 + (c.toNat - 48) = c.toNat by omega, Char.ofNat_toNat] at hk

theorem isDigit_of_mem_toDigits {n : Nat} {c : Char} (h : c ∈ Nat.toDigits 10 n) :
    c.isDigit = true :=
  Nat.isDigit_of_mem_toDigits (by decide) (by decide) h

/-- **What the last part may stand for** keeps the number within four bytes. -/
theorem ipv4_lt {cs : List Char} {n : Nat} (h : ipv4 cs = .ok n) : n < 4294967296 := by
  unfold ipv4 at h
  dsimp only at h
  split at h
  · cases h
  rename_i hlen
  split at h
  · cases h
  rename_i numbers hnumbers
  split at h
  · cases h
  rename_i hbounds
  simp only [Bool.or_eq_true, not_or, Bool.not_eq_true, List.any_eq_false, decide_eq_true_eq,
    Nat.not_lt, Nat.not_le] at hbounds
  obtain ⟨hfront, hlast⟩ := hbounds
  have hcount : numbers.length ≤ 4 := by
    have hl := congrArg List.length (mapM_eq_some_iff.mp hnumbers)
    simp only [List.length_map] at hl
    omega
  have hhigh : numbers.dropLast.foldl (fun n k => n * 256 + k) 0 < (0 + 1) * 256 ^ numbers.dropLast.length :=
    foldl_digits_lt (f := id) _ 0 fun k hk => Nat.lt_succ_of_le (hfront k hk)
  rw [Nat.zero_add, Nat.one_mul] at hhigh
  have hl : numbers.dropLast.length ≤ 3 := by
    rw [List.length_dropLast]
    omega
  cases h
  -- The last part takes the bytes that the parts before it have left.
  change numbers.getLastD 0 < 256 ^ (4 - numbers.dropLast.length) at hlast
  show _ * 256 ^ (4 - numbers.dropLast.length) + _ < _
  generalize numbers.dropLast.length = k at hhigh hlast hl
  generalize numbers.dropLast.foldl (fun n k => n * 256 + k) 0 = high at hhigh
  have hsplit : 256 ^ k * 256 ^ (4 - k) = 4294967296 := by
    rw [← Nat.pow_add, show k + (4 - k) = 4 by omega]
  calc high * 256 ^ (4 - k) + numbers.getLastD 0
      < high * 256 ^ (4 - k) + 256 ^ (4 - k) := Nat.add_lt_add_left hlast _
    _ = (high + 1) * 256 ^ (4 - k) := by rw [Nat.succ_mul]
    _ ≤ 256 ^ k * 256 ^ (4 - k) := Nat.mul_le_mul_right _ hhigh
    _ = 4294967296 := hsplit

/-- **Four numbers are read as they were written.** -/
theorem ipv4_ipv4Text {n : Nat} (h : n < 4294967296) : ipv4 (ipv4Text n) = .ok n := by
  have hparts : splitDots (ipv4Text n) = (bytesOf n).map (Nat.toDigits 10) := by
    refine splitDots_intercalate (by simp) fun label hlabel => ?_
    obtain ⟨b, hb, rfl⟩ := List.mem_map.mp hlabel
    exact fun hdot => (isDomainChar_of_isDigit (isDigit_of_mem_toDigits hdot)).2 rfl
  have hnumber : numberParts (ipv4Text n) = (bytesOf n).map (Nat.toDigits 10) := by
    unfold numberParts
    rw [hparts]
    refine if_neg ?_
    simp [bytesOf, Nat.toDigits_ne_nil]
  have hread : ((bytesOf n).map (Nat.toDigits 10)).mapM partNumber? = some (bytesOf n) := by
    rw [mapM_eq_some_iff, List.map_map]
    exact List.map_congr_left fun b hb => partNumber?_toDigits b (bytesOf_lt h b hb)
  have hfront : ((bytesOf n).dropLast.any (255 < ·) ||
      decide (Nat.pow 256 (4 - (bytesOf n).dropLast.length) ≤ (bytesOf n).getLastD 0)) = false := by
    simp only [bytesOf, List.dropLast, List.any_cons, List.any_nil, List.length_cons, List.length_nil,
      List.getLastD_cons, List.getLastD_nil, Bool.or_eq_false_iff, decide_eq_false_iff_not]
    refine ⟨⟨?_, ?_, ?_, trivial⟩, Nat.not_le.mpr (Nat.mod_lt _ (by decide))⟩
    all_goals omega
  unfold ipv4
  rw [hnumber]
  dsimp only
  rw [hread, if_neg (by simp [bytesOf])]
  dsimp only
  rw [hfront, if_neg (by decide)]
  refine congrArg Except.ok ?_
  show (((0 * 256 + n / 16777216) * 256 + n / 65536 % 256) * 256 + n / 256 % 256) * 256 + n % 256 = n
  omega

/-! ### Hexadecimal numbers -/

theorem numberIn_concat (base : Nat) (ds : List Char) (d : Char) :
    numberIn base (ds ++ [d]) = numberIn base ds * base + (Hex.value? d).getD 0 := by
  rw [numberIn, numberIn, List.foldl_append]
  rfl

theorem value?_lowerDigit : ∀ n < 16, Hex.value? (Hex.lowerDigit n) = some n := by decide

theorem ofNat_of_lt {n : Nat} (h : n < 16) : Hex.ofNat n = [Hex.lowerDigit n] := by
  rw [Hex.ofNat, dif_pos h]

theorem ofNat_of_not_lt {n : Nat} (h : ¬ n < 16) :
    Hex.ofNat n = Hex.ofNat (n / 16) ++ [Hex.lowerDigit (n % 16)] := by
  rw [Hex.ofNat, dif_neg h]

/-- The digits of a number are digits of numbers below sixteen, and not none. -/
theorem mem_ofNat {n : Nat} {c : Char} (h : c ∈ Hex.ofNat n) : ∃ k < 16, c = Hex.lowerDigit k := by
  induction n using Hex.ofNat.induct with
  | case1 n hn =>
    rw [ofNat_of_lt hn] at h
    exact ⟨n, hn, List.mem_singleton.mp h⟩
  | case2 n hn ih =>
    rw [ofNat_of_not_lt hn] at h
    rcases List.mem_append.mp h with h | h
    · exact ih h
    · exact ⟨n % 16, Nat.mod_lt _ (by decide), List.mem_singleton.mp h⟩

theorem ofNat_ne_nil (n : Nat) : Hex.ofNat n ≠ [] := by
  by_cases h : n < 16
  · simp [ofNat_of_lt h]
  · simp [ofNat_of_not_lt h]

/-- **A number is read from its digits.** -/
theorem numberIn_ofNat (n : Nat) : numberIn 16 (Hex.ofNat n) = n := by
  induction n using Hex.ofNat.induct with
  | case1 n hn =>
    rw [ofNat_of_lt hn]
    simp [numberIn, value?_lowerDigit n hn]
  | case2 n hn ih =>
    rw [ofNat_of_not_lt hn, numberIn_concat, ih, value?_lowerDigit _ (Nat.mod_lt _ (by decide))]
    exact Nat.div_add_mod' n 16

theorem length_ofNat_le {n k : Nat} (h : n < Nat.pow 16 (k + 1)) : (Hex.ofNat n).length ≤ k + 1 := by
  induction k generalizing n with
  | zero => simp [ofNat_of_lt (show n < 16 by simpa using h)]
  | succ k ih =>
    by_cases hn : n < 16
    · simp [ofNat_of_lt hn]
    · rw [ofNat_of_not_lt hn]
      have hdiv : n / 16 < Nat.pow 16 (k + 1) := (Nat.div_lt_iff_lt_mul (by decide)).mpr h
      simpa using ih hdiv

theorem numberIn_lt (ds : List Char) : numberIn 16 ds < Nat.pow 16 ds.length := by
  have hvalue : ∀ d : Char, (Hex.value? d).getD 0 < 16 := by
    intro d
    cases h : Hex.value? d with
    | none => decide
    | some k => exact value?_lt h
  have hlt := foldl_digits_lt ds 0 fun d _ => hvalue d
  rwa [Nat.zero_add, Nat.one_mul] at hlt

/-! ### Groups -/

/-- The groups of an address are numbers of two bytes. -/
def AreGroups (gs : List Nat) : Prop :=
  ∀ g ∈ gs, g < 65536

theorem AreGroups.append {gs hs : List Nat} (h : AreGroups gs) (h' : AreGroups hs) :
    AreGroups (gs ++ hs) := by
  intro g hg
  rcases List.mem_append.mp hg with hg | hg
  · exact h g hg
  · exact h' g hg

/-- Groups with single colons between them. -/
def shownGroups (gs : List Nat) : List Char :=
  List.intercalate [':'] (gs.map Hex.ofNat)

theorem shownGroups_cons (g g' : Nat) (gs : List Nat) :
    shownGroups (g :: g' :: gs) = Hex.ofNat g ++ ':' :: shownGroups (g' :: gs) := by
  simp [shownGroups, List.intercalate]

theorem shownGroups_singleton (g : Nat) : shownGroups [g] = Hex.ofNat g := by
  simp [shownGroups, List.intercalate]

theorem dottedGroups?_lt {cs : List Char} {gs : List Nat} (h : dottedGroups? cs = some gs) :
    AreGroups gs := by
  unfold dottedGroups? at h
  extract_lets byte? at h
  have hbyte : ∀ ds n, byte? ds = some n → n < 256 := by
    intro ds n hn
    simp only [byte?] at hn
    split at hn
    · cases hn
    · rename_i hc
      cases hn
      simp only [Bool.or_eq_true, not_or, decide_eq_true_eq, Nat.not_lt] at hc
      omega
  split at h
  · rename_i a b c d hm
    cases h
    have hmem : ∀ n ∈ [a, b, c, d], n < 256 := by
      intro n hn
      obtain ⟨ds, -, hds⟩ := exists_of_mem_mapM hm hn
      exact hbyte ds n hds
    simp only [List.forall_mem_cons] at hmem
    intro g hg
    rcases List.mem_cons.mp hg with rfl | hg
    · omega
    · obtain rfl := List.mem_singleton.mp hg
      omega
  · cases h

/-- **What is read as groups** are numbers of two bytes. -/
theorem readGroups_areGroups {fuel : Nat} {g r : Groups} {cs : List Char}
    (h : readGroups fuel g cs = some r) (hg : AreGroups g.groups) : AreGroups r.groups := by
  induction fuel generalizing g cs with
  | zero => cases h
  | succ fuel ih =>
    -- At most four digits are taken for a group.
    have hread : AreGroups (g.groups ++ [numberIn 16
        ((cs.take 4).takeWhile fun c => (Hex.value? c).isSome)]) := by
      refine hg.append fun n hn => ?_
      obtain rfl := List.mem_singleton.mp hn
      have hlen : ((cs.take 4).takeWhile fun c => (Hex.value? c).isSome).length ≤ 4 :=
        Nat.le_trans (List.takeWhile_sublist _).length_le (List.length_take_le 4 cs)
      exact Nat.lt_of_lt_of_le (numberIn_lt _) (Nat.pow_le_pow_right (by decide) hlen)
    unfold readGroups at h
    split at h
    · cases h
      exact hg
    · split at h
      · cases h
      · exact ih h hg
    · dsimp only at h
      split at h
      · split at h
        · cases h
        · cases h
          exact hread
      · split at h
        · cases h
        · exact ih h hread
      · obtain ⟨gs, hgs, rfl⟩ := Option.map_eq_some_iff.mp h
        exact hg.append (dottedGroups?_lt hgs)
      · cases h

/-- **The groups that are read** are eight numbers of two bytes. -/
theorem ipv6_bounds {cs : List Char} {gs : List Nat} (h : ipv6 cs = .ok gs) :
    gs.length = 8 ∧ AreGroups gs := by
  unfold ipv6 at h
  extract_lets start gap at h
  split at h
  · cases h
  · rename_i groups hr
    obtain ⟨cs', -, hr⟩ := Option.bind_eq_some_iff.mp hr
    split at h
    · rename_i hlen
      cases h
      exact ⟨eq_of_beq hlen, readGroups_areGroups hr (by simp [AreGroups])⟩
    · cases h
  · rename_i groups k hr
    obtain ⟨cs', -, hr⟩ := Option.bind_eq_some_iff.mp hr
    have hgroups : AreGroups groups := readGroups_areGroups hr (by simp [AreGroups])
    split at h
    · cases h
    · rename_i hlen
      cases h
      constructor
      · simp only [List.length_append, List.length_take, List.length_replicate, List.length_drop]
        omega
      · intro g hg
        simp only [List.mem_append, List.mem_replicate] at hg
        rcases hg with (hg | ⟨-, rfl⟩) | hg
        · exact hgroups g (List.mem_of_mem_take hg)
        · decide
        · exact hgroups g (List.mem_of_mem_drop hg)

/-! ### Groups that were written -/

theorem value?_of_mem_ofNat {n : Nat} {c : Char} (h : c ∈ Hex.ofNat n) :
    (Hex.value? c).isSome = true := by
  obtain ⟨k, hk, rfl⟩ := mem_ofNat h
  rw [value?_lowerDigit k hk]
  rfl

theorem head?_ofNat_append (n : Nat) (rest : List Char) :
    ∃ c cs, Hex.ofNat n ++ rest = c :: cs ∧ c ≠ ':' := by
  obtain ⟨c, cs, hc⟩ := List.exists_cons_of_ne_nil (ofNat_ne_nil n)
  refine ⟨c, cs ++ rest, by rw [hc]; rfl, ?_⟩
  rintro rfl
  have hdigit : ':' ∈ Hex.ofNat n := by rw [hc]; exact List.mem_cons_self
  exact absurd (value?_of_mem_ofNat hdigit) (by decide)

/-- The digits at the start are those of the group. -/
theorem takeWhile_ofNat {n : Nat} (hn : n < 65536) (rest : List Char)
    (h : ∀ c ∈ rest.head?, Hex.value? c = none) :
    ((Hex.ofNat n ++ rest).take 4).takeWhile (fun c => (Hex.value? c).isSome) = Hex.ofNat n := by
  have hlen : (Hex.ofNat n).length ≤ 4 := length_ofNat_le (k := 3) hn
  rw [List.take_append, List.take_of_length_le hlen,
    List.takeWhile_append_of_pos fun c hc => value?_of_mem_ofNat hc]
  cases rest with
  | nil => simp
  | cons c rest =>
    have hc : Hex.value? c = none := h c rfl
    cases 4 - (Hex.ofNat n).length with
    | zero => simp
    | succ k => simp [hc]

theorem readGroups_nil (fuel : Nat) (g : Groups) : readGroups (fuel + 1) g [] = some g := rfl

/-- The second colon of two leaves a gap. -/
theorem readGroups_colon (fuel : Nat) {g : Groups} (hg : g.gap = none) (rest : List Char) :
    readGroups (fuel + 1) g (':' :: rest) =
      readGroups fuel { g with gap := some g.groups.length } rest := by
  show (if g.gap.isSome then none else _) = _
  rw [hg]
  rfl

section

variable {g : Groups} {n : Nat} (hn : n < 65536)

include hn

theorem readGroups_last (fuel : Nat) :
    readGroups (fuel + 1) g (Hex.ofNat n) = some { g with groups := g.groups ++ [n] } := by
  obtain ⟨c, cs, hc, hne⟩ := head?_ofNat_append n []
  have hds := takeWhile_ofNat hn [] (by simp)
  rw [List.append_nil] at hc hds
  unfold readGroups
  split
  · rename_i h
    exact absurd h (ofNat_ne_nil n)
  · rename_i rest h
    rw [hc] at h
    exact absurd (List.cons.inj h).1 hne
  · dsimp only
    rw [hds, List.drop_length, numberIn_ofNat]
    simp [ofNat_ne_nil]

theorem readGroups_next (fuel : Nat) {more : List Char} (hmore : more ≠ []) :
    readGroups (fuel + 1) g (Hex.ofNat n ++ ':' :: more) =
      readGroups fuel { g with groups := g.groups ++ [n] } more := by
  obtain ⟨c, cs, hc, hne⟩ := head?_ofNat_append n (':' :: more)
  have hds := takeWhile_ofNat hn (':' :: more) (by rintro _ ⟨⟩; decide)
  rw [readGroups]
  · rw [hds, List.drop_left, numberIn_ofNat]
    simp [ofNat_ne_nil, hmore]
  · simp
  · intro rest h
    rw [hc] at h
    exact absurd (List.cons.inj h).1 hne

end

theorem shownGroups_ne_nil {gs : List Nat} (h : gs ≠ []) : shownGroups gs ≠ [] := by
  rcases gs with _ | ⟨g, _ | ⟨g', gs⟩⟩
  · exact absurd rfl h
  · rw [shownGroups_singleton]
    exact ofNat_ne_nil g
  · rw [shownGroups_cons]
    simp [ofNat_ne_nil]

theorem head?_shownGroups {gs : List Nat} (h : gs ≠ []) (rest : List Char) :
    ∃ c cs, shownGroups gs ++ rest = c :: cs ∧ c ≠ ':' := by
  rcases gs with _ | ⟨g, _ | ⟨g', gs⟩⟩
  · exact absurd rfl h
  · rw [shownGroups_singleton]
    exact head?_ofNat_append g rest
  · rw [shownGroups_cons, List.append_assoc]
    exact head?_ofNat_append g _

theorem length_le_shownGroups (gs : List Nat) : gs.length ≤ (shownGroups gs).length := by
  induction gs with
  | nil => exact Nat.zero_le _
  | cons g gs ih =>
    cases gs with
    | nil => exact List.length_pos_iff.mpr (shownGroups_ne_nil (by simp))
    | cons g' gs =>
      simp only [shownGroups_cons, List.length_append, List.length_cons] at ih ⊢
      omega

/-- **Groups are read as they were written**, up to the end. -/
theorem readGroups_shown {gs : List Nat} (h : AreGroups gs) (g : Groups) {fuel : Nat}
    (hf : gs.length < fuel) :
    readGroups fuel g (shownGroups gs) = some { g with groups := g.groups ++ gs } := by
  induction gs generalizing g fuel with
  | nil =>
    obtain ⟨fuel, rfl⟩ := Nat.exists_eq_succ_of_ne_zero (Nat.ne_of_gt (Nat.zero_lt_of_lt hf))
    rw [show shownGroups [] = [] from rfl, readGroups_nil, List.append_nil]
  | cons n gs ih =>
    obtain ⟨fuel, rfl⟩ := Nat.exists_eq_succ_of_ne_zero (Nat.ne_of_gt (Nat.zero_lt_of_lt hf))
    obtain ⟨hn, hgs⟩ := List.forall_mem_cons.mp h
    cases gs with
    | nil =>
      rw [shownGroups_singleton]
      exact readGroups_last hn fuel
    | cons n' gs =>
      rw [shownGroups_cons, readGroups_next hn fuel (shownGroups_ne_nil (by simp)),
        ih hgs _ (Nat.lt_of_succ_lt_succ hf)]
      simp

/-- **Groups before two colons** are read as they were written. -/
theorem readGroups_shown_gap {gs : List Nat} (h : AreGroups gs) (hne : gs ≠ []) (g : Groups)
    (hg : g.gap = none) {fuel : Nat} (hf : gs.length < fuel) (rest : List Char) :
    readGroups fuel g (shownGroups gs ++ ':' :: ':' :: rest) =
      readGroups (fuel - gs.length - 1)
        { groups := g.groups ++ gs, gap := some (g.groups ++ gs).length } rest := by
  induction gs generalizing g fuel with
  | nil => exact absurd rfl hne
  | cons n gs ih =>
    obtain ⟨fuel, rfl⟩ := Nat.exists_eq_succ_of_ne_zero (Nat.ne_of_gt (Nat.zero_lt_of_lt hf))
    obtain ⟨hn, hgs⟩ := List.forall_mem_cons.mp h
    cases gs with
    | nil =>
      obtain ⟨fuel, rfl⟩ : ∃ k, fuel = k + 1 :=
        Nat.exists_eq_succ_of_ne_zero (Nat.ne_of_gt (Nat.lt_of_succ_lt_succ hf))
      rw [shownGroups_singleton, readGroups_next hn _ (by simp), readGroups_colon _ (by exact hg)]
      simp
    | cons n' gs =>
      rw [shownGroups_cons, List.append_assoc, List.cons_append,
        readGroups_next hn fuel (by simp), ih hgs (by simp) { g with groups := g.groups ++ [n] } hg
          (Nat.lt_of_succ_lt_succ hf)]
      simp

/-! ### Runs of zeros -/

theorem foldl_longest_mem (runs : List (Nat × Nat)) (b : Nat × Nat) :
    runs.foldl (fun b r => if b.2 < r.2 then r else b) b = b ∨
      runs.foldl (fun b r => if b.2 < r.2 then r else b) b ∈ runs := by
  induction runs generalizing b with
  | nil => exact .inl rfl
  | cons r runs ih =>
    rw [List.foldl_cons]
    split
    · rcases ih r with h | h
      · exact .inr (by rw [h]; exact List.mem_cons_self)
      · exact .inr (List.mem_cons_of_mem _ h)
    · rcases ih b with h | h
      · exact .inl h
      · exact .inr (List.mem_cons_of_mem _ h)

theorem zeroRun_append (gs : List Nat) :
    gs = List.replicate (zeroRun gs) 0 ++ gs.drop (zeroRun gs) := by
  induction gs with
  | nil => rfl
  | cons g gs ih =>
    by_cases hg : g = 0
    · have hrun : zeroRun (g :: gs) = zeroRun gs + 1 := by simp [zeroRun, hg]
      rw [hrun, hg, List.replicate_succ, List.drop_succ_cons, List.cons_append, ← ih]
    · have hrun : zeroRun (g :: gs) = 0 := by simp [zeroRun, hg]
      rw [hrun]
      rfl

/-- **The run that is left out** is one of at least two zeros. -/
theorem longestZeros_some {gs : List Nat} {i n : Nat} (h : longestZeros gs = some (i, n)) :
    2 ≤ n ∧ gs = gs.take i ++ List.replicate n 0 ++ gs.drop (i + n) := by
  unfold longestZeros at h
  extract_lets runs best at h
  split at h
  · rename_i hle
    have hbest : best = (i, n) := Option.some.inj h
    rw [hbest] at hle
    refine ⟨hle, ?_⟩
    rcases foldl_longest_mem runs (0, 0) with h₀ | h₁
    · have h₀ : best = (0, 0) := h₀
      rw [hbest] at h₀
      cases h₀
      exact absurd hle (by decide)
    · have h₁ : (i, n) ∈ runs := hbest ▸ h₁
      obtain ⟨j, -, hj⟩ := List.mem_map.mp h₁
      obtain ⟨rfl, rfl⟩ := Prod.mk.inj hj
      rw [← List.drop_drop, List.append_assoc, ← zeroRun_append, List.take_append_drop]
  · cases h

/-! ### Addresses of groups -/

/-- A text that does not begin with a colon is read as groups from its start. -/
theorem ipv6_of_ne {cs : List Char} (h : ∃ c rest, cs = c :: rest ∧ c ≠ ':') {r : Groups}
    (hr : readGroups (cs.length + 1) ⟨[], none⟩ cs = some r) :
    ipv6 cs = match r with
      | ⟨groups, none⟩ => if groups.length == 8 then .ok groups else .error .invalidIpv6
      | ⟨groups, some gap⟩ =>
        if 7 < groups.length then .error .invalidIpv6
        else .ok (groups.take gap ++ List.replicate (8 - groups.length) 0 ++ groups.drop gap) := by
  obtain ⟨c, rest, rfl, hc⟩ := h
  have hgap : ((c :: rest).take 2 == [':', ':']) = false := by
    cases rest <;> simp [hc]
  unfold ipv6
  rw [hgap]
  split
  · rename_i h
    exact absurd (List.cons.inj h).1 hc
  · rename_i h
    exact absurd (List.cons.inj h).1 hc
  · simp only [Option.bind_some, Bool.false_eq_true, if_false, hr]
    rcases r with ⟨groups, _ | gap⟩ <;> rfl

/-- A text that begins with two colons is read as groups from behind them. -/
theorem ipv6_of_colons {cs : List Char} {groups : List Nat} {gap : Nat}
    (hr : readGroups (cs.length + 3) ⟨[], some 0⟩ cs = some ⟨groups, some gap⟩) :
    ipv6 (':' :: ':' :: cs) =
      if 7 < groups.length then .error .invalidIpv6
      else .ok (groups.take gap ++ List.replicate (8 - groups.length) 0 ++ groups.drop gap) := by
  unfold ipv6
  simp only [Option.bind_some, List.length_cons]
  rw [show ((':' :: ':' :: cs).take 2 == [':', ':']) = true from rfl, if_pos rfl, hr]

/-- The zeros that were left out are put back. -/
theorem fill_zeros {front back : List Nat} {n : Nat} (hlen : front.length + n + back.length = 8)
    (hn : 2 ≤ n) :
    (if 7 < (front ++ back).length then .error .invalidIpv6
      else .ok ((front ++ back).take front.length ++ List.replicate (8 - (front ++ back).length) 0 ++
        (front ++ back).drop front.length) : Except UrlError (List Nat)) =
      .ok (front ++ List.replicate n 0 ++ back) := by
  rw [List.length_append, if_neg (by omega), List.take_left, List.drop_left,
    show 8 - (front.length + back.length) = n by omega]

/-- **Eight groups are read as they were written.** -/
theorem bracketHost_ipv6Text {gs : List Nat} (hlen : gs.length = 8) (hgs : AreGroups gs) :
    bracketHost (ipv6Text gs) = .ok (ipv6Text gs) := by
  have hbracket : ∀ inner, ipv6 inner = .ok gs → ipv6Text gs = '[' :: inner ++ [']'] →
      bracketHost (ipv6Text gs) = .ok (ipv6Text gs) := by
    intro inner h htext
    have hinner : (('[' :: inner ++ [']']).drop 1).dropLast = inner := List.dropLast_concat
    unfold bracketHost
    conv => lhs; rw [htext]
    rw [if_pos (by rw [List.getLast?_concat]; rfl), hinner, h]
    rfl
  cases hz : longestZeros gs with
  | none =>
    refine hbracket (shownGroups gs) ?_ (by simp only [ipv6Text, hz, shownGroups])
    have hne : gs ≠ [] := by
      rintro rfl
      cases hlen
    have hread := readGroups_shown hgs ⟨[], none⟩ (Nat.lt_succ_of_le (length_le_shownGroups gs))
    have hhead := head?_shownGroups hne []
    rw [List.append_nil] at hhead
    rw [ipv6_of_ne hhead hread]
    simp [hlen]
  | some run =>
    obtain ⟨i, n⟩ := run
    obtain ⟨hn, hsplit⟩ := longestZeros_some hz
    refine hbracket (shownGroups (gs.take i) ++ ':' :: ':' :: shownGroups (gs.drop (i + n))) ?_
      (by simp only [ipv6Text, hz, shownGroups])
    have hlens : (gs.take i).length + n + (gs.drop (i + n)).length = 8 := by
      have hl := congrArg List.length hsplit
      simp only [List.length_append, List.length_replicate] at hl
      omega
    have hfront : AreGroups (gs.take i) := fun g hg => hgs g (List.mem_of_mem_take hg)
    have hback : AreGroups (gs.drop (i + n)) := fun g hg => hgs g (List.mem_of_mem_drop hg)
    refine Eq.trans ?_ (congrArg Except.ok hsplit.symm)
    generalize gs.take i = front at hlens hfront ⊢
    generalize gs.drop (i + n) = back at hlens hback ⊢
    have hshort := length_le_shownGroups back
    -- The text begins with the two colons or with a group, and is read from there.
    by_cases hne : front = []
    · subst hne
      have hread := readGroups_shown hback ⟨[], some 0⟩
        (show back.length < (shownGroups back).length + 3 by omega)
      exact (ipv6_of_colons hread).trans (fill_zeros hlens hn)
    · have hlong := length_le_shownGroups front
      have hfuel : front.length <
          (shownGroups front ++ ':' :: ':' :: shownGroups back).length + 1 := by
        rw [List.length_append]
        omega
      have hread := readGroups_shown_gap hfront hne ⟨[], none⟩ rfl hfuel (shownGroups back)
      rw [readGroups_shown hback _ (by
        simp only [List.length_append, List.length_cons]
        omega)] at hread
      exact (ipv6_of_ne (head?_shownGroups hne _) hread).trans (fill_zeros hlens hn)

end ReleasePublisher.Url
