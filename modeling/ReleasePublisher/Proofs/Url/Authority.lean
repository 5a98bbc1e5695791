import ReleasePublisher.Proofs.Url.Host
import ReleasePublisher.Proofs.Url.Path

/-!
# Authorities, read and written

The part of an address that names its host is taken apart into user info, host and port. What the parts
are read as depends on this part only, and not on what follows it.

## Main definitions

* `Url.authorityOf cs`: the authority at the start of a text
* `Url.userInfoOf`, `Url.portOf`: user info and port as they are written

## Main results

* `Url.parseAuthority_ok`: what an authority and what follows it are read as
* `Url.partsOf_written`, `Url.parseUserInfo_userInfoOf`, `Url.parsePort_portOf`: the parts are read as
  they were written
-/

namespace ReleasePublisher.Url

/-! ### Reading -/

/-- The characters of an authority, up to the one that ends it. -/
def authorityOf (cs : List Char) : List Char :=
  cs.takeWhile (!endsAuthority true ·)

/-- **What an authority and what follows it are read as.** -/
theorem parseAuthority_ok {scheme cs : List Char} {u : Url} (hs : isSpecial scheme = true)
    (h : parseAuthority scheme cs = .ok u) :
    ∃ host port more,
      parseHost (partsOf (authorityOf cs)).hostText = .ok host ∧
      parsePort scheme (partsOf (authorityOf cs)).portText = .ok (port, more) ∧
      let userInfo := parseUserInfo (partsOf (authorityOf cs)).userInfo
      let tail := parseTail true (more ++ cs.dropWhile (!endsAuthority true ·))
      u = { scheme := scheme, username := userInfo.1, password := userInfo.2, host := some host,
            port := port, path := tail.path, query := tail.query, fragment := tail.fragment } := by
  unfold parseAuthority at h
  rw [hs] at h
  extract_lets special authority after parts at h
  split at h
  · cases h
  split at h
  · cases h
  · rename_i host hhost
    split at h
    · cases h
    split at h
    · cases h
    · rename_i port more hport
      split at h
      rename_i username password huser
      extract_lets tail at h
      split at h
      · cases h
      · refine ⟨host, port, more, hhost, hport, ?_⟩
        have hinfo : parseUserInfo (partsOf (authorityOf cs)).userInfo = (username, password) := huser
        rw [hinfo]
        exact (Except.ok.inj h).symm

/-- A port that is stated is one, and not the one that the scheme implies. -/
theorem parsePort_ok {scheme cs more : List Char} {port : Option Nat}
    (h : parsePort scheme cs = .ok (port, more)) :
    ∀ n ∈ port, n ≤ 65535 ∧ defaultPort? scheme ≠ some n := by
  unfold parsePort at h
  split at h
  · extract_lets digits rest n at h
    split at h
    · cases h
    · rename_i hbounds
      simp only [Bool.or_eq_true, decide_eq_true_eq, not_or, Nat.not_lt] at hbounds
      rintro k hk
      obtain ⟨hport, -⟩ := Prod.mk.inj (Except.ok.inj h)
      rw [hk] at hport
      split at hport
      · cases hport
      · rename_i hdefault
        obtain rfl := Option.some.inj hport
        refine ⟨hbounds.1, fun heq => hdefault ?_⟩
        rw [heq]
        simp
  · cases h
    simp

/-- User names and passwords are read into their canonical texts. -/
theorem isEncoded_parseUserInfo (cs : List Char) :
    IsEncoded userInfoSet (parseUserInfo cs).1 ∧
      ∀ p ∈ (parseUserInfo cs).2, p ≠ [] ∧ IsEncoded userInfoSet p := by
  have hset : LeavesEscapes userInfoSet := by decide
  refine ⟨isEncoded_percentEncode hset _, ?_⟩
  unfold parseUserInfo
  intro p hp
  dsimp only at hp
  split at hp
  · obtain rfl := Option.some.inj hp
    exact ⟨percentEncode_ne_nil (by simp), isEncoded_percentEncode hset _⟩
  · cases hp

/-! ### Writing -/

/-- A user name and a password as they are written, without the sign behind them. -/
def userInfoOf (username : List Char) (password : Option (List Char)) : List Char :=
  username ++ marked ':' password

/-- A port as it is written. -/
def portOf : Option Nat → List Char
  | some n => ':' :: Nat.toDigits 10 n
  | none => []

theorem beginsPort_portOf (port : Option Nat) : BeginsPort (portOf port) := by
  cases port with
  | none => exact .inl rfl
  | some n => exact .inr ⟨_, rfl⟩

theorem splitLast?_append_cons {c : Char} {ds : List Char} (h : c ∉ ds) (cs : List Char) :
    splitLast? c (cs ++ c :: ds) = some (cs, ds) := by
  have hstop : ∀ d ∈ ds.reverse, (d != c) = true := by
    intro d hd
    have hne : d ≠ c := by
      rintro rfl
      exact h (List.mem_reverse.mp hd)
    simpa using hne
  have hafter : ((cs ++ c :: ds).reverse.takeWhile (· != c)).reverse = ds := by
    rw [List.reverse_append, List.reverse_cons, List.append_assoc,
      (takeWhile_append_stop hstop (by simp)).1, List.reverse_reverse]
  have hlen : (cs ++ c :: ds).length - ds.length - 1 = cs.length := by
    rw [List.length_append, List.length_cons]
    omega
  unfold splitLast?
  rw [if_pos (by simp), hafter]
  dsimp only
  rw [hlen, List.take_left]

/-- **Written parts are taken apart again**, with and without user info. -/
theorem partsOf_written {host : List Char} (h : IsHost host) (port : Option Nat) :
    partsOf (host ++ portOf port) = ⟨[], host, portOf port⟩ ∧
      ∀ info, partsOf (info ++ '@' :: (host ++ portOf port)) = ⟨info, host, portOf port⟩ := by
  have hat : '@' ∉ host ++ portOf port := by
    intro hmem
    rcases List.mem_append.mp hmem with hmem | hmem
    · exact absurd (h.isHostChar _ hmem).2.2 (by decide)
    · cases port with
      | none => cases hmem
      | some n =>
        rcases List.mem_cons.mp hmem with hmem | hmem
        · exact absurd hmem (by decide)
        · exact absurd (isDigit_of_mem_toDigits hmem) (by decide)
  have hlen := h.length_eq _ (beginsPort_portOf port)
  have hnone : splitLast? '@' (host ++ portOf port) = none := by
    unfold splitLast?
    rw [if_neg (by simpa using hat)]
  constructor
  · simp only [partsOf, hnone, Option.getD_none, hlen, List.take_left, List.drop_left]
  · intro info
    simp only [partsOf, splitLast?_append_cons hat, Option.getD_some, hlen, List.take_left,
      List.drop_left]

theorem parseUserInfo_userInfoOf {username : List Char} {password : Option (List Char)}
    (hu : IsEncoded userInfoSet username)
    (hp : ∀ p ∈ password, p ≠ [] ∧ IsEncoded userInfoSet p) :
    parseUserInfo (userInfoOf username password) = (username, password) := by
  have hstop : ∀ c ∈ username, (c != ':') = true := by
    intro c hc
    have hne : c ≠ ':' := by
      rintro rfl
      exact hu.not_mem (by decide) hc
    simpa using hne
  have hnext : ∀ c ∈ (marked ':' password).head?, (c != ':') = false := by
    cases password <;> simp [marked]
  obtain ⟨htake, hdrop⟩ := takeWhile_append_stop hstop hnext
  unfold parseUserInfo userInfoOf
  rw [htake, hdrop]
  dsimp only
  rw [hu.percentEncode_eq]
  cases password with
  | none => rfl
  | some p =>
    obtain ⟨hne, henc⟩ := hp p rfl
    obtain ⟨c, rest, rfl⟩ := List.exists_cons_of_ne_nil hne
    simp only [marked, henc.percentEncode_eq]

/-- **A number is read from its decimal digits.** -/
theorem numberIn_toDigits (n : Nat) : numberIn 10 (Nat.toDigits 10 n) = n := by
  have hfold : ∀ (ds : List Char) (acc : Nat), (∀ d ∈ ds, d.isDigit = true) →
      ds.foldl (fun n d => n * 10 + (Hex.value? d).getD 0) acc = Nat.ofDigitChars 10 ds acc := by
    intro ds
    induction ds with
    | nil => intro acc h; rfl
    | cons d ds ih =>
      intro acc h
      obtain ⟨hd, hds⟩ := List.forall_mem_cons.mp h
      have hvalue : Hex.value? d = some (d.toNat - 48) := by
        have hd : '0' ≤ d ∧ d ≤ '9' := Char.isDigit_iff_toNat.mp hd
        rw [Hex.value?, if_pos (by simpa using hd)]
      rw [List.foldl_cons, ih _ hds, hvalue, Nat.mul_comm acc]
      rfl
  rw [numberIn, hfold _ _ fun d hd => isDigit_of_mem_toDigits hd]
  exact Nat.ofDigitChars_toDigits (by decide) (by decide)

theorem parsePort_portOf {scheme : List Char} {port : Option Nat}
    (h : ∀ n ∈ port, n ≤ 65535 ∧ defaultPort? scheme ≠ some n) :
    parsePort scheme (portOf port) = .ok (port, []) := by
  cases port with
  | none => rfl
  | some n =>
    obtain ⟨hle, hdefault⟩ := h n rfl
    have hstop : ∀ d ∈ Nat.toDigits 10 n, d.isDigit = true := fun d hd => isDigit_of_mem_toDigits hd
    have hends : ∀ d ∈ ([] : List Char).head?, d.isDigit = false := by simp
    obtain ⟨htake, hdrop⟩ := takeWhile_append_stop hstop hends
    rw [List.append_nil] at htake hdrop
    simp only [portOf, parsePort, htake, hdrop, numberIn_toDigits]
    rw [if_neg (by simpa using hle), if_neg]
    have hdigits : (Nat.toDigits 10 n).isEmpty = false := by
      simp
    simp only [hdigits, Bool.false_or, beq_iff_eq]
    exact fun heq => hdefault heq.symm

end ReleasePublisher.Url
