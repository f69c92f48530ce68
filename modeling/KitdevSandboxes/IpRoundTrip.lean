import KitdevSandboxes.IpNetworks
import KitdevSandboxes.JsonRoundTrip
import Mathlib.Data.Nat.Digits.Lemmas

/-! An IPv4 network is parsed back from its own text. -/
namespace KitdevSandboxes.IpNetworks

open Json

theorem decimal_length {n k : ℕ} (hk : 0 < k) : (decimal n).length ≤ k ↔ n < 10 ^ k := by
  unfold decimal
  split_ifs with hn
  · subst hn
    have hpositive : 0 < 10 ^ k := Nat.pow_pos (by decide)
    simp only [List.length_singleton, hpositive, iff_true]
    omega
  · rw [List.length_map, List.length_reverse, Nat.digits_length_le_iff (by decide)]

theorem decimal_eq_zero {n : ℕ} (h : (decimal n).head? = some '0') : decimal n = ['0'] := by
  obtain ⟨c, hc⟩ := List.length_eq_one_iff.1 (decimal_head n h)
  rw [hc] at h ⊢
  simpa using h

theorem not_mem_decimal {c : Char} (hc : isDigit c = false) (n : ℕ) : c ∉ decimal n := fun h => by
  rw [decimal_digits n c h] at hc
  cases hc

/-- An octet is read back from its decimal digits. -/
theorem parseOctet_decimal {n : ℕ} (h : n < 256) : parseOctet (decimal n) = some n := by
  have hlength : (decimal n).length ≤ 3 := (decimal_length (by decide)).2 (by omega)
  have hdigits : (decimal n).all isDigit = true := List.all_eq_true.2 (decimal_digits n)
  have hzero : ¬(decimal n ≠ ['0'] ∧ (decimal n).head? = some '0') := by
    rintro ⟨hne, hhead⟩
    exact hne (decimal_eq_zero hhead)
  unfold parseOctet
  rw [natOf_decimal, if_neg]
  simp only [decimal_ne_nil, hdigits, hzero, Bool.true_eq_false, false_or, not_or, not_lt]
  exact ⟨hlength, by omega⟩

theorem octets_split {ip : ℕ} (h : ip < 2 ^ 32) :
    octets [ip / 2 ^ 24, ip / 2 ^ 16 % 256, ip / 2 ^ 8 % 256, ip % 256] = ip := by
  simp only [octets, List.foldl_cons, List.foldl_nil]
  omega

/-- An address is read back from its dotted text. -/
theorem parseDotted_dotted {ip : ℕ} (h : ip < 2 ^ 32) : parseDotted (dotted ip) = some ip := by
  have hparts : (dotted ip).splitOn '.' =
      [ip / 2 ^ 24, ip / 2 ^ 16 % 256, ip / 2 ^ 8 % 256, ip % 256].map decimal := by
    refine List.splitOn_intercalate '.' ?_ (by simp)
    intro part hpart
    obtain ⟨n, -, rfl⟩ := List.mem_map.1 hpart
    exact not_mem_decimal rfl n
  have hfirst : ip / 2 ^ 24 < 256 := by omega
  unfold parseDotted
  rw [hparts]
  simp only [List.length_cons, List.length_nil, if_true, List.map_cons,
    List.map_nil, List.mapM_cons, List.mapM_nil, parseOctet_decimal hfirst,
    parseOctet_decimal (Nat.mod_lt _ (by decide : 0 < 256)), Option.pure_def, Option.bind_eq_bind,
    Option.bind_some, Option.map_some, octets_split h]

theorem not_mem_dotted {c : Char} (hc : isDigit c = false) (hdot : c ≠ '.') (ip : ℕ) :
    c ∉ dotted ip := by
  simp [dotted, List.intercalate, not_mem_decimal hc, hdot]

/-- `ip_network(str(network)) == network`, for IPv4. -/
theorem ipNetwork_render {n : Network} (hv : n.version = .v4) (hs : n.scope = none) :
    ipNetwork n.render = some n := by
  obtain ⟨version, ip, prefixlen, scope, bounded, masked⟩ := n
  obtain rfl : version = .v4 := hv
  obtain rfl : scope = none := hs
  have hsplit : (dotted ip ++ '/' :: decimal prefixlen).splitOn '/' =
      [dotted ip, decimal prefixlen] := by
    have hparts : ∀ part ∈ [dotted ip, decimal prefixlen], '/' ∉ part := by
      simp [not_mem_dotted, not_mem_decimal, isDigit]
    simpa [List.intercalate] using List.splitOn_intercalate '/' hparts (by simp)
  have hmask : parseNetmask .v4 (decimal prefixlen) = some prefixlen := by
    have hdigits : (decimal prefixlen).all isDigit = true :=
      List.all_eq_true.2 (decimal_digits prefixlen)
    have hlength : (decimal prefixlen).length ≤ 2 :=
      (decimal_length Nat.two_pos).2 (bounded.1.trans_lt (by decide))
    have hprefix : parsePrefixlen .v4 (decimal prefixlen) = some prefixlen := by
      unfold parsePrefixlen
      rw [natOf_decimal, if_neg]
      simp only [decimal_ne_nil, hdigits, Bool.true_eq_false, false_or, not_lt, not_or]
      exact ⟨hlength.trans (by decide), bounded.1⟩
    simp [parseNetmask, hprefix]
  have hversion : parseVersion .v4 (dotted ip ++ '/' :: decimal prefixlen) =
      some (ip, prefixlen, none) := by
    simp [parseVersion, hsplit, parseDotted_dotted bounded.2, hmask]
  have hrender : Network.render ⟨.v4, ip, prefixlen, none, bounded, masked⟩ =
      dotted ip ++ '/' :: decimal prefixlen := rfl
  rw [hrender, ipNetwork, hversion]
  exact dif_pos ⟨bounded, masked⟩

end KitdevSandboxes.IpNetworks
