import KitdevSandboxes.SocketListeners

/-! When the listing of the listening sockets is read the same way in every order of its lines. -/
namespace KitdevSandboxes.ListenerOrders

open Checks (bind_ok pure_ok mapM_ok)
open FirewallListing (isLineBreak)
open PreflightChecks (lower strip)
open PythonTexts (allDigits decimal int int_eq_none int_eq_some isDigit maxDigits ofDigits pieces)
open SocketListeners

/-! ### Lines of a text -/

theorem splitlines_clean (cs : List Char) :
    ∀ line ∈ splitlines cs, ∀ c ∈ line, isLineBreak c = false := by
  induction cs using splitlines.induct with
  | case1 => intro line hline; cases hline
  | case2 cs ih =>
    intro line hline
    rw [splitlines] at hline
    rcases List.mem_cons.1 hline with rfl | hline
    · exact fun c hc => absurd hc List.not_mem_nil
    · exact ih line hline
  | case3 c cs hcs hbreak ih =>
    intro line hline
    rw [splitlines, if_pos hbreak] at hline
    · rcases List.mem_cons.1 hline with rfl | hline
      · exact fun c hc => absurd hc List.not_mem_nil
      · exact ih line hline
    · exact hcs
  | case4 c cs hcs hbreak hnil ih =>
    intro line hline
    rw [splitlines, if_neg hbreak, hnil] at hline
    · obtain rfl := List.mem_singleton.1 hline
      intro d hd
      obtain rfl := List.mem_singleton.1 hd
      exact Bool.not_eq_true _ ▸ hbreak
    · exact hcs
  | case5 c cs hcs hbreak first rest hrest ih =>
    intro line hline
    rw [splitlines, if_neg hbreak, hrest] at hline
    · rw [hrest] at ih
      rcases List.mem_cons.1 hline with rfl | hline
      · intro d hd
        rcases List.mem_cons.1 hd with rfl | hd
        · exact Bool.not_eq_true _ ▸ hbreak
        · exact ih first List.mem_cons_self d hd
      · exact ih line (List.mem_cons_of_mem _ hline)
    · exact hcs

/-- The text of some lines, each with its end. -/
def unlines (ls : List (List Char)) : List Char := ls.flatMap fun line => line ++ ['\n']

theorem splitlines_append {line : List Char} (h : ∀ c ∈ line, isLineBreak c = false)
    (rest : List Char) : splitlines (line ++ '\n' :: rest) = line :: splitlines rest := by
  induction line with
  | nil =>
    rw [List.nil_append, splitlines, if_pos (by decide)]
    rintro cs hcs
    cases hcs
  | cons c line ih =>
    obtain ⟨hc, hline⟩ := List.forall_mem_cons.1 h
    rw [List.cons_append, splitlines, if_neg (by simp [hc]), ih hline]
    intro cs hcs
    rw [hcs] at hc
    exact absurd hc (by decide)

theorem splitlines_unlines {ls : List (List Char)}
    (h : ∀ line ∈ ls, ∀ c ∈ line, isLineBreak c = false) : splitlines (unlines ls) = ls := by
  induction ls with
  | nil => rfl
  | cons line ls ih =>
    obtain ⟨hline, hls⟩ := List.forall_mem_cons.1 h
    rw [unlines, List.flatMap_cons, List.append_assoc, List.singleton_append,
      splitlines_append hline]
    exact congrArg _ (ih hls)

/-! ### Listeners as they are meant -/

/-- The protocol, the address and the port of a line that is not blank. -/
def socketOf (line : List Char) : Option (List Char × List Char × List Char) :=
  if strip line = [] then none
  else
    match pieces line with
    | word :: _ :: _ :: _ :: endpoint :: _ =>
      (splitEndpoint (strip endpoint)).map fun (address, port) => (word, address, port)
    | _ => none

/-- An address, or one of the two spellings of every address; a zone may follow. -/
def ValidAddress (address : List Char) : Prop :=
  unzoned address = ['*'] ∨ unzoned address = "[::]".toList ∨
    (ConfigurationRules.ipAddress (unzoned address)).isSome = true

structure DecimalPort (port : List Char) : Prop where
  nonempty : port ≠ []
  decimal : ∀ c ∈ port, (decimal c).isSome = true
  bounded : ofDigits (port.filterMap PythonTexts.decimal) ≤ 65535

/-- A line that shows a listening socket. -/
def Listening (line : List Char) : Prop :=
  ∃ word address port, socketOf line = some (word, address, port) ∧
    (protocolOf word).isSome = true ∧ ValidAddress address ∧ DecimalPort port

/-- A line of a socket whose port has digits that `int` does not read: more of them than it takes, or
one without a decimal value. -/
def Unreadable (line : List Char) : Prop :=
  ∃ word address port, socketOf line = some (word, address, port) ∧
    (protocolOf word).isSome = true ∧ allDigits port = true ∧
    (maxDigits < port.length ∨ ∃ c ∈ port, decimal c = none)

theorem classify_isSome {address : List Char} {hint : AddressFamily} :
    (classify (unzoned address) hint).isSome = true ↔ ValidAddress address := by
  have h4 : (ConfigurationRules.ipAddress "0.0.0.0".toList).isSome = true := by decide +kernel
  have h6 : (ConfigurationRules.ipAddress "::".toList).isSome = true := by decide +kernel
  unfold classify ValidAddress
  split_ifs with hstar hany hwild
  · simp [hstar]
  · simp only [Option.isSome_some, true_iff]
    exact .inr (.inr (hany ▸ h4))
  · simp only [Option.isSome_some, true_iff]
    rcases hwild with hwild | hwild
    · exact .inr (.inr (hwild ▸ h6))
    · exact .inr (.inl hwild)
  · rw [Option.isSome_map, or_iff_right hstar, or_iff_right (not_or.1 hwild).2]

theorem DecimalPort.allDigits {port : List Char} (h : DecimalPort port) : allDigits port = true := by
  simp only [PythonTexts.allDigits, Bool.and_eq_true, Bool.not_eq_true', List.isEmpty_eq_false_iff,
    List.all_eq_true]
  exact ⟨h.nonempty, fun c hc => by simp [isDigit, h.decimal c hc]⟩

/-- What becomes of an endpoint whose digits `int` reads. -/
theorem parseEndpoint_readable (hint : AddressFamily) {endpoint address port : List Char}
    (hsplit : splitEndpoint (strip endpoint) = some (address, port))
    (h : ¬(allDigits port = true ∧ (maxDigits < port.length ∨ ∃ c ∈ port, decimal c = none))) :
    ∃ r, parseEndpoint endpoint hint = .ok r ∧
      (r.isSome = true ↔ ValidAddress address ∧ DecimalPort port) := by
  unfold parseEndpoint
  simp only [hsplit]
  by_cases hdigits : allDigits port = true
  · have hread : ¬(maxDigits < port.length ∨ ∃ c ∈ port, decimal c = none) := fun hbad =>
      h ⟨hdigits, hbad⟩
    have hdecimal : ∀ c ∈ port, (decimal c).isSome = true := fun c hc => by
      rw [Option.isSome_iff_ne_none]
      exact fun hnone => hread (.inr ⟨c, hc, hnone⟩)
    rw [if_neg (by simp [hdigits]),
      int_eq_some hdigits (Nat.not_lt.1 fun hlong => hread (.inl hlong)) hdecimal]
    have hne : port ≠ [] := by
      rintro rfl
      simp [PythonTexts.allDigits] at hdigits
    by_cases hbound : ofDigits (port.filterMap decimal) ≤ 65535
    · refine ⟨_, if_pos ⟨by positivity, by exact_mod_cast hbound⟩, ?_⟩
      rw [Option.isSome_map, classify_isSome]
      exact ⟨fun hvalid => ⟨hvalid, hne, hdecimal, hbound⟩, fun hvalid => hvalid.1⟩
    · refine ⟨_, if_neg fun hle => hbound (by exact_mod_cast hle.2), ?_⟩
      exact ⟨fun hnone => (Bool.false_ne_true hnone).elim, fun hvalid => absurd hvalid.2.bounded hbound⟩
  · rw [if_pos (Bool.not_eq_true _ ▸ hdigits)]
    exact ⟨_, rfl, fun hnone => (Bool.false_ne_true hnone).elim,
      fun hvalid => absurd hvalid.2.allDigits hdigits⟩

theorem parseEndpoint_unreadable {endpoint address port : List Char} {hint : AddressFamily}
    (hsplit : splitEndpoint (strip endpoint) = some (address, port)) (hdigits : allDigits port = true)
    (h : maxDigits < port.length ∨ ∃ c ∈ port, decimal c = none) :
    parseEndpoint endpoint hint = .error .valueError := by
  unfold parseEndpoint
  simp only [hsplit]
  rw [if_neg (by simp [hdigits]), int_eq_none hdigits h]

/-! ### Readings -/

/-- A line with its five pieces. -/
theorem socketOf_eq {line word a b c endpoint : List Char} {rest : List (List Char)}
    (hline : strip line ≠ []) (hpieces : pieces line = word :: a :: b :: c :: endpoint :: rest) :
    socketOf line = (splitEndpoint (strip endpoint)).map fun (address, port) =>
      (word, address, port) := by
  simp only [socketOf, if_neg hline, hpieces]

/-- A line that is not blank and not a listener in the sense of the listing. -/
inductive Read (line : List Char) : Except Raised Reading → Prop
  | blank (h : strip line = []) : Read line (.ok .blank)
  | raised (h : Unreadable line) : Read line (.error .valueError)
  | malformed (h : strip line ≠ []) (hl : ¬Listening line) (hu : ¬Unreadable line) :
      Read line (.ok .malformed)
  | listener (l : Listener) (hl : Listening line) (hu : ¬Unreadable line) :
      Read line (.ok (.listener l))

section Sockets

variable {line word address port : List Char}

theorem listening_iff (h : socketOf line = some (word, address, port)) :
    Listening line ↔ (protocolOf word).isSome = true ∧ ValidAddress address ∧ DecimalPort port := by
  constructor
  · rintro ⟨word', address', port', hsome, hall⟩
    obtain ⟨rfl, rfl, rfl⟩ : word = word' ∧ address = address' ∧ port = port' := by
      simpa [h] using hsome
    exact hall
  · exact fun hall => ⟨word, address, port, h, hall⟩

theorem unreadable_iff (h : socketOf line = some (word, address, port)) :
    Unreadable line ↔ (protocolOf word).isSome = true ∧ allDigits port = true ∧
      (maxDigits < port.length ∨ ∃ c ∈ port, decimal c = none) := by
  constructor
  · rintro ⟨word', address', port', hsome, hall⟩
    obtain ⟨rfl, rfl, rfl⟩ : word = word' ∧ address = address' ∧ port = port' := by
      simpa [h] using hsome
    exact hall
  · exact fun hall => ⟨word, address, port, h, hall⟩

/-- A line without a socket. -/
theorem Read.of_none (hline : strip line ≠ []) (h : socketOf line = none) :
    Read line (.ok .malformed) := by
  refine .malformed hline ?_ ?_
  · rintro ⟨word', address', port', hsome, -⟩
    simp [h] at hsome
  · rintro ⟨word', address', port', hsome, -⟩
    simp [h] at hsome

end Sockets

theorem readLine_read (isWord : Char → Bool) (hint : AddressFamily) (line : List Char) :
    Read line (readLine isWord hint line) := by
  unfold readLine
  split_ifs with hblank
  · exact .blank hblank
  split
  next word a b c endpoint rest hpieces =>
    have hsocket := socketOf_eq hblank hpieces
    rcases hsplit : splitEndpoint (strip endpoint) with _ | ⟨address, port⟩
    · rw [hsplit] at hsocket
      have hnone : parseEndpoint endpoint hint = .ok none := by simp only [parseEndpoint, hsplit]
      rcases protocolOf word with _ | protocol
      · exact .of_none hblank hsocket
      · simp only [hnone]
        exact .of_none hblank hsocket
    rw [hsplit] at hsocket
    have hlistening := listening_iff hsocket
    have hunreadable := unreadable_iff hsocket
    rcases hprotocol : protocolOf word with _ | protocol
    · refine .malformed hblank ?_ ?_
      · rw [hlistening, hprotocol]
        exact fun h => Bool.false_ne_true h.1
      · rw [hunreadable, hprotocol]
        exact fun h => Bool.false_ne_true h.1
    rw [hprotocol, Option.isSome_some, eq_self_iff_true, true_and] at hlistening hunreadable
    by_cases hu : Unreadable line
    · obtain ⟨hdigits, hbad⟩ := hunreadable.1 hu
      simp only [parseEndpoint_unreadable hsplit hdigits hbad]
      exact .raised hu
    · obtain ⟨r, hr, hsome⟩ := parseEndpoint_readable hint hsplit (mt hunreadable.2 hu)
      rw [← hlistening] at hsome
      simp only [hr]
      rcases r with _ | ⟨family, scope, n⟩
      · exact .malformed hblank (fun hl => Bool.false_ne_true (hsome.2 hl)) hu
      · exact .listener _ (hsome.1 rfl) hu
  next hpieces =>
    refine .of_none hblank ?_
    unfold socketOf
    rw [if_neg hblank]
    split
    next word a b c endpoint rest h => exact absurd h (hpieces _ _ _ _ _ _)
    next => rfl

/-! ### Listings -/

/-- What a line is read as, where nothing is raised. -/
def reading (isWord : Char → Bool) (hint : AddressFamily) (line : List Char) : Reading :=
  (readLine isWord hint line).toOption.getD .blank

section Listings

variable (isWord : Char → Bool) (hint : AddressFamily)

theorem readLine_eq {line : List Char} (h : ¬Unreadable line) :
    readLine isWord hint line = .ok (reading isWord hint line) := by
  have hread := readLine_read isWord hint line
  rcases hline : readLine isWord hint line with e | r
  · rw [hline] at hread
    cases hread with
    | raised hu => exact absurd hu h
  · simp only [reading, hline, Except.toOption, Option.getD_some]

theorem readLine_unreadable {line : List Char} (h : Unreadable line) :
    ∃ e, readLine isWord hint line = .error e := by
  have hread := readLine_read isWord hint line
  rcases hline : readLine isWord hint line with e | r
  · exact ⟨e, rfl⟩
  · rw [hline] at hread
    cases hread with
    | blank hblank =>
      obtain ⟨word, address, port, hsocket, -⟩ := h
      simp [socketOf, hblank] at hsocket
    | malformed _ _ hu => exact absurd h hu
    | listener l _ hu => exact absurd h hu

theorem mapM_readLine {ls : List (List Char)} (h : ∀ line ∈ ls, ¬Unreadable line) :
    ls.mapM (readLine isWord hint) = .ok (ls.map (reading isWord hint)) := by
  rw [mapM_ok, List.forall₂_map_right_iff, List.forall₂_same]
  exact fun line hline => readLine_eq isWord hint (h line hline)

theorem parseListeners_ok {order : SetOrder} {text : List Char}
    (h : ∀ line ∈ splitlines text, ¬Unreadable line) :
    parseListeners order isWord hint text =
      .ok (Reading.outcome order ((splitlines text).map (reading isWord hint))) := by
  rw [parseListeners, mapM_readLine isWord hint h]
  rfl

/-- Nothing is raised exactly where every port can be read. -/
theorem parseListeners_total {order : SetOrder} {text : List Char} :
    (∃ r, parseListeners order isWord hint text = .ok r) ↔
      ∀ line ∈ splitlines text, ¬Unreadable line := by
  constructor
  · rintro ⟨r, hr⟩ line hline hu
    obtain ⟨readings, hreadings, -⟩ := bind_ok.1 hr
    obtain ⟨m, -, hm⟩ := Checks.exists_of_forall₂ (mapM_ok.1 hreadings) hline
    obtain ⟨e, he⟩ := readLine_unreadable isWord hint hu
    rw [he] at hm
    cases hm
  · exact fun h => ⟨_, parseListeners_ok isWord hint h⟩

end Listings

/-! ### Orders -/

theorem sorted_pairwise (ls : List Listener) :
    (Listener.sorted ls).Pairwise fun a b => a.key ≤ b.key := by
  have : Std.Total fun a b : Listener => a.key ≤ b.key := ⟨fun a b => le_total a.key b.key⟩
  have : IsTrans Listener fun a b => a.key ≤ b.key := ⟨fun _ _ _ => le_trans⟩
  exact List.pairwise_insertionSort _ ls

theorem sorted_perm (ls : List Listener) : (Listener.sorted ls).Perm ls :=
  List.perm_insertionSort _ ls

/-- Without two elements that share a key there is one sorted list. -/
theorem sorted_unique {ls ls' : List Listener} (hperm : ls.Perm ls')
    (h : ∀ a ∈ ls, ∀ b ∈ ls, a.key = b.key → a = b) :
    Listener.sorted ls = Listener.sorted ls' := by
  refine List.Perm.eq_of_pairwise (fun a b ha hb hab hba => ?_) (sorted_pairwise ls)
    (sorted_pairwise ls') ((sorted_perm ls).trans (hperm.trans (sorted_perm ls').symm))
  exact h a ((sorted_perm ls).subset ha) b
    (hperm.symm.subset ((sorted_perm ls').subset hb)) (le_antisymm hab hba)

theorem mem_listeners {readings : List Reading} {l : Listener} :
    l ∈ readings.filterMap Reading.listener? ↔ .listener l ∈ readings := by
  rw [List.mem_filterMap]
  constructor
  · rintro ⟨r, hr, hl⟩
    cases r with
    | listener l' =>
      obtain rfl := Option.some.inj hl
      exact hr
    | blank => cases hl
    | malformed => cases hl
  · exact fun h => ⟨_, h, rfl⟩

/-- A listing with a malformed line is rejected. -/
theorem outcome_malformed (order : SetOrder) {readings : List Reading}
    (h : .malformed ∈ readings) : Reading.outcome order readings = none := by
  refine if_pos ⟨fun hzero => ?_, .inr fun hzero => ?_⟩
  · exact absurd (List.countP_eq_zero.1 hzero _ h) (by simp)
  · exact absurd (List.countP_eq_zero.1 hzero _ h) (by simp)

/-- Without a malformed line a listing is rejected only where it is empty of listeners. -/
theorem outcome_wellFormed (order : SetOrder) {readings : List Reading}
    (h : .malformed ∉ readings) :
    Reading.outcome order readings =
      some (Listener.sorted (order.walk (readings.filterMap Reading.listener?))) := by
  refine if_neg ?_
  rintro ⟨hmeaningful, hbad⟩
  rcases hbad with hnil | hmalformed
  · obtain ⟨r, hr, hne⟩ := List.countP_pos_iff.1 (Nat.pos_of_ne_zero hmeaningful)
    cases r with
    | blank => simp at hne
    | malformed => exact h hr
    | listener l => exact List.not_mem_nil (hnil ▸ mem_listeners.2 hr)
  · obtain ⟨r, hr, hm⟩ := List.countP_pos_iff.1 (Nat.pos_of_ne_zero hmalformed)
    exact h (of_decide_eq_true hm ▸ hr)

/-- No two listeners share their key. -/
def Untied (readings : List Reading) : Prop :=
  ∀ a b, .listener a ∈ readings → .listener b ∈ readings → a.key = b.key → a = b

theorem outcome_perm (order : SetOrder) {readings readings' : List Reading}
    (hperm : readings.Perm readings') (h : .malformed ∈ readings ∨ Untied readings) :
    Reading.outcome order readings = Reading.outcome order readings' := by
  by_cases hm : .malformed ∈ readings
  · rw [outcome_malformed order hm, outcome_malformed order (hperm.subset hm)]
  have huntied := h.resolve_left hm
  rw [outcome_wellFormed order hm, outcome_wellFormed order (mt hperm.mem_iff.2 hm)]
  have hwalk : ∀ (rs : List Reading) (l : Listener),
      l ∈ order.walk (rs.filterMap Reading.listener?) → .listener l ∈ rs := fun rs l hl => mem_listeners.1 (List.mem_dedup.1 ((order.perm _).subset hl))
  refine congrArg some (sorted_unique ?_ fun a ha b hb => ?_)
  · exact (order.perm _).trans (((hperm.filterMap _).dedup).trans (order.perm _).symm)
  · exact huntied a b (hwalk _ a ha) (hwalk _ b hb)

/-! ### Ties -/

/-- The set that is gone through in the order of the last occurrences. -/
def insertionOrder : SetOrder := ⟨List.dedup, fun _ => .rfl⟩

/-- Of two listeners with one key, the one that comes first is reported first. -/
theorem tie_first {a b : Listener} (bs rest : List Listener) (hkey : b.key = a.key)
    (hbs : bs ≠ []) (hall : ∀ l ∈ bs, l = b) (hrest : b ∉ rest) (ha : a ∈ rest) :
    [b, a].Sublist (Listener.sorted (bs ++ rest).dedup) ∧
      [a, b].Sublist (Listener.sorted (rest ++ bs).dedup) := by
  have hlength : bs.length ≠ 0 := mt List.length_eq_zero_iff.1 hbs
  have hdedup : bs.dedup = [b] := by
    rw [List.eq_replicate_of_mem hall, List.replicate_dedup hlength]
  have hdisjoint : bs.Disjoint rest := fun l hl hl' => hrest (hall l hl ▸ hl')
  have hrest' : [a].Sublist rest.dedup := List.singleton_sublist.2 (List.mem_dedup.2 ha)
  constructor
  · rw [hdisjoint.dedup_append, hdedup]
    exact List.pair_sublist_insertionSort hkey.le (hrest'.cons_cons b)
  · rw [hdisjoint.symm.dedup_append, hdedup]
    exact List.pair_sublist_insertionSort hkey.ge (hrest'.append (List.Sublist.refl [b]))

theorem pair_order {a b : Listener} (hne : a ≠ b) {ls : List Listener} (h : ls.Nodup)
    (hab : [a, b].Sublist ls) : ¬[b, a].Sublist ls := by
  intro hba
  induction ls with
  | nil => cases hab
  | cons l ls ih =>
    obtain ⟨hl, hls⟩ := List.nodup_cons.1 h
    rcases List.sublist_cons_iff.1 hab with hab' | ⟨r, hr, -⟩
    · rcases List.sublist_cons_iff.1 hba with hba' | ⟨r, hr, -⟩
      · exact ih hls hab' hba'
      · exact hl ((List.cons.inj hr).1 ▸ hab'.subset (List.mem_cons_of_mem _ List.mem_cons_self))
    · have hla := (List.cons.inj hr).1
      rcases List.sublist_cons_iff.1 hba with hba' | ⟨r, hr', -⟩
      · exact hl (hla ▸ hba'.subset (List.mem_cons_of_mem _ List.mem_cons_self))
      · exact hne (hla.trans (List.cons.inj hr').1.symm)

/-! ### Faithful listings -/

section Faithfulness

variable (isWord : Char → Bool) (hint : AddressFamily)

/-- Nothing is raised, the lines may come in any order, and what is reported was a listener line by
line. -/
structure Faithful (text : List Char) : Prop where
  total : ∀ order, ∃ r, parseListeners order isWord hint text = .ok r
  stable : ∀ order text', (splitlines text').Perm (splitlines text) →
    parseListeners order isWord hint text' = parseListeners order isWord hint text
  closed : ∀ order ls, parseListeners order isWord hint text = .ok (some ls) →
    ∀ line ∈ splitlines text, strip line ≠ [] → Listening line

/-- Every port can be read, and the listing is rejected or no two of its listeners differ in nothing
but the owner. -/
structure Settled (text : List Char) : Prop where
  readable : ∀ line ∈ splitlines text, ¬Unreadable line
  untied : (∃ line ∈ splitlines text, strip line ≠ [] ∧ ¬Listening line) ∨
    Untied ((splitlines text).map (reading isWord hint))


theorem reading_malformed {line : List Char} (h : ¬Unreadable line) :
    reading isWord hint line = .malformed ↔ strip line ≠ [] ∧ ¬Listening line := by
  have hread := readLine_read isWord hint line
  rw [readLine_eq isWord hint h] at hread
  generalize reading isWord hint line = r at hread
  cases hread with
  | blank hblank => simp [hblank]
  | malformed hline hl _ => simp [hline, hl]
  | listener l hl _ => simp [hl]

theorem mem_malformed {text : List Char} (h : ∀ line ∈ splitlines text, ¬Unreadable line) :
    .malformed ∈ (splitlines text).map (reading isWord hint) ↔
      ∃ line ∈ splitlines text, strip line ≠ [] ∧ ¬Listening line := by
  rw [List.mem_map]
  refine exists_congr fun line => and_congr_right fun hline => ?_
  exact reading_malformed isWord hint (h line hline)

theorem Settled.faithful {text : List Char} (h : Settled isWord hint text) :
    Faithful isWord hint text where
  total order := (parseListeners_total isWord hint).2 h.readable
  stable order text' hperm := by
    have hreadable : ∀ line ∈ splitlines text', ¬Unreadable line := fun line hline =>
      h.readable line (hperm.subset hline)
    rw [parseListeners_ok isWord hint h.readable, parseListeners_ok isWord hint hreadable]
    refine congrArg Except.ok (outcome_perm order (hperm.symm.map _) ?_).symm
    exact h.untied.imp_left (mem_malformed isWord hint h.readable).2
  closed order ls hls := by
    rw [parseListeners_ok isWord hint h.readable] at hls
    intro line hline hblank
    by_contra hl
    have hmalformed := (mem_malformed isWord hint h.readable).2 ⟨line, hline, hblank, hl⟩
    rw [outcome_malformed order hmalformed] at hls
    cases hls

/-- What a listing without a malformed line gives in the order of its lines. -/
theorem parseListeners_unlines {ls : List (List Char)}
    (hclean : ∀ line ∈ ls, ∀ c ∈ line, isLineBreak c = false)
    (hreadable : ∀ line ∈ ls, ¬Unreadable line)
    (h : .malformed ∉ ls.map (reading isWord hint)) :
    parseListeners insertionOrder isWord hint (unlines ls) =
      .ok (some (Listener.sorted
        ((ls.map (reading isWord hint)).filterMap Reading.listener?).dedup)) := by
  rw [parseListeners_ok isWord hint (by rwa [splitlines_unlines hclean]), splitlines_unlines hclean,
    outcome_wellFormed _ h]
  rfl

theorem Faithful.untied {text : List Char} (h : Faithful isWord hint text)
    (hreadable : ∀ line ∈ splitlines text, ¬Unreadable line)
    (hm : .malformed ∉ (splitlines text).map (reading isWord hint)) :
    Untied ((splitlines text).map (reading isWord hint)) := by
  intro a b ha hb hkey
  by_contra hne
  let owned (line : List Char) : Bool := reading isWord hint line = .listener b
  let bs := (splitlines text).filter owned
  let rest := (splitlines text).filter fun line => !owned line
  have hperm : (bs ++ rest).Perm (splitlines text) := List.filter_append_perm owned _
  have hperm' : (rest ++ bs).Perm (splitlines text) := List.perm_append_comm.trans hperm
  have hparse : ∀ ls : List (List Char), ls.Perm (splitlines text) →
      parseListeners insertionOrder isWord hint text = .ok (some (Listener.sorted
        ((ls.map (reading isWord hint)).filterMap Reading.listener?).dedup)) := by
    intro ls hls
    have hclean : ∀ line ∈ ls, ∀ c ∈ line, isLineBreak c = false := fun line hline =>
      splitlines_clean text line (hls.subset hline)
    rw [← h.stable insertionOrder (unlines ls) (by rwa [splitlines_unlines hclean])]
    exact parseListeners_unlines isWord hint hclean
      (fun line hline => hreadable line (hls.subset hline)) fun hmem => hm ((hls.map _).subset hmem)
  have hsame := (hparse _ hperm).symm.trans (hparse _ hperm')
  simp only [List.map_append, List.filterMap_append, Except.ok.injEq, Option.some.injEq] at hsame
  obtain ⟨lineA, hlineA, hreadA⟩ := List.mem_map.1 ha
  obtain ⟨lineB, hlineB, hreadB⟩ := List.mem_map.1 hb
  have hbs : b ∈ (bs.map (reading isWord hint)).filterMap Reading.listener? :=
    mem_listeners.2 (List.mem_map.2 ⟨lineB, List.mem_filter.2 ⟨hlineB, decide_eq_true hreadB⟩, hreadB⟩)
  have hall : ∀ l ∈ (bs.map (reading isWord hint)).filterMap Reading.listener?, l = b := by
    intro l hl
    obtain ⟨line, hline, hread⟩ := List.mem_map.1 (mem_listeners.1 hl)
    exact Reading.listener.inj (hread.symm.trans (of_decide_eq_true (List.mem_filter.1 hline).2))
  have hrest : b ∉ (rest.map (reading isWord hint)).filterMap Reading.listener? := by
    intro hl
    obtain ⟨line, hline, hread⟩ := List.mem_map.1 (mem_listeners.1 hl)
    simp [rest, owned, hread] at hline
  have hrestA : a ∈ (rest.map (reading isWord hint)).filterMap Reading.listener? :=
    mem_listeners.2 (List.mem_map.2
      ⟨lineA, List.mem_filter.2 ⟨hlineA, by simp [owned, hreadA, hne]⟩, hreadA⟩)
  obtain ⟨hfirst, hlast⟩ := tie_first _ _ hkey.symm (List.ne_nil_of_mem hbs) hall hrest hrestA
  rw [← hsame] at hlast
  exact pair_order hne ((sorted_perm _).nodup_iff.2 (List.nodup_dedup _)) hlast hfirst

/-- A listing is read faithfully exactly where every port can be read and, unless a malformed line
rejects it, no two of its listeners share their protocol, family, port and scope. -/
theorem parseListeners_faithful_iff (text : List Char) :
    Faithful isWord hint text ↔ Settled isWord hint text := by
  constructor
  · intro h
    have hreadable := (parseListeners_total isWord hint).1 (h.total insertionOrder)
    refine ⟨hreadable, or_iff_not_imp_left.2 fun hno => ?_⟩
    exact h.untied isWord hint hreadable (mt (mem_malformed isWord hint hreadable).1 hno)
  · exact Settled.faithful isWord hint

end Faithfulness

def asciiWord (c : Char) : Bool := ConfigurationRules.isAlphanumeric c || c == '_'

/-- Two programs that answer to one port. -/
def sharedPort : List (List Char) :=
  ["udp UNCONN 0 0 0.0.0.0:5353 0.0.0.0:* users:((\"avahi-daemon\",pid=1,fd=12))".toList,
   "udp UNCONN 0 0 0.0.0.0:5353 0.0.0.0:* users:((\"chrome\",pid=2,fd=30))".toList]

def raisedPort : List Char := "tcp LISTEN 0 128 127.0.0.1:\u00b2 0.0.0.0:*".toList

theorem sharedPort_unfaithful :
    ¬Faithful asciiWord .ipv4 (unlines sharedPort) ∧ ¬Faithful asciiWord .ipv4 raisedPort := by
  constructor
  · intro h
    have hperm : (splitlines (unlines sharedPort.reverse)).Perm (splitlines (unlines sharedPort)) := by
      decide +kernel
    exact absurd (h.stable insertionOrder _ hperm) (by decide +kernel)
  · intro h
    obtain ⟨r, hr⟩ := h.total insertionOrder
    have hraised : parseListeners insertionOrder asciiWord .ipv4 raisedPort = .error .valueError := by
      decide +kernel
    rw [hraised] at hr
    cases hr

end KitdevSandboxes.ListenerOrders
