import KitdevSandboxes.Checks
import KitdevSandboxes.DoctorComposition
import KitdevSandboxes.IdentityPlans
import KitdevSandboxes.SortedSets
import Mathlib.Data.List.Lex

/-! The mount options of a report: the text that `findmnt` prints is cut at its commas, and of the
options only the keys and a few harmless values are kept, as a sorted set. -/
namespace KitdevSandboxes.MountOptions

open Checks
open ConfigurationRules (isAlphanumeric)
open ConfigurationTrees
open DoctorComposition (Probe)
open IdentityPlans (isSurrogate utf8Size)
open SortedSets

local instance lawfulPoint : LawfulBEq CodePoint := inferInstance

/-! ### `_normalize_mount_options` -/

/-- The `ValueError`s of the function; a lone surrogate raises that of the codec. -/
inductive ValueError
  | message (text : String)
  | unicodeEncode
  deriving DecidableEq

/-- `[A-Za-z0-9._+-]`. -/
def isWordCharacter (c : CodePoint) : Bool :=
  isAlphanumeric c.lossy || "._+-".toList.contains c.lossy

/-- `[A-Za-z0-9._+-]{1,64}`. -/
def isWord (t : Text) : Bool :=
  decide (1 ≤ t.length) && decide (t.length ≤ 64) && t.all isWordCharacter

/-- `_MOUNT_OPTION_RE`. -/
def mountOption (key : Text) : Bool := isWord key

/-- `_SAFE_MOUNT_VALUE_RE`. -/
def safeMountValue (value : Text) : Bool := isWord value

/-- `_SAFE_MOUNT_VALUE_KEYS`. -/
def safeMountValueKeys : List Text :=
  [text "barrier", text "commit", text "data", text "discard", text "errors"]

def maxMountOptions : ℕ := 256

def maxMountOptionBytes : ℕ := 256

def comma : CodePoint := code ','

def equals : CodePoint := code '='

def redacted (key : Text) : Text := key ++ text "=[REDACTED]"

/-- `tuple(filter(None, raw_options.split(",")))`. -/
def rawItems (rawOptions : Text) : List Text :=
  (rawOptions.splitOn comma).filter fun item => !item.isEmpty

/-- One round of the loop: what is kept of an option. -/
def normalizeItem (rawItem : Text) : Except ValueError Text :=
  if rawItem.any isSurrogate then .error .unicodeEncode
  else if maxMountOptionBytes < (rawItem.map utf8Size).sum then
    .error (.message "mount option exceeds byte limit")
  else
    -- `raw_item.partition("=")`
    let key := rawItem.takeWhile fun c => c != equals
    if !mountOption key then .error (.message "invalid mount option key")
    else
      match rawItem.dropWhile fun c => c != equals with
      | [] => .ok key
      | _ :: value =>
        if safeMountValueKeys.contains key && safeMountValue value then .ok (key ++ equals :: value)
        else .ok (redacted key)

def normalizeMountOptions (rawOptions : Text) : Except ValueError (List Text) :=
  if maxMountOptions < (rawItems rawOptions).length then .error (.message "too many mount options")
  else do
    let normalized ← (rawItems rawOptions).mapM normalizeItem
    return sortedSet normalized

/-! ### `_findmnt` -/

/-- `payload["filesystems"][0]`, when it is an object. -/
def firstEntry : Tree → Option (List (Text × Tree))
  | .map members =>
    match Tree.get? (text "filesystems") members with
    | some (.list (.map entry :: _)) => some entry
    | _ => none
  | _ => none

/-- The type and the options of an entry; `none` stands for the exceptions. -/
def readEntry (entry : List (Text × Tree)) : Option (Text × List Text) :=
  match Tree.get? (text "fstype") entry, Tree.get? (text "options") entry with
  | some (.str filesystemType), some (.str rawOptions) =>
    if isWord filesystemType then
      (normalizeMountOptions rawOptions).toOption.map fun options => (filesystemType, options)
    else none
  | _, _ => none

/-- What the output of the command is read as by `json.loads`; `none` is a text that is none. -/
def findmnt (result : Probe (Option Tree)) : Probe Text × Probe (List Text) :=
  match result.status, result.value with
  | .ok, some payload =>
    match (payload.bind firstEntry).bind readEntry with
    | some (filesystemType, options) => (⟨.ok, some filesystemType⟩, ⟨.ok, some options⟩)
    | none => (⟨.error, none⟩, ⟨.error, none⟩)
  | status, _ => (⟨status, none⟩, ⟨status, none⟩)

/-! ### Accepted texts -/

theorem guard_ok {α : Type} {c : Prop} [Decidable c] {e : ValueError} {x : Except ValueError α}
    {a : α} : (if c then .error e else x) = .ok a ↔ ¬c ∧ x = .ok a := by
  by_cases h : c <;> simp [h]

theorem normalizeMountOptions_ok {rawOptions : Text} {options : List Text} :
    normalizeMountOptions rawOptions = .ok options ↔
      (rawItems rawOptions).length ≤ maxMountOptions ∧ ∃ normalized,
        (rawItems rawOptions).mapM normalizeItem = .ok normalized ∧
          sortedSet normalized = options := by
  rw [normalizeMountOptions, guard_ok, Nat.not_lt, bind_ok]
  exact and_congr_right fun _ => exists_congr fun _ => and_congr_right fun _ => pure_ok

/-- What a successful round over the items holds. -/
theorem mem_mapM {ε α β : Type} {f : α → Except ε β} {as : List α} {bs : List β}
    (h : as.mapM f = .ok bs) (b : β) : b ∈ bs ↔ ∃ a ∈ as, f a = .ok b := by
  have hall := mapM_ok.1 h
  constructor
  · intro hb
    obtain ⟨a, ha, hab⟩ := exists_of_forall₂ hall.flip hb
    exact ⟨a, ha, hab⟩
  · rintro ⟨a, ha, hab⟩
    obtain ⟨c, hc, hac⟩ := exists_of_forall₂ hall ha
    obtain rfl := Except.ok.inj (hab.symm.trans hac)
    exact hc

/-- The options that are kept are those of the items, whatever their order and number. -/
theorem mem_normalizeMountOptions {rawOptions : Text} {options : List Text}
    (h : normalizeMountOptions rawOptions = .ok options) (option : Text) :
    option ∈ options ↔ ∃ item ∈ rawItems rawOptions, normalizeItem item = .ok option := by
  obtain ⟨-, normalized, hmap, rfl⟩ := normalizeMountOptions_ok.1 h
  rw [mem_sortedSet, mem_mapM hmap]

theorem normalizeMountOptions_sorted {rawOptions : Text} {options : List Text}
    (h : normalizeMountOptions rawOptions = .ok options) :
    options.Pairwise (· ≤ ·) ∧ options.Nodup := by
  obtain ⟨-, normalized, -, rfl⟩ := normalizeMountOptions_ok.1 h
  exact ⟨sortedSet_sorted normalized, sortedSet_nodup normalized⟩

/-- Two accepted texts with the same kept items are read the same way. -/
theorem normalizeMountOptions_ext {s t : Text} {options options' : List Text}
    (hs : normalizeMountOptions s = .ok options) (ht : normalizeMountOptions t = .ok options')
    (h : ∀ option, (∃ item ∈ rawItems s, normalizeItem item = .ok option) ↔
      ∃ item ∈ rawItems t, normalizeItem item = .ok option) : options = options' := by
  obtain ⟨hsorted, hnodup⟩ := normalizeMountOptions_sorted hs
  obtain ⟨hsorted', hnodup'⟩ := normalizeMountOptions_sorted ht
  refine sorted_ext hsorted hsorted' hnodup hnodup' fun option => ?_
  rw [mem_normalizeMountOptions hs, mem_normalizeMountOptions ht, h]

theorem normalizeMountOptions_sameItems {s t : Text} {options options' : List Text}
    (hs : normalizeMountOptions s = .ok options) (ht : normalizeMountOptions t = .ok options')
    (h : ∀ item, item ∈ rawItems t ↔ item ∈ rawItems s) : options = options' :=
  normalizeMountOptions_ext hs ht fun _ => exists_congr fun item => and_congr_left' (h item).symm

/-- A text with the items in another order is accepted too. -/
theorem normalizeMountOptions_perm {s t : Text} {options : List Text}
    (hs : normalizeMountOptions s = .ok options) (h : (rawItems t).Perm (rawItems s)) :
    normalizeMountOptions t = .ok options := by
  obtain ⟨hlength, normalized, hmap, -⟩ := normalizeMountOptions_ok.1 hs
  have htotal : ∀ item ∈ rawItems t, ∃ option, normalizeItem item = .ok option := by
    intro item hitem
    obtain ⟨option, -, hoption⟩ := exists_of_forall₂ (mapM_ok.1 hmap) (h.mem_iff.1 hitem)
    exact ⟨option, hoption⟩
  obtain ⟨normalized', hmap'⟩ := mapM_total htotal
  have ht := normalizeMountOptions_ok.2 ⟨h.length_eq.trans_le hlength, normalized', hmap', rfl⟩
  rw [ht, normalizeMountOptions_sameItems hs ht fun _ => h.mem_iff]

/-! ### Values that are not kept -/

/-- Two items with the same key, which is not in the list of the safe ones, or one item twice. -/
def SameButValue (a b : Text) : Prop :=
  a = b ∨ ∃ key v w, equals ∉ key ∧ key ∉ safeMountValueKeys ∧
    a = key ++ equals :: v ∧ b = key ++ equals :: w

theorem splitOn_clean {t item : Text} (h : item ∈ t.splitOn comma) : comma ∉ item := by
  induction t generalizing item with
  | nil =>
    rw [List.splitOn_nil, List.mem_singleton] at h
    simp [h]
  | cons c t ih =>
    rw [List.splitOn_cons_eq_if_modifyHead] at h
    split_ifs at h with hc
    · rcases List.mem_cons.1 h with rfl | h
      · simp
      · exact ih h
    · obtain ⟨first, others, hsplit⟩ := List.exists_cons_of_ne_nil (List.splitOn_ne_nil comma t)
      rw [hsplit] at h ih
      rcases List.mem_cons.1 h with rfl | h
      · simp only [List.mem_cons, not_or]
        exact ⟨fun he => hc (by simp [he]), ih List.mem_cons_self⟩
      · exact ih (List.mem_cons_of_mem _ h)

/-- Two texts that differ in the values of such options only. -/
def SameButValues (s t : Text) : Prop :=
  ∃ as bs, s = [comma].intercalate as ∧ t = [comma].intercalate bs ∧
    (∀ item ∈ as ++ bs, comma ∉ item) ∧ List.Forall₂ SameButValue as bs

/-- The items are those between the commas. -/
theorem sameButValues_splitOn {s t : Text}
    (h : List.Forall₂ SameButValue (s.splitOn comma) (t.splitOn comma)) : SameButValues s t := by
  refine ⟨_, _, (List.intercalate_splitOn comma).symm, (List.intercalate_splitOn comma).symm, ?_, h⟩
  rw [List.forall_mem_append]
  exact ⟨fun _ => splitOn_clean, fun _ => splitOn_clean⟩

theorem normalizeItem_hidden {key value option : Text} (hequals : equals ∉ key)
    (hkey : key ∉ safeMountValueKeys) (h : normalizeItem (key ++ equals :: value) = .ok option) :
    option = redacted key := by
  have hpass : ∀ c ∈ key, (c != equals) = true := fun c hc =>
    bne_iff_ne.2 fun he => hequals (he ▸ hc)
  have htake : (key ++ equals :: value).takeWhile (fun c => c != equals) = key := by
    rw [List.takeWhile_append_of_pos hpass, List.takeWhile_cons_of_neg (by simp), List.append_nil]
  have hdrop : (key ++ equals :: value).dropWhile (fun c => c != equals) = equals :: value := by
    rw [List.dropWhile_append_of_pos hpass, List.dropWhile_cons_of_neg (by simp)]
  have hcontains : safeMountValueKeys.contains key = false := by simpa using hkey
  simp only [normalizeItem, guard_ok, htake, hdrop, hcontains, Bool.false_and,
    Bool.false_eq_true, if_false, Except.ok.injEq] at h
  exact h.2.2.2.symm

theorem normalizeItem_same {a b x y : Text} (hab : SameButValue a b)
    (ha : normalizeItem a = .ok x) (hb : normalizeItem b = .ok y) : x = y := by
  rcases hab with rfl | ⟨key, v, w, hequals, hkey, rfl, rfl⟩
  · exact Except.ok.inj (ha.symm.trans hb)
  · rw [normalizeItem_hidden hequals hkey ha, normalizeItem_hidden hequals hkey hb]

theorem sameButValue_isEmpty {a b : Text} (h : SameButValue a b) : a.isEmpty = b.isEmpty := by
  rcases h with rfl | ⟨key, v, w, -, -, rfl, rfl⟩
  · rfl
  · cases key <;> rfl

/-- The items of a text that is put together from items without commas. -/
theorem rawItems_intercalate {items : List Text} (h : ∀ item ∈ items, comma ∉ item) :
    rawItems ([comma].intercalate items) = items.filter fun item => !item.isEmpty := by
  cases items with
  | nil => rfl
  | cons item items => rw [rawItems, List.splitOn_intercalate _ h (List.cons_ne_nil _ _)]

theorem forall₂_filter {as bs : List Text} (h : List.Forall₂ SameButValue as bs) :
    List.Forall₂ SameButValue (as.filter fun item => !item.isEmpty)
      (bs.filter fun item => !item.isEmpty) := by
  induction h with
  | nil => exact .nil
  | @cons a b as bs hab _ ih =>
    rw [List.filter_cons, List.filter_cons, sameButValue_isEmpty hab]
    split_ifs
    · exact .cons hab ih
    · exact ih

theorem rawItems_same {s t : Text} (h : SameButValues s t) :
    List.Forall₂ SameButValue (rawItems s) (rawItems t) := by
  obtain ⟨as, bs, rfl, rfl, hclean, hall⟩ := h
  rw [List.forall_mem_append] at hclean
  rw [rawItems_intercalate hclean.1, rawItems_intercalate hclean.2]
  exact forall₂_filter hall

/-- What the first text keeps the second one keeps. -/
theorem normalizeItem_transfer {s t : Text} {options : List Text} {option : Text}
    (h : List.Forall₂ SameButValue (rawItems s) (rawItems t))
    (ht : normalizeMountOptions t = .ok options)
    (hs : ∃ item ∈ rawItems s, normalizeItem item = .ok option) :
    ∃ item ∈ rawItems t, normalizeItem item = .ok option := by
  obtain ⟨a, ha, hkept⟩ := hs
  obtain ⟨b, hb, hab⟩ := exists_of_forall₂ h ha
  obtain ⟨-, normalized, hmap, -⟩ := normalizeMountOptions_ok.1 ht
  obtain ⟨option', -, hkept'⟩ := exists_of_forall₂ (mapM_ok.1 hmap) hb
  exact ⟨b, hb, normalizeItem_same hab hkept hkept' ▸ hkept'⟩

theorem SameButValue.symm {a b : Text} (h : SameButValue a b) : SameButValue b a := by
  rcases h with rfl | ⟨key, v, w, hequals, hkey, ha, hb⟩
  · exact .inl rfl
  · exact .inr ⟨key, w, v, hequals, hkey, hb, ha⟩

theorem normalizeMountOptions_same {s t : Text} {options options' : List Text}
    (h : SameButValues s t) (hs : normalizeMountOptions s = .ok options)
    (ht : normalizeMountOptions t = .ok options') : options = options' := by
  have hall := rawItems_same h
  have hback : List.Forall₂ SameButValue (rawItems t) (rawItems s) :=
    hall.flip.imp fun _ _ hab => SameButValue.symm hab
  exact normalizeMountOptions_ext hs ht fun _ =>
    ⟨normalizeItem_transfer hall ht, normalizeItem_transfer hback hs⟩

/-- Texts that differ in values that are not kept are read the same way; what a text is read as is
sorted and without repetitions, and stays the same when its options are reordered or repeated. -/
theorem mountOptions_leakFree :
    (∀ s t options options', SameButValues s t → normalizeMountOptions s = .ok options →
      normalizeMountOptions t = .ok options' → options = options') ∧
    ∀ s options, normalizeMountOptions s = .ok options →
      (options.Pairwise (· ≤ ·) ∧ options.Nodup) ∧
      (∀ t, (rawItems t).Perm (rawItems s) → normalizeMountOptions t = .ok options) ∧
      ∀ t options', (∀ item, item ∈ rawItems t ↔ item ∈ rawItems s) →
        normalizeMountOptions t = .ok options' → options' = options := by
  constructor
  · intro s t options options' h hs ht
    exact normalizeMountOptions_same h hs ht
  · intro s options hs
    refine ⟨normalizeMountOptions_sorted hs, fun t h => normalizeMountOptions_perm hs h, ?_⟩
    intro t options' h ht
    exact (normalizeMountOptions_sameItems hs ht h).symm

def labOptions : List Text := [text "password=[REDACTED]", text "rw"]

theorem labOptions_shown : normalizeMountOptions (text "rw,password=a") = .ok labOptions := by
  decide +kernel

theorem mountOptions_leakFree_password :
    normalizeMountOptions (text "rw,password=b=c") = .ok labOptions ∧
      (labOptions.Pairwise (· ≤ ·) ∧ labOptions.Nodup) ∧
      normalizeMountOptions (text "password=a,,rw") = .ok labOptions ∧
      normalizeMountOptions (text "password=a,rw,rw,password=a") = .ok labOptions := by
  have hother : ∃ options, normalizeMountOptions (text "rw,password=b=c") = .ok options :=
    ⟨labOptions, by decide +kernel⟩
  have hrepeated : ∃ options,
      normalizeMountOptions (text "password=a,rw,rw,password=a") = .ok options :=
    ⟨labOptions, by decide +kernel⟩
  obtain ⟨options, hother⟩ := hother
  obtain ⟨options', hrepeated⟩ := hrepeated
  have hsame : SameButValues (text "rw,password=a") (text "rw,password=b=c") := by
    refine sameButValues_splitOn (.cons (.inl rfl) (.cons (.inr ?_) .nil))
    exact ⟨text "password", text "a", text "b=c", by decide, by decide, rfl, rfl⟩
  have hfirst := mountOptions_leakFree.1 _ _ _ _ hsame labOptions_shown hother
  obtain ⟨hsorted, hperm, hset⟩ := mountOptions_leakFree.2 _ _ labOptions_shown
  refine ⟨hfirst ▸ hother, hsorted, hperm _ ?_, ?_⟩
  · exact .swap (text "rw") (text "password=a") []
  · rw [hrepeated, hset _ _ (fun item => ?_) hrepeated]
    have hitems : rawItems (text "password=a,rw,rw,password=a") =
        [text "password=a", text "rw", text "rw", text "password=a"] := rfl
    have hitems' : rawItems (text "rw,password=a") = [text "rw", text "password=a"] := rfl
    rw [hitems, hitems']
    simp only [List.mem_cons, List.not_mem_nil, or_false]
    tauto

/-! ### The report -/

theorem readEntry_some {entry : List (Text × Tree)} {filesystemType : Text} {options : List Text}
    (h : readEntry entry = some (filesystemType, options)) : ∃ rawOptions,
      Tree.get? (text "fstype") entry = some (.str filesystemType) ∧
        Tree.get? (text "options") entry = some (.str rawOptions) ∧
          normalizeMountOptions rawOptions = .ok options := by
  unfold readEntry at h
  split at h
  next kind rawOptions hkind hraw =>
    split_ifs at h
    obtain ⟨options', hoptions, hpair⟩ := Option.map_eq_some_iff.1 h
    obtain ⟨rfl, rfl⟩ := Prod.mk.inj hpair
    cases hnormalized : normalizeMountOptions rawOptions with
    | error e => simp [hnormalized, Except.toOption] at hoptions
    | ok normalized =>
      rw [hnormalized] at hoptions
      obtain rfl := Option.some.inj hoptions
      exact ⟨rawOptions, hkind, hraw, hnormalized⟩
  next => cases h

/-- An entry whose options differ from those of another in such values only is reported like it, or
one of the two is not reported. -/
theorem readEntry_same {entry entry' : List (Text × Tree)} {s t : Text}
    {facts facts' : Text × List Text}
    (htype : Tree.get? (text "fstype") entry = Tree.get? (text "fstype") entry')
    (hs : Tree.get? (text "options") entry = some (.str s))
    (ht : Tree.get? (text "options") entry' = some (.str t)) (h : SameButValues s t)
    (hfacts : readEntry entry = some facts) (hfacts' : readEntry entry' = some facts') :
    facts = facts' := by
  obtain ⟨filesystemType, options⟩ := facts
  obtain ⟨filesystemType', options'⟩ := facts'
  obtain ⟨s', hkind, hs', hoptions⟩ := readEntry_some hfacts
  obtain ⟨t', hkind', ht', hoptions'⟩ := readEntry_some hfacts'
  obtain rfl : s = s' := by simpa using hs.symm.trans hs'
  obtain rfl : t = t' := by simpa using ht.symm.trans ht'
  obtain rfl : filesystemType = filesystemType' := by
    simpa using hkind.symm.trans (htype.trans hkind')
  rw [normalizeMountOptions_same h hoptions hoptions']

end KitdevSandboxes.MountOptions
