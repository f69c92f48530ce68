import KitdevSandboxes.BackupMounts

/-! The mount points of the mount table: what the replacements of `_decode_mount_path` make of the
escapes of the kernel, and in which order they have to come. -/
namespace KitdevSandboxes.MountPaths

open BackupMounts
open FileSystem (Bytes)

/-! ### Escapes of the kernel -/

/-- The bytes that the kernel does not show in a path: the blank, the tab, the line feed and the
backslash. -/
def isMangled (c : UInt8) : Bool := [32, 9, 10, 92].contains c

/-- A backslash and the three octal digits of a byte. -/
def octal (c : UInt8) : Bytes := [92, 48 + c / 64, 48 + c / 8 % 8, 48 + c % 8]

/-- A path as the kernel shows it. -/
def manglePath (path : Bytes) : Bytes := path.flatMap fun c => if isMangled c then octal c else [c]

/-- The replacements one after the other. -/
def decodeWith (order : List (Bytes × UInt8)) (value : Bytes) : Bytes :=
  order.foldl (fun value escape => replace escape.1 [escape.2] value) value

theorem decodeMountPath_eq (value : Bytes) :
    decodeMountPath value = parsePath (decodeWith escapes value) := rfl

theorem manglePath_eq (path : Bytes) : manglePath path = escape path := by
  apply List.flatMap_congr
  intro c _
  by_cases hc : c ∈ ([32, 9, 10, 92] : Bytes)
  · have hmangled : isMangled c = true := List.contains_iff_mem.2 hc
    rw [if_pos hmangled]
    simp only [List.mem_cons, List.not_mem_nil, or_false] at hc
    rcases hc with rfl | rfl | rfl | rfl <;> rfl
  · have hshown : ¬isMangled c = true := fun h => hc (List.contains_iff_mem.1 h)
    rw [if_neg hshown]
    simp only [List.mem_cons, List.not_mem_nil, or_false, not_or] at hc
    obtain ⟨hblank, htab, hfeed, hback⟩ := hc
    simp [escapeWith, escapes, Ne.symm hblank, Ne.symm htab, Ne.symm hfeed, Ne.symm hback]

/-! ### The order of the replacements -/

section
variable {order : List (Bytes × UInt8)}

/-- Codes that are told apart, as are the bytes that they stand for. -/
structure Coding (order : List (Bytes × UInt8)) : Prop where
  codes : ∀ x ∈ order, IsCode x.1
  apart : order.Pairwise fun e x => x.1 ≠ e.1 ∧ x.2 ≠ e.2
  -- only the backslash of a code is itself escaped
  digits : ∀ x ∈ order, ∀ e ∈ order, e.2 ∈ x.1 → e.2 = 92

theorem replace_plain {code decoded text : Bytes} (hcode : IsCode code) (h : (92 : UInt8) ∉ text) :
    replace code decoded text = text := by
  obtain ⟨x, y, z, rfl, -⟩ := hcode
  induction text with
  | nil => rw [replace]
  | cons c text ih =>
    rw [List.mem_cons, not_or] at h
    rw [replace_cons_ne (Ne.symm h.1), ih h.2]

theorem decodeWith_plain {text : Bytes} (hcodes : ∀ x ∈ order, IsCode x.1)
    (h : (92 : UInt8) ∉ text) : decodeWith order text = text := by
  induction order with
  | nil => rfl
  | cons e order ih =>
    rw [List.forall_mem_cons] at hcodes
    rw [decodeWith, List.foldl_cons, replace_plain hcodes.1 h]
    exact ih hcodes.2

/-- The other replacements leave a code as it is. -/
theorem decodeWith_other {code text : Bytes} (hcodes : ∀ x ∈ order, IsCode x.1)
    (hcode : IsCode code) (hne : ∀ x ∈ order, x.1 ≠ code) (h : (92 : UInt8) ∉ text) :
    decodeWith order (code ++ text) = code ++ text := by
  induction order with
  | nil => rfl
  | cons e order ih =>
    rw [List.forall_mem_cons] at hcodes hne
    rw [decodeWith, List.foldl_cons, replace_other hcodes.1 hcode hne.1.symm,
      replace_plain hcodes.1 h]
    exact ih hcodes.2 hne.2

theorem escapeWith_mem (h : Coding order) {e : Bytes × UInt8} (he : e ∈ order) :
    escapeWith order e.2 = e.1 := by
  obtain ⟨before, after, rfl⟩ := List.append_of_mem he
  obtain ⟨-, -, hbefore⟩ := List.pairwise_append.1 h.apart
  have hnone : before.find? (fun x => x.2 = e.2) = none := by
    rw [List.find?_eq_none]
    intro x hx
    simpa using (hbefore x hx e List.mem_cons_self).2.symm
  simp [escapeWith, List.find?_append, hnone]

theorem escapeWith_plain {c : UInt8} (h : ∀ e ∈ order, e.2 ≠ c) : escapeWith order c = [c] := by
  have hnone : order.find? (fun e => e.2 = c) = none := by
    rw [List.find?_eq_none]
    simpa using h
  simp [escapeWith, hnone]

theorem Coding.perm {order' : List (Bytes × UInt8)} (h : Coding order) (hperm : order'.Perm order) :
    Coding order' where
  codes x hx := h.codes x (hperm.mem_iff.1 hx)
  apart := (hperm.pairwise_iff fun hab => ⟨hab.1.symm, hab.2.symm⟩).2 h.apart
  digits x hx e he := h.digits x (hperm.mem_iff.1 hx) e (hperm.mem_iff.1 he)

theorem escapeWith_perm {order' : List (Bytes × UInt8)} (h : Coding order)
    (hperm : order'.Perm order) (c : UInt8) : escapeWith order' c = escapeWith order c := by
  by_cases hc : ∃ e ∈ order, e.2 = c
  · obtain ⟨e, he, rfl⟩ := hc
    rw [escapeWith_mem h he, escapeWith_mem (h.perm hperm) (hperm.mem_iff.2 he)]
  · push Not at hc
    rw [escapeWith_plain hc, escapeWith_plain fun e he => hc e (hperm.mem_iff.1 he)]

/-- What a code in a path becomes when the backslash is replaced before it: the byte of the code. -/
theorem decodeWith_early {before after : List (Bytes × UInt8)} {back e : Bytes × UInt8}
    (h : Coding (before ++ back :: e :: after)) (hback : back.2 = 92) :
    decodeWith (before ++ back :: e :: after)
      (e.1.flatMap (escapeWith (before ++ back :: e :: after))) = [e.2] := by
  set order := before ++ back :: e :: after with horder
  have hmem : back ∈ order := by simp [horder]
  have hmem' : e ∈ order := by simp [horder]
  obtain ⟨hbefore, hafter, hacross⟩ := List.pairwise_append.1 h.apart
  rw [List.pairwise_cons, List.pairwise_cons] at hafter
  have hne : e.2 ≠ 92 := hback ▸ (hafter.1 e List.mem_cons_self).2
  obtain ⟨x, y, z, hcode, hx, hy, hz⟩ := h.codes e hmem'
  have hdigit {d : UInt8} (hd : d ∈ e.1) (h92 : d ≠ 92) : escapeWith order d = [d] :=
    escapeWith_plain fun e' he' heq => h92 (heq ▸ h.digits e hmem' e' he' (heq ▸ hd))
  have hescaped : e.1.flatMap (escapeWith order) = back.1 ++ [x, y, z] := by
    have hfirst : escapeWith order 92 = back.1 := hback ▸ escapeWith_mem h hmem
    have hx' := hdigit (by simp [hcode]) hx
    have hy' := hdigit (by simp [hcode]) hy
    have hz' := hdigit (by simp [hcode]) hz
    rw [hcode]
    simp only [List.flatMap_cons, List.flatMap_nil, hfirst, hx', hy', hz']
    rfl
  have hdigits : (92 : UInt8) ∉ [x, y, z] := by
    simp [hx.symm, hy.symm, hz.symm]
  have hbackCode := h.codes back hmem
  have heCode := h.codes e hmem'
  have hafterCodes : ∀ a ∈ after, IsCode a.1 := fun a ha => h.codes a (by simp [horder, ha])
  calc decodeWith order (e.1.flatMap (escapeWith order))
      = decodeWith (back :: e :: after) (decodeWith before (back.1 ++ [x, y, z])) := by
        rw [hescaped, horder, decodeWith, List.foldl_append]
        rfl
    _ = decodeWith (back :: e :: after) (back.1 ++ [x, y, z]) := by
        rw [decodeWith_other (fun a ha => h.codes a (by simp [horder, ha])) hbackCode
          (fun a ha => (hacross a ha back List.mem_cons_self).1.symm) hdigits]
    _ = decodeWith (e :: after) e.1 := by
        rw [decodeWith, List.foldl_cons, replace_code hbackCode, replace_plain hbackCode hdigits,
          hback, hcode]
        rfl
    _ = decodeWith after [e.2] := by
        have hself := replace_code heCode [e.2] []
        rw [List.append_nil, replace] at hself
        rw [decodeWith, List.foldl_cons, hself]
        rfl
    _ = [e.2] := decodeWith_plain hafterCodes (by simpa using hne.symm)

/-- The replacements undo the escapes of every path exactly when that of the backslash is last. -/
theorem decodeWith_inverts {back : Bytes × UInt8} (h : Coding order) (hmem : back ∈ order)
    (hback : back.2 = 92) :
    (∀ path : Bytes, decodeWith order (path.flatMap (escapeWith order)) = path) ↔
      order.getLast? = some back := by
  constructor
  · intro hinverts
    obtain ⟨before, after, rfl⟩ := List.append_of_mem hmem
    cases after with
    | nil => simp
    | cons e after =>
      have hearly := (hinverts e.1).symm.trans (decodeWith_early h hback)
      obtain ⟨x, y, z, hcode, -⟩ := h.codes e (by simp)
      have hlength := congrArg List.length hearly
      rw [hcode] at hlength
      simp at hlength
  · intro hlast path
    obtain ⟨init, rfl⟩ := List.getLast?_eq_some_iff.1 hlast
    exact replace_stages hback h.codes h.apart path

end

theorem escapes_coding : Coding escapes where
  codes := by
    simp only [escapes, List.forall_mem_cons]
    exact ⟨⟨_, _, _, rfl, by decide⟩, ⟨_, _, _, rfl, by decide⟩, ⟨_, _, _, rfl, by decide⟩,
      ⟨_, _, _, rfl, by decide⟩, by simp⟩
  apart := by decide
  digits := by decide

/-- Of the orders of the four replacements those work that have the backslash last. -/
theorem decodeWith_order {order : List (Bytes × UInt8)} (h : order.Perm escapes) :
    (∀ path, decodeWith order (manglePath path) = path) ↔
      order.getLast? = some ([92, 49, 51, 52], 92) := by
  have hmem : ([92, 49, 51, 52], 92) ∈ order := h.mem_iff.2 (by decide)
  have hsame : escapeWith order = escapeWith escapes := funext (escapeWith_perm escapes_coding h)
  rw [← decodeWith_inverts (escapes_coding.perm h) hmem rfl, hsame]
  exact forall_congr' fun path => by rw [manglePath_eq, escape]

/-! ### The mount points -/

/-- The decoder returns the path that the kernel has escaped, so that a mount point is compared as
it is; what a table is read as are its mount points, or it is not ASCII and nothing is read. -/
theorem mountPath_decoded :
    (∀ path : Bytes, decodeWith escapes (manglePath path) = path ∧
      decodeMountPath (manglePath path) = parsePath path) ∧
    (∀ (root : List FileName) (e : MountEntry),
      nestedIn (absolute root) (decodeMountPath (manglePath e.pointText)) = true ↔
        root <+: e.point ∧ e.point ≠ root) ∧
    ∀ table points, mountPoints (some (render table)) = .ok points →
      points = (table.map fun e => absolute e.point) ∨
        points = [] ∧ ∃ b ∈ render table, 128 ≤ b.toNat := by
  have hdecoded (path : Bytes) : decodeWith escapes (manglePath path) = path :=
    (decodeWith_order (.refl _)).2 rfl path
  have hpath (path : Bytes) : decodeMountPath (manglePath path) = parsePath path := by
    rw [decodeMountPath_eq, hdecoded]
  refine ⟨fun path => ⟨hdecoded path, hpath path⟩, fun root e => ?_, fun table points h => ?_⟩
  · have hpoint : parsePath e.pointText = absolute e.point := parsePath_names e.point
    rw [hpath, hpoint, nestedIn_absolute]
  · by_cases hascii : ∀ b ∈ render table, b.toNat < 128
    · exact .inl (mountPoints_render hascii h)
    · obtain rfl := Except.ok.inj ((mountPoints_unreadable hascii).symm.trans h)
      push Not at hascii
      exact .inr ⟨rfl, hascii⟩

theorem labName_proper : isFileName [92, 48, 52, 48, 32, 97] = true := rfl

theorem labId_keyword : isKeyword [51, 49] = true := rfl

/-- A mount point whose name is a backslash, three digits, a blank and a letter. -/
def labMount : MountEntry :=
  labEntry [51, 49] labId_keyword [⟨[92, 48, 52, 48, 32, 97], labName_proper⟩]

theorem labMount_points :
    mountPoints (some (render [labMount])) = .ok [absolute labMount.point] := by
  decide +kernel

theorem mountPath_decoded_backslash :
    decodeWith escapes (manglePath labMount.pointText) = labMount.pointText ∧
      nestedIn (absolute []) (decodeMountPath (manglePath labMount.pointText)) = true ∧
      ([absolute labMount.point] = ([labMount].map fun e => absolute e.point) ∨
        [absolute labMount.point] = [] ∧ ∃ b ∈ render [labMount], 128 ≤ b.toNat) := by
  obtain ⟨hpath, hnested, htable⟩ := mountPath_decoded
  refine ⟨(hpath _).1, (hnested _ _).2 ⟨List.nil_prefix, by decide⟩, ?_⟩
  exact htable _ _ labMount_points

end KitdevSandboxes.MountPaths
