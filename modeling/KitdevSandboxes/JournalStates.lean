import KitdevSandboxes.JournalFrames

/-! The states of one journal between atomic steps: what is published, and what residue an
interrupted write has left beside it. Each file system edit of the store is a step between
such states. -/
namespace KitdevSandboxes.JournalStates

open FileSystem HostCalls HostFrames
open JournalText (safePathComponent)
open JournalRecords JournalRecords.JournalRecord JournalStores JournalRules JournalFrames

variable {policy : JournalSecurityPolicy} {fs fs' : FS} {d : Path} {filename name temp : Name}
  {allowed : List ℕ} {r : JournalRecord} {published : Option JournalRecord} {i j : Ino}
  {node : Inode}

/-! ### Files of the store -/

/-- The attributes the policy asks of a file. -/
def Owned (policy : JournalSecurityPolicy) (node : Inode) : Prop :=
  node.kind = .regular ∧ node.uid = policy.expectedOwnerUid ∧
    node.gid = policy.expectedOwnerGid ∧ node.mode = policy.fileMode

/-- The inode is a file of the store with the record `r`. -/
structure Holds (policy : JournalSecurityPolicy) (node : Inode) (r : JournalRecord) : Prop where
  owned : Owned policy node
  content : decode node.bytes = .ok r

/-- The caller's own validator, if there is one, has no objections. -/
def Unrestricted (policy : JournalSecurityPolicy) : Prop :=
  ∀ validator, policy.statValidator = some validator →
    ∀ metadata directory, validator metadata directory = true

theorem accepts_iff (hv : Unrestricted policy) {metadata : Stat} {directory : Bool} :
    policy.accepts metadata directory allowed = true ↔
      metadata.kind = (if directory then .directory else .regular) ∧
        metadata.uid = policy.expectedOwnerUid ∧ metadata.gid = policy.expectedOwnerGid ∧
        metadata.mode = (if directory then policy.directoryMode else policy.fileMode) ∧
        (directory = true ∨ metadata.nlink ∈ allowed) := by
  unfold JournalSecurityPolicy.accepts
  cases hs : policy.statValidator with
  | none => simp [and_assoc]
  | some validator => simp [hv validator hs, and_assoc]

theorem accepts_file (hv : Unrestricted policy) :
    policy.accepts (fs.stat i) false allowed = true ↔
      Owned policy (fs.inode i) ∧ fs.nlink i ∈ allowed := by
  simp [accepts_iff hv, FS.stat, Owned, and_assoc]

theorem accepts_directory (hv : Unrestricted policy) (allowed : List ℕ) :
    policy.accepts (fs.stat i) true allowed = true ↔
      (fs.inode i).kind = .directory ∧ (fs.inode i).uid = policy.expectedOwnerUid ∧
        (fs.inode i).gid = policy.expectedOwnerGid ∧
        (fs.inode i).mode = policy.directoryMode := by
  simp [accepts_iff hv, FS.stat]

theorem readable_iff (hv : Unrestricted policy) :
    Readable policy fs d name allowed r i ↔
      fs.entry (name :: d) = some i ∧ Holds policy (fs.inode i) r ∧ fs.nlink i ∈ allowed := by
  constructor
  · rintro ⟨he, ha, hc⟩
    obtain ⟨ho, hn⟩ := (accepts_file hv).1 ha
    exact ⟨he, ⟨ho, hc⟩, hn⟩
  · rintro ⟨he, ⟨ho, hc⟩, hn⟩
    exact ⟨he, (accepts_file hv).2 ⟨ho, hn⟩, hc⟩

/-! ### States -/

/-- What the final name holds. -/
def Final (policy : JournalSecurityPolicy) (fs : FS) (d : Path) (filename : Name) :
    Option JournalRecord → Prop
  | none => fs.entry (filename :: d) = none
  | some r => ∃ i, fs.entry (filename :: d) = some i ∧ Holds policy (fs.inode i) r ∧
      ∀ q, fs.entry q = some i → q = filename :: d

/-- One complete temporary file, under no other name. -/
structure Temp (policy : JournalSecurityPolicy) (fs : FS) (d : Path) (filename temp : Name)
    (i : Ino) (r : JournalRecord) : Prop where
  named : isTempName (tempPrefix filename) temp = true
  entry : fs.entry (temp :: d) = some i
  holds : Holds policy (fs.inode i) r
  alone : ∀ q, fs.entry q = some i → q = temp :: d
  sole : tempNames fs d filename = [temp]

/-- The published file under its temporary name as well. -/
structure Linked (policy : JournalSecurityPolicy) (fs : FS) (d : Path) (filename temp : Name)
    (i : Ino) (r : JournalRecord) : Prop where
  named : isTempName (tempPrefix filename) temp = true
  entry : fs.entry (temp :: d) = some i
  final : fs.entry (filename :: d) = some i
  holds : Holds policy (fs.inode i) r
  alone : ∀ q, fs.entry q = some i → q = temp :: d ∨ q = filename :: d
  sole : tempNames fs d filename = [temp]

inductive Residue
  | none
  | separate (r : JournalRecord)
  | linked

/-- What an exclusive load leaves of the residue. -/
def Residue.unlinked : Residue → Residue
  | .linked => .none
  | residue => residue

/-- The state of the journal: the published record and the residue. -/
def State (policy : JournalSecurityPolicy) (fs : FS) (d : Path) (filename : Name)
    (published : Option JournalRecord) : Residue → Prop
  | .none => Final policy fs d filename published ∧ tempNames fs d filename = []
  | .separate r => Final policy fs d filename published ∧ ∃ t i, Temp policy fs d filename t i r
  | .linked => ∃ r t i, published = some r ∧ Linked policy fs d filename t i r

theorem tempNames_of_state {residue : Residue}
    (h : State policy fs d filename published residue) :
    tempNames fs d filename = [] ∨
      ∃ t, tempNames fs d filename = [t] ∧ isTempName (tempPrefix filename) t = true := by
  cases residue with
  | none => exact .inl h.2
  | separate r =>
    obtain ⟨-, t, i, ht⟩ := h
    exact .inr ⟨t, ht.sole, ht.named⟩
  | linked =>
    obtain ⟨r, t, i, -, ht⟩ := h
    exact .inr ⟨t, ht.sole, ht.named⟩

theorem temp_ne_final (hn : isTempName (tempPrefix filename) temp = true) :
    temp :: d ≠ filename :: d := by
  intro h
  have := hasPrefix_of_isTempName hn
  rw [(List.cons.inj h).1, not_hasPrefix_filename] at this
  cases this

theorem content_of_final (h : Final policy fs d filename published) :
    match published with
    | none => content fs d filename = none
    | some r => ∃ raw, content fs d filename = some raw ∧ decode raw = .ok r := by
  cases published with
  | none => simp [content, FS.node, show fs.entry (filename :: d) = none from h]
  | some r =>
    obtain ⟨i, hi, hh, -⟩ := h
    exact ⟨_, by rw [content, FS.node_of_entry hi]; rfl, hh.content⟩

theorem Temp.nlink (h : Temp policy fs d filename temp i r) : fs.nlink i = 1 :=
  (FS.nlink_eq_one (by rw [h.holds.owned.1]; decide) h.entry).2 h.alone

theorem Linked.nlink (h : Linked policy fs d filename temp i r) : fs.nlink i = 2 :=
  (FS.nlink_eq_two (by rw [h.holds.owned.1]; decide) h.entry h.final (temp_ne_final h.named)).2
    h.alone

theorem Final.readable (allowed : List ℕ) (hv : Unrestricted policy)
    (h : Final policy fs d filename (some r)) (ha : 1 ∈ allowed) :
    ∃ i, Readable policy fs d filename allowed r i ∧ fs.nlink i = 1 := by
  obtain ⟨i, hi, hh, halone⟩ := h
  have hn : fs.nlink i = 1 := (FS.nlink_eq_one (by rw [hh.owned.1]; decide) hi).2 halone
  exact ⟨i, (readable_iff hv).2 ⟨hi, hh, hn ▸ ha⟩, hn⟩

theorem Temp.readable (allowed : List ℕ) (hv : Unrestricted policy)
    (h : Temp policy fs d filename temp i r) (ha : 1 ∈ allowed) :
    Readable policy fs d temp allowed r i := (readable_iff hv).2 ⟨h.entry, h.holds, h.nlink ▸ ha⟩

theorem Linked.readable (allowed : List ℕ) (hv : Unrestricted policy)
    (h : Linked policy fs d filename temp i r) (ha : 2 ∈ allowed) :
    Readable policy fs d filename allowed r i ∧ Readable policy fs d temp allowed r i :=
  ⟨(readable_iff hv).2 ⟨h.final, h.holds, h.nlink ▸ ha⟩,
    (readable_iff hv).2 ⟨h.entry, h.holds, h.nlink ▸ ha⟩⟩

/-! ### Edits -/

/-- Edits of temporary names keep what is published. -/
theorem final_of_frame (h : Final policy fs d filename published)
    (hf : Frame (TempPath d filename) fs fs')
    (hnew : ∀ n i, hasPrefix (tempPrefix filename) n = true → fs'.entry (n :: d) = some i →
      ∀ j, fs.entry (filename :: d) = some j → i ≠ j) :
    Final policy fs' d filename published := by
  have hp := not_tempPath_final d filename
  cases published with
  | none => exact (hf.entry hp).trans h
  | some r =>
    obtain ⟨i, hi, hh, halone⟩ := h
    refine ⟨i, (hf.entry hp).trans hi, (hf.inode hp hi).symm ▸ hh, fun q hq => ?_⟩
    by_cases hq' : TempPath d filename q
    · obtain ⟨n, rfl, hn⟩ := hq'
      exact absurd rfl (hnew n i hn hq i hi)
    · exact halone q ((hf.entry hq').symm.trans hq)

theorem temp_entry_ne_final (hfinal : Final policy fs d filename published)
    (hn : hasPrefix (tempPrefix filename) name = true) (he : fs.entry (name :: d) = some i)
    (hj : fs.entry (filename :: d) = some j) : i ≠ j := by
  rintro rfl
  cases published with
  | none => cases hj.symm.trans hfinal
  | some r =>
    obtain ⟨k, hk, -, halone⟩ := hfinal
    obtain rfl : i = k := Option.some.inj (hj.symm.trans hk)
    have := halone _ he
    rw [(List.cons.inj this).1, not_hasPrefix_filename] at hn
    cases hn

theorem tempNames_update_none {p : Path} (hp : p = temp :: d)
    (he : fs'.entry = Function.update fs.entry p none)
    (hs : tempNames fs d filename = [temp]) : tempNames fs' d filename = [] := by
  subst hp
  rw [tempNames_eq_nil]
  intro n hn
  rw [he]
  by_cases hnt : n = temp
  · rw [hnt, Function.update_self]
  · rw [Function.update_of_ne (by simpa using hnt)]
    by_contra hsome
    obtain ⟨i, hi⟩ := Option.ne_none_iff_exists'.1 hsome
    have : n ∈ tempNames fs d filename := mem_tempNames.2 ⟨⟨i, hi⟩, hn⟩
    rw [hs, List.mem_singleton] at this
    exact hnt this

/-- Removing the temporary file of an interrupted write. -/
theorem Temp.unlink (h : Temp policy fs d filename temp i r)
    (hfinal : Final policy fs d filename published) (hu : fs.unlink (temp :: d) = .ok fs') :
    State policy fs' d filename published .none := by
  obtain ⟨-, -, -, he, -⟩ := FS.unlink_ok hu
  have hn := hasPrefix_of_isTempName h.named
  refine ⟨final_of_frame hfinal (Frame.of_unlink hu (tempPath hn)) fun n k hk hk' j hj => ?_,
    tempNames_update_none rfl he h.sole⟩
  rw [he] at hk'
  by_cases hnt : n = temp
  · rw [hnt, Function.update_self] at hk'
    cases hk'
  · rw [Function.update_of_ne (by simpa using hnt)] at hk'
    exact temp_entry_ne_final hfinal hk hk' hj

/-- Removing the temporary name of a published file. -/
theorem Linked.unlink (h : Linked policy fs d filename temp i r)
    (hu : fs.unlink (temp :: d) = .ok fs') : State policy fs' d filename (some r) .none := by
  obtain ⟨-, -, -, he, hi⟩ := FS.unlink_ok hu
  have hne := temp_ne_final (d := d) h.named
  refine ⟨⟨i, ?_, hi ▸ h.holds, fun q hq => ?_⟩, tempNames_update_none rfl he h.sole⟩
  · rw [he, Function.update_of_ne hne.symm, h.final]
  · rw [he] at hq
    by_cases hqt : q = temp :: d
    · rw [hqt, Function.update_self] at hq
      cases hq
    · rw [Function.update_of_ne hqt] at hq
      exact (h.alone q hq).resolve_left hqt

/-- Linking a complete temporary file to the free final name. -/
theorem Temp.link (h : Temp policy fs d filename temp i r)
    (hl : fs.link (temp :: d) d filename = .ok fs') : Linked policy fs' d filename temp i r := by
  obtain ⟨j, hj, -, -, he, hi⟩ := FS.link_ok hl
  obtain rfl : i = j := Option.some.inj (h.entry.symm.trans hj)
  have hne := temp_ne_final (d := d) h.named
  have hn := hasPrefix_of_isTempName h.named
  have hentry : fs'.entry (temp :: d) = some i := by rw [he, Function.update_of_ne hne, h.entry]
  refine ⟨h.named, hentry, by rw [he, Function.update_self], hi ▸ h.holds, fun q hq => ?_, ?_⟩
  · by_cases hqf : q = filename :: d
    · exact .inr hqf
    · rw [he, Function.update_of_ne hqf] at hq
      exact .inl (h.alone q hq)
  · rw [tempNames_eq_singleton hn hentry]
    intro n hnp hnt
    have hnf : n :: d ≠ filename :: d := by
      intro heq
      rw [(List.cons.inj heq).1, not_hasPrefix_filename] at hnp
      cases hnp
    rw [he, Function.update_of_ne hnf]
    exact (tempNames_eq_singleton hn h.entry).1 h.sole n hnp hnt

/-- Renaming a complete temporary file over the final name. -/
theorem Temp.rename (h : Temp policy fs d filename temp i r)
    (hr : fs.rename (temp :: d) d filename = .ok fs') :
    State policy fs' d filename (some r) .none := by
  obtain ⟨j, hj, -, -, -, hi, hcase⟩ := FS.rename_ok hr
  obtain rfl : i = j := Option.some.inj (h.entry.symm.trans hj)
  have hne := temp_ne_final (d := d) h.named
  obtain ⟨hfinal, -⟩ | ⟨-, he⟩ := hcase
  · exact absurd (h.alone _ hfinal) hne.symm
  · refine ⟨⟨i, ?_, hi ▸ h.holds, fun q hq => ?_⟩, ?_⟩
    · rw [he, Function.update_of_ne hne.symm, Function.update_self]
    · by_contra hqf
      rw [he] at hq
      by_cases hqt : q = temp :: d
      · rw [hqt, Function.update_self] at hq
        cases hq
      · rw [Function.update_of_ne hqt, Function.update_of_ne hqf] at hq
        exact hqt (h.alone q hq)
    · rw [tempNames_eq_nil]
      intro n hnp
      have hnf : n :: d ≠ filename :: d := by
        intro heq
        rw [(List.cons.inj heq).1, not_hasPrefix_filename] at hnp
        cases hnp
      rw [he]
      by_cases hnt : n = temp
      · rw [hnt, Function.update_self]
      · rw [Function.update_of_ne (by simpa using hnt), Function.update_of_ne hnf]
        exact (tempNames_eq_singleton (hasPrefix_of_isTempName h.named) h.entry).1 h.sole n hnp hnt

/-- A temporary file just created in a directory without residue. -/
theorem final_of_create (hfinal : Final policy fs d filename published)
    (hnil : tempNames fs d filename = []) (hn : hasPrefix (tempPrefix filename) temp = true)
    (hc : fs.create d temp node = .ok fs') :
    Final policy fs' d filename published ∧ tempNames fs' d filename = [temp] := by
  obtain ⟨-, he, -⟩ := FS.create_ok hc
  have hentry : fs'.entry (temp :: d) = some fs.next := by rw [he, Function.update_self]
  have hother : ∀ n, n ≠ temp → fs'.entry (n :: d) = fs.entry (n :: d) := by
    intro n hnt
    rw [he, Function.update_of_ne (by simpa using hnt)]
  refine ⟨final_of_frame hfinal (Frame.of_create hc (tempPath hn)) fun n k hk hk' j hj => ?_,
    (tempNames_eq_singleton hn hentry).2 fun n hnp hnt => ?_⟩
  · by_cases hnt : n = temp
    · rw [hnt, hentry, Option.some.injEq] at hk'
      exact hk' ▸ (FS.entry_ne_next hj).symm
    · rw [hother n hnt, tempNames_eq_nil.1 hnil n hk] at hk'
      cases hk'
  · rw [hother n hnt]
    exact tempNames_eq_nil.1 hnil n hnp

end KitdevSandboxes.JournalStates
