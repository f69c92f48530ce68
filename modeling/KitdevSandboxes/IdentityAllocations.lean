import KitdevSandboxes.IdentityGates
import Mathlib.Data.Finset.Card
import Mathlib.Order.Interval.Finset.Basic
import Mathlib.Data.Int.Interval

/-! Which ids an open identity plan allocates: the first free ones of the band, or those of the
manifest. -/
namespace KitdevSandboxes.IdentityPlans

open Checks ConfigurationRules ConfigurationTrees
open PreflightChecks (HostFacts)

/-! ### First free ids -/

theorem allocateFrom_eq {occupied : List ℤ} {count : ℕ} (candidates : List ℤ)
    {available : List ℤ} (h : available.length < count) :
    allocateFrom occupied count available candidates =
      if count ≤ available.length + (candidates.filter (· ∉ occupied)).length then
        some (available ++ (candidates.filter (· ∉ occupied)).take (count - available.length))
      else none := by
  induction candidates generalizing available with
  | nil =>
    rw [List.filter_nil, List.length_nil, if_neg (by omega), allocateFrom]
  | cons candidate candidates ih =>
    rw [allocateFrom]
    by_cases hoccupied : candidate ∈ occupied
    · rw [if_pos hoccupied, ih h, List.filter_cons_of_neg (by simpa using hoccupied)]
    · rw [if_neg hoccupied, List.filter_cons_of_pos (by simpa using hoccupied)]
      have hlength : (available ++ [candidate]).length = available.length + 1 := by simp
      split_ifs with hcount hroom hroom
      · have hone : count - available.length = 1 := by omega
        rw [hone, List.take_succ_cons, List.take_zero]
      · rw [List.length_cons] at hroom
        omega
      · have hless : (available ++ [candidate]).length < count := by omega
        have hstep : count - available.length = count - (available ++ [candidate]).length + 1 := by
          omega
        rw [List.length_cons] at hroom
        rw [ih hless, if_pos (by omega), hstep, List.take_succ_cons, List.append_assoc,
          List.singleton_append]
      · have hless : (available ++ [candidate]).length < count := by omega
        rw [List.length_cons] at hroom
        rw [ih hless, if_neg (by omega)]

/-- An id of the band that is neither taken nor a container's. -/
def Free (occupied : List ℤ) (id : ℤ) : Prop := isServiceId id ∧ id ∉ occupied

/-- The three smallest free ids, in order. -/
structure FirstThree (occupied ids : List ℤ) : Prop where
  length : ids.length = 3
  ascending : ids.Pairwise (· < ·)
  free : ∀ id ∈ ids, Free occupied id
  least : ∀ id, Free occupied id → id ∉ ids → ∀ taken ∈ ids, taken < id

theorem mem_band {first last id : ℤ} : id ∈ band first last ↔ first ≤ id ∧ id ≤ last := by
  simp only [band, List.mem_map, List.mem_range]
  constructor
  · rintro ⟨i, hi, rfl⟩
    omega
  · intro h
    exact ⟨(id - first).toNat, by omega, by omega⟩

theorem band_pairwise (first last : ℤ) : (band first last).Pairwise (· < ·) := by
  rw [band, List.pairwise_map]
  refine List.pairwise_lt_range.imp ?_
  intro i j hij
  omega

theorem mem_free {occupied : List ℤ} {id : ℤ} :
    id ∈ (band serviceIdMin serviceIdMax).filter (· ∉ occupied ++ containerRuntimeIds) ↔
      Free occupied id := by
  rw [List.mem_filter, mem_band, decide_eq_true_eq, List.mem_append, not_or, Free, isServiceId]
  tauto

theorem firstFree_ok {occupied ids : List ℤ} (h : firstFree occupied = some ids) :
    FirstThree occupied ids := by
  rw [firstFree, allocate, allocateFrom_eq _ (by decide)] at h
  split_ifs at h with hroom
  obtain rfl := Option.some.inj h
  rw [List.nil_append, List.length_nil, Nat.sub_zero]
  rw [List.length_nil, Nat.zero_add] at hroom
  have hsorted := (band_pairwise serviceIdMin serviceIdMax).filter
    (fun id => decide (id ∉ occupied ++ containerRuntimeIds))
  have hsplit := List.take_append_drop serviceNames.length
    ((band serviceIdMin serviceIdMax).filter (· ∉ occupied ++ containerRuntimeIds))
  refine ⟨by rw [List.length_take, Nat.min_eq_left hroom]; rfl, hsorted.take, fun id hid => ?_,
    fun id hid htaken taken hmem => ?_⟩
  · exact mem_free.1 (List.mem_of_mem_take hid)
  · have hdrop := mem_free.2 hid
    rw [← hsplit, List.mem_append] at hdrop
    rw [← hsplit, List.pairwise_append] at hsorted
    exact hsorted.2.2 taken hmem id (hdrop.resolve_left htaken)

theorem firstFree_congr {occupied occupied' : List ℤ} (h : ∀ id, id ∈ occupied ↔ id ∈ occupied') :
    firstFree occupied = firstFree occupied' := by
  have hfilter : (band serviceIdMin serviceIdMax).filter (· ∉ occupied ++ containerRuntimeIds) =
      (band serviceIdMin serviceIdMax).filter (· ∉ occupied' ++ containerRuntimeIds) :=
    List.filter_congr fun id _ => by simp [h id]
  rw [firstFree, firstFree, allocate, allocate, allocateFrom_eq _ (by decide),
    allocateFrom_eq _ (by decide), hfilter]

/-! ### The manifest -/

/-- Allocations that respect the contract of the band. -/
structure Sound (items : List IdentityAllocation) : Prop where
  uids : ∀ item ∈ items, isServiceId item.uid
  gids : ∀ item ∈ items, isServiceId item.gid
  uidsDistinct : (items.map IdentityAllocation.uid).Nodup
  gidsDistinct : (items.map IdentityAllocation.gid).Nodup

theorem foldlM_mapEntry {seen items byName : List IdentityAllocation}
    (h : items.foldlM mapEntry seen = some byName) (hseen : Sound seen)
    (hnames : (seen.map IdentityAllocation.name).Nodup ∧ ∀ item ∈ seen, item.name ∈ serviceNames) :
    byName = seen ++ items ∧ Sound byName ∧ (byName.map IdentityAllocation.name).Nodup ∧
      ∀ item ∈ byName, item.name ∈ serviceNames := by
  induction items generalizing seen with
  | nil =>
    obtain rfl := Option.some.inj h
    exact ⟨by simp, hseen, hnames⟩
  | cons item items ih =>
    rw [List.foldlM_cons] at h
    obtain ⟨seen', hitem, h⟩ := Option.bind_eq_some_iff.1 h
    unfold mapEntry at hitem
    split_ifs at hitem with hinvalid
    obtain rfl := Option.some.inj hitem
    simp only [not_or, not_not] at hinvalid
    obtain ⟨hservice, hname, huid, hgid, huids, hgids⟩ := hinvalid
    have hconcat {β : Type} [DecidableEq β] {f : IdentityAllocation → β}
        (hnodup : (seen.map f).Nodup) (hnew : f item ∉ seen.map f) :
        ((seen ++ [item]).map f).Nodup := by
      rw [List.map_append, List.map_singleton, List.nodup_append_comm, List.singleton_append]
      exact List.nodup_cons.2 ⟨hnew, hnodup⟩
    have hforall {P : IdentityAllocation → Prop} (hall : ∀ i ∈ seen, P i) (hnew : P item) :
        ∀ i ∈ seen ++ [item], P i := by
      rw [List.forall_mem_append]
      exact ⟨hall, by simpa using hnew⟩
    have hall := ih h
      ⟨hforall hseen.uids huid, hforall hseen.gids hgid, hconcat hseen.uidsDistinct huids,
        hconcat hseen.gidsDistinct hgids⟩ ⟨hconcat hnames.1 hname, hforall hnames.2 hservice⟩
    rwa [List.append_assoc, List.singleton_append] at hall

theorem serviceNames_nodup : serviceNames.Nodup := by decide

theorem Sound.perm {items items' : List IdentityAllocation} (h : Sound items)
    (hperm : items.Perm items') : Sound items' where
  uids item hitem := h.uids item (hperm.mem_iff.2 hitem)
  gids item hitem := h.gids item (hperm.mem_iff.2 hitem)
  uidsDistinct := (hperm.map _).nodup_iff.1 h.uidsDistinct
  gidsDistinct := (hperm.map _).nodup_iff.1 h.gidsDistinct

/-- The first entries of names that all have one. -/
theorem filterMap_find? {names : List Text} {items : List IdentityAllocation}
    (h : ∀ name ∈ names, ∃ item ∈ items, item.name = name) :
    (names.filterMap fun name => items.find? fun item => item.name = name).map
        IdentityAllocation.name = names ∧
      (names.filterMap fun name => items.find? fun item => item.name = name) ⊆ items := by
  induction names with
  | nil => exact ⟨rfl, by simp⟩
  | cons name names ih =>
    rw [List.forall_mem_cons] at h
    obtain ⟨hnames, hmem⟩ := ih h.2
    have hsome : (items.find? fun item => item.name = name).isSome = true :=
      List.find?_isSome.2 (by simpa using h.1)
    obtain ⟨item, hitem⟩ := Option.isSome_iff_exists.1 hsome
    have hname : item.name = name := by simpa using List.find?_some hitem
    rw [List.filterMap_cons]
    simp only [hitem]
    rw [List.map_cons, hnames, hname]
    exact ⟨rfl, List.cons_subset.2 ⟨List.mem_of_find?_eq_some hitem, hmem⟩⟩

theorem filterMap_find?_self {items : List IdentityAllocation}
    (hnodup : (items.map IdentityAllocation.name).Nodup) :
    ((items.map IdentityAllocation.name).filterMap fun name =>
      items.find? fun item => item.name = name) = items := by
  have hfind : ∀ item ∈ items, (items.find? fun i => i.name = item.name) = some item := by
    intro item hitem
    have hsome : (items.find? fun i => i.name = item.name).isSome = true :=
      List.find?_isSome.2 ⟨item, hitem, by simp⟩
    obtain ⟨found, hfound⟩ := Option.isSome_iff_exists.1 hsome
    rw [hfound, List.inj_on_of_nodup_map hnodup (List.mem_of_find?_eq_some hfound) hitem
      (by simpa using List.find?_some hfound)]
  rw [List.filterMap_map]
  exact (List.filterMap_congr fun item hitem => hfind item hitem).trans (by simp)

theorem mapEntry_total {seen items : List IdentityAllocation} (hsound : Sound (seen ++ items))
    (hnodup : ((seen ++ items).map IdentityAllocation.name).Nodup)
    (hservices : ∀ item ∈ seen ++ items, item.name ∈ serviceNames) :
    items.foldlM mapEntry seen = some (seen ++ items) := by
  induction items generalizing seen with
  | nil => simp
  | cons item items ih =>
    have hitem : item ∈ seen ++ item :: items := by simp
    have hnew {β : Type} {f : IdentityAllocation → β}
        (hnodup : ((seen ++ item :: items).map f).Nodup) : f item ∉ seen.map f := by
      rw [List.map_append, List.map_cons, List.nodup_append] at hnodup
      exact fun hmem => hnodup.2.2 _ hmem _ List.mem_cons_self rfl
    have hentry : mapEntry seen item = some (seen ++ [item]) := by
      refine if_neg ?_
      simp only [not_or, not_not]
      exact ⟨hservices item hitem, hnew hnodup, hsound.uids item hitem, hsound.gids item hitem,
        hnew hsound.uidsDistinct, hnew hsound.gidsDistinct⟩
    rw [List.foldlM_cons, hentry]
    have hsplit : seen ++ [item] ++ items = seen ++ item :: items := by simp
    rw [← hsplit] at hsound hnodup hservices ⊢
    exact ih hsound hnodup hservices

theorem manifestMapping_ok {value mapping : List IdentityAllocation}
    (h : manifestMapping value = .ok mapping) :
    mapping.map IdentityAllocation.name = serviceNames ∧ mapping.Perm value ∧ Sound mapping := by
  unfold manifestMapping at h
  split_ifs at h with hlength
  rw [ne_eq, not_not] at hlength
  cases hfold : value.foldlM mapEntry [] with
  | none =>
    rw [hfold] at h
    cases h
  | some byName =>
    obtain ⟨hbyName, hsound, hnodup, hservices⟩ := foldlM_mapEntry hfold
      ⟨by simp, by simp, by simp, by simp⟩ ⟨by simp, by simp⟩
    rw [List.nil_append] at hbyName
    subst hbyName
    rw [hfold] at h
    simp only at h
    split_ifs at h with hcover
    obtain rfl := Except.ok.inj h
    have hall : ∀ name ∈ serviceNames, ∃ item ∈ byName, item.name = name := fun name hname => by
      simpa using List.all_eq_true.1 hcover name hname
    obtain ⟨hnames, hmem⟩ := filterMap_find? hall
    have hnodup' : (serviceNames.filterMap fun name =>
        byName.find? fun item => item.name = name).Nodup :=
      List.Nodup.of_map IdentityAllocation.name (by rw [hnames]; exact serviceNames_nodup)
    have hperm := (List.subperm_of_subset hnodup' hmem).perm_of_length_le (by
      rw [hlength, ← List.length_map (f := IdentityAllocation.name), hnames])
    exact ⟨hnames, hperm, hsound.perm hperm.symm⟩

/-- A mapping of all services in their order is read as it is. -/
theorem manifestMapping_self {mapping : List IdentityAllocation}
    (hnames : mapping.map IdentityAllocation.name = serviceNames) (hsound : Sound mapping) :
    manifestMapping mapping = .ok mapping := by
  have hnodup : (mapping.map IdentityAllocation.name).Nodup := hnames ▸ serviceNames_nodup
  have hservices : ∀ item ∈ mapping, item.name ∈ serviceNames := fun item hitem =>
    hnames ▸ List.mem_map_of_mem hitem
  have hlength : mapping.length = serviceNames.length := by
    rw [← hnames, List.length_map]
  have hcover : (serviceNames.all fun name => mapping.any fun item => item.name = name) = true := by
    rw [← hnames]
    simp only [List.all_eq_true, List.mem_map, List.any_eq_true, decide_eq_true_eq]
    rintro name ⟨item, hitem, rfl⟩
    exact ⟨item, hitem, rfl⟩
  have hfind : (serviceNames.filterMap fun name => mapping.find? fun item => item.name = name) =
      mapping := by
    rw [← hnames]
    exact filterMap_find?_self hnodup
  have hfold : mapping.foldlM mapEntry [] = some mapping :=
    mapEntry_total (List.nil_append mapping ▸ hsound) hnodup hservices
  rw [manifestMapping, if_neg (not_not.2 hlength), hfold]
  simp only [hcover, if_true, hfind]

end KitdevSandboxes.IdentityPlans
