import Mathlib.Data.List.Dedup
import Mathlib.Data.List.Sort

/-! Lists without repetitions in ascending order, as `sorted(set(...))` makes them: the list stands
for the set of its elements. -/
namespace KitdevSandboxes.SortedSets

variable {α : Type} [LinearOrder α]

/-- `sorted(set(elements))`. -/
def sortedSet (elements : List α) : List α := elements.dedup.insertionSort (· ≤ ·)

@[simp] theorem mem_sortedSet {elements : List α} {a : α} :
    a ∈ sortedSet elements ↔ a ∈ elements := by
  rw [sortedSet, List.mem_insertionSort, List.mem_dedup]

theorem sortedSet_sorted (elements : List α) : (sortedSet elements).Pairwise (· ≤ ·) :=
  List.pairwise_insertionSort _ _

theorem sortedSet_nodup (elements : List α) : (sortedSet elements).Nodup :=
  (List.perm_insertionSort _ _).nodup_iff.2 (List.nodup_dedup elements)

/-- There is one such list for each set. -/
theorem sorted_ext {as bs : List α} (has : as.Pairwise (· ≤ ·)) (hbs : bs.Pairwise (· ≤ ·))
    (hna : as.Nodup) (hnb : bs.Nodup) (h : ∀ a, a ∈ as ↔ a ∈ bs) : as = bs :=
  ((List.perm_ext_iff_of_nodup hna hnb).2 h).eq_of_pairwise' has hbs

end KitdevSandboxes.SortedSets
