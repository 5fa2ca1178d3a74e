import Mathlib.Tactic.Common

/-!
# Queues that lose items at the front

A queue that pops its front item while that is stale, and then while it holds more than a limit of
items. `evict_fresh_iff` says when no stale item is left: every stale item behind one that is not
stale has to be over the limit.
-/

namespace FrontEviction

variable {α : Type} (stale : α → Bool) (limit : Nat)

/-- What the two loops leave. -/
def evict (queue : List α) : List α :=
  let rest := queue.dropWhile stale
  rest.drop (rest.length - limit)

/-- What the two loops pop. -/
def evicted (queue : List α) : List α :=
  queue.take (queue.length - (evict stale limit queue).length)

/-- Every stale item with one in front of it that is not stale has the limit of items behind it. -/
def InTurn (queue : List α) : Prop :=
  ∀ i j fresh old, i < j → queue[i]? = some fresh → queue[j]? = some old →
    stale fresh = false → stale old = true → j + limit < queue.length

variable {stale limit} {queue : List α}

/-- The two loops pop as many items as the longer of them. -/
theorem evict_eq_drop :
    evict stale limit queue =
      queue.drop (max (queue.findIdx fun item => !stale item) (queue.length - limit)) := by
  unfold evict
  dsimp only
  rw [List.dropWhile_eq_drop_findIdx_not, List.drop_drop, List.length_drop]
  congr 1
  omega

theorem evict_suffix : evict stale limit queue <:+ queue := by
  rw [evict_eq_drop]
  exact List.drop_suffix _ _

theorem length_evict_le : (evict stale limit queue).length ≤ limit := by
  rw [evict_eq_drop, List.length_drop]
  omega

/-- No item is lost or kept twice. -/
theorem evicted_append_evict : evicted stale limit queue ++ evict stale limit queue = queue := by
  obtain ⟨front, hqueue⟩ : evict stale limit queue <:+ queue := evict_suffix
  have hlength := congrArg List.length hqueue
  rw [List.length_append] at hlength
  unfold evicted
  rw [show queue.length - (evict stale limit queue).length = front.length by omega]
  nth_rewrite 1 [← hqueue]
  rw [List.take_left, hqueue]

/-- The items left, by their places in the queue. -/
theorem mem_evict_iff {item : α} :
    item ∈ evict stale limit queue ↔
      ∃ j, queue.findIdx (fun item => !stale item) ≤ j ∧ queue.length - limit ≤ j ∧
        queue[j]? = some item := by
  rw [evict_eq_drop, List.mem_iff_getElem?]
  constructor
  · rintro ⟨k, hk⟩
    rw [List.getElem?_drop] at hk
    exact ⟨_, by omega, by omega, hk⟩
  · rintro ⟨j, hfirst, hlimit, hj⟩
    refine ⟨j - max (queue.findIdx fun item => !stale item) (queue.length - limit), ?_⟩
    rw [List.getElem?_drop]
    convert hj using 2
    omega

/-- The items left are not stale exactly when the stale ones come to the front in turn. -/
theorem evict_fresh_iff :
    (∀ item ∈ evict stale limit queue, stale item = false) ↔ InTurn stale limit queue := by
  constructor
  · intro hkept i j fresh old hij hi hj hfresh hold
    have hfirst : queue.findIdx (fun item => !stale item) ≤ i := by
      by_contra hlater
      obtain ⟨hbound, rfl⟩ := List.getElem?_eq_some_iff.mp hi
      have hstale := List.not_of_lt_findIdx (Nat.not_le.mp hlater)
      rw [hfresh] at hstale
      exact Bool.noConfusion hstale
    by_contra hlimit
    have hmem : old ∈ evict stale limit queue :=
      mem_evict_iff.mpr ⟨j, by omega, by omega, hj⟩
    rw [hkept old hmem] at hold
    exact Bool.false_ne_true hold
  · intro hturn old hmem
    obtain ⟨j, hfirst, hlimit, hj⟩ := mem_evict_iff.mp hmem
    by_contra hold
    rw [Bool.not_eq_false] at hold
    obtain ⟨hbound, rfl⟩ := List.getElem?_eq_some_iff.mp hj
    have hsome : queue.findIdx (fun item => !stale item) < queue.length :=
      Nat.lt_of_le_of_lt hfirst hbound
    have hfresh : stale queue[queue.findIdx fun item => !stale item] = false :=
      Bool.not_eq_true' _ |>.mp (List.findIdx_getElem (w := hsome))
    rcases Nat.eq_or_lt_of_le hfirst with heq | hlt
    · simp [heq, hold] at hfresh
    · have := hturn _ j _ _ hlt (List.getElem?_eq_getElem hsome) hj hfresh hold
      omega

/-- In a queue where nothing stale stands behind what is not, all is in turn. -/
theorem in_turn_of_pairwise (h : queue.Pairwise fun front behind => stale behind → stale front) :
    InTurn stale limit queue := by
  intro i j fresh old hij hi hj hfresh hold
  obtain ⟨hboundi, rfl⟩ := List.getElem?_eq_some_iff.mp hi
  obtain ⟨hboundj, rfl⟩ := List.getElem?_eq_some_iff.mp hj
  have hstale := List.pairwise_iff_getElem.mp h i j hboundi hboundj hij hold
  rw [hfresh] at hstale
  exact absurd hstale Bool.false_ne_true

end FrontEviction
