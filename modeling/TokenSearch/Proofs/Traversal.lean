/-!
# Lists that are gone through

A list is gone through item by item. There is a list of results if each of its items has one, and
otherwise there is nothing.
-/

namespace TokenSearch

variable {α β γ : Type}

/-- A list is gone through when each of its items has a result. -/
theorem mapM_eq_some {items : List α} {read? : α → Option β} {result : α → β}
    (h : ∀ item ∈ items, read? item = some (result item)) :
    items.mapM read? = some (items.map result) := by
  induction items with
  | nil => rfl
  | cons item items ih =>
    obtain ⟨hitem, hitems⟩ := List.forall_mem_cons.mp h
    rw [List.mapM_cons, hitem, ih hitems]
    rfl

/-- A list is not gone through when one of its items has no result. -/
theorem mapM_eq_none {items : List α} {read? : α → Option β} {item : α}
    (hitem : item ∈ items) (h : read? item = none) : items.mapM read? = none := by
  induction items with
  | nil => cases hitem
  | cons first items ih =>
    rw [List.mapM_cons]
    rcases List.mem_cons.mp hitem with rfl | hitems
    · rw [h]
      rfl
    · rw [ih hitems]
      cases read? first <;> rfl

/-- A list in which each item is read back is read back. -/
theorem mapM_map_some {write : α → β} {read? : β → Option γ} {result : α → γ}
    (h : ∀ a, read? (write a) = some (result a)) (items : List α) :
    (items.map write).mapM read? = some (items.map result) := by
  rw [List.mapM_map]
  exact mapM_eq_some fun item _ => h item

end TokenSearch
