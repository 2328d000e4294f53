import Mathlib.Data.List.Forall2

/-!
Lists that are related item by item, and options that are related when they hold something: what one
side answers, the other side answers in a related way. In a list of pairs the first pair with a key
answers for it, and in a list that grows at its end every item stays at its place.
-/

namespace Wiring

/-- What stands in a list stands at the same place of a longer one. -/
theorem getElem?_of_grown {α : Type} {first longer : List α} (grows : first <+: longer)
    {index : Nat} {item : α} (found : first[index]? = some item) : longer[index]? = some item := by
  obtain ⟨rest, rfl⟩ := grows
  rw [List.getElem?_append_left (List.getElem?_eq_some_iff.mp found).1, found]

/-- In a list with one more item at its end, an item stood there before or is the last one. -/
theorem getElem?_append_singleton_cases {α : Type} {items : List α} {last item : α} {index : Nat}
    (found : (items ++ [last])[index]? = some item) :
    items[index]? = some item ∨ index = items.length ∧ item = last := by
  rcases Nat.lt_or_ge index items.length with old | new
  · exact .inl ((List.getElem?_append_left old).symm.trans found)
  · rw [List.getElem?_append_right new, List.getElem?_singleton] at found
    split at found
    · exact .inr ⟨by omega, (Option.some.inj found).symm⟩
    · cases found

theorem exists_of_rel_some {α β : Type} {fits : α → β → Prop} {left : α} {right : Option β}
    (rel : Option.Rel fits (some left) right) : ∃ other, right = some other ∧ fits left other := by
  cases rel with
  | some fit => exact ⟨_, rfl, fit⟩

theorem eq_none_of_rel {α β : Type} {fits : α → β → Prop} {right : Option β}
    (rel : Option.Rel fits none right) : right = none := by
  cases rel
  rfl

/-- Items at the same place of two lists are related one by one. -/
theorem rel_getElem? {α β : Type} {fits : α → β → Prop} {left : List α} {right : List β}
    (all : List.Forall₂ fits left right) (index : Nat) :
    Option.Rel fits left[index]? right[index]? := by
  induction all generalizing index with
  | nil => exact .none
  | cons first _ ih =>
    cases index with
    | zero => exact .some first
    | succ index => exact ih index

/-- What stands on the right of two related lists is related to something on the left. -/
theorem exists_of_forall₂_right {α β : Type} {related : α → β → Prop} {left : List α}
    {right : List β} (all : List.Forall₂ related left right) {result : β}
    (member : result ∈ right) : ∃ item ∈ left, related item result := by
  induction all with
  | nil => cases member
  | cons first _ ih =>
    rcases List.mem_cons.mp member with rfl | later
    · exact ⟨_, List.mem_cons_self, first⟩
    · obtain ⟨item, among, rest⟩ := ih later
      exact ⟨item, List.mem_cons_of_mem _ among, rest⟩

/-- Related items that agree on something make lists that agree on it. -/
theorem map_eq_map_of_forall₂ {α β γ : Type} {related : α → β → Prop} {left : List α}
    {right : List β} {first : α → γ} {second : β → γ} (all : List.Forall₂ related left right)
    (agree : ∀ item result, related item result → second result = first item) :
    right.map second = left.map first := by
  induction all with
  | nil => rfl
  | cons one _ ih => rw [List.map_cons, List.map_cons, agree _ _ one, ih]

/-- Lists that are related one by one in two ways are related in both. -/
theorem forall₂_and {α β : Type} {first second : α → β → Prop} {left : List α} {right : List β}
    (all : List.Forall₂ first left right) (others : List.Forall₂ second left right) :
    List.Forall₂ (fun item result => first item result ∧ second item result) left right := by
  induction all with
  | nil => exact .nil
  | cons one _ ih =>
    cases others with
    | cons other rest => exact .cons ⟨one, other⟩ (ih rest)

/-- What is related along two lists, and from their pairs to a third list, is related from the
first list to the third. -/
theorem forall₂_of_zip {α β γ : Type} {near : α → β → Prop} {fits : α × β → γ → Prop}
    {meets : α → γ → Prop} {left : List α} {right : List β} {results : List γ}
    (nears : List.Forall₂ near left right) (all : List.Forall₂ fits (left.zip right) results)
    (step : ∀ first second result, near first second → fits (first, second) result →
      meets first result) : List.Forall₂ meets left results := by
  induction nears generalizing results with
  | nil =>
    cases all
    exact .nil
  | cons first _ ih =>
    cases all with
    | cons here rest => exact .cons (step _ _ _ first here) (ih rest)

/-- Items that are related one by one have related first answers. -/
theorem rel_findSome? {α β γ δ : Type} {fits : γ → δ → Prop} {left : List α} {right : List β}
    {ask : α → Option γ} {ask' : β → Option δ} (all : List.Forall₂
      (fun first second => Option.Rel fits (ask first) (ask' second)) left right) :
    Option.Rel fits (left.findSome? ask) (right.findSome? ask') := by
  induction all with
  | nil => exact .none
  | @cons first second _ _ here _ ih =>
    rw [List.findSome?_cons, List.findSome?_cons]
    generalize ask first = answer at here ⊢
    generalize ask' second = answer' at here ⊢
    cases here with
    | none => exact ih
    | some related => exact .some related

/-- What is found under a key is there, with that key. -/
theorem mem_of_find?_keyed {κ α : Type} [BEq κ] [LawfulBEq κ] {pairs : List (κ × α)} {key : κ}
    {value : α} (found : (pairs.find? fun pair => pair.1 == key).map Prod.snd = some value) :
    (key, value) ∈ pairs := by
  obtain ⟨pair, first, rfl⟩ := Option.map_eq_some_iff.mp found
  obtain rfl : pair.1 = key := by simpa using List.find?_some first
  exact List.mem_of_find?_eq_some first

/-- Lists with the same keys that are related one by one have related first items under a key. -/
theorem rel_find?_of_keyed {κ α β : Type} [BEq κ] [LawfulBEq κ] {fits : κ × α → κ × β → Prop}
    {meets : α → β → Prop} {left : List (κ × α)} {right : List (κ × β)}
    (all : List.Forall₂ fits left right)
    (keyed : ∀ first second, fits first second → second.1 = first.1) {key : κ}
    (fit : ∀ first second, fits first second → first.1 = key → meets first.2 second.2) :
    Option.Rel meets ((left.find? fun pair => pair.1 == key).map Prod.snd)
      ((right.find? fun pair => pair.1 == key).map Prod.snd) := by
  induction all with
  | nil => exact .none
  | @cons first second _ _ here _ ih =>
    rw [List.find?_cons, List.find?_cons, keyed _ _ here]
    cases same : first.1 == key with
    | true => exact .some (fit first second here (by simpa using same))
    | false => exact ih

end Wiring
