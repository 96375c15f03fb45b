import Mathlib.Data.List.Sort
import Mathlib.Order.Compare

/-!
# Paging through a sorted list

A sorted list is served page by page: each page names the last item it shows, and the next page is
what compares greater than that item. Nothing is kept between two pages, so the pages fit together
for one reason only: in a list that is sorted strictly, what compares greater than an item is what
comes after it.

## Main definitions

* `Paging.page` — one page, and the item to go on from
* `Paging.follow` — ask for pages until none is announced
* `Paging.Serves` — a server answers with the pages of a list

## Main results

* `Paging.remaining_split`, `Paging.remaining_take` — what remains after an item, and after a page
* `Paging.Serves.follow_eq` — following the pages terminates and shows every item once, in order
-/

namespace Paging

variable {α β κ ε : Type} (cmp : α → α → Ordering)

/-- The items after a cursor. -/
def remaining (items : List α) : Option α → List α
  | none => items
  | some cursor => items.filter fun item => cmp item cursor = .gt

/-- A page of at most `limit` items after a cursor, and the item to go on from if there are more. -/
def page (items : List α) (after : Option α) (limit : ℕ) : List α × Option α :=
  ((remaining cmp items after).take limit,
    if limit < (remaining cmp items after).length then
      ((remaining cmp items after).take limit).getLast?
    else none)

/-- Ask for pages until none is announced, each time with the next limit: the pages, or nothing
where `fuel` requests were not enough. -/
def follow (serve : Option κ → ℕ → Except ε (List β × Option κ)) :
    ℕ → (ℕ → ℕ) → Option κ → Except ε (Option (List (List β)))
  | 0, _, _ => .ok none
  | fuel + 1, limits, cursor => do
    let (shown, next) ← serve cursor (limits 0)
    match next with
    | none => return some [shown]
    | some next => do
      let rest ← follow serve fuel (fun i => limits (i + 1)) (some next)
      return rest.map (shown :: ·)

/-! ### Sorting by a comparison -/

/-- What a comparison sorts is sorted. -/
theorem pairwise_insertionSort [Std.TransCmp cmp] (items : List α) :
    (items.insertionSort (cmp · · ≠ .gt)).Pairwise (cmp · · ≠ .gt) := by
  have htotal : Std.Total (cmp · · ≠ .gt) := ⟨fun a b => by
    by_cases h : cmp a b = .gt
    · right
      rw [Std.OrientedCmp.lt_of_gt h]
      decide
    · exact Or.inl h⟩
  have htrans : IsTrans α (cmp · · ≠ .gt) := ⟨fun a b c hab hbc =>
    Ordering.ne_gt_iff_isLE.mpr (Std.TransCmp.isLE_trans (Ordering.ne_gt_iff_isLE.mp hab)
      (Ordering.ne_gt_iff_isLE.mp hbc))⟩
  exact List.pairwise_insertionSort _ _

/-! ### What remains -/

variable {cmp}

/-- **In a strictly sorted list, what compares greater than an item is what comes after it.** -/
theorem remaining_split [Std.OrientedCmp cmp] {front rest : List α} {cursor : α}
    (h : (front ++ cursor :: rest).Pairwise (cmp · · = .lt)) :
    remaining cmp (front ++ cursor :: rest) (some cursor) = rest := by
  obtain ⟨-, hrest, hfront⟩ := List.pairwise_append.mp h
  have hbefore : front.filter (fun item => cmp item cursor = .gt) = [] := by
    rw [List.filter_eq_nil_iff]
    intro item hitem
    simp [hfront item hitem cursor List.mem_cons_self]
  have hafter : rest.filter (fun item => cmp item cursor = .gt) = rest := by
    rw [List.filter_eq_self]
    intro item hitem
    have hlt := (List.pairwise_cons.mp hrest).1 item hitem
    simpa [Std.OrientedCmp.gt_iff_lt] using hlt
  rw [remaining, List.filter_append, List.filter_cons, hbefore, hafter]
  simp [Std.ReflCmp.compare_self]

/-- The item to go on from is one of the items. -/
theorem mem_of_page_next {items : List α} {after : Option α} {limit : ℕ} {item : α}
    (h : (page cmp items after limit).2 = some item) : item ∈ items := by
  simp only [page] at h
  split at h
  · have hmem := List.mem_of_mem_take (List.mem_of_getLast? h)
    unfold remaining at hmem
    split at hmem
    · exact hmem
    · exact List.mem_of_mem_filter hmem
  · cases h

/-- After a full page the next one starts where the page ended. -/
theorem remaining_take [Std.OrientedCmp cmp] {items rest : List α} {limit : ℕ} {cursor : α}
    (h : items.Pairwise (cmp · · = .lt)) (hsuffix : rest <:+ items)
    (hlast : (rest.take limit).getLast? = some cursor) :
    remaining cmp items (some cursor) = rest.drop limit := by
  obtain ⟨front, rfl⟩ := hsuffix
  obtain ⟨shown, hshown⟩ := List.getLast?_eq_some_iff.mp hlast
  have hsplit : front ++ rest = (front ++ shown) ++ cursor :: rest.drop limit := by
    calc
      front ++ rest = front ++ (rest.take limit ++ rest.drop limit) := by
        rw [List.take_append_drop]
      _ = (front ++ shown) ++ cursor :: rest.drop limit := by rw [hshown]; simp
  rw [hsplit] at h ⊢
  exact remaining_split h

/-! ### Following the pages -/

/-- A server answers with the pages of a list: it shows the items of a page by `shows`, and it writes
the item to go on from as a token. -/
structure Serves (cmp : α → α → Ordering) (items : List α) (shows : α → Option β) (token : α → κ)
    (serve : Option κ → ℕ → Except ε (List β × Option κ)) : Prop where
  first : ∀ limit, 0 < limit → serve none limit = .ok
    ((page cmp items none limit).1.filterMap shows, (page cmp items none limit).2.map token)
  next : ∀ cursor ∈ items, ∀ limit, 0 < limit → serve (some (token cursor)) limit = .ok
    ((page cmp items (some cursor) limit).1.filterMap shows,
      (page cmp items (some cursor) limit).2.map token)

namespace Serves

variable {items : List α} {shows : α → Option β} {token : α → κ}
  {serve : Option κ → ℕ → Except ε (List β × Option κ)}

theorem serve_eq (h : Serves cmp items shows token serve) {cursor : Option α}
    (hcursor : ∀ c ∈ cursor, c ∈ items) {limit : ℕ} (hlimit : 0 < limit) :
    serve (cursor.map token) limit = .ok ((page cmp items cursor limit).1.filterMap shows,
      (page cmp items cursor limit).2.map token) := by
  cases cursor with
  | none => exact h.first limit hlimit
  | some c => exact h.next c (hcursor c rfl) limit hlimit

/-- What is shown from a cursor on is what remains after it. -/
theorem follow_from [Std.OrientedCmp cmp] (h : Serves cmp items shows token serve)
    (hsorted : items.Pairwise (cmp · · = .lt)) {fuel : ℕ} {limits : ℕ → ℕ}
    (hlimits : ∀ i, 0 < limits i) {cursor : Option α} (hcursor : ∀ c ∈ cursor, c ∈ items)
    {rest : List α} (hrest : remaining cmp items cursor = rest) (hsuffix : rest <:+ items)
    (hfuel : rest.length < fuel) : ∃ pages, follow serve fuel limits (cursor.map token) =
      .ok (some pages) ∧ pages.flatten = rest.filterMap shows := by
  induction fuel generalizing limits cursor rest with
  | zero => omega
  | succ fuel ih =>
    have hserve := h.serve_eq hcursor (hlimits 0)
    simp only [page, hrest] at hserve
    unfold follow
    rw [hserve]
    by_cases hmore : limits 0 < rest.length
    · have hpositive := hlimits 0
      have hne : rest.take (limits 0) ≠ [] := by
        rw [← List.length_pos_iff, List.length_take]
        omega
      obtain ⟨last, hlast⟩ := Option.ne_none_iff_exists'.mp
        (mt List.getLast?_eq_none_iff.mp hne)
      have hmem : last ∈ items :=
        hsuffix.subset (List.mem_of_mem_take (List.mem_of_getLast? hlast))
      -- the next request goes on with the rest of the list
      have hnext : remaining cmp items (some last) = rest.drop (limits 0) :=
        remaining_take hsorted hsuffix hlast
      obtain ⟨pages, hpages, hflatten⟩ := ih (fun i => hlimits (i + 1))
        (show ∀ c ∈ some last, c ∈ items by rintro c ⟨⟩; exact hmem) hnext
        ((List.drop_suffix _ _).trans hsuffix) (by rw [List.length_drop]; omega)
      refine ⟨(rest.take (limits 0)).filterMap shows :: pages, ?_, ?_⟩
      · rw [if_pos hmore, hlast]
        simp only [Option.map_some] at hpages
        simp only [Option.map_some, bind, Except.bind, hpages]
        rfl
      · rw [List.flatten_cons, hflatten, ← List.filterMap_append, List.take_append_drop]
    · refine ⟨[(rest.take (limits 0)).filterMap shows], ?_, ?_⟩
      · rw [if_neg hmore]
        rfl
      · rw [List.take_of_length_le (by omega)]
        simp

/-- **Following the pages terminates and shows every item once, in order.** -/
theorem follow_eq [Std.OrientedCmp cmp] (h : Serves cmp items shows token serve)
    (hsorted : items.Pairwise (cmp · · = .lt)) {limits : ℕ → ℕ} (hlimits : ∀ i, 0 < limits i)
    {fuel : ℕ} (hfuel : items.length < fuel) : ∃ pages, follow serve fuel limits none =
      .ok (some pages) ∧ pages.flatten = items.filterMap shows :=
  h.follow_from hsorted hlimits (show ∀ c ∈ (none : Option α), c ∈ items by simp) rfl
    List.suffix_rfl hfuel

end Serves

end Paging
