import Mathlib.Data.List.Sort

/-!
# Reading a sorted list page by page

A list is sorted by a key, the greatest first, and read in pages of a fixed size.  Every page is
the answer to a query of its own, and elements of one key may come in another order each time.

What is decided by the keys alone does not depend on that: how many elements there are on a page
and which keys they have (`Sorts.map_pages`).  Which elements they are does depend on it.  The
pages together are the list again, whatever the orders, exactly when no page ends between two
elements of one key (`pages_perm_iff`); elsewhere an element may be read twice, and another one
not at all.
-/

namespace Pagination

universe u v

variable {α : Type u} {β : Type v} [LinearOrder β] (key : α → β)

/-- A way to sort a list: the greatest key first, and equal keys in any order. -/
structure Sorts (sorted xs : List α) : Prop where
  perm : sorted.Perm xs
  descending : sorted.Pairwise fun a b => key b ≤ key a

/-- A page of a sorted list; pages are counted from 1. -/
def page (sorted : List α) (size number : ℕ) : List α :=
  (sorted.drop ((number - 1) * size)).take size

/-- The first `count` pages, one after the other, each from a sorted list of its own. -/
def pages (sorted : ℕ → List α) (size count : ℕ) : List α :=
  (List.range' 1 count).flatMap fun number => page (sorted number) size number

/-- Some key separates the `n` greatest elements from the others. -/
def Separated (xs : List α) (n : ℕ) : Prop := ∃ k, xs.countP (fun x => k ≤ key x) = n

/-! ### One sorted list -/

section Page

variable {key} {s : List α} {size : ℕ}

theorem take_append_page (s : List α) (size number : ℕ) :
    s.take (number * size) ++ page s size (number + 1) = s.take ((number + 1) * size) := by
  rw [page, Nat.add_sub_cancel, Nat.succ_mul, List.take_add]

theorem page_eq_nil {number : ℕ} (h : s.length ≤ (number - 1) * size) :
    page s size number = [] := by
  rw [page, List.drop_of_length_le h, List.take_nil]

theorem pages_succ (sorted : ℕ → List α) (size count : ℕ) :
    pages sorted size (count + 1) =
      pages sorted size count ++ page (sorted (count + 1)) size (count + 1) := by
  rw [pages, List.range'_1_concat, List.flatMap_append, List.flatMap_singleton, Nat.add_comm 1]
  rfl

theorem pages_mono (sorted : ℕ → List α) (size : ℕ) {m n : ℕ} (h : m ≤ n) :
    pages sorted size m <+: pages sorted size n := by
  induction h with
  | refl => exact List.prefix_rfl
  | step _ ih =>
      rw [pages_succ]
      exact ih.trans (List.prefix_append _ _)

/-- The greatest elements of a sorted list are its first ones. -/
theorem take_countP (h : s.Pairwise fun a b => key b ≤ key a) (k : β) :
    s.take (s.countP fun x => k ≤ key x) = s.filter fun x => k ≤ key x := by
  induction s with
  | nil => rfl
  | cons a s ih =>
      obtain ⟨hle, hs⟩ := List.pairwise_cons.mp h
      by_cases ha : k ≤ key a
      · rw [List.countP_cons_of_pos (by simpa using ha), List.take_succ_cons, ih hs,
          List.filter_cons_of_pos (by simpa using ha)]
      · have hnone : ∀ x ∈ a :: s, ¬ k ≤ key x := by
          rintro x (_ | ⟨_, hx⟩) hk
          · exact ha hk
          · exact ha (hk.trans (hle x hx))
        rw [List.filter_eq_nil_iff.mpr (by simpa using hnone),
          List.countP_eq_zero.mpr (by simpa using hnone), List.take_zero]

end Page

/-! ### Sorting again for every page -/

section Sorts

variable {key} {xs s s' : List α} {sorted : ℕ → List α} {size : ℕ}

/-- The keys come in one order only. -/
theorem Sorts.map_key (h : Sorts key s xs) (h' : Sorts key s' xs) : s.map key = s'.map key := by
  have hperm : (s.map key).Perm (s'.map key) := (h.perm.trans h'.perm.symm).map key
  have hdescending : ∀ {l : List α}, (l.Pairwise fun a b => key b ≤ key a) →
      (l.map key).Pairwise (· ≥ ·) := fun hl => List.pairwise_map.mpr hl
  exact hperm.eq_of_pairwise' (hdescending h.descending) (hdescending h'.descending)

/-- The keys on the pages are those of any sorted list. -/
theorem Sorts.map_pages (hsorted : ∀ number, Sorts key (sorted number) xs) (h : Sorts key s xs)
    (count : ℕ) : (pages sorted size count).map key = (s.take (count * size)).map key := by
  induction count with
  | zero => rw [Nat.zero_mul]; rfl
  | succ count ih =>
      have hpage : (page (sorted (count + 1)) size (count + 1)).map key =
          (page s size (count + 1)).map key := by
        rw [page, page, List.map_take, List.map_take, List.map_drop, List.map_drop,
          (hsorted (count + 1)).map_key h]
      rw [pages_succ, List.map_append, ih, hpage, ← List.map_append, take_append_page]

/-- The pages are in descending order, whatever the orders of the queries. -/
theorem Sorts.pairwise_pages (hsorted : ∀ number, Sorts key (sorted number) xs) (count : ℕ) :
    (pages sorted size count).Pairwise fun a b => key b ≤ key a := by
  have hfirst := (hsorted 0).descending.sublist (List.take_sublist (count * size) _)
  rw [← List.pairwise_map (f := key) (R := (· ≥ ·)), ← Sorts.map_pages hsorted (hsorted 0),
    List.pairwise_map] at hfirst
  exact hfirst

/-- Where a key separates, the first elements are the same in all orders. -/
theorem Sorts.take_perm (h : Sorts key s xs) (h' : Sorts key s' xs) {n : ℕ}
    (hn : n < xs.length → Separated key xs n) : (s.take n).Perm (s'.take n) := by
  by_cases hlt : n < xs.length
  · obtain ⟨k, rfl⟩ := hn hlt
    have htake : ∀ {l : List α}, Sorts key l xs →
        l.take (xs.countP fun x => k ≤ key x) = l.filter fun x => k ≤ key x := by
      intro l hl
      rw [← hl.perm.countP_eq, take_countP hl.descending]
    rw [htake h, htake h']
    exact (h.perm.trans h'.perm.symm).filter _
  · have hwhole : ∀ {l : List α}, Sorts key l xs → l.take n = l := fun hl =>
      List.take_of_length_le (hl.perm.length_eq ▸ Nat.le_of_not_lt hlt)
    rw [hwhole h, hwhole h']
    exact h.perm.trans h'.perm.symm

/-- If no page ends between two elements of one key, then the pages are the first elements. -/
theorem Sorts.pages_perm (hsorted : ∀ number, Sorts key (sorted number) xs)
    (hcuts : ∀ n, 0 < n → n * size < xs.length → Separated key xs (n * size))
    (h : Sorts key s xs) (count : ℕ) :
    (pages sorted size count).Perm (s.take (count * size)) := by
  induction count generalizing s with
  | zero => rw [Nat.zero_mul]; exact .refl _
  | succ count ih =>
      have hown := ih (hsorted (count + 1))
      rw [pages_succ]
      refine (hown.append_right _).trans ?_
      rw [take_append_page]
      exact (hsorted (count + 1)).take_perm h (hcuts (count + 1) (Nat.succ_pos count))

/-- There is a way to sort. -/
theorem exists_sorts (key : α → β) (xs : List α) : ∃ s, Sorts key s xs := by
  have hpairwise : (xs.mergeSort fun a b => key b ≤ key a).Pairwise
      fun a b => decide (key b ≤ key a) = true := by
    refine List.pairwise_mergeSort (fun a b c hab hbc => ?_) (fun a b => ?_) xs
    · rw [decide_eq_true_eq] at *
      exact hbc.trans hab
    · simpa using le_total (key b) (key a)
  exact ⟨_, List.mergeSort_perm xs _, by simpa using hpairwise⟩

/-! ### A page that ends between two elements of one key -/

/-- Where no key separates, the two elements next to each other have the same key. -/
theorem Sorts.key_eq {x y : α} {front back : List α} (h : Sorts key (front ++ x :: y :: back) xs)
    (hcut : ¬ Separated key xs (front.length + 1)) : key y = key x := by
  have hdescending := h.descending
  rw [List.pairwise_append, List.pairwise_cons, List.pairwise_cons] at hdescending
  obtain ⟨-, ⟨hx, hy, -⟩, hfront⟩ := hdescending
  refine le_antisymm (hx y (by simp)) (not_lt.mp fun hlt => hcut ⟨key x, ?_⟩)
  have hbefore : front.countP (fun z => key x ≤ key z) = front.length :=
    List.countP_eq_length.mpr fun z hz => by simpa using hfront z hz x (by simp)
  have hafter : back.countP (fun z => key x ≤ key z) = 0 :=
    List.countP_eq_zero.mpr fun z hz => by simpa using (hy z hz).trans_lt hlt
  rw [← h.perm.countP_eq, List.countP_append, hbefore, List.countP_cons_of_pos (by simp),
    List.countP_cons_of_neg (by simpa using hlt), hafter]

/-- Two elements of one key may change places. -/
theorem Sorts.swap {x y : α} {front back : List α} (h : Sorts key (front ++ x :: y :: back) xs)
    (hkey : key y = key x) : Sorts key (front ++ y :: x :: back) xs := by
  refine ⟨((List.Perm.swap x y back).append_left front).trans h.perm, ?_⟩
  have hdescending := h.descending
  simp only [List.pairwise_append, List.pairwise_cons, List.forall_mem_cons, hkey] at hdescending ⊢
  obtain ⟨hfront, ⟨⟨hle, hx⟩, hy, hback⟩, hbetween⟩ := hdescending
  exact ⟨hfront, ⟨⟨hle, hy⟩, hx, hback⟩, fun z hz =>
    ⟨(hbetween z hz).2.1, (hbetween z hz).1, (hbetween z hz).2.2⟩⟩

/-- The element that ends a page. -/
theorem mem_page_of_last {x : α} {front back : List α} {number : ℕ} (hsize : 0 < size)
    (h : front.length + 1 = (number + 1) * size) :
    x ∈ page (front ++ x :: back) size (number + 1) := by
  have hindex : number * size + (size - 1) = front.length := by
    rw [Nat.succ_mul] at h
    omega
  refine List.mem_of_getElem? (i := size - 1) ?_
  rw [page, Nat.add_sub_cancel, List.getElem?_take_of_lt (by omega), List.getElem?_drop, hindex,
    List.getElem?_append_right le_rfl, Nat.sub_self]
  rfl

/-- The element that begins the next page. -/
theorem mem_page_of_first {x : α} {front back : List α} {number : ℕ} (hsize : 0 < size)
    (h : front.length = number * size) : x ∈ page (front ++ x :: back) size (number + 1) := by
  rw [page, Nat.add_sub_cancel, ← h, List.drop_left, List.mem_iff_getElem?]
  exact ⟨0, by rw [List.getElem?_take_of_lt hsize]; rfl⟩

/-- Two neighbours in a list. -/
theorem exists_neighbours {n : ℕ} (h : n + 1 < s.length) :
    ∃ front x y back, s = front ++ x :: y :: back ∧ front.length = n := by
  refine ⟨s.take n, s[n], s[n + 1], s.drop (n + 2), ?_, ?_⟩
  · rw [← List.drop_eq_getElem_cons h, ← List.drop_eq_getElem_cons (Nat.lt_of_succ_lt h),
      List.take_append_drop]
  · rw [List.length_take, Nat.min_eq_left (by omega)]

/-- An element that a page ends with is read again on the next one, if the next query puts it
behind another one of its key. -/
theorem exists_pages_not_nodup {number count : ℕ} (hsize : 0 < size) (hnumber : number + 1 < count)
    (hlt : (number + 1) * size < xs.length) (hcut : ¬ Separated key xs ((number + 1) * size)) :
    ∃ sorted, (∀ number, Sorts key (sorted number) xs) ∧ ¬ (pages sorted size count).Nodup := by
  obtain ⟨s, hs⟩ := exists_sorts key xs
  have hpos : 0 < (number + 1) * size := Nat.mul_pos (Nat.succ_pos number) hsize
  have hneighbours : (number + 1) * size - 1 + 1 < s.length := by
    rw [hs.perm.length_eq]
    omega
  obtain ⟨front, x, y, back, rfl, hfront⟩ := exists_neighbours hneighbours
  have hend : front.length + 1 = (number + 1) * size := by omega
  have hkey := hs.key_eq (hend ▸ hcut)
  refine ⟨fun n => if n = number + 2 then front ++ y :: x :: back else front ++ x :: y :: back,
    fun n => ?_, fun hnodup => ?_⟩
  · dsimp only
    split
    · exact hs.swap hkey
    · exact hs
  · have hdisjoint := hnodup.sublist (pages_mono _ size hnumber).sublist
    rw [pages_succ, List.nodup_append] at hdisjoint
    refine hdisjoint.2.2 x ?_ x ?_ rfl
    · rw [pages_succ, if_neg (by omega)]
      exact List.mem_append_right _ (mem_page_of_last hsize hend)
    · have hfirst : (front ++ [y]).length = (number + 1) * size := by
        rw [List.length_append, List.length_singleton, hend]
      rw [if_pos rfl, show front ++ y :: x :: back = front ++ [y] ++ x :: back by simp]
      exact mem_page_of_first hsize hfirst

end Sorts

/-- **When the pages are the list.**  The pages that the list fills are, in whatever orders they
are read, all of the list and each of its elements once, if and only if no page ends between
two elements of one key. -/
theorem pages_perm_iff {xs : List α} (hnodup : xs.Nodup) {size count : ℕ} (hsize : 0 < size)
    (hcount : xs.length ≤ count * size) :
    (∀ sorted, (∀ number, Sorts key (sorted number) xs) → (pages sorted size count).Perm xs) ↔
      ∀ n, 0 < n → n * size < xs.length → Separated key xs (n * size) := by
  constructor
  · intro h n hn hlt
    by_contra hcut
    obtain ⟨number, rfl⟩ := Nat.exists_eq_succ_of_ne_zero hn.ne'
    have hnumber : number + 1 < count := Nat.lt_of_mul_lt_mul_right (hlt.trans_le hcount)
    obtain ⟨sorted, hsorted, hrepeats⟩ := exists_pages_not_nodup hsize hnumber hlt hcut
    exact hrepeats ((h sorted hsorted).nodup_iff.mpr hnodup)
  · intro hcuts sorted hsorted
    have hwhole := (hsorted 0).perm.length_eq ▸ hcount
    have hpages := Sorts.pages_perm hsorted hcuts (hsorted 0) count
    rw [List.take_of_length_le hwhole] at hpages
    exact hpages.trans (hsorted 0).perm

/-! ### A list that changes between the pages -/

/-- The number of elements before those of the key `k`. -/
def rank (xs : List α) (k : β) : ℕ := xs.countP fun y => k < key y

section Changing

variable {key} {xs s : List α} {size : ℕ}

/-- The rank of an element with a key of its own is its position. -/
theorem Sorts.rank_eq {x : α} {front back : List α} (h : Sorts key (front ++ x :: back) xs)
    (hnodup : xs.Nodup) (halone : ∀ y ∈ xs, key y = key x → y = x) :
    rank key xs (key x) = front.length := by
  have hdescending := h.descending
  rw [List.pairwise_append, List.pairwise_cons] at hdescending
  obtain ⟨-, ⟨hback, -⟩, hfront⟩ := hdescending
  have hnot : x ∉ front := by
    intro hmem
    have hsorted := h.perm.nodup_iff.mpr hnodup
    exact (List.nodup_append.mp hsorted).2.2 x hmem x List.mem_cons_self rfl
  have hbefore : front.countP (fun y => key x < key y) = front.length := by
    refine List.countP_eq_length.mpr fun y hy => decide_eq_true ?_
    refine lt_of_le_of_ne (hfront y hy x List.mem_cons_self) fun heq => hnot ?_
    rwa [← halone y (h.perm.mem_iff.mp (List.mem_append_left _ hy)) heq.symm]
  have hafter : back.countP (fun y => key x < key y) = 0 :=
    List.countP_eq_zero.mpr fun y hy => by simpa using hback y hy
  rw [rank, ← h.perm.countP_eq, List.countP_append, hbefore,
    List.countP_cons_of_neg (by simp), hafter, Nat.add_zero]

/-- The element at the end of `front` is on the page that has this position. -/
theorem mem_page_append_iff {x : α} {front back : List α} (hnodup : (front ++ x :: back).Nodup)
    (number : ℕ) :
    x ∈ page (front ++ x :: back) size (number + 1) ↔
      number * size ≤ front.length ∧ front.length < (number + 1) * size := by
  have hposition : ∀ i, (front ++ x :: back)[i]? = some x ↔ i = front.length := by
    intro i
    have hself : (front ++ x :: back)[front.length]? = some x := by
      rw [List.getElem?_append_right le_rfl, Nat.sub_self]
      rfl
    constructor
    · intro hi
      obtain ⟨hlt, hget⟩ := List.getElem?_eq_some_iff.mp hi
      obtain ⟨hlt', hget'⟩ := List.getElem?_eq_some_iff.mp hself
      exact (hnodup.getElem_inj_iff).mp (hget.trans hget'.symm)
    · rintro rfl
      exact hself
  rw [List.mem_iff_getElem?, page, Nat.add_sub_cancel, Nat.succ_mul]
  constructor
  · rintro ⟨i, hi⟩
    rw [List.getElem?_take] at hi
    split at hi
    · next hlt =>
        rw [List.getElem?_drop, hposition] at hi
        omega
    · cases hi
  · rintro ⟨hle, hlt⟩
    refine ⟨front.length - number * size, ?_⟩
    rw [List.getElem?_take_of_lt (by omega), List.getElem?_drop, hposition]
    omega

/-- An element with a key of its own is on the page of its rank. -/
theorem Sorts.mem_page_iff (h : Sorts key s xs) (hnodup : xs.Nodup) {x : α} (hx : x ∈ xs)
    (halone : ∀ y ∈ xs, key y = key x → y = x) (number : ℕ) :
    x ∈ page s size (number + 1) ↔
      number * size ≤ rank key xs (key x) ∧ rank key xs (key x) < (number + 1) * size := by
  obtain ⟨front, back, rfl⟩ := List.append_of_mem (h.perm.mem_iff.mpr hx)
  rw [h.rank_eq hnodup halone, mem_page_append_iff (h.perm.nodup_iff.mpr hnodup)]

/-- **Missed.**  If the rank of an element has fallen below the end of page `count`, then it was
within some page, or it has dropped from one page to the next. -/
theorem exists_page_or_drop (rank : ℕ → ℕ) {count : ℕ} (hend : rank count < (count + 1) * size) :
    (∃ n ≤ count, n * size ≤ rank n ∧ rank n < (n + 1) * size) ∨
      ∃ n < count, rank (n + 1) < rank n := by
  by_contra hnone
  rw [not_or] at hnone
  obtain ⟨hpage, hdrop⟩ := hnone
  have hbehind : ∀ n ≤ count, (n + 1) * size ≤ rank n := by
    intro n hn
    induction n with
    | zero =>
        by_contra hlt
        exact hpage ⟨0, hn, by omega, not_le.mp hlt⟩
    | succ n ih =>
        by_contra hlt
        have hrises : rank n ≤ rank (n + 1) := by
          by_contra hfalls
          exact hdrop ⟨n, hn, not_le.mp hfalls⟩
        exact hpage ⟨n + 1, hn, (ih (Nat.le_of_succ_le hn)).trans hrises, not_le.mp hlt⟩
  exact absurd (hbehind count le_rfl) (not_le.mpr hend)

/-- **Read twice.**  If the rank of an element was within two pages, it has risen between them. -/
theorem exists_rise_of_two_pages (rank : ℕ → ℕ) {m n : ℕ} (hlt : m < n)
    (hfirst : rank m < (m + 1) * size) (hsecond : n * size ≤ rank n) :
    ∃ i, m ≤ i ∧ i < n ∧ rank i < rank (i + 1) := by
  by_contra hnone
  have hfalls : ∀ i, m ≤ i → i ≤ n → rank i ≤ rank m := by
    intro i hm hn
    induction i, hm using Nat.le_induction with
    | base => exact le_rfl
    | succ i hm ih =>
        refine le_trans ?_ (ih (Nat.le_of_succ_le hn))
        by_contra hrises
        exact hnone ⟨i, hm, hn, not_le.mp hrises⟩
  have hpage : (m + 1) * size ≤ n * size := Nat.mul_le_mul_right size hlt
  have hrank := hfalls n hlt.le le_rfl
  omega

/-- If there are fewer, then one of them has no counterpart. -/
theorem exists_of_countP_lt {I : Type*} {ident : α → I} {ys : List α} {p : α → Bool}
    (hnodup : (xs.map ident).Nodup) (h : ys.countP p < xs.countP p) :
    ∃ x ∈ xs, p x = true ∧ ∀ y ∈ ys, p y = true → ident y ≠ ident x := by
  by_contra hnone
  have hcounterpart : (xs.filter p).map ident ⊆ (ys.filter p).map ident := by
    intro i hi
    obtain ⟨x, hx, rfl⟩ := List.mem_map.mp hi
    obtain ⟨hx, hpx⟩ := List.mem_filter.mp hx
    by_contra hmissing
    refine hnone ⟨x, hx, hpx, fun y hy hpy heq => hmissing ?_⟩
    exact heq ▸ List.mem_map_of_mem (List.mem_filter.mpr ⟨hy, hpy⟩)
  have hfiltered : ((xs.filter p).map ident).Nodup := hnodup.sublist (List.filter_sublist.map ident)
  have hlength := (List.subperm_of_subset hfiltered hcounterpart).length_le
  rw [List.length_map, List.length_map, ← List.countP_eq_length_filter,
    ← List.countP_eq_length_filter] at hlength
  exact absurd h (not_lt.mpr hlength)

end Changing

end Pagination
