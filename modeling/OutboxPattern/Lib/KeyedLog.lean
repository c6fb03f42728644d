import Mathlib.Data.List.Forall2
import Mathlib.Data.List.Induction
import Mathlib.Data.List.Nodup
import Mathlib.Order.Lattice

/-!
# Append-only logs of keyed entries

A log is a list of entries, each of which belongs to one key.  The current value
under a key is its `last` entry; an entry that was computed from an older state of
the log carries the length of the prefix it was computed from, its `snapshot`.

* `Numbered`: under every key the entries carry the versions `1, 2, 3, …`.
* `Fresh`: nothing was appended under the entry's key between its snapshot and the
  entry itself.  This is the *first committer wins* rule of snapshot isolation.
* `numbered_concat`: when every entry is numbered from the last entry of its own
  snapshot (`Derived`), a log stays numbered exactly when the appended entry is
  fresh.
* `last_version_le_and_eq_iff`: under a single key, the last version is the number of
  entries exactly when all of them were fresh, and less than that otherwise.
* `foldl_follow`: a reader that ignores only entries which repeat the value of the
  entry before them has the value of the last entry.
* `exists_lastSetter`: a value that some entries set and the others repeat is that of
  the last entry to set it.

The last section is about reading a log back in the order of a stamp its entries
carry: `sorted_unique_iff` says that sorting by the stamp determines the order
exactly when the stamps strictly increase.
-/

namespace KeyedLog

universe u v w

variable {E : Type u} {K : Type v} [DecidableEq K] (key : E → K)

/-! ### Entries of one key -/

/-- The entries of the key `k`, in log order. -/
def entries (k : K) (log : List E) : List E := log.filter fun e => key e = k

/-- The newest entry of the key `k`. -/
def last (k : K) (log : List E) : Option E := (entries key k log).getLast?

/-- No entry of the log belongs to the key `k`. -/
def Untouched (k : K) (log : List E) : Prop := ∀ e ∈ log, key e ≠ k

theorem entries_append (k : K) (log log' : List E) :
    entries key k (log ++ log') = entries key k log ++ entries key k log' :=
  List.filter_append ..

@[simp] theorem entries_concat_self (log : List E) (e : E) :
    entries key (key e) (log ++ [e]) = entries key (key e) log ++ [e] := by
  simp [entries]

theorem entries_concat_of_ne {k : K} {e : E} (hne : key e ≠ k) (log : List E) :
    entries key k (log ++ [e]) = entries key k log := by
  simp [entries, hne]

@[simp] theorem last_concat_self (log : List E) (e : E) :
    last key (key e) (log ++ [e]) = some e := by
  simp [last]

theorem last_concat_of_ne {k : K} {e : E} (hne : key e ≠ k) (log : List E) :
    last key k (log ++ [e]) = last key k log := by
  simp [last, entries_concat_of_ne key hne]

theorem mem_entries {k : K} {log : List E} {e : E} :
    e ∈ entries key k log ↔ e ∈ log ∧ key e = k := by
  simp [entries]

theorem mem_of_last {k : K} {log : List E} {e : E} (h : last key k log = some e) :
    e ∈ log ∧ key e = k :=
  (mem_entries key).mp (List.mem_of_getLast? h)

/-- Where the last entry of a key stands: nothing of the key comes after it. -/
theorem exists_of_last {k : K} {log : List E} {e : E} (h : last key k log = some e) :
    ∃ before after, log = before ++ e :: after ∧ Untouched key k after := by
  induction log using List.reverseRecOn with
  | nil => cases h
  | append_singleton log x ih =>
      by_cases hk : key x = k
      · subst hk
        rw [last_concat_self, Option.some.injEq] at h
        subst h
        exact ⟨log, [], rfl, by simp [Untouched]⟩
      · rw [last_concat_of_ne key hk] at h
        obtain ⟨before, after, rfl, huntouched⟩ := ih h
        refine ⟨before, after ++ [x], by simp, fun y hy => ?_⟩
        rcases List.mem_append.mp hy with hy | hy
        · exact huntouched y hy
        · obtain rfl : y = x := by simpa using hy
          exact hk

theorem entries_eq_nil_iff {k : K} {log : List E} :
    entries key k log = [] ↔ Untouched key k log := by
  simp [entries, Untouched]

theorem last_eq_none_iff {k : K} {log : List E} :
    last key k log = none ↔ Untouched key k log := by
  rw [last, List.getLast?_eq_none_iff, entries_eq_nil_iff]

/-- What is appended under other keys does not matter. -/
theorem last_append_of_untouched {k : K} {log log' : List E} (h : Untouched key k log') :
    last key k (log ++ log') = last key k log := by
  rw [last, last, entries_append, (entries_eq_nil_iff key).mpr h, List.append_nil]

theorem entries_take_append_drop (k : K) (log : List E) (n : ℕ) :
    entries key k (log.take n) ++ entries key k (log.drop n) = entries key k log := by
  rw [← entries_append, List.take_append_drop]

/-- A prefix after which the key was left alone has the same entries of it. -/
theorem entries_take_of_untouched {k : K} {log : List E} {n : ℕ}
    (h : Untouched key k (log.drop n)) :
    entries key k (log.take n) = entries key k log := by
  have hsplit := entries_take_append_drop key k log n
  rwa [(entries_eq_nil_iff key).mpr h, List.append_nil] at hsplit

theorem last_take_of_untouched {k : K} {log : List E} {n : ℕ}
    (h : Untouched key k (log.drop n)) : last key k (log.take n) = last key k log := by
  rw [last, last, entries_take_of_untouched key h]

/-- Of what comes after a prefix, the last entry of a key is the last one of all. -/
theorem last_of_last_drop {k : K} {log : List E} {n : ℕ} {e : E}
    (h : last key k (log.drop n) = some e) : last key k log = some e := by
  rw [last, ← entries_take_append_drop key k log n, List.getLast?_append, ← last, h,
    Option.some_or]

/-- Splitting off what was appended after the first `n` entries. -/
theorem untouched_drop_iff {k : K} {log : List E} {n : ℕ} :
    Untouched key k (log.drop n) ↔
      (entries key k (log.take n)).length = (entries key k log).length := by
  rw [← entries_eq_nil_iff, ← entries_take_append_drop key k log n, List.length_append,
    ← List.length_eq_zero_iff]
  omega

theorem entries_congr {key key' : E → K} {log : List E} (h : ∀ e ∈ log, key e = key' e)
    (k : K) : entries key k log = entries key' k log :=
  List.filter_congr fun e he => by rw [h e he]

theorem last_map {F : Type w} (f : F → E) (k : K) (log : List F) :
    last key k (log.map f) = (last (fun x => key (f x)) k log).map f := by
  rw [last, last, ← List.getLast?_map, entries, entries, List.filter_map]
  rfl

/-- A log that is split up by a function of the key has all entries of a key in one part. -/
theorem last_entries {P : Type w} [DecidableEq P] (part : K → P) (k : K) (log : List E) :
    last key k (entries (fun e => part (key e)) (part k) log) = last key k log := by
  have hfilter : entries key k (entries (fun e => part (key e)) (part k) log) =
      entries key k log := by
    rw [entries, entries, entries, List.filter_filter]
    refine List.filter_congr fun e _ => ?_
    by_cases hk : key e = k
    · simp [hk]
    · simp [hk]
  rw [last, hfilter, last]

/-- What leaves the keys of the entries alone can be done key by key. -/
theorem entries_map {f : E → E} (hkey : ∀ e, key (f e) = key e) (log : List E) (k : K) :
    entries key k (log.map f) = (entries key k log).map f := by
  rw [entries, entries, List.filter_map]
  simp only [Function.comp_def, hkey]

/-- Logs that are related entry by entry are so key by key. -/
theorem entries_rel {F : Type w} {key' : F → K} {R : E → F → Prop}
    (hkey : ∀ e f, R e f → key e = key' f) {log : List E} {log' : List F}
    (h : List.Forall₂ R log log') (k : K) :
    List.Forall₂ R (entries key k log) (entries key' k log') := by
  refine List.rel_filter (fun e f hR => ?_) h
  show decide (key e = k) = true ↔ decide (key' f = k) = true
  rw [hkey e f hR]

theorem last_rel {F : Type w} {key' : F → K} {R : E → F → Prop}
    (hkey : ∀ e f, R e f → key e = key' f) {log : List E} {log' : List F}
    (h : List.Forall₂ R log log') (k : K) :
    Option.Rel R (last key k log) (last key' k log') := by
  have hforall := entries_rel key hkey h k
  rw [last, last]
  generalize entries key k log = es at hforall ⊢
  generalize entries key' k log' = fs at hforall ⊢
  induction hforall with
  | nil => exact .none
  | @cons e f es fs hhead htail ih =>
      cases htail with
      | nil => exact .some hhead
      | cons _ _ => rwa [List.getLast?_cons_cons, List.getLast?_cons_cons]

/-! ### Conditions on every entry -/

/-- The condition `P` holds of every entry of the log, and the entries before it. -/
def AllEntries (P : List E → E → Prop) (log : List E) : Prop :=
  ∀ i e, log[i]? = some e → P (log.take i) e

theorem allEntries_nil {P : List E → E → Prop} : AllEntries P [] := by
  intro i e h
  cases h

theorem allEntries_concat {P : List E → E → Prop} {log : List E} {e : E} :
    AllEntries P (log ++ [e]) ↔ AllEntries P log ∧ P log e := by
  have htake : ∀ {i}, i ≤ log.length → (log ++ [e]).take i = log.take i :=
    fun hle => List.take_append_of_le_length hle
  constructor
  · intro h
    refine ⟨fun i x hx => ?_, ?_⟩
    · have hlt := (List.getElem?_eq_some_iff.mp hx).1
      rw [← htake hlt.le]
      exact h i x (by rwa [List.getElem?_append_left hlt])
    · have hlast := h log.length e List.getElem?_concat_length
      rwa [htake (Nat.le_refl _), List.take_length] at hlast
  · rintro ⟨h, he⟩ i x hx
    rcases Nat.lt_trichotomy i log.length with hlt | rfl | hgt
    · rw [htake hlt.le]
      exact h i x (by rwa [List.getElem?_append_left hlt] at hx)
    · obtain rfl : e = x := by simpa using hx
      rwa [htake (Nat.le_refl _), List.take_length]
    · rw [List.getElem?_eq_none (by simp; omega)] at hx
      cases hx

theorem AllEntries.take {P : List E → E → Prop} {log : List E} (h : AllEntries P log) (n : ℕ) :
    AllEntries P (log.take n) := by
  intro i e he
  obtain ⟨hlt, -⟩ := List.getElem?_eq_some_iff.mp he
  rw [List.length_take] at hlt
  rw [List.getElem?_take_of_lt (by omega)] at he
  rw [List.take_take, Nat.min_eq_left (by omega)]
  exact h i e he

/-! ### Readers that ignore entries -/

section Follow

variable {β : Type w} (ignores : E → Bool) (value : E → β)

/-- A reader that keeps the value of the last entry it has not ignored. -/
def follow (kept : Option β) (e : E) : Option β :=
  if ignores e then kept else some (value e)

/-- If every ignored entry repeats the value of the entry of its key before it, the reader of
one key has the value of its last entry. -/
theorem foldl_follow {log : List E} (h : AllEntries (fun before e => ignores e →
      (last key (key e) before).map value = some (value e)) log) (k : K) :
    (entries key k log).foldl (follow ignores value) none = (last key k log).map value := by
  induction log using List.reverseRecOn with
  | nil => rfl
  | append_singleton log e ih =>
      obtain ⟨hlog, he⟩ := allEntries_concat.mp h
      by_cases hk : key e = k
      · subst hk
        rw [entries_concat_self, last_concat_self, List.foldl_append, ih hlog]
        show follow ignores value _ e = some (value e)
        unfold follow
        split
        · next hignored => exact he hignored
        · rfl
      · rw [entries_concat_of_ne key hk, last_concat_of_ne key hk]
        exact ih hlog

end Follow

/-! ### Registers -/

/-- **The last setter wins.**  If every entry that does not set a value repeats the value of the
entry of its key before it, then the value of the last entry of a key was set by an entry after
which none of the key has set it. -/
theorem exists_lastSetter {β : Type w} (value : E → β) {Sets : List E → E → Prop} {log : List E}
    (h : AllEntries (fun before e => ¬ Sets before e →
      (last key (key e) before).map value = some (value e)) log) {k : K} {e : E}
    (hlast : last key k log = some e) :
    ∃ i setter, log[i]? = some setter ∧ key setter = k ∧ Sets (log.take i) setter ∧
      value setter = value e ∧
      ∀ j later, i < j → log[j]? = some later → key later = k → ¬ Sets (log.take j) later := by
  induction log using List.reverseRecOn generalizing e with
  | nil => cases hlast
  | append_singleton log x ih =>
      obtain ⟨hlog, hx⟩ := allEntries_concat.mp h
      -- a setter in `log` stays the last one, unless `x` is of the key and sets the value
      have hkeep : ∀ e', last key k log = some e' → value e' = value e →
          (key x = k → ¬ Sets log x) →
          ∃ i setter, (log ++ [x])[i]? = some setter ∧ key setter = k ∧
            Sets ((log ++ [x]).take i) setter ∧ value setter = value e ∧
            ∀ j later, i < j → (log ++ [x])[j]? = some later → key later = k →
              ¬ Sets ((log ++ [x]).take j) later := by
        intro e' hlast' hvalue hnot
        obtain ⟨i, setter, hi, hk, hsets, heq, hlater⟩ := ih hlog hlast'
        have hlt := (List.getElem?_eq_some_iff.mp hi).1
        refine ⟨i, setter, by rwa [List.getElem?_append_left hlt], hk, ?_, heq.trans hvalue, ?_⟩
        · rwa [List.take_append_of_le_length hlt.le]
        · intro j later hij hj
          rcases Nat.lt_trichotomy j log.length with hj' | rfl | hj'
          · rw [List.take_append_of_le_length hj'.le]
            exact hlater j later hij (by rwa [List.getElem?_append_left hj'] at hj)
          · obtain rfl : x = later := by simpa using hj
            rwa [List.take_left' rfl]
          · rw [List.getElem?_eq_none (by simp; omega)] at hj
            cases hj
      by_cases hk : key x = k
      · subst hk
        rw [last_concat_self, Option.some.injEq] at hlast
        subst hlast
        by_cases hsets : Sets log x
        · refine ⟨log.length, x, List.getElem?_concat_length, rfl, ?_, rfl, ?_⟩
          · rwa [List.take_left' rfl]
          · intro j later hij hj
            rw [List.getElem?_eq_none (by simp; omega)] at hj
            cases hj
        · obtain ⟨e', hlast', hvalue⟩ := Option.map_eq_some_iff.mp (hx hsets)
          exact hkeep e' hlast' hvalue fun _ => hsets
      · rw [last_concat_of_ne key hk] at hlast
        exact hkeep e hlast rfl fun heq => absurd heq hk

/-! ### Version numbers -/

section Versions

variable (version snapshot : E → ℕ)

/-- The entry `e` is numbered one past the last entry of its key that its snapshot
of the log holds, and 1 when the snapshot holds none. -/
def Derived (log : List E) (e : E) : Prop :=
  version e = ((last key (key e) (log.take (snapshot e))).map version).getD 0 + 1

/-- Under every key, the entries carry the versions `1, 2, …` in log order. -/
def Numbered (log : List E) : Prop :=
  ∀ k, (entries key k log).map version = List.range' 1 (entries key k log).length

/-- **First committer wins.**  No entry of `e`'s key was appended after the snapshot
`e` was computed from. -/
def Fresh (log : List E) (e : E) : Prop :=
  Untouched key (key e) (log.drop (snapshot e))

theorem numbered_nil : Numbered key version [] := fun _ => rfl

/-- In a numbered log the last version under a key counts the entries of the key. -/
theorem Numbered.last_version {log : List E} (h : Numbered key version log) (k : K) :
    ((last key k log).map version).getD 0 = (entries key k log).length := by
  have hk := congrArg List.getLast? (h k)
  rw [List.getLast?_map] at hk
  rw [last, hk, List.getLast?_range']
  split <;> simp_all

/-- A prefix of a numbered log is numbered. -/
theorem Numbered.of_append {log log' : List E} (h : Numbered key version (log ++ log')) :
    Numbered key version log := by
  intro k
  have hk := h k
  rw [entries_append, List.map_append, List.length_append, List.range'_append_1.symm] at hk
  exact (List.append_inj hk (by simp)).1

theorem Numbered.take {log : List E} (h : Numbered key version log) (n : ℕ) :
    Numbered key version (log.take n) := by
  rw [← List.take_append_drop n log] at h
  exact h.of_append key version

/-- A derived entry of a numbered log counts the entries its snapshot holds. -/
theorem Derived.version_eq {log : List E} {e : E}
    (hderived : Derived key version snapshot log e) (h : Numbered key version log) :
    version e = (entries key (key e) (log.take (snapshot e))).length + 1 := by
  rw [hderived, (h.take key version _).last_version]

/-- **A log stays numbered exactly when the appended entry is fresh.** -/
theorem numbered_concat {log : List E} {e : E}
    (hderived : Derived key version snapshot log e) :
    Numbered key version (log ++ [e]) ↔
      Numbered key version log ∧ Fresh key snapshot log e := by
  have hfresh : Numbered key version log →
      (version e = (entries key (key e) log).length + 1 ↔ Fresh key snapshot log e) := by
    intro h
    rw [hderived.version_eq key version snapshot h, Fresh, untouched_drop_iff]
    omega
  constructor
  · intro h
    have hlog := h.of_append key version
    have hself := h (key e)
    rw [entries_concat_self, List.map_append, List.length_append, List.length_singleton,
      List.range'_1_concat, hlog (key e)] at hself
    have hversion : version e = 1 + (entries key (key e) log).length := by
      simpa using hself
    exact ⟨hlog, (hfresh hlog).mp (by omega)⟩
  · rintro ⟨hlog, hf⟩ k
    by_cases hk : key e = k
    · subst hk
      rw [entries_concat_self, List.map_append, List.length_append, List.length_singleton,
        List.range'_1_concat, hlog (key e)]
      simp [(hfresh hlog).mpr hf, Nat.add_comm]
    · rw [entries_concat_of_ne key hk]
      exact hlog k

/-- **Versions count chains.**  If every entry is numbered from the one that it was computed from,
the last version under a key is at most the number of entries of the key.  The two are equal exactly
when every entry of the key was computed from the one before it. -/
theorem last_version_le_and_eq_iff {log : List E}
    (h : AllEntries (Derived key version snapshot) log) (k : K) :
    ((last key k log).map version).getD 0 ≤ (entries key k log).length ∧
      (((last key k log).map version).getD 0 = (entries key k log).length ↔
        AllEntries (fun before e => key e = k → Fresh key snapshot before e) log) := by
  induction hlength : log.length using Nat.strong_induction_on generalizing log with
  | _ length ih =>
      rcases List.eq_nil_or_concat log with rfl | ⟨before, e, rfl⟩
      · exact ⟨Nat.le_refl _, iff_of_true rfl allEntries_nil⟩
      rw [List.concat_eq_append] at h hlength ⊢
      rw [List.length_append, List.length_singleton] at hlength
      obtain ⟨hbefore, hderived⟩ := allEntries_concat.mp h
      obtain ⟨hle, hiff⟩ := ih before.length (by omega) hbefore rfl
      by_cases hk : key e = k
      · subst hk
        -- the entry is one past the last of its snapshot, to which the induction applies as well
        obtain ⟨hle', hiff'⟩ := ih (before.take (snapshot e)).length
          (by rw [List.length_take]; omega) (hbefore.take (snapshot e)) rfl
        have hsplit := congrArg List.length
          (entries_take_append_drop key (key e) before (snapshot e))
        rw [List.length_append] at hsplit
        rw [last_concat_self, entries_concat_self, List.length_append, List.length_singleton,
          Option.map_some, Option.getD_some, hderived, allEntries_concat]
        refine ⟨by omega, ?_⟩
        have hfresh : Fresh key snapshot before e →
            (AllEntries (fun before e' => key e' = key e → Fresh key snapshot before e')
              (before.take (snapshot e)) ↔
            AllEntries (fun before e' => key e' = key e → Fresh key snapshot before e')
              before) := by
          intro huntouched
          rw [← hiff', ← hiff, last_take_of_untouched key huntouched,
            entries_take_of_untouched key huntouched]
        have hcount : Fresh key snapshot before e ↔
            (entries key (key e) (before.take (snapshot e))).length =
              (entries key (key e) before).length := untouched_drop_iff key
        constructor
        · intro heq
          have huntouched := hcount.mpr (by omega)
          exact ⟨(hfresh huntouched).mp (hiff'.mp (by omega)), fun _ => huntouched⟩
        · rintro ⟨hall, hself⟩
          have huntouched := hself rfl
          have hchain := hiff'.mpr ((hfresh huntouched).mpr hall)
          have := hcount.mp huntouched
          omega
      · rw [last_concat_of_ne key hk, entries_concat_of_ne key hk, allEntries_concat]
        refine ⟨hle, hiff.trans (and_iff_left fun heq => absurd heq hk).symm⟩

/-- In a numbered log an entry and its version determine each other under a key. -/
theorem Numbered.nodup_versions {log : List E} (h : Numbered key version log) (k : K) :
    ((entries key k log).map version).Nodup := by
  rw [h k]
  exact List.nodup_range'

/-- Versions of a numbered log strictly increase along each key. -/
theorem Numbered.pairwise_lt {log : List E} (h : Numbered key version log) (k : K) :
    ((entries key k log).map version).Pairwise (· < ·) := by
  rw [h k]
  exact List.pairwise_lt_range'

end Versions

/-! ### Stamps -/

section Stamps

variable {τ : Type w} [Preorder τ] (stamp : E → τ)

/-- Under every key, the stamps strictly increase in log order. -/
def Ordered (log : List E) : Prop :=
  ∀ k, ((entries key k log).map stamp).Pairwise (· < ·)

theorem ordered_nil : Ordered key stamp [] := fun _ => List.Pairwise.nil

/-- A log stays ordered exactly when the appended entry is stamped after the last
entry of its key. -/
theorem ordered_concat {log : List E} {e : E} :
    Ordered key stamp (log ++ [e]) ↔
      Ordered key stamp log ∧ ∀ b, last key (key e) log = some b → stamp b < stamp e := by
  constructor
  · intro h
    refine ⟨fun k => ?_, fun b hb => ?_⟩
    · have hk := h k
      rw [entries_append, List.map_append] at hk
      exact (List.pairwise_append.mp hk).1
    · have hk := h (key e)
      rw [entries_concat_self, List.map_append] at hk
      exact (List.pairwise_append.mp hk).2.2 _
        (List.mem_map_of_mem (List.mem_of_getLast? hb)) _ (by simp)
  · rintro ⟨h, hlast⟩ k
    by_cases hk : key e = k
    · subst hk
      rw [entries_concat_self, List.map_append]
      refine List.pairwise_append.mpr ⟨h _, by simp, fun x hx y hy => ?_⟩
      obtain rfl : y = stamp e := by simpa using hy
      -- every earlier stamp is at most the last one, which is below the new one
      rcases List.eq_nil_or_concat (entries key (key e) log) with hnil | ⟨init, b, hinit⟩
      · simp [hnil] at hx
      · have hb : last key (key e) log = some b := by simp [last, hinit]
        have hpair := h (key e)
        rw [hinit, List.concat_eq_append, List.map_append] at hpair
        rw [hinit, List.concat_eq_append, List.map_append, List.mem_append] at hx
        rcases hx with hx | hx
        · exact ((List.pairwise_append.mp hpair).2.2 x hx _ (by simp)).trans (hlast b hb)
        · obtain rfl : x = stamp b := by simpa using hx
          exact hlast b hb
    · rw [entries_concat_of_ne key hk]
      exact h k

/-- In an ordered log the last stamp of a key never decreases as the log grows. -/
theorem Ordered.last_le {log log' : List E} (h : Ordered key stamp (log ++ log')) {k : K}
    {a b : E} (ha : last key k log = some a) (hb : last key k (log ++ log') = some b) :
    stamp a ≤ stamp b := by
  have hk := h k
  rw [entries_append, List.map_append] at hk
  rw [last, entries_append, List.getLast?_append] at hb
  have hmem : stamp a ∈ (entries key k log).map stamp :=
    List.mem_map_of_mem (List.mem_of_getLast? ha)
  cases hlast : (entries key k log').getLast? with
  | none =>
      rw [hlast, Option.none_or] at hb
      rw [Option.some.inj (ha.symm.trans hb)]
  | some c =>
      rw [hlast, Option.some_or] at hb
      obtain rfl := Option.some.inj hb
      have hmem' : stamp c ∈ (entries key k log').map stamp :=
        List.mem_map_of_mem (List.mem_of_getLast? hlast)
      exact ((List.pairwise_append.mp hk).2.2 _ hmem _ hmem').le

end Stamps

/-! ### Versions as stamps -/

section VersionsAsStamps

variable (version snapshot : E → ℕ)

/-- A derived entry of a numbered log is fresh exactly when its version is above the last
one of its key. -/
theorem Derived.fresh_iff {log : List E} {e : E} (hderived : Derived key version snapshot log e)
    (h : Numbered key version log) :
    Fresh key snapshot log e ↔ ∀ b, last key (key e) log = some b → version b < version e := by
  have hlast := h.last_version key version (key e)
  have hsplit := congrArg List.length
    (entries_take_append_drop key (key e) log (snapshot e))
  rw [List.length_append] at hsplit
  rw [hderived.version_eq key version snapshot h, Fresh, untouched_drop_iff]
  cases hb : last key (key e) log with
  | none =>
      rw [hb] at hlast
      have hzero : (entries key (key e) log).length = 0 := by simpa using hlast.symm
      refine iff_of_true (by omega) ?_
      rintro b ⟨⟩
  | some b =>
      rw [hb, Option.map_some, Option.getD_some] at hlast
      constructor
      · rintro hfresh c ⟨⟩
        omega
      · intro hlt
        have := hlt b rfl
        omega

end VersionsAsStamps

/-! ### Reading a list back in the order of a stamp -/

section Sorting

variable {τ : Type w} [LinearOrder τ] (stamp : E → τ)

/-- Sorting by a stamp gives back a list without repetitions, however ties are
broken, exactly when the stamps strictly increase along it. -/
theorem sorted_unique_iff {l : List E} (hnodup : l.Nodup) :
    (∀ l' : List E, l'.Perm l → l'.Pairwise (fun a b => stamp a ≤ stamp b) → l' = l) ↔
      l.Pairwise fun a b => stamp a < stamp b := by
  constructor
  · intro hunique
    have hsorted : l.Pairwise fun a b => stamp a ≤ stamp b := by
      have htrans : ∀ a b c : E, decide (stamp a ≤ stamp b) = true →
          decide (stamp b ≤ stamp c) = true → decide (stamp a ≤ stamp c) = true := by
        intro a b c hab hbc
        simp only [decide_eq_true_eq] at *
        exact hab.trans hbc
      have htotal : ∀ a b : E,
          (decide (stamp a ≤ stamp b) || decide (stamp b ≤ stamp a)) = true := by
        intro a b
        simpa using le_total (stamp a) (stamp b)
      have hmerge := List.pairwise_mergeSort htrans htotal l
      simp only [decide_eq_true_eq] at hmerge
      have hback := hunique _ (List.mergeSort_perm l fun a b => decide (stamp a ≤ stamp b)) hmerge
      rwa [hback] at hmerge
    rw [List.pairwise_iff_getElem] at hsorted ⊢
    intro i j hi hj hij
    refine lt_of_le_of_ne (hsorted i j hi hj hij) fun htie => ?_
    -- two equal stamps could be swapped without the list getting unsorted
    have hperm : ((l.set i l[j]).set j l[i]).Perm l := List.set_set_perm hi hj
    have hstamps : ((l.set i l[j]).set j l[i]).map stamp = l.map stamp := by
      refine List.ext_getElem (by simp) fun n hn hn' => ?_
      simp only [List.getElem_map, List.getElem_set]
      split
      · next h => subst h; exact htie
      · split
        · next h => subst h; exact htie.symm
        · rfl
    have hswap : (l.set i l[j]).set j l[i] = l := by
      refine hunique _ hperm (List.pairwise_map.mp ?_)
      rw [hstamps]
      exact List.pairwise_map.mpr (List.pairwise_iff_getElem.mpr hsorted)
    have hget : ((l.set i l[j]).set j l[i])[j]? = l[j]? := by rw [hswap]
    rw [List.getElem?_set_self (by simpa using hj), List.getElem?_eq_getElem hj,
      Option.some.injEq] at hget
    exact absurd ((hnodup.getElem_inj_iff).mp hget) (by omega)
  · intro hlt l' hperm hsorted
    have hsorted' : l.Pairwise fun a b => stamp a ≤ stamp b := hlt.imp fun h => h.le
    refine hperm.eq_of_pairwise (fun a b ha hb hab hba => ?_) hsorted hsorted'
    by_contra hne
    rcases List.mem_iff_getElem.mp (hperm.subset ha) with ⟨i, hi, rfl⟩
    rcases List.mem_iff_getElem.mp hb with ⟨j, hj, rfl⟩
    rcases Nat.lt_trichotomy i j with hij | rfl | hij
    · exact absurd hba (not_le.mpr (List.pairwise_iff_getElem.mp hlt i j hi hj hij))
    · exact hne rfl
    · exact absurd hab (not_le.mpr (List.pairwise_iff_getElem.mp hlt j i hj hi hij))

end Sorting

end KeyedLog
