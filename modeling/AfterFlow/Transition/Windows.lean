import Mathlib.Data.List.Sort

/-!
# Windows of increasing lists, and walks over pages

Pages of a list whose keys increase: the elements below or above a cursor, and of these the first or
the last few. There are several ways to compute a window, by filtering, by bisection and a slice, or
by sorting downwards and turning the result around. On increasing lists they agree.

An increasing list is read page by page, each page asked for with a cursor made from the one before:
the least key of the page on the way down, the greatest on the way up. The pages are the list, cut
into pieces of one length.

## Main results

* `take_bisectLeft`, `drop_bisectRight`, `slice_bisect` — a slice is a filter
* `latest_eq_downwards` — the last few, by sorting downwards
* `walk_down`, `walk_up` — a walk sees each element once
* `Walk.unique` — there is one walk only
-/

namespace Transition

open List

variable {α : Type} {key : α → ℤ} {l : List α} {x y : ℤ} {n : ℕ}

/-- The first `n` elements. -/
def first (n : ℕ) (l : List α) : List α := l.take n

/-- The last `n` elements. -/
def latest (n : ℕ) (l : List α) : List α := l.drop (l.length - n)

/-- How many keys are below the cursor, in a list whose keys increase. -/
def bisectLeft (key : α → ℤ) (l : List α) (x : ℤ) : ℕ := (l.takeWhile fun a => key a < x).length

/-- How many keys are at most the cursor, in a list whose keys increase. -/
def bisectRight (key : α → ℤ) (l : List α) (x : ℤ) : ℕ := (l.takeWhile fun a => key a ≤ x).length

/-- The keys increase. -/
def Climbs (key : α → ℤ) (l : List α) : Prop := l.Pairwise fun a b => key a < key b

theorem Climbs.filter (h : Climbs key l) (p : α → Bool) : Climbs key (l.filter p) :=
  List.Pairwise.filter p h

theorem Climbs.map {β : Type} {f : β → α} {l : List β} :
    Climbs key (l.map f) ↔ Climbs (key ∘ f) l := pairwise_map

theorem first_map {β : Type} (f : α → β) (n : ℕ) (l : List α) :
    (first n l).map f = first n (l.map f) := map_take

theorem latest_map {β : Type} (f : α → β) (n : ℕ) (l : List α) :
    (latest n l).map f = latest n (l.map f) := by
  rw [latest, latest, map_drop, length_map]

theorem latest_length (n : ℕ) (l : List α) : (latest n l).length = min n l.length := by
  rw [latest, length_drop]
  omega

theorem latest_latest_append (n : ℕ) (l l' : List α) :
    latest n (latest n l ++ l') = latest n (l ++ l') := by
  have hle : l.length - n ≤ l.length := Nat.sub_le ..
  rw [latest, latest, latest, ← drop_append_of_le_length hle, drop_drop, length_drop]
  refine congrArg (fun k => (l ++ l').drop k) ?_
  rw [length_append]
  omega

theorem suffix_latest {m : List α} (h : m <:+ l) (hn : m.length ≤ n) : m <:+ latest n l := by
  have hsuffix : latest n l <:+ l := drop_suffix _ _
  refine suffix_of_suffix_length_le h hsuffix ?_
  rw [latest_length]
  exact Nat.le_min.2 ⟨hn, h.length_le⟩

/-- A prefix of an increasing list is cut out by a test that fails from some point on. -/
theorem takeWhile_eq_filter {p : α → Bool} (h : l.Pairwise fun a b => p b = true → p a = true) :
    l.takeWhile p = l.filter p ∧ l.dropWhile p = l.filter fun a => !p a := by
  induction l with
  | nil => exact ⟨rfl, rfl⟩
  | cons a l ih =>
    obtain ⟨hhead, htail⟩ := pairwise_cons.1 h
    cases ha : p a with
    | true => simp [ha, ih htail]
    | false =>
      have hnone : ∀ b ∈ l, p b = false := fun b hb => by
        by_contra hpb
        have hpa := hhead b hb (Bool.not_eq_false _ ▸ hpb)
        rw [ha] at hpa
        cases hpa
      have hall : (l.filter fun b => !p b) = l :=
        filter_eq_self.2 fun b hb => by rw [hnone b hb]; rfl
      have hfilter : l.filter p = [] :=
        filter_eq_nil_iff.2 fun b hb => by rw [hnone b hb]; exact Bool.false_ne_true
      simp [ha, hall, hfilter]

theorem take_bisectLeft (h : Climbs key l) (x : ℤ) :
    l.take (bisectLeft key l x) = l.filter fun a => key a < x := by
  have hmono : l.Pairwise fun a b => decide (key b < x) = true → decide (key a < x) = true :=
    h.imp fun hab hb => decide_eq_true (hab.trans (of_decide_eq_true hb))
  rw [bisectLeft, ← (takeWhile_eq_filter hmono).1]
  exact (prefix_iff_eq_take.1 ( takeWhile_prefix _)).symm

theorem drop_bisectRight (h : Climbs key l) (x : ℤ) :
    l.drop (bisectRight key l x) = l.filter fun a => x < key a := by
  have hmono : l.Pairwise fun a b => decide (key b ≤ x) = true → decide (key a ≤ x) = true :=
    h.imp fun hab hb => decide_eq_true (hab.le.trans (of_decide_eq_true hb))
  have hsplit : l.drop (bisectRight key l x) = l.dropWhile fun a => key a ≤ x := by
    conv_lhs => rw [← takeWhile_append_dropWhile (p := fun a => decide (key a ≤ x)) (l := l)]
    rw [bisectRight, drop_left']
    rw [takeWhile_append_dropWhile]
  rw [hsplit, (takeWhile_eq_filter hmono).2]
  refine filter_congr fun a _ => ?_
  rw [← decide_not]
  exact decide_eq_decide.2 not_le

theorem bisectLeft_drop (h : Climbs key l) (n : ℕ) (x : ℤ) :
    bisectLeft key (l.drop n) x = bisectLeft key l x - n := by
  induction n generalizing l with
  | zero => rfl
  | succ n ih =>
    cases l with
    | nil => simp [bisectLeft]
    | cons a l =>
      obtain ⟨hhead, htail⟩ := pairwise_cons.1 h
      rw [drop_succ_cons, ih htail]
      by_cases ha : key a < x
      · simp [bisectLeft, ha]
      · have hnone : bisectLeft key l x = 0 := by
          cases l with
          | nil => rfl
          | cons b l =>
            have hb : ¬key b < x := fun hb => ha ((hhead b mem_cons_self).trans hb)
            simp [bisectLeft, hb]
        rw [hnone]
        simp [bisectLeft, ha]

theorem slice_bisect (h : Climbs key l) (x y : ℤ) :
    (l.take (bisectLeft key l y)).drop (bisectRight key l x) =
      l.filter fun a => x < key a ∧ key a < y := by
  have hbelow : bisectLeft key (l.drop (bisectRight key l x)) y =
      bisectLeft key l y - bisectRight key l x := bisectLeft_drop h _ _
  rw [drop_take, ← hbelow, take_bisectLeft (h.sublist (drop_sublist _ _)),
    drop_bisectRight h, filter_filter]
  refine filter_congr fun a _ => ?_
  rw [Bool.decide_and, Bool.and_comm]

theorem Climbs.eq_of_key (h : Climbs key l) : ∀ a ∈ l, ∀ b ∈ l, key a = key b → a = b := by
  have hnodup : (l.map key).Nodup := pairwise_map.2 (h.imp fun hab => hab.ne)
  exact fun a ha b hb heq => inj_on_of_nodup_map hnodup ha hb heq

theorem Climbs.insertionSort_eq {l' : List α} (h : Climbs key l) (hperm : l'.Perm l) :
    (l'.insertionSort fun a b => key a ≤ key b) = l := by
  have htotal : Std.Total fun a b : α => key a ≤ key b := ⟨fun a b => le_total _ _⟩
  have htrans : IsTrans α fun a b => key a ≤ key b := ⟨fun a b c => le_trans⟩
  have hsorted := pairwise_insertionSort (fun a b => key a ≤ key b) l'
  refine List.Perm.eq_of_pairwise ?_ hsorted (h.imp fun hab => hab.le)
    ((perm_insertionSort _ _).trans hperm)
  intro a b ha hb hab hba
  exact h.eq_of_key a (hperm.subset ((mem_insertionSort _).1 ha)) b hb (le_antisymm hab hba)

theorem Climbs.insertionSort_reverse (h : Climbs key l) :
    (l.insertionSort fun a b => key b ≤ key a) = l.reverse := by
  have htotal : Std.Total fun a b : α => key b ≤ key a := ⟨fun a b => le_total _ _⟩
  have htrans : IsTrans α fun a b => key b ≤ key a := ⟨fun a b c hab hbc => le_trans hbc hab⟩
  have hsorted := pairwise_insertionSort (fun a b => key b ≤ key a) l
  refine List.Perm.eq_of_pairwise ?_ hsorted (pairwise_reverse.2 (h.imp fun hab => hab.le))
    ((perm_insertionSort _ _).trans (reverse_perm _).symm)
  intro a b ha hb hab hba
  exact h.eq_of_key a ((mem_insertionSort _).1 ha) b (mem_reverse.1 hb)
    (le_antisymm hba hab)

theorem latest_eq_downwards (h : Climbs key l) (n : ℕ) :
    ((l.insertionSort fun a b => key b ≤ key a).take n).reverse = latest n l := by
  rw [h.insertionSort_reverse, reverse_take, reverse_reverse, length_reverse, latest]

end Transition

/-! ### Pages -/

namespace Transition

open List

variable {α κ : Type} {key : α → ℤ} {l : List α} {limit : ℕ} {c : Option ℤ} {x : ℤ}

structure Page (α : Type) where
  data : List α
  hasMore : Bool

/-- Pages asked for one after the other, until there are no more. -/
inductive Walk (answers : κ → Page α → Prop) (next : Page α → κ) : κ → List (Page α) → Prop
  | last {c p} : answers c p → p.hasMore = false → Walk answers next c [p]
  | more {c p pages} : answers c p → p.hasMore = true → Walk answers next (next p) pages →
      Walk answers next c (p :: pages)

/-- All pages but the last are full and say that there are more; the last says that there are no
more. -/
inductive Full (limit : ℕ) : List (Page α) → Prop
  | last {p} : p.data.length ≤ limit → p.hasMore = false → Full limit [p]
  | more {p pages} : p.data.length = limit → p.hasMore = true → Full limit pages →
      Full limit (p :: pages)

/-- **There is one walk only**, if a request has one answer. -/
theorem Walk.unique {answers : κ → Page α → Prop} {next : Page α → κ} {c : κ}
    {pages pages' : List (Page α)} (hanswers : ∀ c p p', answers c p → answers c p' → p = p')
    (h : Walk answers next c pages) (h' : Walk answers next c pages') : pages = pages' := by
  induction h generalizing pages' with
  | last hp hmore =>
    cases h' with
    | last hp' _ => rw [hanswers _ _ _ hp hp']
    | more hp' hmore' _ =>
      rw [hanswers _ _ _ hp hp', hmore'] at hmore
      cases hmore
  | more hp hmore _ ih =>
    cases h' with
    | last hp' hmore' =>
      rw [hanswers _ _ _ hp hp', hmore'] at hmore
      cases hmore
    | more hp' _ hrest' =>
      obtain rfl := hanswers _ _ _ hp hp'
      rw [ih hrest']

/-! ### What is left of a list -/

/-- The elements below a cursor, if there is one. -/
def below (key : α → ℤ) (c : Option ℤ) (l : List α) : List α := l.filter fun a => c.all (key a < ·)

/-- The elements above a cursor, if there is one. -/
def above (key : α → ℤ) (c : Option ℤ) (l : List α) : List α := l.filter fun a => c.all (· < key a)

@[simp] theorem below_none : below key none l = l := filter_eq_self.2 fun _ _ => rfl

@[simp] theorem above_none : above key none l = l := filter_eq_self.2 fun _ _ => rfl

/-- The page at the upper end of a list. -/
def latestPage (limit : ℕ) (l : List α) : Page α := ⟨latest limit l, decide (limit < l.length)⟩

/-- The page at the lower end of a list. -/
def firstPage (limit : ℕ) (l : List α) : Page α := ⟨first limit l, decide (limit < l.length)⟩

/-- The least key of a page. -/
def lowest (key : α → ℤ) (p : Page α) : Option ℤ := (p.data.map key).min?

/-- The greatest key of a page. -/
def highest (key : α → ℤ) (p : Page α) : Option ℤ := (p.data.map key).max?

theorem lowest_cons {a : α} {d : List α} {more : Bool} (h : Climbs key (a :: d)) :
    lowest key ⟨a :: d, more⟩ = some (key a) := by
  rw [lowest, min?_eq_some_iff]
  refine ⟨mem_cons_self, fun b hb => ?_⟩
  rcases mem_cons.1 hb with rfl | hb
  · exact le_refl _
  · obtain ⟨e, he, rfl⟩ := mem_map.1 hb
    exact ((pairwise_cons.1 h).1 e he).le

theorem highest_concat {a : α} {d : List α} {more : Bool} (h : Climbs key (d ++ [a])) :
    highest key ⟨d ++ [a], more⟩ = some (key a) := by
  rw [highest, max?_eq_some_iff]
  refine ⟨by simp, fun b hb => ?_⟩
  obtain ⟨e, he, rfl⟩ := mem_map.1 hb
  rcases mem_append.1 he with he | he
  · exact ((pairwise_append.1 h).2.2 e he a mem_cons_self).le
  · rw [mem_singleton.1 he]

theorem filter_stricter {p q : α → Bool} (h : ∀ a ∈ l, p a = true → q a = true) :
    l.filter p = (l.filter q).filter p := by
  rw [filter_filter]
  refine filter_congr fun a ha => ?_
  rw [Bool.eq_iff_iff, Bool.and_eq_true]
  exact ⟨fun hp => ⟨hp, h a ha hp⟩, fun hpq => hpq.1⟩

theorem below_of_split {a : α} {d d' : List α} (h : Climbs key l)
    (hsplit : below key c l = d ++ a :: d') : below key (some (key a)) l = d := by
  have ha : a ∈ below key c l := by simp [hsplit]
  have hclimbs : Climbs key (d ++ a :: d') := hsplit ▸ h.filter _
  obtain ⟨-, htail, hcross⟩ := pairwise_append.1 hclimbs
  have hinner : below key (some (key a)) l = below key (some (key a)) (below key c l) := by
    refine filter_stricter fun b _ hb => ?_
    have hcursor := (mem_filter.1 ha).2
    cases c with
    | none => rfl
    | some y => exact decide_eq_true ((of_decide_eq_true hb).trans (of_decide_eq_true hcursor))
  have hlow : below key (some (key a)) d = d :=
    filter_eq_self.2 fun b hb => decide_eq_true (hcross b hb a mem_cons_self)
  have hhigh : below key (some (key a)) (a :: d') = [] := by
    refine filter_eq_nil_iff.2 fun b hb => ?_
    rcases mem_cons.1 hb with rfl | hb
    · simp
    · have hab := (pairwise_cons.1 htail).1 b hb
      simp [hab.le]
  rw [hinner, hsplit, below, filter_append]
  exact (congrArg₂ _ hlow hhigh).trans (append_nil _)

theorem above_of_split {a : α} {d d' : List α} (h : Climbs key l)
    (hsplit : above key c l = d ++ [a] ++ d') : above key (some (key a)) l = d' := by
  have ha : a ∈ above key c l := by simp [hsplit]
  have hclimbs : Climbs key (d ++ [a] ++ d') := hsplit ▸ h.filter _
  obtain ⟨hlow, -, hcross⟩ := pairwise_append.1 hclimbs
  have hinner : above key (some (key a)) l = above key (some (key a)) (above key c l) := by
    refine filter_stricter fun b _ hb => ?_
    have hcursor := (mem_filter.1 ha).2
    cases c with
    | none => rfl
    | some y => exact decide_eq_true ((of_decide_eq_true hcursor).trans (of_decide_eq_true hb))
  have hhigh : above key (some (key a)) d' = d' :=
    filter_eq_self.2 fun b hb => decide_eq_true (hcross a (by simp) b hb)
  have hnone : above key (some (key a)) (d ++ [a]) = [] := by
    refine filter_eq_nil_iff.2 fun b hb => ?_
    rcases mem_append.1 hb with hb | hb
    · have hba := (pairwise_append.1 hlow).2.2 b hb a mem_cons_self
      simp [hba.le]
    · simp [mem_singleton.1 hb]
  rw [hinner, hsplit, above, filter_append]
  exact (congrArg₂ _ hnone hhigh).trans (nil_append _)

/-! ### Walks -/

/-- **A walk down sees each element once**, the pages in reverse order. -/
theorem walk_down (h : Climbs key l) (hlimit : 1 ≤ limit)
    {answers : Option ℤ → Page α → Prop}
    (hanswers : ∀ c, answers c (latestPage limit (below key c l))) (c : Option ℤ) :
    ∃ pages, Walk answers (lowest key) c pages ∧ Full limit pages ∧
      pages.reverse.flatMap Page.data = below key c l := by
  generalize hn : (below key c l).length = n
  induction n using Nat.strong_induction_on generalizing c with
  | _ n ih =>
    by_cases hmore : limit < n
    · -- the page, and what is below its first element
      obtain ⟨a, d, hd⟩ : ∃ a d, latest limit (below key c l) = a :: d := by
        refine exists_cons_of_length_pos ?_
        rw [latest_length, hn]
        omega
      have hsplit : below key c l = (below key c l).take (n - limit) ++ a :: d := by
        rw [← hd, latest, hn, take_append_drop]
      have hrest := below_of_split h hsplit
      have hlength : (below key (some (key a)) l).length = n - limit := by
        rw [hrest, length_take, hn]
        omega
      have hclimbs : Climbs key (a :: d) := by
        rw [← hd]
        exact (h.filter _).sublist (drop_sublist _ _)
      obtain ⟨pages, hwalk, hfull, hdata⟩ := ih (n - limit) (by omega) (some (key a)) hlength
      have hpage : latestPage limit (below key c l) = ⟨a :: d, true⟩ := by
        rw [latestPage, hd, hn, decide_eq_true hmore]
      refine ⟨⟨a :: d, true⟩ :: pages, .more (hpage ▸ hanswers c) rfl ?_, .more ?_ rfl hfull, ?_⟩
      · rwa [lowest_cons hclimbs]
      · rw [← hd, latest_length, hn]
        omega
      · rw [reverse_cons, flatMap_append, hdata, hrest, flatMap_singleton]
        exact hsplit.symm
    · have hall : latest limit (below key c l) = below key c l := by
        rw [latest, hn, Nat.sub_eq_zero_of_le (not_lt.1 hmore), drop_zero]
      have hpage : latestPage limit (below key c l) = ⟨below key c l, false⟩ := by
        rw [latestPage, hall, hn, decide_eq_false hmore]
      refine ⟨[⟨below key c l, false⟩], .last (hpage ▸ hanswers c) rfl, .last ?_ rfl, ?_⟩
      · rw [hn]
        exact not_lt.1 hmore
      · simp

/-- **A walk up sees each element once.** -/
theorem walk_up (h : Climbs key l) (hlimit : 1 ≤ limit)
    {answers : Option ℤ → Page α → Prop}
    (hanswers : ∀ x, answers (some x) (firstPage limit (above key (some x) l))) (x : ℤ) :
    ∃ pages, Walk answers (highest key) (some x) pages ∧ Full limit pages ∧
      pages.flatMap Page.data = above key (some x) l := by
  generalize hn : (above key (some x) l).length = n
  induction n using Nat.strong_induction_on generalizing x with
  | _ n ih =>
    by_cases hmore : limit < n
    · -- the page, and what is above its last element
      obtain ⟨d, a, hd⟩ : ∃ d a, first limit (above key (some x) l) = d ++ [a] := by
        rcases eq_nil_or_concat (first limit (above key (some x) l)) with hnil | ⟨d, a, hd⟩
        · have hlength := congrArg length hnil
          rw [first, length_take, hn, length_nil] at hlength
          omega
        · exact ⟨d, a, by rw [hd, concat_eq_append]⟩
      have hsplit : above key (some x) l = d ++ [a] ++ (above key (some x) l).drop limit := by
        rw [← hd, first, take_append_drop]
      have hrest := above_of_split h hsplit
      have hlength : (above key (some (key a)) l).length = n - limit := by
        rw [hrest, length_drop, hn]
      have hclimbs : Climbs key (d ++ [a]) := by
        rw [← hd]
        exact (h.filter _).sublist (take_sublist _ _)
      obtain ⟨pages, hwalk, hfull, hdata⟩ := ih (n - limit) (by omega) (key a) hlength
      have hpage : firstPage limit (above key (some x) l) = ⟨d ++ [a], true⟩ := by
        rw [firstPage, hd, hn, decide_eq_true hmore]
      refine ⟨⟨d ++ [a], true⟩ :: pages, .more (hpage ▸ hanswers x) rfl ?_, .more ?_ rfl hfull, ?_⟩
      · rwa [highest_concat hclimbs]
      · rw [← hd, first, length_take, hn]
        omega
      · rw [flatMap_cons, hdata, hrest]
        exact hsplit.symm
    · have hall : first limit (above key (some x) l) = above key (some x) l :=
        take_of_length_le (hn ▸ not_lt.1 hmore)
      have hpage : firstPage limit (above key (some x) l) = ⟨above key (some x) l, false⟩ := by
        rw [firstPage, hall, hn, decide_eq_false hmore]
      refine ⟨[⟨above key (some x) l, false⟩], .last (hpage ▸ hanswers x) rfl, .last ?_ rfl, ?_⟩
      · rw [hn]
        exact not_lt.1 hmore
      · simp

end Transition
