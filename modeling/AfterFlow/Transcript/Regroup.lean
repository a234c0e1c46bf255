import Mathlib.Data.Finset.Dedup

/-!
# Regrouping answers after their calls

A transcript is a list of messages. Some make calls, each under a key, and some answer the call of
a key. A reader of the transcript wants every message that makes calls followed at once by the
answers to them, in order, and no answer anywhere else. The transcript at hand may have its answers
late, early, twice or not at all, and keys may be used again.

Regrouping takes the answers out of the transcript, into a queue for each key, and puts one after
each call: the next of its queue, or a made-up one where the queue is empty. Nothing here depends on
what a message or a call is. What the result looks like follows by induction on the transcript from
the six laws of `Scheme`.

## Main results

* `Scheme.regroup_settled` — regrouping settles
* `Scheme.Settled.regroup` — what is settled stays
* `Scheme.sent_sent` — regrouping twice is regrouping once
* `Scheme.Settled.grouped`, `Scheme.Grouped.settled` — settled and grouped transcripts
-/

namespace Transcript

open List Function

/-- How messages `μ` make calls `γ`, and answer calls, by keys `κ`. -/
structure Scheme (μ γ κ : Type) where
  /-- The key of the call that a message answers, if it is an answer. -/
  answers : μ → Option κ
  /-- The calls of a message. -/
  calls : μ → List γ
  /-- The key of a call. -/
  key : γ → κ
  /-- The message as it is sent. -/
  clean : μ → μ
  /-- What is sent as the answer to a call, given the answer that was found. -/
  reply : γ → Option μ → μ
  answers_clean : ∀ m, answers (clean m) = answers m
  clean_clean : ∀ m, clean (clean m) = clean m
  clean_answer : ∀ m, (answers m).isSome → clean m = m
  calls_answer : ∀ m, (answers m).isSome → calls m = []
  answers_reply : ∀ c found, (∀ r ∈ found, answers r = some (key c)) →
    answers (reply c found) = some (key c)
  /-- The calls of the message as it is sent have the same keys, and are content with what is sent
  as the answers to the original ones. -/
  calls_clean : ∀ m, List.Forall₂ (fun c c' => key c' = key c ∧
    ∀ found, reply c' (some (reply c found)) = reply c found) (calls m) (calls (clean m))

namespace Scheme

variable {μ γ κ : Type} (S : Scheme μ γ κ)

/-! ### What it is for -/

/-- The keys a message calls. -/
def keys (m : μ) : List κ := (S.calls m).map S.key

/-- A reply that is sent as it is. -/
def Answers (c : γ) (r : μ) : Prop := S.answers r = some (S.key c) ∧ S.reply c (some r) = r

/-- Every message is as it is sent and followed by the replies to its calls; there are no other
answers to known keys. -/
inductive Settled (known : Finset κ) : List μ → Prop
  | nil : Settled known []
  | message {m rs l} : S.answers m = none → S.clean m = m →
      List.Forall₂ S.Answers (S.calls m) rs → Settled known l → Settled known (m :: (rs ++ l))
  | stray {m k l} : S.answers m = some k → k ∉ known → Settled known l → Settled known (m :: l)

/-- Every message is followed by answers to its keys, as `P` relates the keys it calls to the keys
that are answered; there are no other answers to known keys. -/
inductive Grouped (P : List κ → List κ → Prop) (known : Finset κ) : List μ → Prop
  | nil : Grouped P known []
  | message {m rs js l} : S.answers m = none → rs.map S.answers = js.map some → P (S.keys m) js →
      Grouped P known l → Grouped P known (m :: (rs ++ l))
  | stray {m k l} : S.answers m = some k → k ∉ known → Grouped P known l →
      Grouped P known (m :: l)

/-- Each distinct key once, in order. -/
def Once (ks js : List κ) : Prop := js.Nodup ∧ js.Sublist ks ∧ ∀ k ∈ ks, k ∈ js

variable {S} {known : Finset κ} {l : List μ} {m : μ} {c : γ} {k : κ}

theorem keys_answer (h : S.answers m = some k) : S.keys m = [] := by
  rw [keys, S.calls_answer m (by simp [h]), map_nil]

theorem keys_clean (m : μ) : S.keys (S.clean m) = S.keys m := by
  have h := S.calls_clean m
  rw [keys, keys]
  revert h
  generalize S.calls m = cs
  generalize S.calls (S.clean m) = cs'
  intro h
  induction h with
  | nil => rfl
  | cons hc _ ih => rw [map_cons, map_cons, hc.1, ih]

theorem once_self {ks : List κ} (h : ks.Nodup) : Once ks ks := ⟨h, .refl ks, fun _ hk => hk⟩

theorem Once.eq {ks js : List κ} (h : Once ks js) (hks : ks.Nodup) : js = ks :=
  h.2.1.eq_of_length_le (hks.subperm h.2.2).length_le

theorem map_answers {cs : List γ} {rs : List μ} (h : List.Forall₂ S.Answers cs rs) :
    rs.map S.answers = (cs.map S.key).map some := by
  induction h with
  | nil => rfl
  | cons hc _ ih => rw [map_cons, hc.1, ih, map_cons, map_cons]

theorem answers_of_map {cs : List γ} {rs : List μ}
    (h : rs.map S.answers = (cs.map S.key).map some)
    (hreply : ∀ c ∈ cs, ∀ r, S.reply c (some r) = r) : List.Forall₂ S.Answers cs rs := by
  induction cs generalizing rs with
  | nil => simp_all
  | cons c cs ih =>
    obtain ⟨r, rs, rfl, hr, hrs⟩ := map_eq_cons_iff.1 h
    exact .cons ⟨hr, hreply c (mem_cons_self ..) r⟩
      (ih hrs fun c hc => hreply c (mem_cons_of_mem _ hc))

theorem Settled.grouped {P : List κ → List κ → Prop} (h : S.Settled known l) (hP : ∀ ks, P ks ks) :
    S.Grouped P known l := by
  induction h with
  | nil => exact .nil
  | message hm _ hrs _ ih => exact .message hm (map_answers hrs) (hP _) ih
  | stray hm hk _ ih => exact .stray hm hk ih

/-- A grouped transcript is settled if nothing in it has to be cleaned and no message calls a key
twice. -/
theorem Grouped.settled (h : S.Grouped Once known l) (hclean : ∀ m ∈ l, S.clean m = m)
    (hreply : ∀ m ∈ l, ∀ c ∈ S.calls m, ∀ r, S.reply c (some r) = r)
    (hnodup : ∀ m ∈ l, (S.keys m).Nodup) : S.Settled known l := by
  induction h with
  | nil => exact .nil
  | @message m rs js l hm hrs hjs _ ih =>
    have hm' : m ∈ m :: (rs ++ l) := mem_cons_self
    have hl : ∀ {m'}, m' ∈ l → m' ∈ m :: (rs ++ l) := fun h =>
      mem_cons_of_mem _ (mem_append_right _ h)
    rw [hjs.eq (hnodup m hm')] at hrs
    exact .message hm (hclean m hm') (answers_of_map hrs (hreply m hm'))
      (ih (fun m h => hclean m (hl h)) (fun m h => hreply m (hl h)) fun m h => hnodup m (hl h))
  | @stray m k l hm hk _ ih =>
    have hl : ∀ {m'}, m' ∈ l → m' ∈ m :: l := fun h => mem_cons_of_mem _ h
    exact .stray hm hk
      (ih (fun m h => hclean m (hl h)) (fun m h => hreply m (hl h)) fun m h => hnodup m (hl h))

variable [DecidableEq κ] (S)

/-! ### The procedure -/

/-- The keys that are called somewhere. -/
def called (l : List μ) : Finset κ := (l.flatMap S.keys).toFinset

/-- The answers to each key, in order. -/
def queues (l : List μ) (k : κ) : List μ := l.filter fun m => S.answers m = some k

/-- What is sent for some calls, each taking the next answer of its key, and what remains. -/
def replies : List γ → (κ → List μ) → List μ × (κ → List μ)
  | [], q => ([], q)
  | c :: cs, q =>
    let rest := replies cs (update q (S.key c) (q (S.key c)).tail)
    (S.reply c (q (S.key c)).head? :: rest.1, rest.2)

/-- The transcript without its answers to known keys, and with replies after the calls. -/
@[grind =] def regroup (known : Finset κ) : (κ → List μ) → List μ → List μ
  | _, [] => []
  | q, m :: l =>
    match S.answers m with
    | some k => if k ∈ known then regroup known q l else m :: regroup known q l
    | none => S.clean m :: ((S.replies (S.calls m) q).1 ++
        regroup known (S.replies (S.calls m) q).2 l)

/-- What is sent for a transcript. -/
def sent (l : List μ) : List μ := S.regroup (S.called l) (S.queues l) l

variable {S} {q q' : κ → List μ}

theorem mem_called : k ∈ S.called l ↔ ∃ m ∈ l, k ∈ S.keys m := by
  simp [Scheme.called]

/-! ### Queues -/

variable (S) in
/-- A queue holds answers to its key. -/
def Sorted (q : κ → List μ) : Prop := ∀ k, ∀ r ∈ q k, S.answers r = some k

theorem queues_sorted : S.Sorted (S.queues l) := by
  intro k r hr
  simpa using (mem_filter.1 hr).2

theorem queues_append {l₁ l₂ : List μ} :
    S.queues (l₁ ++ l₂) = fun k => S.queues l₁ k ++ S.queues l₂ k := by
  funext k
  simp [queues]

theorem queues_cons_none (h : S.answers m = none) : S.queues (m :: l) = S.queues l := by
  funext k
  simp [queues, h]

theorem queues_cons_some (h : S.answers m = some k) :
    S.queues (m :: l) = update (S.queues l) k (m :: S.queues l k) := by
  funext j
  by_cases hj : j = k
  · subst hj
    simp [queues, h]
  · have : k ≠ j := fun h => hj h.symm
    simp [queues, h, hj, this]

theorem Sorted.pop (h : S.Sorted q) : S.Sorted (update q k (q k).tail) := by
  intro j r hr
  by_cases hj : j = k
  · subst hj
    rw [update_self] at hr
    exact h j r (mem_of_mem_tail hr)
  · rw [update_of_ne hj] at hr
    exact h j r hr

theorem Sorted.replies (h : S.Sorted q) (cs : List γ) :
    S.Sorted (S.replies cs q).2 ∧
      ∃ found : List (Option μ), List.Forall₂ (fun c r => S.answers r = some (S.key c)) cs
        (S.replies cs q).1 ∧ found.length = cs.length ∧
        (S.replies cs q).1 = List.zipWith S.reply cs found := by
  induction cs generalizing q with
  | nil => exact ⟨h, [], .nil, rfl, rfl⟩
  | cons c cs ih =>
    obtain ⟨hq, found, hforall, hlength, hzip⟩ := ih (h.pop (k := S.key c))
    refine ⟨hq, (q (S.key c)).head? :: found, .cons ?_ hforall, by simp [hlength], ?_⟩
    · exact S.answers_reply c _ fun r hr => h _ r (mem_of_mem_head? hr)
    · rw [Scheme.replies, hzip, zipWith_cons_cons]

/-! ### Regrouping settles -/

theorem settled_replies (h : S.Sorted q) (m : μ) :
    List.Forall₂ S.Answers (S.calls (S.clean m)) (S.replies (S.calls m) q).1 := by
  obtain ⟨-, found, hforall, hlength, hzip⟩ := h.replies (S.calls m)
  rw [hzip] at hforall ⊢
  have hclean := S.calls_clean m
  clear hzip
  revert hforall hlength hclean
  generalize S.calls m = cs
  generalize S.calls (S.clean m) = cs'
  intro hforall hlength hclean
  induction hclean generalizing found with
  | nil => exact .nil
  | @cons c c' cs cs' hc _ ih =>
    cases found with
    | nil => simp at hlength
    | cons f found =>
      obtain ⟨hkey, hreply⟩ := hc
      rw [zipWith_cons_cons] at hforall ⊢
      obtain ⟨hhead, htail⟩ := forall₂_cons.1 hforall
      exact .cons ⟨by rw [hhead, hkey], hreply f⟩ (ih found htail (by simpa using hlength))

/-- **Regrouping settles.** -/
theorem regroup_settled (h : S.Sorted q) (l : List μ) : S.Settled known (S.regroup known q l) := by
  induction l generalizing q with
  | nil => exact .nil
  | cons m l ih =>
    rw [Scheme.regroup]
    cases hm : S.answers m with
    | some k =>
      by_cases hk : k ∈ known
      · simpa [hk] using ih h
      · simpa [hk] using Settled.stray hm hk (ih h)
    | none =>
      have hnone : S.answers (S.clean m) = none := by rw [S.answers_clean, hm]
      exact .message hnone (S.clean_clean m) (settled_replies h m) (ih (h.replies _).1)

/-! ### What is settled stays -/

theorem replies_prepend {cs : List γ} {rs : List μ} (h : List.Forall₂ S.Answers cs rs) :
    S.replies cs (fun k => S.queues rs k ++ q k) = (rs, q) := by
  induction h with
  | nil => simp [Scheme.replies, queues]
  | @cons c r cs rs hc _ ih =>
    obtain ⟨hkey, hreply⟩ := hc
    have hpop : update (fun k => S.queues (r :: rs) k ++ q k) (S.key c)
        (S.queues (r :: rs) (S.key c) ++ q (S.key c)).tail = fun k => S.queues rs k ++ q k := by
      funext j
      by_cases hj : j = S.key c
      · subst hj
        simp [queues_cons_some hkey]
      · simp [queues_cons_some hkey, hj]
    rw [Scheme.replies]
    simp only [hpop, ih]
    simp [queues_cons_some hkey, hreply]

theorem regroup_skip {rs : List μ} (h : ∀ r ∈ rs, ∃ k ∈ known, S.answers r = some k) :
    S.regroup known q (rs ++ l) = S.regroup known q l := by
  induction rs with
  | nil => rfl
  | cons r rs ih =>
    obtain ⟨k, hk, hr⟩ := h r (mem_cons_self ..)
    rw [cons_append, Scheme.regroup, hr]
    simp [hk, ih fun r hr => h r (mem_cons_of_mem _ hr)]

theorem replies_congr {cs : List γ} (hcs : ∀ c ∈ cs, S.key c ∈ known)
    (h : ∀ k ∈ known, q k = q' k) :
    (S.replies cs q).1 = (S.replies cs q').1 ∧
      ∀ k ∈ known, (S.replies cs q).2 k = (S.replies cs q').2 k := by
  induction cs generalizing q q' with
  | nil => exact ⟨rfl, h⟩
  | cons c cs ih =>
    have hc := h _ (hcs c (mem_cons_self ..))
    have hpop : ∀ k ∈ known, update q (S.key c) (q (S.key c)).tail k =
        update q' (S.key c) (q' (S.key c)).tail k := by
      intro k hk
      by_cases hkey : k = S.key c
      · subst hkey
        simp [hc]
      · simp [hkey, h k hk]
    obtain ⟨h₁, h₂⟩ := ih (fun c hc => hcs c (mem_cons_of_mem _ hc)) hpop
    exact ⟨by rw [Scheme.replies, Scheme.replies, hc, ← hc, h₁, hc], h₂⟩

theorem regroup_congr (hl : ∀ m ∈ l, ∀ k ∈ S.keys m, k ∈ known) (h : ∀ k ∈ known, q k = q' k) :
    S.regroup known q l = S.regroup known q' l := by
  induction l generalizing q q' with
  | nil => rfl
  | cons m l ih =>
    have htail := fun m hm => hl m (mem_cons_of_mem _ hm)
    have hm : ∀ c ∈ S.calls m, S.key c ∈ known := fun c hc =>
      hl m (mem_cons_self ..) _ (mem_map_of_mem hc)
    obtain ⟨h₁, h₂⟩ := replies_congr hm h
    rw [Scheme.regroup, Scheme.regroup, h₁, ih htail h₂, ih htail h]

/-- **What is settled stays.** -/
theorem Settled.regroup (h : S.Settled known l) (hl : ∀ m ∈ l, ∀ k ∈ S.keys m, k ∈ known) :
    S.regroup known (S.queues l) l = l := by
  induction h with
  | nil => rfl
  | @message m rs l hm hclean hrs _ ih =>
    have hkeys : ∀ k ∈ S.keys m, k ∈ known := hl m (mem_cons_self ..)
    have hskip : ∀ r ∈ rs, ∃ k ∈ known, S.answers r = some k := by
      intro r hr
      have hmem : S.answers r ∈ (S.keys m).map some := by
        rw [keys, ← map_answers hrs]
        exact mem_map_of_mem hr
      obtain ⟨k, hk, hanswers⟩ := mem_map.1 hmem
      exact ⟨k, hkeys k hk, hanswers.symm⟩
    have htail : ∀ m ∈ l, ∀ k ∈ S.keys m, k ∈ known := fun m hm =>
      hl m (mem_cons_of_mem _ (mem_append_right _ hm))
    rw [Scheme.regroup, hm, queues_cons_none hm, queues_append]
    simp only
    rw [replies_prepend hrs, hclean, regroup_skip hskip, ih htail]
  | @stray m k l hm hk _ ih =>
    have htail : ∀ m ∈ l, ∀ k ∈ S.keys m, k ∈ known := fun m hm =>
      hl m (mem_cons_of_mem _ hm)
    have hqueue : ∀ j ∈ known, S.queues (m :: l) j = S.queues l j := by
      intro j hj
      have : j ≠ k := fun h => hk (h ▸ hj)
      rw [queues_cons_some hm, update_of_ne this]
    rw [Scheme.regroup, hm]
    simp only [hk, if_false]
    rw [regroup_congr htail hqueue, ih htail]

/-! ### Regrouping twice -/

theorem replies_answer (h : S.Sorted q) (cs : List γ) :
    ∀ r ∈ (S.replies cs q).1, ∃ k, S.answers r = some k := by
  induction cs generalizing q with
  | nil => simp [Scheme.replies]
  | cons c cs ih =>
    intro r hr
    rcases mem_cons.1 hr with rfl | hr
    · exact ⟨_, S.answers_reply c _ fun r hr => h _ r (mem_of_mem_head? hr)⟩
    · exact ih h.pop r hr

/-- **The other messages keep their order.** -/
theorem filter_regroup (h : S.Sorted q) (l : List μ) :
    (S.regroup known q l).filter (fun m => (S.answers m).isNone) =
      (l.filter fun m => (S.answers m).isNone).map S.clean := by
  induction l generalizing q with
  | nil => rfl
  | cons m l ih =>
    rw [Scheme.regroup]
    cases hm : S.answers m with
    | some k =>
      by_cases hk : k ∈ known
      · simp [hk, hm, ih h]
      · simp [hk, hm, ih h]
    | none =>
      have hreplies : (S.replies (S.calls m) q).1.filter (fun m => (S.answers m).isNone) = [] := by
        refine filter_eq_nil_iff.2 fun r hr => ?_
        obtain ⟨k, hk⟩ := replies_answer h _ r hr
        simp [hk]
      simp only [filter_cons, S.answers_clean, hm, Option.isNone_none, if_true,
        filter_append, hreplies, nil_append, map_cons]
      rw [ih (h.replies _).1]

theorem mem_keys_regroup (h : S.Sorted q) :
    (∃ m ∈ S.regroup known q l, k ∈ S.keys m) ↔ ∃ m ∈ l, k ∈ S.keys m := by
  have hfilter : (S.regroup known q l).filter (fun m => (S.answers m).isNone) =
      (l.filter fun m => (S.answers m).isNone).map S.clean := filter_regroup h l
  have hcalls : ∀ l : List μ, (∃ m ∈ l, k ∈ S.keys m) ↔
      ∃ m ∈ l.filter (fun m => (S.answers m).isNone), k ∈ S.keys m := by
    intro l
    constructor
    · rintro ⟨m, hm, hk⟩
      refine ⟨m, mem_filter.2 ⟨hm, ?_⟩, hk⟩
      cases ha : S.answers m with
      | none => rfl
      | some j => simp [keys_answer ha] at hk
    · rintro ⟨m, hm, hk⟩
      exact ⟨m, (mem_filter.1 hm).1, hk⟩
  rw [hcalls, hfilter, hcalls l]
  simp [keys_clean]

theorem called_sent (l : List μ) : S.called (S.sent l) = S.called l := by
  ext k
  rw [mem_called, mem_called, sent, mem_keys_regroup queues_sorted]

theorem sent_settled (l : List μ) : S.Settled (S.called l) (S.sent l) :=
  regroup_settled queues_sorted l

theorem Settled.sent (h : S.Settled (S.called l) l) : S.sent l = l :=
  h.regroup fun m hm _ hk => mem_called.2 ⟨m, hm, hk⟩

/-- **Regrouping twice is regrouping once.** -/
theorem sent_sent (l : List μ) : S.sent (S.sent l) = S.sent l := by
  refine Settled.sent ?_
  rw [called_sent]
  exact sent_settled l

end Scheme

end Transcript
