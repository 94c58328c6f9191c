import ProcessingEngine.Lib.Slice

/-!
# Equi-joins of sliced lists

An outer join on keys: every left row is combined with the right rows that have
its key, or stands alone when there is none, and the right rows left over stand
alone.  A right row counts as taken when it is the first row equivalent to some
matched row, which is how a position search marks it.  Joining two lists slice
by slice gives the global join exactly when matching rows share a slice
(`outerJoin_slices_perm_iff`).
-/

namespace ProcessingEngine
namespace Lib

variable {α β γ κ : Type} [DecidableEq κ]

/-- The combinations of each left row, in order, with its matches. -/
def matched (kl : α → κ) (kr : β → κ) (comb : α → β → γ) (alone : α → List γ)
    (ls : List α) (rs : List β) : List γ :=
  ls.flatMap fun a =>
    let ms := rs.filter fun b => kr b == kl a
    if ms.isEmpty then alone a else ms.map (comb a)

/-- Whether the row `b`, preceded by `pre`, is the first row equivalent to some
row of `whole` with its key. -/
def isFirst (kr : β → κ) (same : β → β → Bool) (whole pre : List β) (b : β) : Bool :=
  whole.any fun c => kr c == kr b && same b c && pre.all fun d => !(kr d == kr c && same d c)

/-- The rows of `rest`, preceded by `pre`, that no left row takes. -/
def leftover (kr : β → κ) (same : β → β → Bool) (hit : κ → Bool) (whole : List β) :
    List β → List β → List β
  | _, [] => []
  | pre, b :: rest =>
      if hit (kr b) && isFirst kr same whole pre b then
        leftover kr same hit whole (pre ++ [b]) rest
      else b :: leftover kr same hit whole (pre ++ [b]) rest

/-- The keys of the left rows. -/
def hits (kl : α → κ) (ls : List α) (x : κ) : Bool := ls.any fun a => kl a == x

def outerJoin (kl : α → κ) (kr : β → κ) (same : β → β → Bool) (comb : α → β → γ)
    (aloneL : α → List γ) (aloneR : β → List γ) (ls : List α) (rs : List β) : List γ :=
  matched kl kr comb aloneL ls rs ++
    (leftover kr same (hits kl ls) rs [] rs).flatMap aloneR

/-- Rows of the two lists with equal keys lie in the same slice. -/
def PairColocated (n : Nat) (kl : α → κ) (kr : β → κ) (ls : List (Nat × α))
    (rs : List (Nat × β)) : Prop :=
  ∀ r ∈ ls, ∀ s ∈ rs, kl r.2 = kr s.2 → r.1 % n = s.1 % n

/-! ### Left-over rows, key by key -/

theorem isFirst_filter {kr : β → κ} {same : β → β → Bool} {whole pre : List β} {b : β} {x : κ}
    (hb : kr b = x) :
    isFirst kr same (whole.filter fun c => kr c == x) (pre.filter fun c => kr c == x) b =
      isFirst kr same whole pre b := by
  unfold isFirst
  rw [List.any_filter]
  congr 1
  funext c
  by_cases hc : kr c = x
  · rw [List.all_filter]
    simp only [hc, hb, beq_self_eq_true, Bool.true_and]
    congr 2
    funext d
    by_cases hd : kr d = x <;> simp [hd]
  · have hcx : (kr c == x) = false := by simpa using hc
    simp only [hb, hcx, Bool.false_and]

theorem leftover_filter (kr : β → κ) (same : β → β → Bool) (hit : κ → Bool) (whole : List β)
    (x : κ) (pre rest : List β) :
    (leftover kr same hit whole pre rest).filter (fun b => kr b == x) =
      leftover kr same hit (whole.filter fun b => kr b == x) (pre.filter fun b => kr b == x)
        (rest.filter fun b => kr b == x) := by
  induction rest generalizing pre with
  | nil => rfl
  | cons b rest ih =>
      have ih := ih (pre ++ [b])
      by_cases hb : kr b = x
      · have hpre : (pre ++ [b]).filter (fun c => kr c == x) =
            (pre.filter fun c => kr c == x) ++ [b] := by simp [hb]
        rw [hpre] at ih
        have hrest : (b :: rest).filter (fun c => kr c == x) =
            b :: rest.filter fun c => kr c == x := by simp [hb]
        rw [hrest]
        simp only [leftover, isFirst_filter hb]
        split
        · exact ih
        · simpa [hb] using ih
      · have hpre : (pre ++ [b]).filter (fun c => kr c == x) =
            pre.filter fun c => kr c == x := by simp [hb]
        have hrest : (b :: rest).filter (fun c => kr c == x) =
            rest.filter fun c => kr c == x := by simp [hb]
        rw [hpre] at ih
        rw [hrest, ← ih, leftover]
        split
        · rfl
        · simp [hb]

theorem leftover_of_no_hit {kr : β → κ} {same : β → β → Bool} {hit : κ → Bool}
    {whole pre rest : List β} (h : ∀ b ∈ rest, hit (kr b) = false) :
    leftover kr same hit whole pre rest = rest := by
  induction rest generalizing pre with
  | nil => rfl
  | cons b rest ih =>
      rw [leftover, h b List.mem_cons_self, ih fun c hc => h c (List.mem_cons_of_mem b hc)]
      rfl

theorem leftover_congr_hit {kr : β → κ} {same : β → β → Bool} {hit : κ → Bool}
    (hit' : κ → Bool) {whole pre rest : List β} (h : ∀ b ∈ rest, hit (kr b) = hit' (kr b)) :
    leftover kr same hit whole pre rest = leftover kr same hit' whole pre rest := by
  induction rest generalizing pre with
  | nil => rfl
  | cons b rest ih =>
      simp only [leftover, h b List.mem_cons_self,
        ih fun c hc => h c (List.mem_cons_of_mem b hc)]

theorem perm_of_filter_keys {k : β → κ} {l l' : List β}
    (h : ∀ x, (l.filter fun b => k b == x).Perm (l'.filter fun b => k b == x)) : l.Perm l' := by
  classical
  rw [List.perm_iff_count]
  intro b
  have hb := (h (k b)).count_eq b
  rwa [List.count_filter (by simp), List.count_filter (by simp)] at hb

theorem flatMap_range_single {n q : Nat} (hq : q < n) {f : Nat → List β}
    (h : ∀ p, p ≠ q → f p = []) : (List.range n).flatMap f = f q := by
  induction n with
  | zero => omega
  | succ n ih =>
      rw [List.range_succ, List.flatMap_append, List.flatMap_singleton]
      by_cases hqn : q = n
      · subst hqn
        have hnil : (List.range q).flatMap f = [] := by
          rw [List.flatMap_eq_nil_iff]
          exact fun p hp => h p (Nat.ne_of_lt (List.mem_range.mp hp))
        rw [hnil, List.nil_append]
      · rw [ih (by omega), h n (fun e => hqn e.symm), List.append_nil]

theorem leftover_slices_perm {n : Nat} (hn : 0 < n) {kl : α → κ} {kr : β → κ}
    {ls : List (Nat × α)} {rs : List (Nat × β)} (hco : PairColocated n kl kr ls rs)
    (same : β → β → Bool) :
    ((List.range n).flatMap fun p =>
        leftover kr same (hits kl (slice n p ls)) (slice n p rs) [] (slice n p rs)).Perm
      (leftover kr same (hits kl (ls.map Prod.snd)) (rs.map Prod.snd) [] (rs.map Prod.snd)) := by
  refine perm_of_filter_keys (k := kr) fun x => ?_
  simp only [List.filter_flatMap, leftover_filter, List.filter_nil]
  have hkey : ∀ {l : List β}, ∀ b ∈ l.filter (fun b => kr b == x), kr b = x := by
    intro l b hb
    simpa using (List.mem_filter.mp hb).2
  by_cases hx : hits kl (ls.map Prod.snd) x = true
  · -- a left row has the key: all right rows with it are in that row's slice
    obtain ⟨a, ha, hax⟩ : ∃ a ∈ ls.map Prod.snd, kl a = x := by
      simpa only [hits, List.any_eq_true, beq_iff_eq] using hx
    obtain ⟨r, hr, rfl⟩ := List.mem_map.mp ha
    have hq := Nat.mod_lt r.1 hn
    have hright : ∀ s ∈ rs, kr s.2 = x → s.1 % n = r.1 % n := fun s hs hsx =>
      (hco r hr s hs (hax.trans hsx.symm)).symm
    have hslice := filter_slice_of_mem hright
    have hhit : hits kl (slice n (r.1 % n) ls) x = true := by
      simp only [hits, List.any_eq_true, beq_iff_eq]
      exact ⟨r.2, mem_slice.mpr ⟨r.1, hr, rfl⟩, hax⟩
    rw [flatMap_range_single hq (f := fun p => leftover kr same (hits kl (slice n p ls))
      ((slice n p rs).filter fun b => kr b == x) [] ((slice n p rs).filter fun b => kr b == x))]
    · rw [hslice, leftover_congr_hit (hits kl (ls.map Prod.snd)) fun b hb => ?_]
      rw [hkey b hb, hhit, hx]
    · intro p hp
      have hnil : (slice n p rs).filter (fun b => kr b == x) = [] := by
        rw [List.filter_eq_nil_iff]
        intro b hb hbx
        obtain ⟨j, hj, hjp⟩ := mem_slice.mp hb
        exact hp (hjp.symm.trans (hright (j, b) hj (by simpa using hbx)))
      rw [hnil]
      rfl
  · have hmiss : ∀ p, hits kl (slice n p ls) x = false := by
      intro p
      rw [Bool.eq_false_iff]
      intro hp
      apply hx
      simp only [hits, List.any_eq_true, beq_iff_eq] at hp ⊢
      obtain ⟨a, ha, hax⟩ := hp
      obtain ⟨i, hi, _⟩ := mem_slice.mp ha
      exact ⟨a, List.mem_map.mpr ⟨(i, a), hi, rfl⟩, hax⟩
    rw [leftover_of_no_hit fun b hb => by rw [hkey b hb]; exact Bool.eq_false_iff.mpr hx]
    have hall : ∀ p, leftover kr same (hits kl (slice n p ls))
        ((slice n p rs).filter fun b => kr b == x) [] ((slice n p rs).filter fun b => kr b == x) =
        (slice n p rs).filter fun b => kr b == x :=
      fun p => leftover_of_no_hit fun b hb => by rw [hkey b hb, hmiss p]
    simp only [hall]
    rw [← List.filter_flatMap]
    exact (slices_perm hn rs).filter _

/-! ### Matched rows -/

theorem matched_slices_perm {n : Nat} (hn : 0 < n) {kl : α → κ} {kr : β → κ}
    {ls : List (Nat × α)} {rs : List (Nat × β)} (hco : PairColocated n kl kr ls rs)
    (comb : α → β → γ) (alone : α → List γ) :
    ((List.range n).flatMap fun p =>
        matched kl kr comb alone (slice n p ls) (slice n p rs)).Perm
      (matched kl kr comb alone (ls.map Prod.snd) (rs.map Prod.snd)) := by
  have hslice : ∀ p, matched kl kr comb alone (slice n p ls) (slice n p rs) =
      matched kl kr comb alone (slice n p ls) (rs.map Prod.snd) := by
    intro p
    refine List.flatMap_congr fun a ha => ?_
    obtain ⟨i, hi, hip⟩ := mem_slice.mp ha
    rw [filter_slice_of_mem fun s hs hk => (hco (i, a) hi s hs hk.symm).symm.trans hip]
  simp only [hslice]
  unfold matched
  rw [← List.flatMap_assoc]
  exact (slices_perm hn ls).flatMap_right _

theorem countP_matched {kl : α → κ} {kr : β → κ} {comb : α → β → γ} {alone : α → List γ}
    {isComb : γ → Bool} {ls : List α} {rs : List β}
    (hcomb : ∀ a ∈ ls, ∀ b ∈ rs, kl a = kr b → isComb (comb a b) = true)
    (halone : ∀ a ∈ ls, ∀ c ∈ alone a, isComb c = false) :
    (matched kl kr comb alone ls rs).countP isComb =
      (ls.map fun a => rs.countP fun b => kr b == kl a).sum := by
  rw [matched, List.countP_flatMap]
  congr 1
  refine List.map_congr_left fun a ha => ?_
  simp only [Function.comp]
  rw [List.countP_eq_length_filter (l := rs)]
  split
  · next hnil =>
    rw [List.isEmpty_iff.mp hnil, List.countP_eq_zero.mpr fun c hc => by simp [halone a ha c hc]]
    rfl
  · rw [List.countP_map, List.countP_eq_length.mpr]
    intro b hb
    rw [List.mem_filter, beq_iff_eq] at hb
    exact hcomb a ha b hb.1 hb.2.symm

theorem countP_outerJoin {kl : α → κ} {kr : β → κ} {same : β → β → Bool} {comb : α → β → γ}
    {aloneL : α → List γ} {aloneR : β → List γ} {isComb : γ → Bool} {ls : List α} {rs : List β}
    (hcomb : ∀ a ∈ ls, ∀ b ∈ rs, kl a = kr b → isComb (comb a b) = true)
    (haloneL : ∀ a ∈ ls, ∀ c ∈ aloneL a, isComb c = false)
    (haloneR : ∀ b, ∀ c ∈ aloneR b, isComb c = false) :
    (outerJoin kl kr same comb aloneL aloneR ls rs).countP isComb =
      (ls.map fun a => rs.countP fun b => kr b == kl a).sum := by
  have hright : ((leftover kr same (hits kl ls) rs [] rs).flatMap aloneR).countP isComb = 0 := by
    rw [List.countP_eq_zero]
    intro c hc
    obtain ⟨b, _, hb⟩ := List.mem_flatMap.mp hc
    simp [haloneR b c hb]
  rw [outerJoin, List.countP_append, countP_matched hcomb haloneL, hright, Nat.add_zero]

theorem eq_of_sum_map_eq {f g : α → Nat} {l : List α} (hle : ∀ a ∈ l, f a ≤ g a)
    (hsum : (l.map f).sum = (l.map g).sum) : ∀ a ∈ l, f a = g a := by
  induction l with
  | nil => exact fun a ha => absurd ha List.not_mem_nil
  | cons b l ih =>
      have hb := hle b List.mem_cons_self
      have htail : (l.map f).sum ≤ (l.map g).sum :=
        List.sum_le_sum fun a ha => hle a (List.mem_cons_of_mem b ha)
      simp only [List.map_cons, List.sum_cons] at hsum
      intro a ha
      rcases List.mem_cons.mp ha with rfl | ha
      · omega
      · exact ih (fun c hc => hle c (List.mem_cons_of_mem b hc)) (by omega) a ha

/-- The number of matches of each left row in its own slice, summed over the
slices. -/
theorem sum_slices_matches {n : Nat} (hn : 0 < n) (kl : α → κ) (kr : β → κ)
    (ls : List (Nat × α)) (rs : List (Nat × β)) :
    ((List.range n).map fun p =>
        ((slice n p ls).map fun a => (slice n p rs).countP fun b => kr b == kl a).sum).sum =
      (ls.map fun r => (slice n (r.1 % n) rs).countP fun b => kr b == kl r.2).sum := by
  have hperm := (flatMap_filter_perm (fun r : Nat × α => r.1 % n) n ls).map
    fun r => (slice n (r.1 % n) rs).countP fun b => kr b == kl r.2
  have hall : ls.filter (fun r => decide (r.1 % n < n)) = ls :=
    List.filter_eq_self.mpr fun r _ => by simpa using Nat.mod_lt r.1 hn
  rw [hall, List.map_flatMap] at hperm
  rw [← hperm.sum_eq, List.flatMap, List.sum_flatten, List.map_map]
  congr 1
  refine List.map_congr_left fun p _ => ?_
  have hdeal : slice n p ls = (ls.filter fun r => r.1 % n == p).map Prod.snd := rfl
  simp only [Function.comp]
  rw [hdeal, List.map_map]
  congr 1
  refine List.map_congr_left fun r hr => ?_
  have hp : r.1 % n = p := by simpa using (List.mem_filter.mp hr).2
  rw [Function.comp, hp]

theorem pairColocated_of_sum_eq {n : Nat} {kl : α → κ} {kr : β → κ}
    {ls : List (Nat × α)} {rs : List (Nat × β)}
    (h : (ls.map fun r => (slice n (r.1 % n) rs).countP fun b => kr b == kl r.2).sum =
      (ls.map fun r => (rs.map Prod.snd).countP fun b => kr b == kl r.2).sum) :
    PairColocated n kl kr ls rs := by
  have hsub : ∀ p, (slice n p rs).Sublist (rs.map Prod.snd) := fun p =>
    List.filter_sublist.map Prod.snd
  have heq := eq_of_sum_map_eq (fun r _ => (hsub (r.1 % n)).countP_le) h
  intro r hr s hs hk
  have hr' := heq r hr
  rw [slice, List.countP_map, List.countP_map, List.countP_filter] at hr'
  have hsplit := List.countP_eq_countP_filter_add rs
    (fun t => kr t.2 == kl r.2) (fun t => t.1 % n == r.1 % n)
  simp only [List.countP_filter, Function.comp_def] at hsplit hr'
  rw [hr'] at hsplit
  have hzero : rs.countP (fun t => (kr t.2 == kl r.2) && !(t.1 % n == r.1 % n)) = 0 := by
    omega
  have hs' := List.countP_eq_zero.mp hzero s hs
  have hslice : s.1 % n = r.1 % n := by simpa [hk] using hs'
  exact hslice.symm

theorem outerJoin_slices_perm {n : Nat} (hn : 0 < n) {kl : α → κ} {kr : β → κ}
    {ls : List (Nat × α)} {rs : List (Nat × β)} (hco : PairColocated n kl kr ls rs)
    (same : β → β → Bool) (comb : α → β → γ) (aloneL : α → List γ) (aloneR : β → List γ) :
    ((List.range n).flatMap fun p =>
        outerJoin kl kr same comb aloneL aloneR (slice n p ls) (slice n p rs)).Perm
      (outerJoin kl kr same comb aloneL aloneR (ls.map Prod.snd) (rs.map Prod.snd)) := by
  unfold outerJoin
  refine (List.flatMap_append_perm _ _ _).symm.trans ?_
  refine (matched_slices_perm hn hco comb aloneL).append ?_
  rw [← List.flatMap_assoc]
  exact (leftover_slices_perm hn hco same).flatMap_right aloneR

/-- The slice-wise joins make up the global join exactly when matching rows
share a slice. -/
theorem outerJoin_slices_perm_iff {n : Nat} (hn : 0 < n) {kl : α → κ} {kr : β → κ}
    {same : β → β → Bool} {comb : α → β → γ} {aloneL : α → List γ} {aloneR : β → List γ}
    {isComb : γ → Bool} {ls : List (Nat × α)} {rs : List (Nat × β)}
    (hcomb : ∀ r ∈ ls, ∀ s ∈ rs, kl r.2 = kr s.2 → isComb (comb r.2 s.2) = true)
    (haloneL : ∀ r ∈ ls, ∀ c ∈ aloneL r.2, isComb c = false)
    (haloneR : ∀ b, ∀ c ∈ aloneR b, isComb c = false) :
    ((List.range n).flatMap fun p =>
        outerJoin kl kr same comb aloneL aloneR (slice n p ls) (slice n p rs)).Perm
        (outerJoin kl kr same comb aloneL aloneR (ls.map Prod.snd) (rs.map Prod.snd)) ↔
      PairColocated n kl kr ls rs := by
  constructor
  · intro hperm
    refine pairColocated_of_sum_eq ?_
    have hcount := hperm.countP_eq isComb
    have hslice : ∀ p, (outerJoin kl kr same comb aloneL aloneR (slice n p ls)
        (slice n p rs)).countP isComb =
        ((slice n p ls).map fun a => (slice n p rs).countP fun b => kr b == kl a).sum := by
      intro p
      refine countP_outerJoin (fun a ha b hb hk => ?_) (fun a ha => ?_) haloneR
      · obtain ⟨i, hi, _⟩ := mem_slice.mp ha
        obtain ⟨j, hj, _⟩ := mem_slice.mp hb
        exact hcomb (i, a) hi (j, b) hj hk
      · obtain ⟨i, hi, _⟩ := mem_slice.mp ha
        exact haloneL (i, a) hi
    rw [List.countP_flatMap, countP_outerJoin (fun a ha b hb hk => ?_) (fun a ha => ?_) haloneR,
      List.map_map] at hcount
    · simp only [Function.comp_def, hslice] at hcount
      rw [sum_slices_matches hn kl kr ls rs] at hcount
      exact hcount
    · obtain ⟨r, hr, rfl⟩ := List.mem_map.mp ha
      obtain ⟨s, hs, rfl⟩ := List.mem_map.mp hb
      exact hcomb r hr s hs hk
    · obtain ⟨r, hr, rfl⟩ := List.mem_map.mp ha
      exact haloneL r hr
  · exact fun hco => outerJoin_slices_perm hn hco same comb aloneL aloneR

/-! ### An outer join and its parts -/

theorem matched_map {α' β' : Type} (kl : α → κ) (kr : β → κ) (comb : α → β → γ)
    (alone : α → List γ) (f : α' → α) (g : β' → β) (ls : List α') (rs : List β') :
    matched kl kr comb alone (ls.map f) (rs.map g) =
      matched (fun a => kl (f a)) (fun b => kr (g b)) (fun a b => comb (f a) (g b))
        (fun a => alone (f a)) ls rs := by
  unfold matched
  rw [List.flatMap_map]
  apply List.flatMap_congr
  intro a _
  dsimp only
  rw [List.filter_map, List.isEmpty_map, List.map_map]
  rfl

/-- The pairs of rows with equal keys. -/
def pairs (kl : α → κ) (kr : β → κ) (comb : α → β → γ) (ls : List α) (rs : List β) : List γ :=
  ls.flatMap fun a => (rs.filter fun b => kr b == kl a).map (comb a)

theorem hits_eq_false_iff {kr : β → κ} {rs : List β} {x : κ} :
    hits kr rs x = false ↔ (rs.filter fun b => kr b == x) = [] := by
  rw [hits, List.any_eq_false, List.filter_eq_nil_iff]

/-- The left rows give their pairs, and those without partner what they give
alone. -/
theorem matched_perm (kl : α → κ) (kr : β → κ) (comb : α → β → γ) (alone : α → List γ)
    (ls : List α) (rs : List β) :
    (matched kl kr comb alone ls rs).Perm
      (pairs kl kr comb ls rs ++ (ls.filter fun a => !hits kr rs (kl a)).flatMap alone) := by
  induction ls with
  | nil => exact .refl _
  | cons a ls ih =>
      have hmatched : matched kl kr comb alone (a :: ls) rs =
          (if (rs.filter fun b => kr b == kl a).isEmpty then alone a
            else (rs.filter fun b => kr b == kl a).map (comb a)) ++
          matched kl kr comb alone ls rs := rfl
      have hpairs : pairs kl kr comb (a :: ls) rs =
          (rs.filter fun b => kr b == kl a).map (comb a) ++ pairs kl kr comb ls rs := rfl
      rw [hmatched, hpairs]
      cases hhit : hits kr rs (kl a) with
      | false =>
          have hnil := hits_eq_false_iff.mp hhit
          rw [hnil, if_pos List.isEmpty_nil, List.filter_cons_of_pos (by rw [hhit]; rfl),
            List.flatMap_cons]
          exact (ih.append_left _).trans (List.perm_append_comm_assoc _ _ _)
      | true =>
          have hsome : ¬ (rs.filter fun b => kr b == kl a).isEmpty = true := by
            intro he
            have hfalse := hits_eq_false_iff.mpr (List.isEmpty_iff.mp he)
            rw [hhit] at hfalse
            cases hfalse
          rw [if_neg hsome, List.filter_cons_of_neg (by rw [hhit]; decide), List.append_assoc]
          exact ih.append_left _

section

variable {kr : β → κ} {same : β → β → Bool} {hit : κ → Bool}

/-- When equivalence is one, a row comes first if no earlier row is equivalent
to it. -/
theorem isFirst_eq (hrefl : ∀ b, same b b = true)
    (htrans : ∀ b c d, same b c = true → same c d = true → same b d = true)
    {whole pre : List β} {b : β} (hb : b ∈ whole) :
    isFirst kr same whole pre b = true ↔ ∀ d ∈ pre, ¬ (kr d = kr b ∧ same d b = true) := by
  simp only [isFirst, List.any_eq_true, List.all_eq_true, Bool.and_eq_true, beq_iff_eq,
    Bool.not_eq_true', ← Bool.not_eq_true]
  constructor
  · intro h d hd hdb
    obtain ⟨c, -, ⟨hcb, hbc⟩, hpre⟩ := h
    exact hpre d hd ⟨hdb.1.trans hcb.symm, htrans d b c hdb.2 hbc⟩
  · exact fun h => ⟨b, hb, ⟨rfl, hrefl b⟩, h⟩

theorem filter_sublist_leftover (kr : β → κ) (same : β → β → Bool) (hit : κ → Bool)
    (whole pre rest : List β) :
    (rest.filter fun b => !hit (kr b)).Sublist (leftover kr same hit whole pre rest) := by
  induction rest generalizing pre with
  | nil => exact .refl _
  | cons b rest ih =>
      have ih := ih (pre ++ [b])
      rw [leftover]
      cases hhit : hit (kr b) with
      | false =>
          rw [List.filter_cons_of_pos (by rw [hhit]; rfl)]
          exact ih.cons_cons b
      | true =>
          rw [List.filter_cons_of_neg (by rw [hhit]; decide)]
          split
          · exact ih
          · exact ih.cons b

/-- The rows left over are those that are not hit, exactly when no two of the
rows that are hit are equivalent. -/
theorem leftover_eq_filter_iff (hrefl : ∀ b, same b b = true)
    (htrans : ∀ b c d, same b c = true → same c d = true → same b d = true)
    (kr : β → κ) (hit : κ → Bool) (whole : List β) : ∀ rest pre : List β, whole = pre ++ rest →
    (leftover kr same hit whole pre rest = (rest.filter fun b => !hit (kr b)) ↔
      (rest.filter fun b => hit (kr b)).Pairwise (fun d b => ¬ (kr d = kr b ∧ same d b = true)) ∧
        ∀ d ∈ pre, ∀ b ∈ rest.filter fun b => hit (kr b), ¬ (kr d = kr b ∧ same d b = true)) := by
  intro rest
  induction rest with
  | nil => exact fun pre _ => ⟨fun _ => ⟨.nil, by simp⟩, fun _ => rfl⟩
  | cons b rest ih =>
      intro pre hwhole
      have ih := ih (pre ++ [b]) (by rw [hwhole]; simp)
      have hb : b ∈ whole := by rw [hwhole]; simp
      have hfirst : isFirst kr same whole pre b = true ↔
          ∀ d ∈ pre, ¬ (kr d = kr b ∧ same d b = true) := isFirst_eq hrefl htrans hb
      rw [leftover]
      cases hhit : hit (kr b) with
      | false =>
          -- a row with another key is equivalent to no row that is hit
          have hother : ∀ c ∈ rest.filter fun c => hit (kr c),
              ¬ (kr b = kr c ∧ same b c = true) := by
            intro c hc hbc
            have hc := (List.mem_filter.mp hc).2
            rw [← hbc.1, hhit] at hc
            cases hc
          rw [List.filter_cons_of_pos (by rw [hhit]; rfl),
            List.filter_cons_of_neg (by rw [hhit]; decide)]
          show b :: _ = b :: _ ↔ _
          rw [List.cons.injEq, ih]
          simp only [true_and, List.mem_append, List.mem_singleton]
          constructor
          · exact fun h => ⟨h.1, fun d hd => h.2 d (Or.inl hd)⟩
          · intro h
            refine ⟨h.1, fun d hd => ?_⟩
            rcases hd with hd | rfl
            · exact h.2 d hd
            · exact hother
      | true =>
          rw [List.filter_cons_of_neg (by rw [hhit]; decide),
            List.filter_cons_of_pos (by rw [hhit]), List.pairwise_cons, Bool.true_and]
          simp only [List.forall_mem_cons]
          by_cases hpre : isFirst kr same whole pre b = true
          · have hno := hfirst.mp hpre
            rw [if_pos hpre, ih]
            simp only [List.mem_append, List.mem_singleton]
            constructor
            · intro h
              exact ⟨⟨h.2 b (Or.inr rfl), h.1⟩, fun d hd => ⟨hno d hd, h.2 d (Or.inl hd)⟩⟩
            · intro h
              refine ⟨h.1.2, fun d hd => ?_⟩
              rcases hd with hd | rfl
              · exact (h.2 d hd).2
              · exact h.1.1
          · rw [if_neg hpre]
            constructor
            · intro h
              have hle := (filter_sublist_leftover kr same hit whole (pre ++ [b]) rest).length_le
              have hlen := congrArg List.length h
              rw [List.length_cons] at hlen
              omega
            · exact fun h => absurd (hfirst.mpr fun d hd => (h.2 d hd).1) hpre

/-- An outer join consists of the pairs and the rows without partner exactly when
no two right rows with a partner are equivalent. -/
theorem outerJoin_perm_iff (hrefl : ∀ b, same b b = true)
    (htrans : ∀ b c d, same b c = true → same c d = true → same b d = true)
    (kl : α → κ) (kr : β → κ) (comb : α → β → γ) (aloneL : α → List γ) (g : β → γ)
    (ls : List α) (rs : List β) :
    (outerJoin kl kr same comb aloneL (fun b => [g b]) ls rs).Perm
        (pairs kl kr comb ls rs ++ (ls.filter fun a => !hits kr rs (kl a)).flatMap aloneL ++
          (rs.filter fun b => !hits kl ls (kr b)).map g) ↔
      (rs.filter fun b => hits kl ls (kr b)).Pairwise
        (fun d b => ¬ (kr d = kr b ∧ same d b = true)) := by
  have hiff := leftover_eq_filter_iff hrefl htrans kr (hits kl ls) rs rs [] rfl
  have hperm : (outerJoin kl kr same comb aloneL (fun b => [g b]) ls rs).Perm
      ((pairs kl kr comb ls rs ++ (ls.filter fun a => !hits kr rs (kl a)).flatMap aloneL) ++
        (leftover kr same (hits kl ls) rs [] rs).map g) := by
    rw [outerJoin, ← List.map_eq_flatMap]
    exact (matched_perm kl kr comb aloneL ls rs).append_right _
  constructor
  · intro h
    have hrest := (List.perm_append_left_iff _).mp (hperm.symm.trans h)
    have hlen := hrest.length_eq
    rw [List.length_map, List.length_map] at hlen
    have hsub := filter_sublist_leftover kr same (hits kl ls) rs [] rs
    exact (hiff.mp (hsub.eq_of_length hlen.symm).symm).1
  · intro h
    rw [hiff.mpr ⟨h, by simp⟩] at hperm
    exact hperm

end

end Lib
end ProcessingEngine
