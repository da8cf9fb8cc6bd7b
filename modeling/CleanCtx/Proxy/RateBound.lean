import Mathlib.Algebra.Order.Archimedean.Basic
import CleanCtx.Proxy.RateLimiter

/-!
The rate bound and the eviction of idle buckets. The limiter is compared with
one that keeps every bucket: that one is a token bucket for each key, so it
respects the bound. Eviction is invisible exactly when an idle bucket would be
full again by the time it may be evicted, or when the burst is too small for
any request.
-/
namespace CleanCtx
namespace Proxy

namespace RateLimiter

variable (limiter : RateLimiter)

/-- The answers of a limiter that never evicts a bucket. -/
def keptAnswers (limiter : RateLimiter) : Inner → List Request → List Bool
  | _, [] => []
  | inner, request :: requests =>
      let checked := limiter.checkBucket inner request.client request.time
      checked.1 :: limiter.keptAnswers checked.2 requests

end RateLimiter

def InOrderFrom (start : ℚ) (requests : List Request) : Prop :=
  (start :: requests.map (·.time)).Pairwise (· ≤ ·)

/-- The requests of one client that were allowed in the window of length `w` that opens at `t`. -/
def allowedIn (client : String) (t w : ℚ) (requests : List Request) (answers : List Bool) : Nat :=
  (requests.zip answers).countP fun e =>
    e.1.client = client ∧ t ≤ e.1.time ∧ e.1.time ≤ t + w ∧ e.2 = true

/-- In every window every client gets at most the burst and the rate times the window's length. -/
def RespectsBound (limiter : RateLimiter) : Prop :=
  ∀ start requests, InOrderFrom start requests → ∀ client t w, 0 ≤ w →
    (allowedIn client t w requests (limiter.answers (Inner.new start) requests) : ℚ) ≤
      limiter.burst + limiter.rps * w

/-- No answer depends on the eviction of buckets. -/
def EvictionInvisible (limiter : RateLimiter) : Prop :=
  ∀ start requests, InOrderFrom start requests →
    limiter.answers (Inner.new start) requests = limiter.keptAnswers (Inner.new start) requests

section Check

variable {limiter : RateLimiter} {inner : Inner} {client key : String} {now : ℚ}

theorem checkBucket_fst : (limiter.checkBucket inner client now).1 =
    (Bucket.accessEntry limiter.rps limiter.burst (inner.buckets.lookup (bucketKey client)) now).1 := by
  simp only [RateLimiter.checkBucket, Bucket.accessEntry, Bucket.access]
  split <;> rfl

theorem checkBucket_lookup : (limiter.checkBucket inner client now).2.buckets.lookup key =
    if key = bucketKey client then
      some (Bucket.accessEntry limiter.rps limiter.burst
        (inner.buckets.lookup (bucketKey client)) now).2
    else inner.buckets.lookup key := by
  simp only [RateLimiter.checkBucket, Bucket.accessEntry, Bucket.access]
  split <;> split
  · next h => rw [h, Finmap.lookup_insert]
  · next h => rw [Finmap.lookup_insert_of_ne _ h]
  · next h => rw [h, Finmap.lookup_insert]
  · next h => rw [Finmap.lookup_insert_of_ne _ h]

theorem checkBucket_lastGc : (limiter.checkBucket inner client now).2.lastGc = inner.lastGc := by
  rw [RateLimiter.checkBucket]
  split <;> rfl

theorem collect_lookup : (inner.collect now).buckets.lookup key =
    if gcInterval ≤ Bucket.elapsed now inner.lastGc then
      (inner.buckets.lookup key).filter fun b => Bucket.elapsed now b.lastRefill < bucketTtl
    else inner.buckets.lookup key := by
  rw [Inner.collect]
  split
  · exact HashMap.lookup_retain ..
  · rfl

/-- A bucket that was used recently survives the collection. -/
theorem collect_fresh (now : ℚ) {b : Bucket ℚ} (hb : inner.buckets.lookup key = some b)
    (hfresh : Bucket.elapsed now b.lastRefill < bucketTtl) :
    (inner.collect now).buckets.lookup key = some b := by
  rw [collect_lookup, hb]
  split
  · exact Option.filter_some_pos (decide_eq_true hfresh)
  · rfl

theorem collect_lastGc_le (hgc : inner.lastGc ≤ now) : (inner.collect now).lastGc ≤ now := by
  rw [Inner.collect]
  split
  · exact le_rfl
  · exact hgc

end Check

section Kept

variable {limiter : RateLimiter} {inner : Inner} {requests : List Request}

/-- The limiter that keeps every bucket is a token bucket for each key. -/
theorem keptAnswers_serve (key : String) :
    ((requests.zip (limiter.keptAnswers inner requests)).filter fun e =>
      bucketKey e.1.client = key).map (fun e => (e.1.time, e.2)) =
    Bucket.serve limiter.rps limiter.burst (inner.buckets.lookup key)
      ((requests.filter fun r => bucketKey r.client = key).map (·.time)) := by
  induction requests generalizing inner with
  | nil => rfl
  | cons request requests ih =>
      have hrest := @ih (limiter.checkBucket inner request.client request.time).2
      rw [RateLimiter.keptAnswers, List.zip_cons_cons]
      by_cases hkey : bucketKey request.client = key
      · subst hkey
        rw [checkBucket_lookup, if_pos rfl] at hrest
        rw [List.filter_cons_of_pos (by simp), List.filter_cons_of_pos (by simp), List.map_cons,
          List.map_cons, Bucket.serve, hrest, checkBucket_fst]
      · rw [checkBucket_lookup, if_neg (Ne.symm hkey)] at hrest
        rw [List.filter_cons_of_neg (by simpa using hkey),
          List.filter_cons_of_neg (by simpa using hkey), hrest]

theorem kept_bound (hrps : 0 ≤ limiter.rps) (hburst : 0 ≤ limiter.burst) {start : ℚ}
    (horder : InOrderFrom start requests) (client : String) (t : ℚ) {w : ℚ} (hw : 0 ≤ w) :
    (allowedIn client t w requests (limiter.keptAnswers (Inner.new start) requests) : ℚ) ≤
      limiter.burst + limiter.rps * w := by
  have hcount : allowedIn client t w requests (limiter.keptAnswers (Inner.new start) requests) ≤
      Bucket.succeeded t (t + w) (((requests.zip (limiter.keptAnswers (Inner.new start) requests)).filter
        fun e => bucketKey e.1.client = bucketKey client).map fun e => (e.1.time, e.2)) := by
    rw [Bucket.succeeded, List.countP_map, List.countP_filter, allowedIn]
    refine List.countP_mono_left fun e _ he => ?_
    obtain ⟨hclient, hwindow⟩ := of_decide_eq_true he
    simp [hclient, hwindow]
  have htimes : ((requests.filter fun r => bucketKey r.client = bucketKey client).map
      (·.time)).Pairwise (· ≤ ·) :=
    horder.of_cons.sublist (List.filter_sublist.map _)
  rw [keptAnswers_serve] at hcount
  have hbound := Bucket.succeeded_le ((Inner.new start).buckets.lookup (bucketKey client))
    hrps hburst (le_add_of_nonneg_right hw : t ≤ t + w) (by rintro b ⟨⟩) htimes
  have hcast : ((allowedIn client t w requests (limiter.keptAnswers (Inner.new start) requests) : Nat)
      : ℚ) ≤ _ := Nat.cast_le.mpr hcount
  refine hcast.trans (hbound.trans ?_)
  rw [add_sub_cancel_left, mul_comm]

end Kept

section Invisible

variable {limiter : RateLimiter} {evicting keeping : Inner} {requests : List Request} {now : ℚ}

/-- The evicting limiter has every bucket of the keeping one, except some that have been idle for
so long that they may be evicted. -/
structure Tracks (limiter : RateLimiter) (evicting keeping : Inner) (now : ℚ) : Prop where
  within : ∀ key b, keeping.buckets.lookup key = some b → b.Within limiter.burst
  same : ∀ key, evicting.buckets.lookup key = keeping.buckets.lookup key ∨
    evicting.buckets.lookup key = none ∧
      ∃ b, keeping.buckets.lookup key = some b ∧ bucketTtl ≤ now - b.lastRefill

theorem Tracks.collect (h : Tracks limiter evicting keeping now) {later : ℚ} (hlater : now ≤ later) :
    Tracks limiter (evicting.collect later) keeping later where
  within := h.within
  same := by
    intro key
    rw [collect_lookup]
    rcases h.same key with hsame | ⟨hnone, b, hb, hidle⟩
    · rw [hsame]
      cases hb : keeping.buckets.lookup key with
      | none => exact .inl (by split <;> rfl)
      | some b =>
          by_cases hfresh : Bucket.elapsed later b.lastRefill < bucketTtl
          · exact .inl (by split <;> simp [hfresh])
          · split
            · refine .inr ⟨by simpa using not_lt.mp hfresh, b, rfl, ?_⟩
              rcases le_max_iff.mp (not_lt.mp hfresh) with hidle | hzero
              · exact hidle
              · exact absurd hzero (by decide +kernel)
            · exact .inl rfl
    · refine .inr ⟨by rw [hnone]; split <;> rfl, b, hb, hidle.trans ?_⟩
      exact sub_le_sub_right hlater _

/-- A bucket that may be evicted would be full again. -/
theorem Tracks.accessEntry (h : Tracks limiter evicting keeping now) (hrps : 0 ≤ limiter.rps)
    (hfull : limiter.burst ≤ bucketTtl * limiter.rps) (key : String) :
    Bucket.accessEntry limiter.rps limiter.burst (evicting.buckets.lookup key) now =
      Bucket.accessEntry limiter.rps limiter.burst (keeping.buckets.lookup key) now := by
  rcases h.same key with hsame | ⟨hnone, b, hb, hidle⟩
  · rw [hsame]
  · rw [hnone, hb]
    refine Bucket.access_of_level ?_
    rw [Option.getD_none, Option.getD_some, Bucket.level_full hrps now,
      Bucket.level_eq_burst hrps (h.within key b hb) hidle hfull]

theorem Tracks.checkBucket (h : Tracks limiter evicting keeping now) (hrps : 0 ≤ limiter.rps)
    (hburst : 0 ≤ limiter.burst) (hfull : limiter.burst ≤ bucketTtl * limiter.rps)
    (client : String) :
    (limiter.checkBucket evicting client now).1 = (limiter.checkBucket keeping client now).1 ∧
      Tracks limiter (limiter.checkBucket evicting client now).2
        (limiter.checkBucket keeping client now).2 now := by
  have haccess := h.accessEntry hrps hfull (bucketKey client)
  refine ⟨by rw [checkBucket_fst, checkBucket_fst, haccess], fun key b hb => ?_, fun key => ?_⟩
  · rw [checkBucket_lookup] at hb
    split at hb
    · cases hb
      refine Bucket.Within.access hrps hburst ?_
      cases hold : keeping.buckets.lookup (bucketKey client) with
      | none => exact ⟨hburst, le_rfl⟩
      | some b => exact h.within _ b hold
    · exact h.within key b hb
  · rw [checkBucket_lookup, checkBucket_lookup, haccess]
    split
    · exact .inl rfl
    · exact h.same key

theorem Tracks.answers (h : Tracks limiter evicting keeping now) (hrps : 0 ≤ limiter.rps)
    (hburst : 0 ≤ limiter.burst) (hfull : limiter.burst ≤ bucketTtl * limiter.rps)
    (horder : InOrderFrom now requests) :
    limiter.answers evicting requests = limiter.keptAnswers keeping requests := by
  induction requests generalizing evicting keeping now with
  | nil => rfl
  | cons request requests ih =>
      obtain ⟨hfirst, hrest⟩ := List.pairwise_cons.mp horder
      have hnow : now ≤ request.time := hfirst _ List.mem_cons_self
      obtain ⟨hanswer, hafter⟩ := (h.collect hnow).checkBucket hrps hburst hfull request.client
      rw [RateLimiter.answers, RateLimiter.keptAnswers, RateLimiter.checkAt, hanswer,
        ih hafter hrest]

theorem checkBucket_of_small (hsmall : limiter.burst < 1) (inner : Inner) (client : String) :
    (limiter.checkBucket inner client now).1 = false := by
  rw [checkBucket_fst, Bucket.accessEntry, ← Bool.not_eq_true, Bucket.access_fst, not_le]
  exact Bucket.level_le.trans_lt hsmall

theorem answers_of_small (hsmall : limiter.burst < 1) :
    limiter.answers evicting requests = limiter.keptAnswers keeping requests := by
  induction requests generalizing evicting keeping with
  | nil => rfl
  | cons request requests ih =>
      rw [RateLimiter.answers, RateLimiter.keptAnswers, RateLimiter.checkAt,
        checkBucket_of_small hsmall, checkBucket_of_small hsmall, ih]

theorem evictionInvisible (hrps : 0 ≤ limiter.rps) (hburst : 0 ≤ limiter.burst)
    (h : limiter.burst < 1 ∨ limiter.burst ≤ bucketTtl * limiter.rps) :
    EvictionInvisible limiter := by
  intro start requests horder
  rcases h with hsmall | hfull
  · exact answers_of_small hsmall
  · have hnew : Tracks limiter (Inner.new start) (Inner.new start) start :=
      { within := nofun, same := fun _ => .inl rfl }
    exact hnew.answers hrps hburst hfull horder

end Invisible

section Visible

variable {limiter : RateLimiter} {evicting keeping : Inner} {now x y : ℚ}

/-- The two limiters answer every further sequence of requests alike. -/
def AnswerAlike (limiter : RateLimiter) (evicting keeping : Inner) (now : ℚ) : Prop :=
  ∀ requests, InOrderFrom now requests →
    limiter.answers evicting requests = limiter.keptAnswers keeping requests

theorem AnswerAlike.step (h : AnswerAlike limiter evicting keeping now) {later : ℚ}
    (hlater : now ≤ later) (client : String) :
    (limiter.checkAt evicting client later).1 = (limiter.checkBucket keeping client later).1 ∧
      AnswerAlike limiter (limiter.checkAt evicting client later).2
        (limiter.checkBucket keeping client later).2 later := by
  have hcons : ∀ requests, InOrderFrom later requests →
      InOrderFrom now ({ client, time := later } :: requests) := by
    intro requests horder
    refine List.pairwise_cons.mpr ⟨fun t ht => ?_, horder⟩
    rcases List.mem_cons.mp ht with rfl | ht
    · exact hlater
    · exact hlater.trans ((List.pairwise_cons.mp horder).1 t ht)
  refine ⟨?_, fun requests horder => ?_⟩
  · exact (List.cons.inj (h _ (hcons [] (List.pairwise_singleton _ _)))).1
  · exact (List.cons.inj (h _ (hcons requests horder))).2

def probe : String := "probe"

/-- Alike so far, with `x` and `y` tokens left for the probing client. -/
structure Holds (limiter : RateLimiter) (evicting keeping : Inner) (now x y : ℚ) : Prop where
  alike : AnswerAlike limiter evicting keeping now
  evicted : evicting.buckets.lookup (bucketKey probe) = some { tokens := x, lastRefill := now }
  kept : keeping.buckets.lookup (bucketKey probe) = some { tokens := y, lastRefill := now }
  lastGc : evicting.lastGc ≤ now

def spent (x : ℚ) : ℚ := x - if 1 ≤ x then 1 else 0

theorem accessEntry_some (limiter : RateLimiter) (x now : ℚ) {gap : ℚ} (hgap : 0 ≤ gap) :
    Bucket.accessEntry limiter.rps limiter.burst (some { tokens := x, lastRefill := now }) (now + gap) =
      (decide (1 ≤ min (x + gap * limiter.rps) limiter.burst),
        { tokens := spent (min (x + gap * limiter.rps) limiter.burst), lastRefill := now + gap }) := by
  have helapsed : Bucket.elapsed (now + gap) now = gap := by
    rw [Bucket.elapsed, add_sub_cancel_left, max_eq_left hgap]
  rw [Bucket.accessEntry, Option.getD_some, Bucket.access, helapsed, spent]
  split <;> simp [*]

theorem accessEntry_none {limiter : RateLimiter} :
    Bucket.accessEntry limiter.rps limiter.burst none now =
      (decide (1 ≤ limiter.burst), { tokens := spent limiter.burst, lastRefill := now }) := by
  rw [Bucket.accessEntry, Option.getD_none, Bucket.access, Bucket.elapsed, spent]
  simp only [sub_self, max_self, zero_mul, add_zero, min_self]
  split <;> simp [*]

/-- A request before the bucket may be evicted. -/
theorem Holds.wait (h : Holds limiter evicting keeping now x y) {gap : ℚ} (hgap : 0 ≤ gap)
    (hfresh : gap < bucketTtl) :
    (1 ≤ min (x + gap * limiter.rps) limiter.burst ↔
        1 ≤ min (y + gap * limiter.rps) limiter.burst) ∧
      ∃ evicting' keeping', Holds limiter evicting' keeping' (now + gap)
        (spent (min (x + gap * limiter.rps) limiter.burst))
        (spent (min (y + gap * limiter.rps) limiter.burst)) := by
  have hlater : now ≤ now + gap := le_add_of_nonneg_right hgap
  have hcollect := collect_fresh (now + gap) h.evicted
    (by rw [Bucket.elapsed, add_sub_cancel_left, max_eq_left hgap]; exact hfresh)
  obtain ⟨hanswer, halike⟩ := h.alike.step hlater probe
  rw [RateLimiter.checkAt, checkBucket_fst, checkBucket_fst, hcollect, h.kept,
    accessEntry_some _ _ _ hgap, accessEntry_some _ _ _ hgap] at hanswer
  refine ⟨decide_eq_decide.mp hanswer, _, _, halike, ?_, ?_, ?_⟩
  · rw [RateLimiter.checkAt, checkBucket_lookup, if_pos rfl, hcollect, accessEntry_some _ _ _ hgap]
  · rw [checkBucket_lookup, if_pos rfl, h.kept, accessEntry_some _ _ _ hgap]
  · rw [RateLimiter.checkAt, checkBucket_lastGc]
    exact collect_lastGc_le (h.lastGc.trans hlater)

/-- Requests at one instant use up every whole token. -/
theorem Holds.drain (n : Nat) (h : Holds limiter evicting keeping now x y) (hyx : y ≤ x)
    (hx : x ≤ limiter.burst) (hn : x < n + 1) :
    ∃ evicting' keeping' d, Holds limiter evicting' keeping' now (x - d) (y - d) ∧ x - d < 1 := by
  induction n generalizing evicting keeping x y with
  | zero => exact ⟨evicting, keeping, 0, by simpa using h, by simpa using hn⟩
  | succ n ih =>
      by_cases hone : 1 ≤ x
      · obtain ⟨hboth, evicting', keeping', hafter⟩ := h.wait le_rfl (by decide +kernel)
        simp only [zero_mul, add_zero, min_eq_left hx, min_eq_left (hyx.trans hx)] at hboth hafter
        rw [spent, spent, if_pos hone, if_pos (hboth.mp hone)] at hafter
        push_cast at hn
        obtain ⟨evicting'', keeping'', d, hd, hlt⟩ :=
          ih hafter (sub_le_sub_right hyx 1) (by linarith) (by linarith)
        rw [sub_sub, sub_sub] at hd
        exact ⟨evicting'', keeping'', 1 + d, hd, by linarith⟩
      · exact ⟨evicting, keeping, 0, by simpa using h, by simpa using hone⟩

/-- Waiting, with refused requests in between, for exactly one token. -/
theorem Holds.fill (n : Nat) (h : Holds limiter evicting keeping now x y) (hyx : y ≤ x) (hx : x < 1)
    (hrps : 0 < limiter.rps) (hburst : 1 ≤ limiter.burst) (hn : 1 - x ≤ n * (60 * limiter.rps)) :
    y = x ∧ ∃ evicting' keeping' later, Holds limiter evicting' keeping' later 0 0 := by
  induction n generalizing evicting keeping now x y with
  | zero =>
      rw [Nat.cast_zero, zero_mul] at hn
      linarith
  | succ n ih =>
      have hmin : ∀ z ≤ (1 : ℚ), min z limiter.burst = z := fun z hz => min_eq_left (hz.trans hburst)
      by_cases hsoon : 1 ≤ x + 60 * limiter.rps
      · have hgap : (1 - x) / limiter.rps * limiter.rps = 1 - x := div_mul_cancel₀ _ hrps.ne'
        have hpos : 0 ≤ (1 - x) / limiter.rps := div_nonneg (by linarith) hrps.le
        have hfresh : (1 - x) / limiter.rps < bucketTtl := by
          rw [div_lt_iff₀ hrps, bucketTtl]
          linarith
        obtain ⟨hboth, evicting', keeping', hafter⟩ := h.wait hpos hfresh
        rw [hgap, add_sub_cancel, hmin 1 le_rfl, hmin (y + (1 - x)) (by linarith)] at hboth hafter
        have hyone := hboth.mp le_rfl
        have hxy : y = x := by linarith
        subst hxy
        rw [add_sub_cancel, spent, if_pos le_rfl, sub_self] at hafter
        exact ⟨rfl, evicting', keeping', _, hafter⟩
      · have hlow : x + 60 * limiter.rps < 1 := not_le.mp hsoon
        obtain ⟨-, evicting', keeping', hafter⟩ := @Holds.wait _ _ _ _ _ _ h 60 (by norm_num) (by decide +kernel)
        rw [hmin _ hlow.le, hmin (y + 60 * limiter.rps) (by linarith), spent, spent,
          if_neg (by linarith), if_neg (by linarith), sub_zero, sub_zero] at hafter
        push_cast at hn
        obtain ⟨heq, hempty⟩ := ih hafter (by linarith) hlow (by linarith)
        exact ⟨by linarith, hempty⟩

/-- Limiters that answer alike hold the same tokens, and can be brought to hold none. -/
theorem Holds.level (h : Holds limiter evicting keeping now x y) (hyx : y ≤ x)
    (hx : x ≤ limiter.burst) (hrps : 0 < limiter.rps) (hburst : 1 ≤ limiter.burst) :
    y = x ∧ ∃ evicting' keeping' later, Holds limiter evicting' keeping' later 0 0 := by
  obtain ⟨n, hn⟩ := exists_nat_gt x
  obtain ⟨evicting', keeping', d, hd, hlt⟩ := h.drain n hyx hx (by linarith)
  obtain ⟨m, hm⟩ := exists_nat_gt ((1 - (x - d)) / (60 * limiter.rps))
  have hsteps : 1 - (x - d) ≤ m * (60 * limiter.rps) :=
    ((div_lt_iff₀ (by linarith)).mp hm).le
  obtain ⟨heq, hempty⟩ := hd.fill m (by linarith) hlt hrps hburst hsteps
  exact ⟨by linarith, hempty⟩

/-- An evicted bucket starts full, a kept one only with what was added since. -/
theorem Holds.evict (h : Holds limiter evicting keeping now 0 0) :
    (1 ≤ limiter.burst ↔ 1 ≤ min (bucketTtl * limiter.rps) limiter.burst) ∧
      ∃ evicting' keeping', Holds limiter evicting' keeping' (now + bucketTtl)
        (spent limiter.burst) (spent (min (bucketTtl * limiter.rps) limiter.burst)) := by
  have hnonneg : (0 : ℚ) ≤ bucketTtl := by decide +kernel
  have hlater : now ≤ now + bucketTtl := le_add_of_nonneg_right hnonneg
  have hdue : gcInterval ≤ Bucket.elapsed (now + bucketTtl) evicting.lastGc := by
    refine le_max_of_le_left ?_
    rw [gcInterval, bucketTtl]
    linarith [h.lastGc]
  have hevicted : (evicting.collect (now + bucketTtl)).buckets.lookup (bucketKey probe) = none := by
    rw [collect_lookup, if_pos hdue, h.evicted]
    simp [Bucket.elapsed]
  have hkept := accessEntry_some limiter 0 now hnonneg
  rw [zero_add] at hkept
  obtain ⟨hanswer, halike⟩ := h.alike.step hlater probe
  rw [RateLimiter.checkAt, checkBucket_fst, checkBucket_fst, hevicted, h.kept, accessEntry_none,
    hkept] at hanswer
  refine ⟨decide_eq_decide.mp hanswer, _, _, halike, ?_, ?_, ?_⟩
  · rw [RateLimiter.checkAt, checkBucket_lookup, if_pos rfl, hevicted, accessEntry_none]
  · rw [checkBucket_lookup, if_pos rfl, h.kept, hkept]
  · rw [RateLimiter.checkAt, checkBucket_lastGc]
    exact collect_lastGc_le (h.lastGc.trans hlater)

theorem of_evictionInvisible (hrps : 0 < limiter.rps) (h : EvictionInvisible limiter) :
    limiter.burst < 1 ∨ limiter.burst ≤ bucketTtl * limiter.rps := by
  refine or_iff_not_imp_left.mpr fun hlarge => ?_
  have hburst : 1 ≤ limiter.burst := not_lt.mp hlarge
  have hspent : spent limiter.burst ≤ limiter.burst := by
    rw [spent, if_pos hburst]
    linarith
  have hfirst : ∃ evicting keeping,
      Holds limiter evicting keeping 0 (spent limiter.burst) (spent limiter.burst) := by
    have halike : AnswerAlike limiter (Inner.new 0) (Inner.new 0) 0 := h 0
    have hnew : ((Inner.new 0).collect 0).buckets.lookup (bucketKey probe) = none := by
      rw [collect_lookup]
      split <;> rfl
    refine ⟨_, _, (halike.step le_rfl probe).2, ?_, ?_, ?_⟩
    · rw [RateLimiter.checkAt, checkBucket_lookup, if_pos rfl, hnew, accessEntry_none]
    · rw [checkBucket_lookup, if_pos rfl]
      exact congrArg some (congrArg Prod.snd accessEntry_none)
    · rw [RateLimiter.checkAt, checkBucket_lastGc]
      exact collect_lastGc_le le_rfl
  obtain ⟨evicting, keeping, hheld⟩ := hfirst
  obtain ⟨-, evicting, keeping, now, hempty⟩ := hheld.level le_rfl hspent hrps hburst
  obtain ⟨hboth, evicting, keeping, hafter⟩ := hempty.evict
  by_contra hslow
  have hmin : min (bucketTtl * limiter.rps) limiter.burst = bucketTtl * limiter.rps :=
    min_eq_left (not_le.mp hslow).le
  rw [spent, spent, if_pos hburst, if_pos (hboth.mp hburst), hmin] at hafter
  obtain ⟨hsame, -⟩ := hafter.level (by linarith) (by linarith) hrps hburst
  linarith

end Visible

/-- The limiter keeps its bound, and its evictions stay invisible, exactly when the burst is below
one token or refills within the time a bucket must be idle to be evicted. -/
theorem respectsBound_evictionInvisible_iff (limiter : RateLimiter) (hrps : 0 < limiter.rps)
    (hburst : 0 < limiter.burst) :
    RespectsBound limiter ∧ EvictionInvisible limiter ↔
      limiter.burst < 1 ∨ limiter.burst ≤ bucketTtl * limiter.rps := by
  refine ⟨fun h => of_evictionInvisible hrps h.2, fun h => ?_⟩
  have hinvisible : EvictionInvisible limiter := evictionInvisible hrps.le hburst.le h
  refine ⟨fun start requests horder client t w hw => ?_, hinvisible⟩
  rw [hinvisible start requests horder]
  exact kept_bound hrps.le hburst.le horder client t hw

theorem respectsBound_evictionInvisible_default :
    RespectsBound { rps := 60, burst := 10 } ∧ EvictionInvisible { rps := 60, burst := 10 } := by
  have h := respectsBound_evictionInvisible_iff { rps := 60, burst := 10 } (by decide +kernel)
    (by decide +kernel)
  exact h.mpr (.inr (by decide +kernel))

/-- One token refills in a hundred seconds, up to a burst of two. -/
def slowLimiter : RateLimiter := { rps := 1 / 100, burst := 2 }

/-- Two requests use up the burst; two minutes later two more find a bucket that is full again. -/
def idleRequests : List Request :=
  [{ client := "10.0.0.1", time := 0 }, { client := "10.0.0.1", time := 0 },
    { client := "10.0.0.1", time := 120 }, { client := "10.0.0.1", time := 120 }]

theorem not_respectsBound_slowLimiter :
    ¬ (RespectsBound slowLimiter ∧ EvictionInvisible slowLimiter) := by
  intro h
  have horder : InOrderFrom 0 idleRequests := by
    rw [InOrderFrom]
    decide +kernel
  have hall : allowedIn "10.0.0.1" 0 120 idleRequests
      (slowLimiter.answers (Inner.new 0) idleRequests) = 4 := by
    decide +kernel
  have hbound := h.1 0 idleRequests horder "10.0.0.1" 0 120 (by norm_num)
  rw [hall, slowLimiter] at hbound
  norm_num at hbound

end Proxy
end CleanCtx
