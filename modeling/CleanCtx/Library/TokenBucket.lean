import Mathlib.Algebra.Order.Field.Basic
import Mathlib.Tactic.Linarith
import Mathlib.Tactic.Ring

/-!
A token bucket over an ordered field. A bucket refills at a constant rate up to
its burst; an access takes one token, or fails when there is none. In any time
window the accesses that succeed number at most the burst and what the rate
adds during the window.
-/
namespace CleanCtx

structure Bucket (K : Type) where
  tokens : K
  lastRefill : K
  deriving DecidableEq, Repr

namespace Bucket

variable {K : Type} [Field K] [LinearOrder K] {rate burst : K}

def elapsed (now earlier : K) : K := max (now - earlier) 0

/-- Refill, then take a token if there is one. -/
def access (rate burst : K) (b : Bucket K) (now : K) : Bool × Bucket K :=
  let tokens := min (b.tokens + elapsed now b.lastRefill * rate) burst
  if 1 ≤ tokens then (true, { tokens := tokens - 1, lastRefill := now })
  else (false, { tokens, lastRefill := now })

/-- An absent bucket is created full on its first access. -/
def accessEntry (rate burst : K) (entry : Option (Bucket K)) (now : K) : Bool × Bucket K :=
  access rate burst (entry.getD { tokens := burst, lastRefill := now }) now

/-- The answers to accesses at the given times. -/
def serve (rate burst : K) : Option (Bucket K) → List K → List (K × Bool)
  | _, [] => []
  | entry, now :: times =>
      (now, (accessEntry rate burst entry now).1) ::
        serve rate burst (some (accessEntry rate burst entry now).2) times

def succeeded (start stop : K) (answers : List (K × Bool)) : Nat :=
  answers.countP fun e => start ≤ e.1 ∧ e.1 ≤ stop ∧ e.2 = true

def level (rate burst : K) (b : Bucket K) (now : K) : K :=
  min (b.tokens + elapsed now b.lastRefill * rate) burst

section Access

variable {b : Bucket K} {now : K}

theorem access_fst : (access rate burst b now).1 = true ↔ 1 ≤ level rate burst b now := by
  rw [access, level]
  split <;> simp [*]

theorem access_tokens : (access rate burst b now).2.tokens =
    level rate burst b now - if (access rate burst b now).1 then 1 else 0 := by
  simp only [access, level]
  split <;> simp

@[simp] theorem access_lastRefill : (access rate burst b now).2.lastRefill = now := by
  rw [access]
  split <;> rfl

/-- An access sees of a bucket only its level. -/
theorem access_of_level {b' : Bucket K} (h : level rate burst b now = level rate burst b' now) :
    access rate burst b now = access rate burst b' now := by
  rw [level, level] at h
  simp only [access, h]

theorem level_le : level rate burst b now ≤ burst := min_le_right _ _

variable [IsStrictOrderedRing K]

theorem level_le_add (rate burst : K) (h : b.lastRefill ≤ now) :
    level rate burst b now ≤ b.tokens + (now - b.lastRefill) * rate := by
  rw [level, elapsed, max_eq_left (sub_nonneg.mpr h)]
  exact min_le_left _ _

def Within (burst : K) (b : Bucket K) : Prop := 0 ≤ b.tokens ∧ b.tokens ≤ burst

theorem level_nonneg (hrate : 0 ≤ rate) (hburst : 0 ≤ burst) (h : b.Within burst) :
    0 ≤ level rate burst b now :=
  le_min (add_nonneg h.1 (mul_nonneg (le_max_right _ _) hrate)) hburst

theorem Within.access (hrate : 0 ≤ rate) (hburst : 0 ≤ burst) (h : b.Within burst) :
    (access rate burst b now).2.Within burst := by
  have hnonneg : 0 ≤ level rate burst b now := level_nonneg hrate hburst h
  have hle : level rate burst b now ≤ burst := level_le
  rw [Within, access_tokens]
  split
  · next htaken =>
    have hone := access_fst.mp htaken
    exact ⟨sub_nonneg.mpr hone, by linarith⟩
  · exact ⟨by simpa using hnonneg, by simpa using hle⟩

/-- The level after a long enough time is the burst, whatever was left. -/
theorem level_eq_burst (hrate : 0 ≤ rate) (h : b.Within burst) {gap : K}
    (hgap : gap ≤ now - b.lastRefill) (hfull : burst ≤ gap * rate) :
    level rate burst b now = burst := by
  refine min_eq_right (hfull.trans ?_)
  have hmul : gap * rate ≤ elapsed now b.lastRefill * rate :=
    mul_le_mul_of_nonneg_right (hgap.trans (le_max_left _ _)) hrate
  exact hmul.trans (le_add_of_nonneg_left h.1)

theorem level_full (hrate : 0 ≤ rate) (last : K) :
    level rate burst { tokens := burst, lastRefill := last } now = burst := by
  rw [level]
  exact min_eq_right (le_add_of_nonneg_right (mul_nonneg (le_max_right _ _) hrate))

end Access

section Window

variable {entry : Option (Bucket K)} {times : List K} {start stop : K}

theorem serve_times : (serve rate burst entry times).map Prod.fst = times := by
  induction times generalizing entry with
  | nil => rfl
  | cons now times ih => rw [serve, List.map_cons, ih]

/-- After the window nothing counts. -/
theorem succeeded_of_late {now : K} (hlate : stop < now)
    (htimes : (now :: times).Pairwise (· ≤ ·)) :
    succeeded start stop (serve rate burst entry (now :: times)) = 0 := by
  refine List.countP_eq_zero.mpr fun e he hcounts => ?_
  have hwindow : start ≤ e.1 ∧ e.1 ≤ stop ∧ e.2 = true := of_decide_eq_true hcounts
  have hmem := List.mem_map_of_mem (f := Prod.fst) he
  rw [serve_times] at hmem
  have hnow : now ≤ e.1 := by
    rcases List.mem_cons.mp hmem with heq | hmem
    · exact heq.ge
    · exact (List.pairwise_cons.mp htimes).1 _ hmem
  exact absurd hwindow.2.1 (not_le.mpr (hlate.trans_le hnow))

variable [IsStrictOrderedRing K]

/-- The first access counts at most once, and only when it succeeds. -/
theorem succeeded_serve_cons_le {now : K} :
    (succeeded start stop (serve rate burst entry (now :: times)) : K) ≤
      succeeded start stop (serve rate burst (some (accessEntry rate burst entry now).2) times) +
        if (accessEntry rate burst entry now).1 then 1 else 0 := by
  rw [serve, succeeded, List.countP_cons, Nat.cast_add, succeeded]
  refine add_le_add le_rfl ?_
  split
  · next h =>
    have hanswer : (accessEntry rate burst entry now).1 = true := (of_decide_eq_true h).2.2
    rw [if_pos hanswer, Nat.cast_one]
  · split <;> simp

/-- From a given bucket on: what it holds and what is added until the window closes. -/
theorem succeeded_le_tokens (start : K) (hrate : 0 ≤ rate) (hburst : 0 ≤ burst) {b : Bucket K}
    (hb : b.Within burst) (hstop : b.lastRefill ≤ stop)
    (htimes : (b.lastRefill :: times).Pairwise (· ≤ ·)) :
    (succeeded start stop (serve rate burst (some b) times) : K) ≤
      b.tokens + (stop - b.lastRefill) * rate := by
  have hroom : ∀ {b : Bucket K}, b.Within burst → b.lastRefill ≤ stop →
      0 ≤ b.tokens + (stop - b.lastRefill) * rate := fun hb hstop =>
    add_nonneg hb.1 (mul_nonneg (sub_nonneg.mpr hstop) hrate)
  induction times generalizing b with
  | nil => simpa [serve, succeeded] using hroom hb hstop
  | cons now times ih =>
      obtain ⟨hfirst, hrest⟩ := List.pairwise_cons.mp htimes
      by_cases hlate : stop < now
      · rw [succeeded_of_late hlate hrest, Nat.cast_zero]
        exact hroom hb hstop
      · have hlevel := level_le_add rate burst (hfirst now List.mem_cons_self)
        have hafter := ih (hb.access hrate hburst) (access_lastRefill.trans_le (not_lt.mp hlate))
          (by rw [access_lastRefill]; exact hrest)
        rw [access_tokens, access_lastRefill] at hafter
        refine succeeded_serve_cons_le.trans ?_
        rw [accessEntry, Option.getD_some]
        linarith

/-- In any window: the burst and what the rate adds during the window. -/
theorem succeeded_le (entry : Option (Bucket K)) (hrate : 0 ≤ rate) (hburst : 0 ≤ burst)
    (hstart : start ≤ stop)
    (hentry : ∀ b ∈ entry, b.Within burst) (htimes : times.Pairwise (· ≤ ·)) :
    (succeeded start stop (serve rate burst entry times) : K) ≤ burst + (stop - start) * rate := by
  have hroom : 0 ≤ burst + (stop - start) * rate :=
    add_nonneg hburst (mul_nonneg (sub_nonneg.mpr hstart) hrate)
  induction times generalizing entry with
  | nil => simpa [serve, succeeded] using hroom
  | cons now times ih =>
      have hfull : (entry.getD { tokens := burst, lastRefill := now }).Within burst := by
        cases entry with
        | none => exact ⟨hburst, le_rfl⟩
        | some b => exact hentry b rfl
      have hafter : (accessEntry rate burst entry now).2.Within burst := hfull.access hrate hburst
      by_cases hearly : now < start
      · have hskip : succeeded start stop (serve rate burst entry (now :: times)) =
            succeeded start stop (serve rate burst (some (accessEntry rate burst entry now).2)
              times) := by
          rw [serve, succeeded, List.countP_cons_of_neg (by simp [not_le.mpr hearly]), succeeded]
        rw [hskip]
        exact ih _ (fun b hb => Option.some.inj hb ▸ hafter) htimes.of_cons
      · by_cases hlate : stop < now
        · rw [succeeded_of_late hlate htimes, Nat.cast_zero]
          exact hroom
        · have hlast : (accessEntry rate burst entry now).2.lastRefill = now := access_lastRefill
          have hinside := succeeded_le_tokens start hrate hburst hafter
            (hlast.trans_le (not_lt.mp hlate)) (by rw [hlast]; exact htimes)
          have htokens : (accessEntry rate burst entry now).2.tokens =
              level rate burst (entry.getD { tokens := burst, lastRefill := now }) now -
                if (accessEntry rate burst entry now).1 then 1 else 0 := access_tokens
          have hlevel : level rate burst (entry.getD { tokens := burst, lastRefill := now }) now ≤
              burst := level_le
          have hwindow : (stop - now) * rate ≤ (stop - start) * rate :=
            mul_le_mul_of_nonneg_right (by linarith [not_lt.mp hearly]) hrate
          rw [htokens, hlast] at hinside
          refine succeeded_serve_cons_le.trans ?_
          linarith

end Window

end Bucket
end CleanCtx
