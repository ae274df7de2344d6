import Mathlib.Order.Lattice
import Mathlib.Tactic.Common
import Mathlib.Algebra.Ring.Nat

/-!
# Exchanging one partition of a list for another

A list is cut into consecutive segments in two ways.  Each holder of a segment
of the first kind cuts it at the second cuts and sends the pieces out; a
receiver that puts what it got in the order of the senders has its segment of
the second kind.
-/

namespace HyperParallel.Foundation.IntervalExchange

open List

variable {α : Type*}

def segment (xs : List α) (start stop : Nat) : List α := (xs.drop start).take (stop - start)

theorem length_segment {xs : List α} {start stop : Nat} (h : stop ≤ xs.length) :
    (segment xs start stop).length = stop - start := by
  rw [segment, length_take, length_drop]
  omega

theorem segment_of_le {xs : List α} {start stop : Nat} (h : stop ≤ start) :
    segment xs start stop = [] := by
  rw [segment, Nat.sub_eq_zero_of_le h, take_zero]

theorem segment_full {xs : List α} {stop : Nat} (h : stop = xs.length) :
    segment xs 0 stop = xs := by
  rw [segment, h, drop_zero, Nat.sub_zero, take_length]

theorem segment_segment (xs : List α) {start stop a b : Nat} (h : start + b ≤ stop) :
    segment (segment xs start stop) a b = segment xs (start + a) (start + b) := by
  rw [segment, segment, segment, drop_take, drop_drop, take_take]
  congr 1
  omega

theorem segment_append (xs : List α) {a b c : Nat} (hab : a ≤ b) (hbc : b ≤ c) :
    segment xs a b ++ segment xs b c = segment xs a c := by
  have hdrop : xs.drop b = (xs.drop a).drop (b - a) := by
    rw [drop_drop, Nat.add_sub_cancel' hab]
  have hlen : c - a = (b - a) + (c - b) := by omega
  rw [segment, segment, segment, hdrop, hlen, take_add]

theorem flatMap_segment (xs : List α) {cut : Nat → Nat} (hcut : Monotone cut) (n : Nat) :
    (range n).flatMap (fun i => segment xs (cut i) (cut (i + 1))) =
      segment xs (cut 0) (cut n) := by
  induction n with
  | zero => simp [segment]
  | succ n ih =>
    rw [range_succ, flatMap_append, ih, flatMap_cons, flatMap_nil, append_nil]
    exact segment_append xs (hcut (Nat.zero_le n)) (hcut (Nat.le_add_right n 1))

/-! ## Overlaps -/

def overlap (first second : Nat × Nat) : Nat := min first.2 second.2 - max first.1 second.1

theorem overlap_comm (first second : Nat × Nat) : overlap first second = overlap second first := by
  rw [overlap, overlap, min_comm, max_comm]

def clamp (interval : Nat × Nat) (x : Nat) : Nat := max interval.1 (min x interval.2)

theorem clamp_mono (interval : Nat × Nat) : Monotone (clamp interval) := by
  intro x y hxy
  unfold clamp
  omega

theorem overlap_eq_sub {interval : Nat × Nat} (h : interval.1 ≤ interval.2) {a b : Nat}
    (hab : a ≤ b) : overlap interval (a, b) = clamp interval b - clamp interval a := by
  unfold overlap clamp
  dsimp only
  omega

theorem segment_clamp_comm (xs : List α) {interval : Nat × Nat} (h : interval.1 ≤ interval.2)
    {a b : Nat} (hab : a ≤ b) :
    segment xs (clamp interval a) (clamp interval b) =
      segment xs (clamp (a, b) interval.1) (clamp (a, b) interval.2) := by
  obtain ⟨start, stop⟩ := interval
  by_cases hmeet : max start a < min stop b
  · have hstart : clamp (start, stop) a = clamp (a, b) start := by
      simp only [clamp]
      omega
    have hstop : clamp (start, stop) b = clamp (a, b) stop := by
      simp only [clamp]
      omega
    rw [hstart, hstop]
  · rw [segment_of_le, segment_of_le]
    · simp only [clamp]
      omega
    · simp only [clamp]
      omega

/-! ## The exchange -/

def piece (held : List α) (splits : List Nat) (receiver : Nat) : List α :=
  segment held (splits.take receiver).sum (splits.take (receiver + 1)).sum

/-- What a receiver has of `n` senders, in their order. -/
def received (n : Nat) (held : Nat → List α) (splits : Nat → List Nat) (receiver : Nat) : List α :=
  (List.range n).flatMap fun sender => piece (held sender) (splits sender) receiver

section Cuts

variable {cut : Nat → Nat} {interval : Nat × Nat} {n : Nat}

def splitSizes (interval : Nat × Nat) (cut : Nat → Nat) (n : Nat) : List Nat :=
  (List.range n).map fun i => overlap interval (cut i, cut (i + 1))

@[simp] theorem length_splitSizes : (splitSizes interval cut n).length = n := by simp [splitSizes]

theorem take_splitSizes {k : Nat} (hk : k ≤ n) :
    (splitSizes interval cut n).take k = splitSizes interval cut k := by
  rw [splitSizes, ← map_take, take_range, min_eq_left hk, splitSizes]

theorem sum_splitSizes (hinterval : interval.1 ≤ interval.2) (hcut : Monotone cut) (n : Nat) :
    (splitSizes interval cut n).sum = clamp interval (cut n) - clamp interval (cut 0) := by
  induction n with
  | zero => simp [splitSizes]
  | succ n ih =>
    have hfirst := clamp_mono interval (hcut (Nat.zero_le n))
    have hlast := clamp_mono interval (hcut (Nat.le_add_right n 1))
    have hsplit : splitSizes interval cut (n + 1) =
        splitSizes interval cut n ++ [overlap interval (cut n, cut (n + 1))] := by
      rw [splitSizes, range_succ, map_append]
      rfl
    rw [hsplit, sum_append, ih, sum_singleton,
      overlap_eq_sub hinterval (hcut (Nat.le_add_right n 1))]
    omega

theorem sum_splitSizes_of_covers (hinterval : interval.1 ≤ interval.2) (hcut : Monotone cut)
    (hfirst : cut 0 ≤ interval.1) (hlast : interval.2 ≤ cut n) :
    (splitSizes interval cut n).sum = interval.2 - interval.1 := by
  rw [sum_splitSizes hinterval hcut]
  unfold clamp
  omega

theorem piece_splitSizes (xs : List α) (hinterval : interval.1 ≤ interval.2) (hcut : Monotone cut)
    (hfirst : cut 0 ≤ interval.1) {receiver : Nat} (hreceiver : receiver < n) :
    piece (segment xs interval.1 interval.2) (splitSizes interval cut n) receiver =
      segment xs (clamp interval (cut receiver)) (clamp interval (cut (receiver + 1))) := by
  have hclamp : clamp interval (cut 0) = interval.1 := by
    unfold clamp
    omega
  have hle : ∀ x, interval.1 ≤ clamp interval x ∧ clamp interval x ≤ interval.2 := by
    intro x
    unfold clamp
    omega
  have hthis := hle (cut receiver)
  have hnext := hle (cut (receiver + 1))
  rw [piece, take_splitSizes (Nat.le_of_lt hreceiver),
    take_splitSizes (show receiver + 1 ≤ n from hreceiver),
    sum_splitSizes hinterval hcut, sum_splitSizes hinterval hcut, hclamp,
    segment_segment xs (by omega)]
  congr 1 <;> omega

end Cuts

theorem received_splitSizes (xs : List α) {source target : Nat → Nat} (hsource : Monotone source)
    (htarget : Monotone target) {n : Nat} (hstart : source 0 = 0) (hstart' : target 0 = 0)
    (hstop : target n ≤ source n) {receiver : Nat} (hreceiver : receiver < n) :
    received n (fun sender => segment xs (source sender) (source (sender + 1)))
        (fun sender => splitSizes (source sender, source (sender + 1)) target n) receiver =
      segment xs (target receiver) (target (receiver + 1)) := by
  have hpiece : ∀ sender,
      piece (segment xs (source sender) (source (sender + 1)))
          (splitSizes (source sender, source (sender + 1)) target n) receiver =
        segment xs (clamp (target receiver, target (receiver + 1)) (source sender))
          (clamp (target receiver, target (receiver + 1)) (source (sender + 1))) := by
    intro sender
    have hle := hsource (Nat.le_add_right sender 1)
    have hfirst : target 0 ≤ source sender := by
      rw [hstart']
      exact Nat.zero_le _
    rw [@piece_splitSizes _ _ (source sender, source (sender + 1)) _ xs hle htarget hfirst _
      hreceiver]
    exact segment_clamp_comm xs hle (htarget (Nat.le_add_right receiver 1))
  have hmono := (clamp_mono (target receiver, target (receiver + 1))).comp hsource
  have hle := htarget (Nat.le_add_right receiver 1)
  have hlast : target (receiver + 1) ≤ target n := htarget hreceiver
  unfold received
  simp only [hpiece]
  have hall := flatMap_segment xs hmono n
  simp only [Function.comp_apply] at hall
  rw [hall, hstart]
  unfold clamp
  congr 1 <;> dsimp only <;> omega

end HyperParallel.Foundation.IntervalExchange
