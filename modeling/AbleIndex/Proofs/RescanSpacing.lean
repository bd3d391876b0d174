import AbleIndex.Watch.Watcher
import Mathlib.Algebra.Order.Ring.Defs
import Mathlib.Data.List.Chain
import Mathlib.Tactic.Linarith

namespace AbleIndex

inductive WatchCall (τ : Type)
  | mark
  | notice (extension : String) (e : FileEvent)
  | attempt (now : τ) (outcome : RescanOutcome)
  | process (now : τ) (outcome : RescanOutcome)
  | turn (now : τ) (outcome : RescanOutcome)

def WatchCall.reading? {τ : Type} : WatchCall τ → Option τ
  | mark => none
  | notice _ _ => none
  | attempt now _ => some now
  | process now _ => some now
  | turn now _ => some now

def readings {τ : Type} (calls : List (WatchCall τ)) : List τ := calls.filterMap WatchCall.reading?

theorem readings_snoc {τ : Type} (calls : List (WatchCall τ)) (c : WatchCall τ) :
    readings (calls ++ [c]) = readings calls ++ c.reading?.toList := by
  unfold readings
  rw [List.filterMap_append]
  cases c <;> rfl

structure IsClock {τ : Type} [CommRing τ] [LinearOrder τ] (times : List τ) : Prop where
  positive : ∀ t ∈ times, 0 < t
  monotone : times.Pairwise (· ≤ ·)

theorem IsClock.of_append {τ : Type} [CommRing τ] [LinearOrder τ] {times later : List τ}
    (h : IsClock (times ++ later)) : IsClock times where
  positive t ht := h.positive t (List.mem_append_left later ht)
  monotone := (List.pairwise_append.mp h.monotone).1

namespace Watcher

variable {τ : Type} [CommRing τ] [LinearOrder τ]

def call (w : Watcher τ) : WatchCall τ → Watcher τ
  | .mark => w.mark
  | .notice extension e => w.notice extension e
  | .attempt now outcome => (w.attempt now outcome).1
  | .process now outcome => (w.process now outcome).1
  | .turn now outcome => (w.turn now outcome).1

def after (w : Watcher τ) (calls : List (WatchCall τ)) : Watcher τ := calls.foldl call w

def startTime? (w : Watcher τ) (c : WatchCall τ) : Option τ :=
  if (w.call c).rescans = w.rescans then none else c.reading?

def startTimes (w : Watcher τ) : List (WatchCall τ) → List τ
  | [] => []
  | c :: cs => (w.startTime? c).toList ++ (w.call c).startTimes cs

structure SameHistory (v w : Watcher τ) : Prop where
  interval : v.interval = w.interval
  lastRescan : v.lastRescan = w.lastRescan
  rescans : v.rescans = w.rescans

structure Rescanned (w v : Watcher τ) (now : τ) : Prop where
  due : w.isThrottled now = false
  interval : v.interval = w.interval
  lastRescan : v.lastRescan = now
  rescans : v.rescans = w.rescans + 1

variable {w : Watcher τ}

theorem attempt_cases (w : Watcher τ) (now : τ) (outcome : RescanOutcome) :
    (w.attempt now outcome).1 = w ∨ Rescanned w (w.attempt now outcome).1 now := by
  unfold attempt
  split
  · exact .inl rfl
  · split
    · exact .inl rfl
    · rename_i h
      have hdue : w.isThrottled now = false := by simpa using h
      refine .inr ?_
      cases outcome <;> exact ⟨hdue, rfl, rfl, rfl⟩

theorem process_cases (w : Watcher τ) (now : τ) (outcome : RescanOutcome) :
    SameHistory (w.process now outcome).1 w ∨ Rescanned w (w.process now outcome).1 now := by
  have hattempt := attempt_cases w.unmark now outcome
  unfold process
  split
  · rename_i v h
    rw [h] at hattempt
    rcases hattempt with rfl | hr
    · exact .inl ⟨rfl, rfl, rfl⟩
    · exact .inr ⟨hr.due, hr.interval, hr.lastRescan, hr.rescans⟩
  · rcases hattempt with h | hr
    · rw [h]
      exact .inl ⟨rfl, rfl, rfl⟩
    · exact .inr ⟨hr.due, hr.interval, hr.lastRescan, hr.rescans⟩

theorem call_cases (w : Watcher τ) (c : WatchCall τ) :
    SameHistory (w.call c) w ∨ ∃ now, c.reading? = some now ∧ Rescanned w (w.call c) now := by
  cases c with
  | mark => exact .inl ⟨rfl, rfl, rfl⟩
  | notice extension e =>
    refine .inl ?_
    rw [call, notice]
    split <;> exact ⟨rfl, rfl, rfl⟩
  | attempt now outcome =>
    rcases attempt_cases w now outcome with h | h
    · refine .inl ?_
      rw [call, h]
      exact ⟨rfl, rfl, rfl⟩
    · exact .inr ⟨now, rfl, h⟩
  | process now outcome => exact (process_cases w now outcome).imp_right fun h => ⟨now, rfl, h⟩
  | turn now outcome =>
    rw [call, turn]
    split
    · exact (process_cases w now outcome).imp_right fun h => ⟨now, rfl, h⟩
    · exact .inl ⟨rfl, rfl, rfl⟩

theorem after_snoc (w : Watcher τ) (calls : List (WatchCall τ)) (c : WatchCall τ) :
    w.after (calls ++ [c]) = (w.after calls).call c := by
  simp [after]

theorem startTimes_snoc (w : Watcher τ) (calls : List (WatchCall τ)) (c : WatchCall τ) :
    w.startTimes (calls ++ [c]) = w.startTimes calls ++ ((w.after calls).startTime? c).toList := by
  induction calls generalizing w with
  | nil => simp [startTimes, after]
  | cons d calls ih =>
    rw [List.cons_append, startTimes, startTimes, ih, List.append_assoc]
    rfl

theorem SameHistory.startTime? {c : WatchCall τ} (h : SameHistory (w.call c) w) : w.startTime? c = none :=
  if_pos h.rescans

theorem Rescanned.startTime? {c : WatchCall τ} {now : τ} (hc : c.reading? = some now)
    (h : Rescanned w (w.call c) now) : w.startTime? c = some now := by
  rw [Watcher.startTime?, h.rescans, if_neg (Nat.succ_ne_self w.rescans), hc]

theorem isThrottled_iff {now : τ} :
    w.isThrottled now = true ↔ w.lastRescan ≠ 0 ∧ now - w.lastRescan < w.interval := by
  simp [isThrottled]

structure Remembers (least : τ) (calls : List (WatchCall τ)) (w : Watcher τ) (starts : List τ) : Prop where
  interval : w.interval = least
  lastRescan : w.lastRescan = starts.getLast?.getD 0
  read : ∀ t ∈ starts, t ∈ readings calls
  spaced : starts.IsChain fun earlier later => least ≤ later - earlier

variable {least : τ} {calls : List (WatchCall τ)} {starts : List τ}

theorem Remembers.isThrottled_iff (h : Remembers least calls w starts) (hclock : IsClock (readings calls)) {now : τ} :
    w.isThrottled now = true ↔ ∃ last, starts.getLast? = some last ∧ now - last < least := by
  rw [Watcher.isThrottled_iff, h.interval, h.lastRescan]
  cases hlast : starts.getLast? with
  | none => simp
  | some last =>
    -- zero stands for never, and no rescan was started at that time
    have hpos := hclock.positive last (h.read last (List.mem_of_getLast? hlast))
    simp [hpos.ne']

theorem Remembers.call (h : Remembers least calls w starts) (hclock : IsClock (readings calls)) (c : WatchCall τ) :
    Remembers least (calls ++ [c]) (w.call c) (starts ++ (w.startTime? c).toList) := by
  rcases call_cases w c with hc | ⟨now, hnow, hc⟩
  · rw [hc.startTime?, Option.toList_none, List.append_nil]
    refine ⟨hc.interval.trans h.interval, hc.lastRescan.trans h.lastRescan, ?_, h.spaced⟩
    intro t ht
    rw [readings_snoc]
    exact List.mem_append_left _ (h.read t ht)
  · rw [hc.startTime? hnow, Option.toList_some]
    refine ⟨hc.interval.trans h.interval, ?_, ?_, ?_⟩
    · rw [hc.lastRescan, List.getLast?_concat, Option.getD_some]
    · intro t ht
      rw [readings_snoc, hnow]
      rcases List.mem_append.mp ht with ht | ht
      · exact List.mem_append_left _ (h.read t ht)
      · exact List.mem_append_right _ ht
    · rw [List.isChain_append]
      refine ⟨h.spaced, .singleton now, ?_⟩
      intro last hlast later hlater
      obtain rfl : now = later := Option.some.inj hlater
      -- an attempt within the interval would have been refused
      by_contra hshort
      have hthrottled := (h.isThrottled_iff hclock).mpr ⟨last, hlast, not_le.mp hshort⟩
      rw [hc.due] at hthrottled
      cases hthrottled

theorem remembers_after (least : τ) (hclock : IsClock (readings calls)) :
    Remembers least calls (({ interval := least } : Watcher τ).after calls)
      (({ interval := least } : Watcher τ).startTimes calls) := by
  induction calls using List.reverseRecOn with
  | nil => exact ⟨rfl, rfl, fun t ht => ht, .nil⟩
  | append_singleton calls c ih =>
    rw [readings_snoc] at hclock
    have hstep := (ih hclock.of_append).call hclock.of_append c
    rwa [after_snoc, startTimes_snoc]

theorem isMeasurable_of_lt [IsStrictOrderedRing τ] {now : τ} (hlast : 0 ≤ w.lastRescan)
    (hlimit : w.lastRescan < (spanLimit : τ)) (hnow : 0 ≤ now) (hnowLimit : now < (spanLimit : τ)) :
    w.isMeasurable now = true := by
  unfold isMeasurable
  rw [Bool.and_eq_true, decide_eq_true_eq, decide_eq_true_eq]
  constructor <;> linarith

theorem attempt_of_isMeasurable {now : τ} (h : w.isMeasurable now = true) (outcome : RescanOutcome) :
    w.attempt now outcome =
      if w.isThrottled now then (w, .ok false) else ((w.start now).finish outcome, .ok true) := by
  simp [attempt, h]

theorem attempt_eq_false {now : τ} {outcome : RescanOutcome} :
    (w.attempt now outcome).2 = .ok false ↔ w.isThrottled now = true ∧ w.isMeasurable now = true := by
  unfold attempt needsSpan
  cases w.isThrottled now <;> cases w.isMeasurable now <;> simp
  split <;> simp

theorem attempt_of_refused {now : τ} {outcome : RescanOutcome} (h : (w.attempt now outcome).2 = .ok false) :
    w.attempt now outcome = (w, .ok false) := by
  obtain ⟨ht, hm⟩ := attempt_eq_false.mp h
  rw [attempt_of_isMeasurable hm, if_pos ht]

theorem process_of_refused {now : τ} {outcome : RescanOutcome} (h : (w.attempt now outcome).2 = .ok false) :
    w.process now outcome = (w.mark, .ok false) := by
  -- whether it is too early does not depend on the mark
  have hunmarked : (w.unmark.attempt now outcome).2 = .ok false := by
    obtain ⟨ht, hm⟩ := attempt_eq_false.mp h
    exact attempt_eq_false.mpr ⟨ht, hm⟩
  rw [process, attempt_of_refused hunmarked]
  rfl

theorem Remembers.isMeasurable [IsStrictOrderedRing τ] (h : Remembers least calls w starts) {now : τ}
    (hclock : IsClock (readings calls ++ [now])) (hlimit : now < (spanLimit : τ)) : w.isMeasurable now = true := by
  obtain ⟨-, -, hle⟩ := List.pairwise_append.mp hclock.monotone
  have hnow : 0 < now := hclock.positive now (List.mem_append_right _ List.mem_cons_self)
  have hlast : 0 ≤ w.lastRescan ∧ w.lastRescan ≤ now := by
    rw [h.lastRescan]
    cases hlast : starts.getLast? with
    | none => exact ⟨le_rfl, hnow.le⟩
    | some last =>
      have hmem := h.read last (List.mem_of_getLast? hlast)
      exact ⟨(hclock.of_append.positive last hmem).le, hle last hmem now List.mem_cons_self⟩
  exact isMeasurable_of_lt hlast.1 (hlast.2.trans_lt hlimit) hnow.le hlimit

/-- In every run, any two rescans next to each other start at least the interval apart, however they end. At
every time that double precision can tell, an attempt is refused if and only if it falls into the interval
behind the latest rescan, and else runs. A refused attempt changes nothing, and made to take up a pending
change it leaves that change pending. -/
theorem rescans_spaced [IsStrictOrderedRing τ] (least : τ) (calls : List (WatchCall τ))
    (hclock : IsClock (readings calls)) :
    let w := ({ interval := least } : Watcher τ).after calls
    let starts := ({ interval := least } : Watcher τ).startTimes calls
    (starts.IsChain fun earlier later => least ≤ later - earlier) ∧
      ∀ now outcome,
        (IsClock (readings calls ++ [now]) → now < (spanLimit : τ) →
          ((w.attempt now outcome).2 = .ok false ↔ ∃ last, starts.getLast? = some last ∧ now - last < least) ∧
          ((w.attempt now outcome).2 = .ok true ↔ ¬ ∃ last, starts.getLast? = some last ∧ now - last < least)) ∧
        ((w.attempt now outcome).2 = .ok false →
          (w.attempt now outcome).1 = w ∧ w.process now outcome = (w.mark, .ok false)) := by
  intro w starts
  have hw : Remembers least calls w starts := remembers_after least hclock
  refine ⟨hw.spaced, ?_⟩
  intro now outcome
  refine ⟨?_, ?_⟩
  · intro hnow hlimit
    rw [attempt_of_isMeasurable (hw.isMeasurable hnow hlimit), ← hw.isThrottled_iff hclock]
    cases w.isThrottled now <;> simp
  · intro h
    exact ⟨by rw [attempt_of_refused h], process_of_refused h⟩

theorem rescans_spaced_failed :
    let calls : List (WatchCall Int) :=
      [.attempt 1 .failed, .notice ".abl" ⟨.modified, "a.abl", "", false⟩, .turn 30 .finished, .turn 31 .changed]
    let w := ({ interval := 30 } : Watcher Int).after calls
    let starts := ({ interval := 30 } : Watcher Int).startTimes calls
    IsClock (readings calls ++ [60]) ∧ starts = [1, 31] ∧
      (starts.IsChain fun earlier later => 30 ≤ later - earlier) ∧
      (w.attempt 60 .finished).2 = .ok false ∧ w.process 60 .finished = (w.mark, .ok false) := by
  intro calls w starts
  have hlong : IsClock (readings calls ++ [60]) := ⟨by decide, by decide⟩
  have hstarts : starts = [1, 31] := by
    unfold starts calls
    decide +kernel
  obtain ⟨hspaced, hnext⟩ := rescans_spaced 30 calls hlong.of_append
  obtain ⟨hiff, hrefused⟩ := hnext 60 .finished
  have hearly : (w.attempt 60 .finished).2 = .ok false := by
    refine (hiff hlong (by decide +kernel)).1.mpr ⟨31, ?_, by decide⟩
    change starts.getLast? = some 31
    rw [hstarts]
    rfl
  exact ⟨hlong, hstarts, hspaced, hearly, (hrefused hearly).2⟩

end Watcher

end AbleIndex
