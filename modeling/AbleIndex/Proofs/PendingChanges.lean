import AbleIndex.Proofs.RescanSpacing

/-!
The watch loop among the events of the file system. The loop goes its way step by step, and between any two
of its steps events may arrive. However they fall, no change is lost: while the loop waits and nothing is
pending, a rescan has been started behind the last change.
-/

namespace AbleIndex

structure FileEvent.Concerns (e : FileEvent) (extension : String) : Prop where
  file : e.isDirectory = false
  active : e.kind ≠ .opened ∧ e.kind ≠ .closed ∧ e.kind ≠ .closedUnwritten
  source : extension.toList <:+ e.source.toList ∨ e.destination ≠ "" ∧ extension.toList <:+ e.destination.toList

theorem FileEvent.isRelevant_iff {e : FileEvent} {extension : String} :
    e.isRelevant extension = true ↔ e.Concerns extension := by
  have hactive : e.kind.isPassive = false ↔ e.kind ≠ .opened ∧ e.kind ≠ .closed ∧ e.kind ≠ .closedUnwritten := by
    cases e.kind <;> simp [EventKind.isPassive]
  unfold isRelevant
  simp only [Bool.and_eq_true, Bool.not_eq_true', Bool.or_eq_true, decide_eq_true_eq, List.isSuffixOf_iff_suffix,
    hactive]
  constructor
  · rintro ⟨⟨hfile, hactive⟩, hsource⟩
    exact ⟨hfile, hactive, hsource⟩
  · rintro ⟨hfile, hactive, hsource⟩
    exact ⟨⟨hfile, hactive⟩, hsource⟩

namespace Watcher

variable {τ : Type} [OfNat τ 0] {extension : String} {e : FileEvent}

theorem notice_of_concerns (he : e.Concerns extension) (w : Watcher τ) : w.notice extension e = w.mark := by
  rw [notice, if_pos (FileEvent.isRelevant_iff.mpr he)]

theorem notice_of_not_concerns (he : ¬ e.Concerns extension) (w : Watcher τ) : w.notice extension e = w := by
  rw [notice, if_neg fun h => he (FileEvent.isRelevant_iff.mp h)]

theorem lastRescan_notice (w : Watcher τ) : (w.notice extension e).lastRescan = w.lastRescan := by
  unfold notice
  split <;> rfl

end Watcher

inductive LoopPhase (τ : Type)
  | off
  | resting
  | waking
  | cleared
  | allowed (now : τ)
  | refused
  | scanning
  | broken
  deriving DecidableEq

def LoopPhase.isOutside {τ : Type} : LoopPhase τ → Bool
  | off => true
  | resting => true
  | waking => true
  | _ => false

inductive LoopAction (τ : Type)
  | event (e : FileEvent)
  | begin
  | stop
  | look
  | clear
  | check (now : τ)
  | start
  | finish (succeeded : Bool)
  | restore

structure WatchLoop (τ : Type) [OfNat τ 0] where
  watcher : Watcher τ
  phase : LoopPhase τ

namespace WatchLoop

section Answers

variable {τ : Type} {extension : String} {trace : List (LoopAction τ)} {a : LoopAction τ}

def Answered (extension : String) (trace : List (LoopAction τ)) : Prop :=
  ∀ later e earlier, trace = later ++ .event e :: earlier → e.Concerns extension → .start ∈ later

theorem answered_start (trace : List (LoopAction τ)) : Answered extension (.start :: trace) := by
  intro later e earlier htrace _
  cases later with
  | nil => cases htrace
  | cons a later =>
    obtain ⟨rfl, -⟩ := List.cons.inj htrace
    exact List.mem_cons_self

theorem Answered.cons (h : Answered extension trace) (ha : ∀ e, a = .event e → ¬ e.Concerns extension) :
    Answered extension (a :: trace) := by
  intro later e earlier htrace he
  cases later with
  | nil => exact absurd he (ha e (List.cons.inj htrace).1)
  | cons b later =>
    obtain ⟨-, htrace⟩ := List.cons.inj htrace
    exact List.mem_cons_of_mem b (h later e earlier htrace he)

end Answers

variable {τ : Type} [CommRing τ] [LinearOrder τ]

def verdict (w : Watcher τ) (now : τ) : LoopPhase τ :=
  if w.needsSpan now && !w.isMeasurable now then .broken
  else if w.isThrottled now then .refused
  else .allowed now

inductive Step (extension : String) : WatchLoop τ → LoopAction τ → WatchLoop τ → Prop
  | event (w : Watcher τ) (phase : LoopPhase τ) (e : FileEvent) :
      Step extension ⟨w, phase⟩ (.event e) ⟨w.notice extension e, phase⟩
  | begin (w : Watcher τ) : Step extension ⟨w, .off⟩ .begin ⟨w, .resting⟩
  | stop (w : Watcher τ) : Step extension ⟨w, .resting⟩ .stop ⟨w, .off⟩
  | look (w : Watcher τ) (h : w.pending = true) : Step extension ⟨w, .resting⟩ .look ⟨w, .waking⟩
  | clear (w : Watcher τ) : Step extension ⟨w, .waking⟩ .clear ⟨w.unmark, .cleared⟩
  | check (w : Watcher τ) (now : τ) : Step extension ⟨w, .cleared⟩ (.check now) ⟨w, verdict w now⟩
  | start (w : Watcher τ) (now : τ) : Step extension ⟨w, .allowed now⟩ .start ⟨w.start now, .scanning⟩
  | finish (w : Watcher τ) (succeeded : Bool) :
      Step extension ⟨w, .scanning⟩ (.finish succeeded) ⟨w, .resting⟩
  | restore (w : Watcher τ) : Step extension ⟨w, .refused⟩ .restore ⟨w.mark, .resting⟩

inductive Steps (extension : String) (s : WatchLoop τ) : List (LoopAction τ) → WatchLoop τ → Prop
  | none : Steps extension s [] s
  | snoc {trace : List (LoopAction τ)} {a : LoopAction τ} {t u : WatchLoop τ} (ht : Steps extension s trace t)
      (hu : Step extension t a u) : Steps extension s (a :: trace) u

variable {extension : String} {trace : List (LoopAction τ)} {s t : WatchLoop τ} {a : LoopAction τ}

theorem verdict_cases (w : Watcher τ) (now : τ) :
    verdict w now = .broken ∨ verdict w now = .refused ∨ verdict w now = .allowed now := by
  unfold verdict
  split
  · exact .inl rfl
  · split
    · exact .inr (.inl rfl)
    · exact .inr (.inr rfl)

/-- Behind a loop that has not just taken a mark away, a mark that is gone was answered. -/
def LosesNothing (extension : String) (trace : List (LoopAction τ)) (s : WatchLoop τ) : Prop :=
  s.phase.isOutside = true ∨ s.phase = .scanning → s.watcher.pending = false → Answered extension trace

theorem LosesNothing.step (h : LosesNothing extension trace s) (hstep : Step extension s a t) :
    LosesNothing extension (a :: trace) t := by
  intro hphase hpending
  cases hstep with
  | event w phase e =>
    -- a change would have left a mark
    have he : ¬ e.Concerns extension := by
      intro he
      rw [Watcher.notice_of_concerns he] at hpending
      cases hpending
    rw [Watcher.notice_of_not_concerns he] at hpending
    apply (h hphase hpending).cons
    rintro e' he'
    cases he'
    exact he
  | begin w => exact (h (.inl rfl) hpending).cons nofun
  | stop w => exact (h (.inl rfl) hpending).cons nofun
  | look w hw => exact (h (.inl rfl) hpending).cons nofun
  | clear w => simp [LoopPhase.isOutside] at hphase
  | check w now => rcases verdict_cases w now with hv | hv | hv <;> simp [hv, LoopPhase.isOutside] at hphase
  | start w now =>
    -- whatever came before, also since the mark was taken away, is behind this rescan
    exact answered_start trace
  | finish w succeeded => exact (h (.inr rfl) hpending).cons nofun
  | restore w => cases hpending

theorem Steps.losesNothing (hsteps : Steps extension s trace t) (hs : LosesNothing extension [] s) :
    LosesNothing extension trace t := by
  induction hsteps with
  | none => exact hs
  | snoc ht hu ih => exact ih.step hu

/-- Times that a clock in double precision can show. -/
def IsTold (t : τ) : Prop := 0 ≤ t ∧ t < (Watcher.spanLimit : τ)

structure KeepsTime (s : WatchLoop τ) : Prop where
  last : IsTold s.watcher.lastRescan
  allowed : ∀ now, s.phase = .allowed now → IsTold now
  unbroken : s.phase ≠ .broken

theorem verdict_ne_broken [IsStrictOrderedRing τ] {w : Watcher τ} {now : τ} (hw : IsTold w.lastRescan)
    (hnow : IsTold now) : verdict w now ≠ .broken := by
  have hm := Watcher.isMeasurable_of_lt hw.1 hw.2 hnow.1 hnow.2
  unfold verdict
  rw [hm]
  split
  · simp_all
  · split <;> simp

theorem KeepsTime.step [IsStrictOrderedRing τ] (h : KeepsTime s) (hstep : Step extension s a t)
    (hread : ∀ now, a = .check now → IsTold now) : KeepsTime t := by
  obtain ⟨hlast, hallowed, hunbroken⟩ := h
  cases hstep with
  | event w phase e =>
    refine ⟨?_, hallowed, hunbroken⟩
    rwa [Watcher.lastRescan_notice]
  | begin w => exact ⟨hlast, nofun, nofun⟩
  | stop w => exact ⟨hlast, nofun, nofun⟩
  | look w hw => exact ⟨hlast, nofun, nofun⟩
  | clear w => exact ⟨hlast, nofun, nofun⟩
  | check w now =>
    have hnow := hread now rfl
    refine ⟨hlast, ?_, verdict_ne_broken hlast hnow⟩
    intro later hlater
    rcases verdict_cases w now with hv | hv | hv <;> rw [hv] at hlater <;> cases hlater
    exact hnow
  | start w now => exact ⟨hallowed now rfl, nofun, nofun⟩
  | finish w succeeded => exact ⟨hlast, nofun, nofun⟩
  | restore w => exact ⟨hlast, nofun, nofun⟩

theorem Steps.keepsTime [IsStrictOrderedRing τ] (hsteps : Steps extension s trace t) (hs : KeepsTime s)
    (hread : ∀ now, .check now ∈ trace → IsTold now) : KeepsTime t := by
  induction hsteps with
  | none => exact hs
  | snoc ht hu ih =>
    apply (ih fun now hnow => hread now (List.mem_cons_of_mem _ hnow)).step hu
    rintro now rfl
    exact hread now List.mem_cons_self

theorem attempt_eq_verdict (w : Watcher τ) (now : τ) (outcome : RescanOutcome) :
    w.attempt now outcome =
      match verdict w now with
      | .broken => (w, .error .spanTooLong)
      | .refused => (w, .ok false)
      | _ => ((w.start now).finish outcome, .ok true) := by
  unfold Watcher.attempt verdict
  split
  · rfl
  · split <;> rfl

def EndsAs (r : Watcher τ × Except WatchError Bool) (t : WatchLoop τ) : Prop :=
  t.watcher = r.1 ∧ t.phase = if r.2 = .error .spanTooLong then .broken else .resting

theorem Steps.process {w : Watcher τ} (h : Steps extension s trace ⟨w, .waking⟩) (now : τ) (outcome : RescanOutcome) :
    ∃ more t, Steps extension s (more ++ trace) t ∧ EndsAs (w.process now outcome) t := by
  have hchecked := (h.snoc (.clear w)).snoc (.check w.unmark now)
  have hattempt := attempt_eq_verdict w.unmark now outcome
  unfold Watcher.process
  rcases verdict_cases w.unmark now with hv | hv | hv
  · rw [hv] at hchecked hattempt
    rw [hattempt]
    exact ⟨[.check now, .clear], _, hchecked, rfl, rfl⟩
  · rw [hv] at hchecked hattempt
    rw [hattempt]
    exact ⟨[.restore, .check now, .clear], _, hchecked.snoc (.restore w.unmark), rfl, rfl⟩
  · rw [hv] at hchecked hattempt
    rw [hattempt]
    have hstarted := hchecked.snoc (.start w.unmark now)
    cases outcome with
    | finished => exact ⟨[.finish true, .start, .check now, .clear], _, hstarted.snoc (.finish _ true), rfl, rfl⟩
    | failed => exact ⟨[.finish false, .start, .check now, .clear], _, hstarted.snoc (.finish _ false), rfl, rfl⟩
    | changed =>
      let e : FileEvent := { kind := .modified, source := extension }
      have he : e.Concerns extension := ⟨rfl, by simp [e], .inl (List.suffix_refl _)⟩
      have hevent := hstarted.snoc (.event _ _ e)
      rw [Watcher.notice_of_concerns he] at hevent
      exact ⟨[.finish true, .event e, .start, .check now, .clear], _, hevent.snoc (.finish _ true), rfl, rfl⟩

theorem Steps.turn {w : Watcher τ} (h : Steps extension s trace ⟨w, .resting⟩) (now : τ) (outcome : RescanOutcome) :
    ∃ more t, Steps extension s (more ++ trace) t ∧ EndsAs (w.turn now outcome) t := by
  unfold Watcher.turn
  split
  · rename_i hw
    obtain ⟨more, t, ht, hends⟩ := (h.snoc (.look w hw)).process now outcome
    refine ⟨more ++ [.look], t, ?_, hends⟩
    rwa [List.append_assoc]
  · exact ⟨[], _, h, rfl, rfl⟩

/-- The events that leave a mark are those that concern the content of a source file. In every interleaving of
events with the loop, whenever the loop is not at work on a change and nothing is pending, a rescan was
started behind the last such event. A clock in double precision never breaks the loop. -/
theorem change_answered [IsStrictOrderedRing τ] {least : τ}
    (hsteps : Steps extension ⟨{ interval := least }, .off⟩ trace s) :
    (∀ (w : Watcher τ) (e : FileEvent), (e.Concerns extension → w.notice extension e = w.mark) ∧
      (¬ e.Concerns extension → w.notice extension e = w)) ∧
    (s.phase.isOutside = true → s.watcher.pending = false → Answered extension trace) ∧
    ((∀ now, .check now ∈ trace → IsTold now) → s.phase ≠ .broken) := by
  refine ⟨?_, ?_, ?_⟩
  · intro w e
    exact ⟨fun he => Watcher.notice_of_concerns he w, fun he => Watcher.notice_of_not_concerns he w⟩
  · intro houtside hpending
    have hnone : Answered extension ([] : List (LoopAction τ)) := by
      intro later e earlier htrace
      simp at htrace
    exact hsteps.losesNothing (fun _ _ => hnone) (.inl houtside) hpending
  · intro hread
    have hlimit : (0 : τ) < (Watcher.spanLimit : τ) := Nat.cast_pos.mpr (by decide +kernel)
    exact (hsteps.keepsTime ⟨⟨le_rfl, hlimit⟩, nofun, nofun⟩ hread).unbroken

theorem change_answered_between :
    let e : FileEvent := { kind := .moved, source := "a.tmp", destination := "a.abl" }
    let trace : List (LoopAction Int) :=
      [.finish true, .start, .check 31, .clear, .look, .finish false, .start, .event e, .check 1, .clear, .look,
        .event e, .begin]
    let w : Watcher Int := { interval := 30 }
    let s : WatchLoop Int := ⟨{ interval := 30, lastRescan := 31, rescans := 2 }, .resting⟩
    Steps ".abl" ⟨w, .off⟩ trace s ∧ e.Concerns ".abl" ∧ Answered ".abl" trace := by
  intro e trace w s
  have he : e.Concerns ".abl" := FileEvent.isRelevant_iff.mp (by decide)
  have hmarked : Steps ".abl" ⟨w, .off⟩ [.event e, .begin] ⟨w.mark, .resting⟩ := by
    rw [← Watcher.notice_of_concerns he w]
    exact (Steps.none.snoc (.begin w)).snoc (.event w .resting e)
  have hchecked := ((hmarked.snoc (.look w.mark rfl)).snoc (.clear w.mark)).snoc (.check w 1)
  rw [show verdict w 1 = .allowed 1 by decide +kernel] at hchecked
  have hbetween := hchecked.snoc (.event w (.allowed 1) e)
  rw [Watcher.notice_of_concerns he w] at hbetween
  have hfailed := (hbetween.snoc (.start w.mark 1)).snoc (.finish (w.mark.start 1) false)
  have hagain := ((hfailed.snoc (.look (w.mark.start 1) rfl)).snoc (.clear (w.mark.start 1))).snoc
    (.check (w.start 1) 31)
  rw [show verdict (w.start 1) 31 = .allowed 31 by decide +kernel] at hagain
  have hsteps : Steps ".abl" ⟨w, .off⟩ trace s :=
    (hagain.snoc (.start (w.start 1) 31)).snoc (.finish ((w.start 1).start 31) true)
  exact ⟨hsteps, he, (change_answered hsteps).2.1 rfl rfl⟩

end WatchLoop

end AbleIndex
