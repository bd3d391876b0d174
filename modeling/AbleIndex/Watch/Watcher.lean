import AbleIndex.Watch.Event

/-!
Rescans on change. A change leaves a mark; a rescan takes the mark away before it starts, so that a
change during it is not lost, and puts it back when the last rescan was too short a time ago. Spans
of time are told in double precision, so one beyond its range is an error, which loses the mark.
-/

namespace AbleIndex

structure Watcher (τ : Type := Int) [OfNat τ 0] where
  interval : τ
  /-- When the last rescan was started; zero stands for never. -/
  lastRescan : τ := 0
  pending : Bool := false
  rescans : Nat := 0
  deriving DecidableEq, Inhabited

inductive RescanOutcome
  | finished
  | failed
  | changed
  deriving DecidableEq, Inhabited

inductive WatchError
  | spanTooLong
  deriving DecidableEq

namespace Watcher

variable {τ : Type} [OfNat τ 0]

def mark (w : Watcher τ) : Watcher τ := { w with pending := true }

def unmark (w : Watcher τ) : Watcher τ := { w with pending := false }

def notice (w : Watcher τ) (extension : String) (e : FileEvent) : Watcher τ :=
  if e.isRelevant extension then w.mark else w

def start (w : Watcher τ) (now : τ) : Watcher τ :=
  { w with lastRescan := now, rescans := w.rescans + 1 }

def finish (w : Watcher τ) : RescanOutcome → Watcher τ
  | .changed => w.mark
  | _ => w

variable [DecidableEq τ] [LT τ] [DecidableLT τ] [Sub τ] [Neg τ] [NatCast τ]

def isThrottled (w : Watcher τ) (now : τ) : Bool :=
  w.lastRescan ≠ 0 && now - w.lastRescan < w.interval

/-- The least whole number that rounds to no finite number of double precision. -/
def spanLimit : Nat := Nat.pow 2 1024 - Nat.pow 2 970

def isMeasurable (w : Watcher τ) (now : τ) : Bool :=
  -(spanLimit : τ) < now - w.lastRescan && now - w.lastRescan < (spanLimit : τ)

/-- Whether the span since the last rescan has to be told: before the first one, and to say that it
is too early for another. -/
def needsSpan (w : Watcher τ) (now : τ) : Bool := w.rescans = 0 || w.isThrottled now

def attempt (w : Watcher τ) (now : τ) (outcome : RescanOutcome) :
    Watcher τ × Except WatchError Bool :=
  if w.needsSpan now && !w.isMeasurable now then (w, .error .spanTooLong)
  else if w.isThrottled now then (w, .ok false)
  else ((w.start now).finish outcome, .ok true)

def process (w : Watcher τ) (now : τ) (outcome : RescanOutcome) :
    Watcher τ × Except WatchError Bool :=
  match w.unmark.attempt now outcome with
  | (w, .ok false) => (w.mark, .ok false)
  | r => r

def turn (w : Watcher τ) (now : τ) (outcome : RescanOutcome) :
    Watcher τ × Except WatchError Bool :=
  if w.pending then w.process now outcome else (w, .ok false)

end Watcher

end AbleIndex
