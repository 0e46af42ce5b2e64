import Throttle.Nanos

/-! When sleeps are over, in nanoseconds of one time line. -/

namespace Throttle.Stream

structure Timer where
  /-- Whether a sleep up to `deadline` is over. -/
  due : (deadline now : Nat) → Bool
  not_early : ∀ deadline now, due deadline now = true → deadline ≤ now

namespace Timer

def wholeMillisecond (deadline : Nat) : Nat := (deadline + (millisecond - 1)) / millisecond * millisecond

theorem le_wholeMillisecond (deadline : Nat) : deadline ≤ wholeMillisecond deadline := by
  unfold wholeMillisecond millisecond
  omega

/-- Sleeps end at whole milliseconds. -/
def milliseconds : Timer where
  due deadline now := wholeMillisecond deadline ≤ now
  not_early deadline _ h := Nat.le_trans (le_wholeMillisecond deadline) (of_decide_eq_true h)

end Timer
end Throttle.Stream
