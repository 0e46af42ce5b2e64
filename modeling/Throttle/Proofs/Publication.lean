import Throttle.Proofs.Conservation
import Throttle.Proofs.Logs

/-! What every published edition looks like, however calls interleave and configurations replace
one another: one slot for each limit, all brought up to the latest reading, and carries that are
worth less than a token unless a replacement has shortened the period. -/

namespace Throttle

/-- The editions of a bucket that was made with `c` at reading `now`, as its log names them. -/
def Commit.editions (c : Configuration) (now : UInt64) (log : List Commit) : List Edition :=
  Edition.first (.new c now) :: log.map Commit.edition

namespace Edition

structure Sound (e : Edition) (c : Configuration) (now : UInt64) (log : List Commit) : Prop where
  /-- It is the last of the editions that the log names, and the log names them all. -/
  latest : (Commit.editions c now log).getLast? = some e ∧ e.number = log.length
  /-- Each configuration could take the place of the one before. -/
  compatible : (Commit.editions c now log).IsChain fun e e' =>
    e.account.configuration.Compatible e'.account.configuration
  paired : e.account.ledger.slots.length = e.account.configuration.bandwidths.length
  count : e.account.configuration.bandwidths.length = c.bandwidths.length
  aligned : ∀ s ∈ e.account.ledger.slots, s.lastRefill = (log.map Commit.reading).foldl max now
  period : ∀ l ∈ e.account.configuration.bandwidths, l.period ≠ 0
  /-- At any reading the slots are within their ceilings, and a full slot carries nothing. -/
  refilled : ∀ t, ∃ work, e.account.refill t = .ok work ∧
    work.configuration = e.account.configuration ∧ work.Paired ∧
    ∀ i l s, work.At i l s → s.tokens ≤ l.ceiling ∧ (s.tokens = l.ceiling → s.carry = 0)
  /-- No carry makes up a token where no replacement has shortened the period. -/
  carry : ∀ i, ((Commit.editions c now log).IsChain fun e e' => e.account.KeepsPeriod i e'.account) →
    ∀ l s, e.account.At i l s → s.carry < l.period

theorem Chain.sound {e : Edition} {c : Configuration} {now : UInt64} {log : List Commit}
    (h : (first (.new c now)).Chain log e) : e.Sound c now log where
  latest := ⟨h.getLast?, by rw [h.number_eq]; exact Nat.zero_add _⟩
  compatible := h.compatible (Account.new_paired c now)
  paired := h.paired (Account.new_paired c now)
  count := h.count_eq (Account.new_paired c now)
  aligned := h.aligned (Account.new_paired c now) (Account.new_aligned c now)
  period := fun l hl => (e.account.configuration.valid l hl).1
  refilled := by
    intro t
    obtain ⟨work, refilled, hr⟩ := e.account.refill_ok t
    refine ⟨work, refilled, hr.configuration, hr.paired (h.paired (Account.new_paired c now)), ?_⟩
    intro i l s hat
    obtain ⟨s₀, -, hs⟩ := hr.slots hat
    exact ⟨Int64.le_iff_toInt_le.mpr hs.tokens_le, hs.carry_eq_zero⟩
  carry := by
    intro i keeps l s hat
    have reachable := h.reachableBy keeps (.new c now)
    exact UInt64.lt_iff_toNat_lt.mpr (reachable.carry_lt (fun _ _ keeps => keeps) hat)

end Edition

namespace World

open Happening

/-- At every moment of every run of any number of callers, replacements included, what is published
is sound. -/
theorem published_sound (s : Strategy) (c : Configuration) (now : UInt64) (ms : List Move)
    (hs : s = .unshared → (new s c now).Undisturbed ms) {j : Nat} (hj : j ≤ ms.length) :
    ((new s c now).after ms j).published.Sound c now (commits ((new s c now).seen ms j)) :=
  (new_chain hs hj).sound

def named (name : String) : Configuration :=
  .single { Bandwidth.perSecond ⟨15, by decide⟩ with id := some name }
    (show (Bandwidth.perSecond ⟨15, by decide⟩).Valid by decide)

/-- Caller 0 names a limit that has no name yet, but caller 1 gives it another name first. Then
caller 2 consumes, with a reading from before. -/
def contested : List Move :=
  [.call 0 (.replace (named "read")) 5, .load 0, .call 1 (.replace (named "write")) 7, .load 1,
    .attempt 1, .attempt 0, .attempt 0] ++ Move.whole 2 (.consume ⟨4, by decide⟩) 6

theorem published_sound_contested :
    (∃ e log, e = ((new .atomic (.single (.perSecond ⟨15, by decide⟩) (by decide)) 2).after contested
        10).published ∧ log.map Commit.reading = [7, 6] ∧ e.account.configuration = named "write" ∧
      e.Sound (.single (.perSecond ⟨15, by decide⟩) (by decide)) 2 log) ∧
    ((new .unshared (.single halfFull (by decide)) 0).after ahead 6).published.Sound
      (.single halfFull (by decide)) 0
      (commits ((new .unshared (.single halfFull (by decide)) 0).seen ahead 6)) := by
  constructor
  · exact ⟨_, _, rfl, by decide +kernel, by decide +kernel,
      published_sound .atomic _ 2 contested (fun h => by cases h) (by decide)⟩
  · exact published_sound .unshared _ 0 ahead (fun _ => new_undisturbed .unshared _ 0 _) (by decide)

end World
end Throttle
