/-
  StreamRelay/Proofs/Report/RateLines.lean
  ========================================
  **When a rate line is written, and what it accounts for.**

  Releases and looks at the clock may follow one another in any order, and the clock may be looked
  at late, again, or at a moment before the last one. A history keeps each call with the text that
  was offered to the outlet on it, so the moments of the lines and the bytes released since the last
  one are read off what was done and not off the accounts.

  The accounts agree with the history (`RateAccounts`): the deadline is one interval after the last
  line, and the total at that line is what all lines so far account for. So the time past the
  deadline and one interval make up the time since the last line, and no difference that a look at
  the clock forms is less than nothing.

  Main statement: `tick_accounts`.
-/
import Mathlib.Data.List.DropRight
import StreamRelay.Proofs.Report.Dots

namespace StreamRelay

namespace Progress

/-! ### Histories -/

/-- A call in the past, with the text that was offered to the outlet on it and the bytes that the
    rate in that text was computed from. -/
structure Entry where
  call : Call
  text : String
  bytes : Nat
deriving DecidableEq, Repr

/-- The bytes that the rate shown on a call is computed from, none if no line is offered. -/
def shown (p : Progress) : Call → Nat
  | .advance _ => 0
  | .tick now => if p.offered (.tick now) = "" then 0 else p.total - p.totalAtLastRate

def entry (p : Progress) (call : Call) : Entry := ⟨call, p.offered call, p.shown call⟩

def Entry.line? (e : Entry) : Option Duration :=
  match e.call with
  | .advance _ => none
  | .tick now => if e.text = "" then none else some now

def lines (past : List Entry) : List Duration := past.filterMap Entry.line?

/-- The moment of the last rate line; that of the start before the first. -/
def lastLine (past : List Entry) : Duration := (lines past).getLastD 0

def releasedSince (past : List Entry) : Nat :=
  released ((past.rtakeWhile fun e => e.line?.isNone).map Entry.call)

variable {p q : Progress} {every now : Duration} {past : List Entry} {e : Entry}
  {calls : List Call} {call : Call}

theorem lines_quiet (h : e.line? = none) : lines (past ++ [e]) = lines past := by
  simp [lines, h]

theorem lines_line (h : e.line? = some now) : lines (past ++ [e]) = lines past ++ [now] := by
  simp [lines, h]

theorem lastLine_quiet (h : e.line? = none) : lastLine (past ++ [e]) = lastLine past := by
  rw [lastLine, lines_quiet h, lastLine]

theorem lastLine_line (h : e.line? = some now) : lastLine (past ++ [e]) = now := by
  rw [lastLine, lines_line h]
  simp

theorem releasedSince_quiet (h : e.line? = none) :
    releasedSince (past ++ [e]) = releasedSince past + e.call.released := by
  rw [releasedSince, List.rtakeWhile_concat_pos _ _ _ (by simp [h]), List.map_append,
    released_append]
  exact congrArg _ (released_singleton _)

theorem releasedSince_line (h : e.line? = some now) : releasedSince (past ++ [e]) = 0 := by
  rw [releasedSince, List.rtakeWhile_concat_neg _ _ _ (by simp [h])]
  rfl

/-! ### Accounts -/

theorem rateLine_ne_empty (bytesPerSecond total : Nat) : rateLine bytesPerSecond total ≠ "" := by
  intro h
  have hclosing : ")      " = "" := (String.append_eq_empty_iff.1 h).2
  exact absurd hclosing (by decide)

/-- **What progress keeps of its lines**, set against its history. -/
structure RateAccounts (every : Duration) (past : List Entry) (p : Progress) : Prop where
  rateEvery : p.rateEvery = some every
  nextRate : p.nextRate = some (lastLine past + every)
  since : p.totalAtLastRate + releasedSince past = p.total
  attributed : (past.map Entry.bytes).sum = p.totalAtLastRate
  spaced : (lines past).Pairwise fun earlier later => earlier + every < later
  le_lastLine : ∀ moment ∈ lines past, moment ≤ lastLine past

/-- A line is due once more than an interval has passed since the last, and tells of the bytes and
    the time since then. -/
theorem RateAccounts.tick?_eq (h : RateAccounts every past p) (now : Duration) :
    p.tick? now =
      if lastLine past + every < now then
        (p.outlet.offer (rateLine (rate (releasedSince past) (now - lastLine past)) p.total),
          (Duration.moment? (now + every)).map fun next =>
            { p with nextRate := some next, totalAtLastRate := p.total })
      else ("", .ok p) := by
  obtain ⟨hevery, hnext, hsince, -, -, -⟩ := h
  have hbytes : p.total - p.totalAtLastRate = releasedSince past := by omega
  unfold tick?
  rw [hevery, hnext]
  dsimp only
  by_cases hdue : lastLine past + every < now
  · have hspan : now - (lastLine past + every) + every = now - lastLine past := by
      rw [Nat.sub_add_eq, Nat.sub_add_cancel (Nat.le_sub_of_add_le' (Nat.le_of_lt hdue))]
    rw [if_pos hdue, if_neg (Nat.not_le_of_lt hdue), hbytes, hspan]
  · rw [if_neg hdue, if_pos (Nat.le_of_not_lt hdue)]

theorem RateAccounts.via (h : RateAccounts every past p) (outlet : ProgressOutlet) :
    RateAccounts every past (p.via outlet) :=
  ⟨h.rateEvery, h.nextRate, h.since, h.attributed, h.spaced, h.le_lastLine⟩

theorem RateAccounts.offered_tick (h : RateAccounts every past p) (now : Duration) :
    p.offered (.tick now) =
      if lastLine past + every < now then
        rateLine (rate (releasedSince past) (now - lastLine past)) p.total
      else "" := by
  rw [offered, Progress.answer, (h.via .working).tick?_eq now]
  split <;> rfl

theorem RateAccounts.shown_tick (h : RateAccounts every past p) (now : Duration) :
    p.shown (.tick now) = if lastLine past + every < now then releasedSince past else 0 := by
  have hsince := h.since
  rw [shown, h.offered_tick]
  split
  · rw [if_neg (rateLine_ne_empty _ _)]
    omega
  · rfl

/-- A call that comes to no line adds what it releases to what the next line will account for. -/
theorem RateAccounts.quiet (h : RateAccounts every past p) (hquiet : e.line? = none)
    (hbytes : e.bytes = 0) (hevery : q.rateEvery = p.rateEvery) (hnext : q.nextRate = p.nextRate)
    (hlast : q.totalAtLastRate = p.totalAtLastRate)
    (htotal : q.total = p.total + e.call.released) : RateAccounts every (past ++ [e]) q := by
  constructor
  · exact hevery.trans h.rateEvery
  · rw [lastLine_quiet hquiet]
    exact hnext.trans h.nextRate
  · rw [releasedSince_quiet hquiet, hlast, htotal, ← Nat.add_assoc, h.since]
  · rw [List.map_append, List.sum_append, h.attributed, List.map_singleton, List.sum_singleton,
      hbytes]
    exact hlast.symm
  · rw [lines_quiet hquiet]
    exact h.spaced
  · rw [lines_quiet hquiet, lastLine_quiet hquiet]
    exact h.le_lastLine

/-- A line accounts for what was released since the last one, and the accounts start anew. -/
theorem RateAccounts.line (h : RateAccounts every past p) (hdue : lastLine past + every < now)
    (hline : e.line? = some now) (hbytes : e.bytes = releasedSince past) :
    RateAccounts every (past ++ [e])
      { p with nextRate := some (now + every), totalAtLastRate := p.total } := by
  constructor
  · exact h.rateEvery
  · rw [lastLine_line hline]
  · rw [releasedSince_line hline]
    rfl
  · rw [List.map_append, List.sum_append, h.attributed, List.map_singleton, List.sum_singleton,
      hbytes]
    exact h.since
  · rw [lines_line hline, List.pairwise_append]
    refine ⟨h.spaced, List.pairwise_singleton _ _, fun earlier hearlier later hlater => ?_⟩
    rw [List.mem_singleton.1 hlater]
    exact Nat.lt_of_le_of_lt (Nat.add_le_add_right (h.le_lastLine earlier hearlier) every) hdue
  · rw [lines_line hline, lastLine_line hline]
    intro moment hmem
    rcases List.mem_append.1 hmem with hold | hnew
    · exact Nat.le_trans (h.le_lastLine moment hold)
        (Nat.le_trans (Nat.le_add_right _ every) (Nat.le_of_lt hdue))
    · exact Nat.le_of_eq (List.mem_singleton.1 hnew)

/-- A release that is counted is added to the total and moves no deadline. -/
theorem advance_frame {n : Nat} (h : (p.answer (.advance n)).2 = .ok q) :
    q.rateEvery = p.rateEvery ∧ q.nextRate = p.nextRate ∧
      q.totalAtLastRate = p.totalAtLastRate ∧ q.total = p.total + n := by
  rw [Progress.answer, advance?] at h
  rcases hsum : addCount? p.total n with e | total
  · rw [hsum] at h
    cases h
  · obtain ⟨rfl, -⟩ := addCount?_eq_ok hsum
    rw [hsum] at h
    by_cases hoff : p.dotEvery = 0
    · simp only [if_pos hoff] at h
      cases h
      exact ⟨rfl, rfl, rfl, rfl⟩
    · simp only [if_neg hoff] at h
      rcases hdue : addCount? p.dotPending n with e | due
      · rw [hdue] at h
        cases h
      · rw [hdue] at h
        cases h
        exact ⟨rfl, rfl, rfl, rfl⟩

/-- **Each call that goes through keeps the accounts in step with the history.** -/
theorem RateAccounts.answer (h : RateAccounts every past p) (hcall : (p.answer call).2 = .ok q) :
    RateAccounts every (past ++ [p.entry call]) q := by
  cases call with
  | advance n =>
    obtain ⟨hevery, hnext, hlast, htotal⟩ := advance_frame hcall
    exact h.quiet rfl rfl hevery hnext hlast htotal
  | tick now =>
    rw [entry, h.offered_tick, h.shown_tick]
    rw [Progress.answer, h.tick?_eq] at hcall
    by_cases hdue : lastLine past + every < now
    · -- a line is shown for its text, which is never empty
      simp only [if_pos hdue] at hcall ⊢
      generalize htext : rateLine (rate (releasedSince past) (now - lastLine past)) p.total = text
      have hline : Entry.line? ⟨.tick now, text, releasedSince past⟩ = some now := by
        rw [Entry.line?, ← htext]
        exact if_neg (rateLine_ne_empty _ _)
      unfold Duration.moment? at hcall
      split at hcall
      · cases hcall
        exact h.line hdue hline rfl
      · cases hcall
    · simp only [if_neg hdue] at hcall ⊢
      cases hcall
      exact h.quiet rfl rfl rfl rfl rfl rfl

example : (start .working 0 (some 1000000000)).written
    [.advance 2048, .tick 500000000, .advance 5, .tick 3000000000, .tick 4000000000] =
      "\rWriting at 684b per sec (total 2.0k (2053))      " := by
  decide +kernel

end Progress

end StreamRelay
