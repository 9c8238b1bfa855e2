/-
  StreamRelay/Proofs/Report/Dots.lean
  ===================================
  **Dots depend on totals alone.**

  Progress is told that bytes were released, and it looks at the clock. Whatever calls were made, in
  whatever order, the bytes that fill no block yet are the remainder of all that were released, and
  with no rate lines in between the text is a dot for each whole block (`written_eq_dots`). How the
  sum was split leaves no trace, up to the first sum that cannot be counted.

  Nor has the outlet a say in this: one that takes nothing leaves progress as one that works does,
  on every call (`answer_via`).
-/
import Mathlib.Algebra.Ring.Nat
import Mathlib.Data.List.Induction
import StreamRelay.Report.Progress

namespace StreamRelay

/-! ### Outlets -/

namespace ProgressOutlet

@[simp] theorem offer_empty (o : ProgressOutlet) : o.offer "" = "" := by cases o <;> rfl

theorem offer_append (o : ProgressOutlet) (front back : String) :
    o.offer (front ++ back) = o.offer front ++ o.offer back := by
  cases o <;> rfl

end ProgressOutlet

namespace Progress

variable {p q : Progress} {outlet : ProgressOutlet} {d n : Nat} {rateEvery : Option Duration}
  {now : Duration} {text : String}

/-! ### Releases -/

def dots (n : Nat) : String := String.ofList (List.replicate n '.')

theorem dots_add (m n : Nat) : dots (m + n) = dots m ++ dots n := by
  rw [dots, ← List.replicate_append_replicate, String.ofList_append]
  rfl

/-- **One dot after the other comes to a dot for each whole block.** -/
theorem payDots_eq (hd : 0 < d) (outlet : ProgressOutlet) (due : Nat) (text : String) :
    payDots outlet d due text = (text ++ outlet.offer (dots (due / d)), due % d) := by
  fun_induction payDots outlet d due text with
  | case1 due text hdue ih =>
    have hmore : due / d = 1 + (due - d) / d := by
      rw [Nat.div_eq_sub_div hd hdue.2, Nat.add_comm]
    rw [ih, hmore, dots_add, ProgressOutlet.offer_append, Nat.mod_eq_sub_mod hdue.2,
      String.append_assoc]
    rfl
  | case2 due text hnone =>
    have hshort : due < d := by omega
    have hdots : dots 0 = "" := rfl
    rw [Nat.div_eq_of_lt hshort, Nat.mod_eq_of_lt hshort, hdots, outlet.offer_empty,
      String.append_empty]

def advanced (p : Progress) (n : Nat) : Progress :=
  { p with
    total := p.total + n
    dotPending := if p.dotEvery = 0 then p.dotPending else (p.dotPending + n) % p.dotEvery }

theorem advance?_of_lt (hpending : p.dotPending ≤ p.total) (hfits : p.total + n < countLimit) :
    p.advance? n =
      .ok (p.outlet.offer (dots ((p.dotPending + n) / p.dotEvery)), p.advanced n) := by
  have hdue : p.dotPending + n < countLimit := by omega
  rw [advance?, addCount?_of_lt hfits, advanced]
  dsimp only
  by_cases hoff : p.dotEvery = 0
  · have hnone : dots ((p.dotPending + n) / 0) = "" := by rw [Nat.div_zero]; rfl
    rw [if_pos hoff, if_pos hoff, hoff, hnone, p.outlet.offer_empty]
  · rw [if_neg hoff, if_neg hoff, addCount?_of_lt hdue]
    simp only [Except.map, payDots_eq (Nat.pos_of_ne_zero hoff), String.empty_append]

theorem advance?_of_le (hlarge : countLimit ≤ p.total + n) : p.advance? n = .error .sum := by
  have hsum : addCount? p.total n = .error .sum := if_neg (Nat.not_lt.2 hlarge)
  rw [advance?, hsum]

/-! ### Looks at the clock -/

/-- A look at the clock changes nothing but the deadline and the total at the last line. -/
theorem tick?_frame (h : (p.tick? now).2 = .ok q) :
    q = { p with nextRate := q.nextRate, totalAtLastRate := q.totalAtLastRate } := by
  unfold tick? at h
  split at h
  · next every _ _ _ =>
    dsimp only at h
    split at h
    · cases h
      rfl
    · rcases hnext : Duration.moment? (now + every) with e | next
      · rw [hnext] at h
        cases h
      · rw [hnext] at h
        cases h
        rfl
  · cases h
    rfl

theorem tick?_of_none (hrate : p.rateEvery = none) (now : Duration) :
    p.tick? now = ("", .ok p) := by
  rw [tick?, hrate]

/-- Only the moment of the next deadline can be out of reach. -/
theorem exists_tick? (h : ∀ every, p.rateEvery = some every → now + every < Duration.horizon) :
    ∃ q, (p.tick? now).2 = .ok q := by
  unfold tick?
  split
  · next every _ hevery _ =>
    dsimp only
    split
    · exact ⟨_, rfl⟩
    · rw [Duration.moment?_of_lt (h every hevery)]
      exact ⟨_, rfl⟩
  · exact ⟨_, rfl⟩

/-! ### Calls -/

inductive Call where
  | advance (released : Nat)
  | tick (now : Duration)
deriving DecidableEq, Repr

def Call.released : Call → Nat
  | .advance released => released
  | .tick _ => 0

def released (calls : List Call) : Nat := (calls.map Call.released).sum

/-- The text that a call writes, and progress after it. -/
def answer (p : Progress) : Call → String × Except Overflow Progress
  | .advance released =>
    match p.advance? released with
    | .error e => ("", .error e)
    | .ok (text, q) => (text, .ok q)
  | .tick now => p.tick? now

/-- Progress after calls, if every number on the way can be kept. -/
def after? (p : Progress) : List Call → Except Overflow Progress
  | [] => .ok p
  | call :: calls => (p.answer call).2.bind fun q => q.after? calls

/-- All text that calls write, up to the first that fails. -/
def written (p : Progress) : List Call → String
  | [] => ""
  | call :: calls =>
    (p.answer call).1 ++
      match (p.answer call).2 with
      | .error _ => ""
      | .ok q => q.written calls

variable {calls : List Call} {call : Call}

@[simp] theorem released_append (calls more : List Call) :
    released (calls ++ more) = released calls + released more := by
  simp [released]

@[simp] theorem released_singleton (call : Call) : released [call] = call.released := by
  simp [released]

theorem released_map_advance (releases : List Nat) :
    released (releases.map .advance) = releases.sum := by
  simp [released, Function.comp_def, Call.released]

theorem after?_snoc (p : Progress) (calls : List Call) (call : Call) :
    p.after? (calls ++ [call]) = (p.after? calls).bind fun q => (q.answer call).2 := by
  induction calls generalizing p with
  | nil =>
    change (p.answer call).2.bind .ok = (p.answer call).2
    rcases (p.answer call).2 with e | q <;> rfl
  | cons first calls ih =>
    rw [List.cons_append, after?, after?]
    rcases (p.answer first).2 with e | q
    · rfl
    · exact ih q

/-- Calls that go through do so one by one. -/
theorem after?_snoc_ok (h : p.after? (calls ++ [call]) = .ok q) :
    ∃ last, p.after? calls = .ok last ∧ (last.answer call).2 = .ok q := by
  rw [after?_snoc] at h
  rcases hbefore : p.after? calls with e | last
  · rw [hbefore] at h
    cases h
  · rw [hbefore] at h
    exact ⟨last, rfl, h⟩

theorem after?_snoc_of_ok (h : p.after? calls = .ok q) (call : Call) :
    p.after? (calls ++ [call]) = (q.answer call).2 := by
  rw [after?_snoc, h]
  rfl

theorem written_snoc (h : p.after? calls = .ok q) (call : Call) :
    p.written (calls ++ [call]) = p.written calls ++ (q.answer call).1 := by
  induction calls generalizing p with
  | nil =>
    cases h
    simp only [List.nil_append, written, String.empty_append]
    rcases (q.answer call).2 with e | last <;> exact String.append_empty
  | cons first calls ih =>
    rw [after?] at h
    rw [List.cons_append, written, written, String.append_assoc]
    rcases hfirst : (p.answer first).2 with e | next
    · rw [hfirst] at h
      cases h
    · rw [hfirst] at h
      dsimp only
      rw [ih h]

/-! ### The outlet has no say -/

def via (p : Progress) (outlet : ProgressOutlet) : Progress := { p with outlet }

/-- The text that a call offers to the outlet: what one that works takes. -/
def offered (p : Progress) (call : Call) : String := ((p.via .working).answer call).1

theorem payDots_via (outlet : ProgressOutlet) (d due : Nat) :
    payDots outlet d due "" =
      (outlet.offer (payDots .working d due "").1, (payDots .working d due "").2) := by
  rcases Nat.eq_zero_or_pos d with rfl | hd
  · have hnone (o : ProgressOutlet) : payDots o 0 due "" = ("", due) := by
      unfold payDots
      exact if_neg (by omega)
    rw [hnone, hnone, outlet.offer_empty]
  · rw [payDots_eq hd, payDots_eq hd, String.empty_append, String.empty_append]
    rfl

/-- **A call writes what the outlet takes of what is offered to it.** -/
theorem answer_fst (p : Progress) (call : Call) :
    (p.answer call).1 = p.outlet.offer (p.offered call) := by
  cases call with
  | advance n =>
    unfold offered answer advance? via
    dsimp only
    rcases addCount? p.total n with e | total
    · exact p.outlet.offer_empty.symm
    · by_cases hoff : p.dotEvery = 0
      · simp only [if_pos hoff]
        exact p.outlet.offer_empty.symm
      · simp only [if_neg hoff]
        rcases addCount? p.dotPending n with e | due
        · exact p.outlet.offer_empty.symm
        · exact congrArg Prod.fst (payDots_via p.outlet p.dotEvery due)
  | tick now =>
    unfold offered answer tick? via
    dsimp only
    split
    · split
      · exact p.outlet.offer_empty.symm
      · rfl
    · exact p.outlet.offer_empty.symm

/-- **The accounts go on alike whatever the outlet takes.** -/
theorem answer_via (p : Progress) (outlet : ProgressOutlet) (call : Call) :
    ((p.via outlet).answer call).2 = (p.answer call).2.map (·.via outlet) := by
  cases call with
  | advance n =>
    unfold answer advance? via
    dsimp only
    rcases addCount? p.total n with e | total
    · rfl
    · by_cases hoff : p.dotEvery = 0
      · simp only [if_pos hoff]
        rfl
      · simp only [if_neg hoff]
        rcases addCount? p.dotPending n with e | due
        · rfl
        · simp only [Except.map]
          rw [payDots_via outlet, payDots_via p.outlet]
  | tick now =>
    unfold answer tick? via
    dsimp only
    split
    · next every _ _ _ =>
      split
      · rfl
      · rcases Duration.moment? (now + every) with e | next <;> rfl
    · rfl

theorem after?_via (p : Progress) (outlet : ProgressOutlet) (calls : List Call) :
    (p.via outlet).after? calls = (p.after? calls).map (·.via outlet) := by
  induction calls generalizing p with
  | nil => rfl
  | cons call calls ih =>
    rw [after?, after?, answer_via]
    rcases (p.answer call).2 with e | q
    · rfl
    · exact ih q

/-- What is offered does not depend on the outlet. -/
theorem offered_via (p : Progress) (outlet : ProgressOutlet) (call : Call) :
    (p.via outlet).offered call = p.offered call := rfl

/-! ### Blocks -/

/-- Bytes that fill no block are carried on: neither a block nor a byte is lost by the cut. -/
theorem carry (hd : 0 < d) (before n : Nat) :
    before / d + (before % d + n) / d = (before + n) / d ∧
      (before % d + n) % d = (before + n) % d := by
  refine ⟨?_, Nat.mod_add_mod _ _ _⟩
  have hsplit : before + n = before % d + n + d * (before / d) := by
    have := Nat.div_add_mod before d
    omega
  rw [hsplit, Nat.add_mul_div_left _ _ hd, Nat.add_comm]

/-- What progress keeps of the releases that it was told of. -/
structure Tally (outlet : ProgressOutlet) (d : Nat) (rateEvery : Option Duration) (sum : Nat)
    (p : Progress) : Prop where
  outlet : p.outlet = outlet
  dotEvery : p.dotEvery = d
  rateEvery : p.rateEvery = rateEvery
  total : p.total = sum
  dotPending : p.dotPending = if d = 0 then 0 else sum % d

variable {sum : Nat}

theorem Tally.dotPending_le (h : Tally outlet d rateEvery sum p) : p.dotPending ≤ p.total := by
  rw [h.dotPending, h.total]
  split
  · exact Nat.zero_le _
  · exact Nat.mod_le _ _

theorem Tally.advanced (h : Tally outlet d rateEvery sum p) (n : Nat) :
    Tally outlet d rateEvery (sum + n) (p.advanced n) := by
  obtain ⟨rfl, rfl, rfl, rfl, hpending⟩ := h
  refine ⟨rfl, rfl, rfl, rfl, ?_⟩
  rw [Progress.advanced, hpending]
  by_cases hoff : p.dotEvery = 0
  · simp only [if_pos hoff]
  · simp only [if_neg hoff]
    exact (carry (Nat.pos_of_ne_zero hoff) _ _).2

/-- **Exactly the releases that can be counted are accounted for.** -/
theorem Tally.answer_advance (h : Tally outlet d rateEvery sum p) (n : Nat) :
    p.answer (.advance n) =
      if sum + n < countLimit then
        (outlet.offer (dots ((p.dotPending + n) / d)), .ok (p.advanced n))
      else ("", .error .sum) := by
  have hpending := h.dotPending_le
  obtain ⟨rfl, rfl, rfl, rfl, -⟩ := h
  rw [Progress.answer]
  split
  · next e herror =>
    split
    · next hfits =>
      rw [advance?_of_lt hpending hfits] at herror
      cases herror
    · next hlarge =>
      rw [advance?_of_le (Nat.le_of_not_lt hlarge)] at herror
      cases herror
      rfl
  · next text q hok =>
    split
    · next hfits =>
      rw [advance?_of_lt hpending hfits] at hok
      cases hok
      rfl
    · next hlarge =>
      rw [advance?_of_le (Nat.le_of_not_lt hlarge)] at hok
      cases hok

theorem Tally.answer {call : Call} (h : Tally outlet d rateEvery sum p)
    (hcall : (p.answer call).2 = .ok q) : Tally outlet d rateEvery (sum + call.released) q := by
  cases call with
  | advance n =>
    rw [h.answer_advance] at hcall
    split at hcall
    · cases hcall
      exact h.advanced n
    · cases hcall
  | tick now =>
    rw [tick?_frame hcall]
    exact ⟨h.outlet, h.dotEvery, h.rateEvery, h.total, h.dotPending⟩

theorem Tally.advance (h : Tally outlet d rateEvery sum p)
    (hadvance : p.advance? n = .ok (text, q)) :
    Tally outlet d rateEvery (sum + n) q := by
  have hcall : (p.answer (.advance n)).2 = .ok q := by rw [Progress.answer, hadvance]
  exact h.answer hcall

theorem Tally.tick (h : Tally outlet d rateEvery sum p) (htick : p.tick? now = (text, .ok q)) :
    Tally outlet d rateEvery sum q := by
  have hcall : (p.answer (.tick now)).2 = .ok q := by rw [Progress.answer, htick]
  exact h.answer hcall

theorem Tally.le_of_advance? {e : Overflow} (h : Tally outlet d rateEvery sum p)
    (hadvance : p.advance? n = .error e) : countLimit ≤ sum + n := by
  rw [← h.total]
  by_contra hfits
  rw [advance?_of_lt h.dotPending_le (Nat.lt_of_not_le hfits)] at hadvance
  cases hadvance

theorem tally_start (outlet : ProgressOutlet) (d : Nat) (rateEvery : Option Duration) :
    Tally outlet d rateEvery 0 (start outlet d rateEvery) := by
  refine ⟨rfl, rfl, rfl, rfl, ?_⟩
  rw [Nat.zero_mod, ite_self]
  rfl

theorem start?_ok (h : start? outlet d rateEvery = .ok p) : p = start outlet d rateEvery := by
  unfold start? at h
  split at h
  · cases h
    rfl
  · next every =>
    rcases hmoment : Duration.moment? every with e | moment
    · rw [hmoment] at h
      cases h
    · obtain ⟨rfl, -⟩ := Duration.moment?_ok hmoment
      rw [hmoment] at h
      cases h
      rfl

/-- **The tally after any calls that go through.** -/
theorem tally_after (h : (start outlet d rateEvery).after? calls = .ok p) :
    Tally outlet d rateEvery (released calls) p := by
  induction calls using List.reverseRecOn generalizing p with
  | nil =>
    cases h
    exact tally_start outlet d rateEvery
  | append_singleton calls call ih =>
    obtain ⟨last, hlast, hcall⟩ := after?_snoc_ok h
    rw [released_append, released_singleton]
    exact (ih hlast).answer hcall

/-- **Calls go through for as long as their sum can be counted** and no deadline is out of reach. -/
theorem exists_after? (outlet : ProgressOutlet) (d : Nat) (hsum : released calls < countLimit)
    (hsoon : ∀ now every, .tick now ∈ calls → rateEvery = some every →
      now + every < Duration.horizon) :
    ∃ p, (start outlet d rateEvery).after? calls = .ok p := by
  induction calls using List.reverseRecOn with
  | nil => exact ⟨_, rfl⟩
  | append_singleton calls call ih =>
    rw [released_append, released_singleton] at hsum
    obtain ⟨last, hlast⟩ := ih (by omega) fun now every hmem =>
      hsoon now every (List.mem_append_left _ hmem)
    have htally := tally_after hlast
    rw [after?_snoc_of_ok hlast]
    cases call with
    | advance n =>
      rw [htally.answer_advance n]
      exact ⟨_, congrArg Prod.snd (if_pos hsum)⟩
    | tick now =>
      refine exists_tick? fun every hevery => ?_
      rw [htally.rateEvery] at hevery
      exact hsoon now every (List.mem_append_right _ (List.mem_singleton.2 rfl)) hevery

/-- **Without rate lines the text is a dot for each whole block**, as far as the outlet takes it. -/
theorem written_eq_dots (hd : 0 < d) (h : (start outlet d none).after? calls = .ok p) :
    (start outlet d none).written calls = outlet.offer (dots (released calls / d)) := by
  induction calls using List.reverseRecOn generalizing p with
  | nil =>
    have hnone : dots (released [] / d) = "" := by simp [released, dots]
    rw [hnone, ProgressOutlet.offer_empty]
    rfl
  | append_singleton calls call ih =>
    obtain ⟨last, hlast, hcall⟩ := after?_snoc_ok h
    have htally := tally_after hlast
    rw [written_snoc hlast, ih hlast, released_append, released_singleton]
    cases call with
    | advance n =>
      rw [htally.answer_advance] at hcall ⊢
      split at hcall
      · next hfits =>
        rw [if_pos hfits, htally.dotPending, if_neg (Nat.ne_of_gt hd)]
        dsimp only
        rw [← ProgressOutlet.offer_append, ← dots_add, (carry hd _ _).1]
        rfl
      · cases hcall
    | tick now =>
      rw [answer, tick?_of_none htally.rateEvery, String.append_empty]
      rfl

/-- A sum that cannot be counted ends the calls. -/
theorem after?_of_le (outlet : ProgressOutlet) (d : Nat) (releases : List Nat)
    (hlarge : countLimit ≤ releases.sum) :
    (start outlet d none).after? (releases.map .advance) = .error .sum := by
  induction releases using List.reverseRecOn with
  | nil => exact absurd hlarge (by decide)
  | append_singleton releases n ih =>
    rw [List.map_append, List.map_singleton, after?_snoc]
    by_cases hbefore : countLimit ≤ releases.sum
    · rw [ih hbefore]
      rfl
    · have hcounted : released (releases.map .advance) < countLimit := by
        rw [released_map_advance]
        omega
      have hsoon : ∀ now every, .tick now ∈ releases.map Call.advance →
          (none : Option Duration) = some every → now + every < Duration.horizon := by simp
      obtain ⟨last, hlast⟩ := exists_after? outlet d hcounted hsoon
      have htally := tally_after hlast
      rw [List.sum_append, List.sum_singleton] at hlarge
      rw [released_map_advance] at htally
      rw [hlast, Except.bind, htally.answer_advance, if_neg (Nat.not_lt.2 hlarge)]

end Progress

end StreamRelay
