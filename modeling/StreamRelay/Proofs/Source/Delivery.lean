/-
  StreamRelay/Proofs/Source/Delivery.lean
  =======================================
  **What attempts to read bring, and what they leave.**

  No source brings more than it was asked for, and none answers with no bytes: that is the end of
  the input (`Source.read_bounded`). A feed brings its bytes in order, whatever is between them, and
  each attempt takes it on by a byte or by a step (`Source.Attempt.continues`).
-/
import StreamRelay.Source

namespace StreamRelay

/-! ### Readings -/

def Reading.given : Reading → Bytes
  | .bytes given => given
  | _ => []

@[simp] theorem Reading.given_ofBytes (bytes : Bytes) : (Reading.ofBytes bytes).given = bytes := by
  cases bytes <;> rfl

theorem Reading.ofBytes_ne_failed (bytes : Bytes) (fault : Fault) :
    Reading.ofBytes bytes ≠ .failed fault := by
  cases bytes <;> exact Reading.noConfusion

theorem Reading.ofBytes_eq_endOfInput {bytes : Bytes} :
    Reading.ofBytes bytes = .endOfInput ↔ bytes = [] := by
  cases bytes <;> simp [Reading.ofBytes]

def Reading.Bounded (want : Nat) : Reading → Prop
  | .bytes given => given ≠ [] ∧ given.length ≤ want
  | _ => True

theorem Reading.Bounded.length_given_le {want : Nat} {reading : Reading}
    (h : reading.Bounded want) :
    reading.given.length ≤ want := by
  cases reading with
  | bytes given => exact h.2
  | _ => exact Nat.zero_le _

theorem Reading.bounded_ofBytes {want : Nat} {bytes : Bytes} (h : bytes.length ≤ want) :
    (Reading.ofBytes bytes).Bounded want := by
  cases bytes with
  | nil => trivial
  | cons b rest => exact ⟨List.cons_ne_nil b rest, h⟩

/-! ### Feeds -/

namespace Feed

/-- The bytes that steps make available before the end of the input. -/
def deliveredBy : List FeedStep → Bytes
  | [] => []
  | .bytes [] :: _ => []
  | .bytes (b :: rest) :: steps => b :: rest ++ deliveredBy steps
  | _ :: steps => deliveredBy steps

/-- **The bytes that a feed delivers before the end of the input.** -/
def delivered (feed : Feed) : Bytes := feed.ready ++ deliveredBy feed.steps

def spanOf : List FeedStep → Duration
  | [] => 0
  | .passTime span :: steps => span + spanOf steps
  | _ :: steps => spanOf steps

/-- The last of some steps let no more time pass than all of them. -/
theorem spanOf_le {steps later : List FeedStep} (h : later <:+ steps) :
    spanOf later ≤ spanOf steps := by
  induction steps with
  | nil => exact Nat.le_of_eq (congrArg spanOf (List.suffix_nil.1 h))
  | cons step steps ih =>
    have hstep : spanOf steps ≤ spanOf (step :: steps) := by
      cases step with
      | passTime span => exact Nat.le_add_left _ _
      | _ => exact Nat.le_refl _
    rcases List.suffix_cons_iff.1 h with rfl | hrest
    · exact Nat.le_refl _
    · exact Nat.le_trans (ih hrest) hstep

def duration (feed : Feed) : Duration := spanOf feed.steps

/-- A feed was taken from one state to another by a reading that took some time. -/
structure Continues (feed : Feed) (reading : Reading) (elapsed : Duration) (after : Feed) :
    Prop where
  steps : after.steps <:+ feed.steps
  payload : reading.given ++ after.payload = feed.payload
  duration : elapsed + after.duration = feed.duration
  delivered : reading ≠ .endOfInput → reading.given ++ after.delivered = feed.delivered
  endOfInput : reading = .endOfInput → feed.delivered = []
  failed : ∀ fault, reading = .failed fault → .fail fault ∈ feed.steps

theorem Continues.refl (feed : Feed) : Continues feed .notReady 0 feed where
  steps := List.suffix_rfl
  payload := rfl
  duration := Nat.zero_add _
  delivered _ := rfl
  endOfInput h := Reading.noConfusion h
  failed _ h := Reading.noConfusion h

/-- A step that brings nothing before the ones that answer a read. -/
theorem Continues.cons (step : FeedStep) (span : Duration) {steps : List FeedStep}
    {elapsed : Duration} {reading : Reading} {after : Feed} (hpayload : step.payload = [])
    (hdelivered : deliveredBy (step :: steps) = deliveredBy steps)
    (hspan : spanOf (step :: steps) = span + spanOf steps)
    (h : Continues ⟨[], steps⟩ reading elapsed after) :
    Continues ⟨[], step :: steps⟩ reading (span + elapsed) after where
  steps := h.steps.trans (List.suffix_cons _ _)
  payload := by
    rw [h.payload]
    simp [Feed.payload, hpayload]
  duration := by
    have hrest := h.duration
    simp only [Feed.duration] at hrest ⊢
    rw [hspan, Nat.add_assoc, hrest]
  delivered hne := by
    rw [h.delivered hne]
    simp only [Feed.delivered, hdelivered]
  endOfInput heq := by
    have hrest := h.endOfInput heq
    simp only [Feed.delivered, hdelivered] at hrest ⊢
    exact hrest
  failed fault heq := List.mem_cons_of_mem _ (h.failed fault heq)

/-- Taking steps until one answers uses up a step, unless the input is at its end. -/
theorem readSteps_continues {want : Nat} (hwant : 0 < want) (steps : List FeedStep) :
    Continues ⟨[], steps⟩ (readSteps want steps).reading (readSteps want steps).elapsed
      (readSteps want steps).source ∧
      ((readSteps want steps).reading ≠ .endOfInput →
        (readSteps want steps).source.steps.length < steps.length) := by
  -- a step that answers ends the induction; one that passes on to the next adds its time
  induction steps with
  | nil =>
    refine ⟨?_, fun h => absurd rfl h⟩
    exact ⟨List.suffix_rfl, rfl, rfl, fun h => absurd rfl h, fun _ => rfl,
      fun _ h => Reading.noConfusion h⟩
  | cons step steps ih =>
    obtain ⟨hrest, hfewer⟩ := ih
    have hfewer' (hne : (readSteps want steps).reading ≠ .endOfInput) :
        (readSteps want steps).source.steps.length < (step :: steps).length :=
      Nat.lt_succ_of_lt (hfewer hne)
    cases step with
    | bytes bytes =>
      refine ⟨?_, fun _ => Nat.lt_succ_self _⟩
      constructor
      · exact List.suffix_cons _ _
      · simp [readSteps, Feed.payload, FeedStep.payload, ← List.append_assoc, List.take_append_drop]
      · exact Nat.zero_add _
      · intro hne
        cases bytes with
        | nil => exact absurd (Reading.ofBytes_eq_endOfInput.2 List.take_nil) hne
        | cons b rest => simp [readSteps, Feed.delivered, deliveredBy, ← List.append_assoc]
      · intro heq
        have hempty := Reading.ofBytes_eq_endOfInput.1 heq
        rcases List.take_eq_nil_iff.1 hempty with hzero | hnil
        · exact absurd hzero (Nat.ne_of_gt hwant)
        · rw [hnil]
          rfl
      · exact fun fault h => absurd h (Reading.ofBytes_ne_failed _ fault)
    | passTime span => exact ⟨hrest.cons (.passTime span) span rfl rfl rfl, hfewer'⟩
    | interrupted =>
      have := hrest.cons .interrupted 0 rfl rfl (Nat.zero_add _).symm
      rw [Nat.zero_add] at this
      exact ⟨this, hfewer'⟩
    | wouldBlock =>
      have := (Continues.refl ⟨[], steps⟩).cons .wouldBlock 0 rfl rfl (Nat.zero_add _).symm
      exact ⟨this, fun _ => Nat.lt_succ_self _⟩
    | fail fault =>
      refine ⟨?_, fun _ => Nat.lt_succ_self _⟩
      constructor
      · exact List.suffix_cons _ _
      · rfl
      · exact Nat.zero_add _
      · exact fun _ => rfl
      · exact fun h => Reading.noConfusion h
      · intro fault' heq
        cases heq
        exact List.mem_cons_self

/-- **A read takes a feed on**: by a byte, or by a step, or to the end of its input. -/
theorem read_continues (feed : Feed) {want : Nat} (hwant : 0 < want) :
    Continues feed (feed.read want).reading (feed.read want).elapsed (feed.read want).source ∧
      ((feed.read want).reading ≠ .endOfInput → (feed.read want).reading.given = [] →
        (feed.read want).source.steps.length < feed.steps.length) := by
  rcases feed with ⟨_ | ⟨b, rest⟩, steps⟩
  · obtain ⟨hcontinues, hfewer⟩ := readSteps_continues hwant steps
    exact ⟨hcontinues, fun hne _ => hfewer hne⟩
  · have htake : (b :: rest).take want ≠ [] := by
      intro h
      rcases List.take_eq_nil_iff.1 h with hzero | hnil
      · exact absurd hzero (Nat.ne_of_gt hwant)
      · cases hnil
    refine ⟨?_, fun _ hnone => absurd hnone ?_⟩
    · constructor
      · exact List.suffix_rfl
      · simp [Feed.read, Feed.payload, ← List.append_assoc, List.take_append_drop]
      · exact Nat.zero_add _
      · intro _
        simp [Feed.read, Feed.delivered, ← List.append_assoc, List.take_append_drop]
      · exact fun h => absurd (Reading.ofBytes_eq_endOfInput.1 h) htake
      · exact fun fault h => absurd h (Reading.ofBytes_ne_failed _ fault)
    · rwa [Feed.read, Reading.given_ofBytes]

theorem readSteps_bounded (want : Nat) (steps : List FeedStep) :
    (readSteps want steps).reading.Bounded want := by
  induction steps with
  | nil => trivial
  | cons step steps ih =>
    cases step with
    | bytes bytes => exact Reading.bounded_ofBytes (List.length_take_le _ _)
    | passTime span => exact ih
    | interrupted => exact ih
    | wouldBlock => trivial
    | fail fault => trivial

theorem read_bounded (feed : Feed) (want : Nat) : (feed.read want).reading.Bounded want := by
  rcases feed with ⟨_ | ⟨b, rest⟩, steps⟩
  · exact readSteps_bounded want steps
  · exact Reading.bounded_ofBytes (List.length_take_le _ _)

end Feed

/-! ### Reads of the system -/

def readSpan : List ReadStep → Duration
  | [] => 0
  | read :: reads => read.time + readSpan reads

/-- **A read asks for something if the caller does**, and not for more. -/
theorem nextRead_size (want : Nat) (reads : List ReadStep) :
    (nextRead want reads).1 ≤ want ∧ (0 < want → 0 < (nextRead want reads).1) := by
  cases reads with
  | nil => exact ⟨Nat.le_refl _, id⟩
  | cons step reads =>
    refine ⟨Nat.min_le_left _ _, fun hwant => ?_⟩
    change 0 < min want (max step.most 1)
    omega

/-- A read takes the time that is laid down for it, or as long as one does otherwise. -/
theorem nextRead_span (want : Nat) (reads : List ReadStep) :
    (nextRead want reads).2.1 + readSpan (nextRead want reads).2.2 ≤
      readTime + readSpan reads := by
  cases reads with
  | nil => exact Nat.le_refl _
  | cons step reads =>
    simp only [nextRead, readSpan]
    exact Nat.le_add_left _ _

/-! ### Attempts -/

namespace Source

/-- **No source brings more than it was asked for**, and one that brings nothing says so. -/
theorem read_bounded (disk : Disk) (source : Source) (want : Nat) :
    (source.read disk want).reading.Bounded want := by
  cases source with
  | feed feed waits => exact feed.read_bounded want
  | pipe rest => exact Reading.bounded_ofBytes (List.length_take_le _ _)
  | zeros reads =>
    apply Reading.bounded_ofBytes
    rw [List.length_replicate]
    exact (nextRead_size want reads).1
  | standardInput ahead offset reads =>
    change (readStandardInput disk ahead offset reads want).reading.Bounded want
    unfold readStandardInput
    split <;> exact Reading.bounded_ofBytes (List.length_take_le _ _)
  | file name offset reads =>
    change (Reading.ofBytes (disk.slice name offset (nextRead want reads).1)).Bounded want
    apply Reading.bounded_ofBytes
    have hsize := (nextRead_size want reads).1
    rw [Disk.slice, Array.length_toList, Array.size_extract]
    omega
  | folder => trivial

def duration : Source → Duration
  | .feed f _ => f.duration
  | _ => 0

/-- One attempt to get at most `want` bytes: a wait that ends without input, or a read, after a wait
    or without one. -/
inductive Attempt (disk : Disk) (source : Source) (want : Nat) : ReadResult Source → Prop where
  | unready {after : Source} (h : source.wait = (.ok false, after)) :
      Attempt disk source want ⟨.notReady, 0, after⟩
  | waited {after : Source} (h : source.wait = (.ok true, after)) :
      Attempt disk source want (after.read disk want)
  | direct : Attempt disk source want (source.read disk want)

theorem Attempt.bounded {disk : Disk} {source : Source} {want : Nat} {answer : ReadResult Source}
    (h : Attempt disk source want answer) : answer.reading.Bounded want := by
  cases h with
  | unready _ => trivial
  | waited _ => exact read_bounded disk _ want
  | direct => exact read_bounded disk source want

theorem wait_feed (feed : Feed) (waits : List WaitStep) :
    ∃ waits', (Source.feed feed waits).wait.2 = .feed feed waits' ∧ waits' <:+ waits ∧
      (waits = waits' → (Source.feed feed waits).wait.1 = .ok true) := by
  rcases waits with _ | ⟨isReady | fault, waits⟩
  · exact ⟨[], rfl, List.suffix_rfl, fun _ => rfl⟩
  · exact ⟨waits, rfl, List.suffix_cons _ _, fun h => absurd h (List.cons_ne_self _ _)⟩
  · exact ⟨waits, rfl, List.suffix_cons _ _, fun h => absurd h (List.cons_ne_self _ _)⟩

/-- **An attempt takes a feed on**: by a byte, or by an answer that brings none, or to the end of
    its input. -/
theorem Attempt.continues {disk : Disk} {feed : Feed} {waits : List WaitStep} {want : Nat}
    {answer : ReadResult Source} (h : Attempt disk (.feed feed waits) want answer)
    (hwant : 0 < want) :
    ∃ feed' waits', answer.source = .feed feed' waits' ∧ waits' <:+ waits ∧
      feed.Continues answer.reading answer.elapsed feed' ∧
      (answer.reading ≠ .endOfInput → answer.reading.given = [] →
        feed'.steps.length + waits'.length < feed.steps.length + waits.length) := by
  have hread := feed.read_continues hwant
  obtain ⟨waits', hafter, hsuffix, hunready⟩ := wait_feed feed waits
  cases h with
  | unready h =>
    rw [h] at hafter hunready
    refine ⟨feed, waits', hafter, hsuffix, Feed.Continues.refl feed, ?_⟩
    -- only a wait that is in store can say that nothing is there
    intro _ _
    have hlength := hsuffix.length_le
    have hne : waits.length ≠ waits'.length := by
      intro heq
      cases hunready (hsuffix.eq_of_length heq.symm).symm
    omega
  | waited h =>
    rw [h] at hafter
    subst hafter
    refine ⟨(feed.read want).source, waits', rfl, hsuffix, hread.1, ?_⟩
    intro hne hnone
    have := hread.2 hne hnone
    have := hsuffix.length_le
    omega
  | direct =>
    refine ⟨(feed.read want).source, waits, rfl, List.suffix_rfl, hread.1, ?_⟩
    intro hne hnone
    have := hread.2 hne hnone
    omega

/-! ### The end of the input -/

def Drained (disk : Disk) : Source → Prop
  | .feed f _ => f.delivered = []
  | source => source.extent disk = 0

theorem slice_eq_nil {disk : Disk} {name : String} {offset count : Nat} (hcount : 0 < count)
    (h : disk.slice name offset count = []) : (disk.contents name).length - offset = 0 := by
  have hlength := congrArg List.length h
  simp only [Disk.slice, Array.length_toList, Array.size_extract, List.length_nil] at hlength
  simp only [Disk.contents, Array.length_toList]
  omega

/-- **An answer of no bytes means that there are none**, as long as some were asked for. -/
theorem drained_of_endOfInput {disk : Disk} {source : Source} {want : Nat} (hwant : 0 < want)
    (h : (source.read disk want).reading = .endOfInput) : source.Drained disk := by
  have hnil {bytes : Bytes} (h : bytes.take want = []) : bytes = [] :=
    (List.take_eq_nil_iff.1 h).resolve_left (Nat.ne_of_gt hwant)
  cases source with
  | feed feed waits => exact (feed.read_continues hwant).1.endOfInput h
  | pipe rest =>
    have hrest := hnil (Reading.ofBytes_eq_endOfInput.1 h)
    rw [hrest]
    rfl
  | zeros reads =>
    have hzeros := congrArg List.length (Reading.ofBytes_eq_endOfInput.1 h)
    rw [List.length_replicate] at hzeros
    exact absurd hzeros (Nat.ne_of_gt ((nextRead_size want reads).2 hwant))
  | standardInput ahead offset reads =>
    cases ahead with
    | nil =>
      have hmany : 0 < max readAhead want := Nat.lt_of_lt_of_le hwant (Nat.le_max_right _ _)
      have hleft := slice_eq_nil ((nextRead_size _ reads).2 hmany)
        (hnil (Reading.ofBytes_eq_endOfInput.1 h))
      change 0 + ((disk.contents Disk.standardInput).length - offset) = 0
      rw [hleft]
    | cons b rest =>
      exact absurd (hnil (Reading.ofBytes_eq_endOfInput.1 h)) (List.cons_ne_nil b rest)
  | file name offset reads =>
    exact slice_eq_nil ((nextRead_size want reads).2 hwant) (Reading.ofBytes_eq_endOfInput.1 h)
  | folder => cases h

end Source

end StreamRelay
