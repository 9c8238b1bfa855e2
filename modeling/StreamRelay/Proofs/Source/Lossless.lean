/-
  StreamRelay/Proofs/Source/Lossless.lean
  =======================================
  **Reads show a feed as it was laid down, and leave out interruptions only.**

  What a feed has in store for a reader is a sequence of tokens: its bytes, the ends of its input,
  the reads that would block and the faults, in order. A read shows the next of them, and as many as
  fit if they are bytes of one step (`Feed.read_accounts`). So after any reads, what was shown and
  what is left make up what was there, and if nothing is left, ends of the input follow
  (`Feed.reads_accounts`).

  A read is what comes of trying until a try is not interrupted (`Feed.retries_iff`), and an
  interruption is no token: the reads are the same without them.

  Main statement: `Feed.reads_lossless`.
-/
import Mathlib.Data.List.Forall2
import StreamRelay.Proofs.Source.Delivery

namespace StreamRelay

/-! ### Tokens -/

/-- One thing that a reader can be shown. -/
inductive Token where
  | byte (b : UInt8)
  | ended
  | notReady
  | failed (fault : Fault)
deriving DecidableEq, Repr

def Reading.tokens : Reading → List Token
  | .bytes given => given.map .byte
  | .endOfInput => [.ended]
  | .notReady => [.notReady]
  | .failed fault => [.failed fault]

def FeedStep.tokens : FeedStep → List Token
  | .bytes [] => [.ended]
  | .bytes (b :: rest) => (b :: rest).map .byte
  | .passTime _ => []
  | .interrupted => []
  | .wouldBlock => [.notReady]
  | .fail fault => [.failed fault]

/-- **What a feed has in store**, in order. -/
def Feed.tokens (feed : Feed) : List Token :=
  feed.ready.map .byte ++ feed.steps.flatMap FeedStep.tokens

/-- What was shown is what was in store, up to what is left; if nothing is left, ends of the input
    may follow. -/
def Accounts (before shown after : List Token) : Prop :=
  ∃ ends, shown ++ after = before ++ List.replicate ends .ended ∧ (0 < ends → after = [])

namespace Accounts

variable {before shown after shown' after' : List Token}

theorem of_eq (h : shown ++ after = before) : Accounts before shown after :=
  ⟨0, by simpa using h, fun h => absurd h (Nat.lt_irrefl 0)⟩

theorem nil_of_nil (h : Accounts [] shown after) : after = [] := by
  obtain ⟨ends, heq, hafter⟩ := h
  rcases Nat.eq_zero_or_pos ends with rfl | hpos
  · exact (List.append_eq_nil_iff.1 heq).2
  · exact hafter hpos

theorem trans (h : Accounts before shown after) (h' : Accounts after shown' after') :
    Accounts before (shown ++ shown') after' := by
  obtain ⟨ends, heq, hafter⟩ := h
  obtain ⟨ends', heq', hafter'⟩ := id h'
  refine ⟨ends + ends', ?_, ?_⟩
  · rw [List.append_assoc, heq', ← List.append_assoc, heq, List.append_assoc,
      List.replicate_append_replicate]
  · intro hpos
    rcases Nat.eq_zero_or_pos ends with rfl | hsome
    · exact hafter' (by omega)
    · rw [hafter hsome] at h'
      exact h'.nil_of_nil

theorem mem {token : Token} (h : Accounts before shown after) (hmem : token ∈ shown)
    (hne : token ≠ .ended) :
    token ∈ before := by
  obtain ⟨ends, heq, -⟩ := h
  have hboth : token ∈ before ++ List.replicate ends .ended := heq ▸ List.mem_append_left _ hmem
  rcases List.mem_append.1 hboth with hbefore | hends
  · exact hbefore
  · exact absurd (List.eq_of_mem_replicate hends) hne

theorem nil_of_length_le (h : Accounts before shown after)
    (hlength : before.length ≤ shown.length) : after = [] := by
  obtain ⟨ends, heq, hafter⟩ := h
  rcases Nat.eq_zero_or_pos ends with rfl | hpos
  · have htotal := congrArg List.length heq
    simp only [List.length_append, List.length_replicate] at htotal
    exact List.eq_nil_of_length_eq_zero (by omega)
  · exact hafter hpos

end Accounts

theorem Reading.tokens_ofBytes {bytes : Bytes} (h : bytes ≠ []) :
    (Reading.ofBytes bytes).tokens = bytes.map .byte := by
  cases bytes with
  | nil => exact absurd rfl h
  | cons b rest => rfl

theorem Reading.Bounded.tokens_ne_nil {want : Nat} {reading : Reading} (h : reading.Bounded want) :
    reading.tokens ≠ [] := by
  cases reading with
  | bytes given => exact fun hnil => h.1 (List.map_eq_nil_iff.1 hnil)
  | endOfInput => exact List.cons_ne_nil _ _
  | notReady => exact List.cons_ne_nil _ _
  | failed fault => exact List.cons_ne_nil _ _

/-! ### Reads one after the other -/

namespace Feed

variable {want : Nat}

theorem take_accounts (hwant : 0 < want) {bytes : Bytes} (hbytes : bytes ≠ [])
    (steps : List FeedStep) :
    Accounts (Feed.mk bytes steps).tokens (Reading.ofBytes (bytes.take want)).tokens
      (Feed.mk (bytes.drop want) steps).tokens := by
  have htake : bytes.take want ≠ [] :=
    fun hnil => (List.take_eq_nil_iff.1 hnil).elim (Nat.ne_of_gt hwant) hbytes
  apply Accounts.of_eq
  rw [Reading.tokens_ofBytes htake, tokens, tokens, ← List.append_assoc, ← List.map_append,
    List.take_append_drop]

theorem readSteps_accounts (hwant : 0 < want) (steps : List FeedStep) :
    Accounts (Feed.mk [] steps).tokens (readSteps want steps).reading.tokens
      (readSteps want steps).source.tokens := by
  induction steps with
  | nil => exact ⟨1, rfl, fun _ => rfl⟩
  | cons step steps ih =>
    cases step with
    | bytes bytes =>
      cases bytes with
      | nil =>
        have hnone : readSteps want (.bytes [] :: steps) = ⟨.endOfInput, 0, ⟨[], steps⟩⟩ := by
          simp [readSteps, Reading.ofBytes]
        rw [hnone]
        exact .of_eq rfl
      | cons b rest => exact take_accounts hwant (List.cons_ne_nil b rest) steps
    | passTime span => exact ih
    | interrupted => exact ih
    | wouldBlock => exact .of_eq rfl
    | fail fault => exact .of_eq rfl

/-- **A read shows what comes next.** -/
theorem read_accounts (feed : Feed) (hwant : 0 < want) :
    Accounts feed.tokens (feed.read want).reading.tokens (feed.read want).source.tokens := by
  rcases feed with ⟨_ | ⟨b, rest⟩, steps⟩
  · exact readSteps_accounts hwant steps
  · exact take_accounts hwant (List.cons_ne_nil b rest) steps

def reads (feed : Feed) : List Nat → List (Reading × Duration)
  | [] => []
  | want :: wants =>
      ((feed.read want).reading, (feed.read want).elapsed) :: (feed.read want).source.reads wants

def after (feed : Feed) : List Nat → Feed
  | [] => feed
  | want :: wants => (feed.read want).source.after wants

def shown (answers : List (Reading × Duration)) : List Token := answers.flatMap (·.1.tokens)

def brought (answers : List (Reading × Duration)) : Bytes :=
  (answers.takeWhile (·.1 ≠ .endOfInput)).flatMap (·.1.given)

variable {wants : List Nat}

/-- **Reads show what was in store**, in order and once. -/
theorem reads_accounts (feed : Feed) (hwants : ∀ want ∈ wants, 0 < want) :
    Accounts feed.tokens (shown (feed.reads wants)) (feed.after wants).tokens := by
  induction wants generalizing feed with
  | nil => exact .of_eq rfl
  | cons want wants ih =>
    rw [List.forall_mem_cons] at hwants
    exact (feed.read_accounts hwants.1).trans (ih _ hwants.2)

theorem reads_bounded (feed : Feed) (wants : List Nat) :
    List.Forall₂ (fun want answer => answer.1.Bounded want) wants (feed.reads wants) := by
  induction wants generalizing feed with
  | nil => exact .nil
  | cons want wants ih => exact .cons (feed.read_bounded want) (ih _)

theorem length_le_length_shown (feed : Feed) (wants : List Nat) :
    wants.length ≤ (shown (feed.reads wants)).length := by
  induction wants generalizing feed with
  | nil => exact Nat.zero_le _
  | cons want wants ih =>
    have hfirst := List.length_pos_iff.2 (feed.read_bounded want).tokens_ne_nil
    have hrest := ih (feed.read want).source
    simp only [reads, shown, List.flatMap_cons, List.length_append, List.length_cons] at hrest ⊢
    omega

/-- **Up to the first end of the input, reads bring the bytes of the feed**, and all of them if they
    come to that end. -/
theorem reads_brought (feed : Feed) (hwants : ∀ want ∈ wants, 0 < want) :
    brought (feed.reads wants) <+: feed.delivered ∧
      ((∃ answer ∈ feed.reads wants, answer.1 = .endOfInput) →
        brought (feed.reads wants) = feed.delivered) := by
  induction wants generalizing feed with
  | nil => exact ⟨List.nil_prefix, fun ⟨_, hmem, _⟩ => absurd hmem List.not_mem_nil⟩
  | cons want wants ih =>
    rw [List.forall_mem_cons] at hwants
    have hread := (feed.read_continues hwants.1).1
    obtain ⟨hpart, hall⟩ := ih (feed.read want).source hwants.2
    by_cases hend : (feed.read want).reading = .endOfInput
    · have hnone : brought (feed.reads (want :: wants)) = [] := by
        simp [brought, reads, hend]
      rw [hnone, hread.endOfInput hend]
      exact ⟨List.prefix_rfl, fun _ => rfl⟩
    · have hmore : brought (feed.reads (want :: wants)) =
          (feed.read want).reading.given ++ brought ((feed.read want).source.reads wants) := by
        simp [brought, reads, hend]
      rw [hmore, ← hread.delivered hend]
      refine ⟨(List.prefix_append_right_inj _).2 hpart, ?_⟩
      rintro ⟨answer, hmem, hanswer⟩
      rcases List.mem_cons.1 hmem with rfl | hrest
      · exact absurd hanswer hend
      · rw [hall ⟨answer, hrest, hanswer⟩]

theorem mem_steps_of_failed (feed : Feed) (hwants : ∀ want ∈ wants, 0 < want)
    {answer : Reading × Duration} {fault : Fault}
    (hmem : answer ∈ feed.reads wants) (hanswer : answer.1 = .failed fault) :
    .fail fault ∈ feed.steps := by
  have hshown : Token.failed fault ∈ shown (feed.reads wants) := by
    refine List.mem_flatMap.2 ⟨answer, hmem, ?_⟩
    rw [hanswer]
    exact List.mem_singleton_self _
  have hbefore := (feed.reads_accounts hwants).mem hshown Token.noConfusion
  rcases List.mem_append.1 hbefore with hready | hstep
  · obtain ⟨b, -, hb⟩ := List.mem_map.1 hready
    cases hb
  · obtain ⟨step, hstep, htoken⟩ := List.mem_flatMap.1 hstep
    rcases step with (_ | ⟨b, rest⟩) | span | _ | _ | fault'
    all_goals simp [FeedStep.tokens] at htoken
    rw [htoken]
    exact hstep

/-! ### Interruptions -/

def uninterrupted (feed : Feed) : Feed :=
  { feed with steps := feed.steps.filter (· ≠ .interrupted) }

theorem readSteps_uninterrupted (want : Nat) (steps : List FeedStep) :
    readSteps want (steps.filter (· ≠ .interrupted)) =
      { readSteps want steps with source := (readSteps want steps).source.uninterrupted } := by
  induction steps with
  | nil => rfl
  | cons step steps ih =>
    cases step with
    | bytes bytes => rfl
    | passTime span =>
      have hkept : (FeedStep.passTime span :: steps).filter (· ≠ .interrupted) =
          .passTime span :: steps.filter (· ≠ .interrupted) := rfl
      rw [hkept, readSteps, ih]
      rfl
    | interrupted => exact ih
    | wouldBlock => rfl
    | fail fault => rfl

theorem read_uninterrupted (feed : Feed) (want : Nat) :
    feed.uninterrupted.read want =
      { feed.read want with source := (feed.read want).source.uninterrupted } := by
  rcases feed with ⟨_ | ⟨b, rest⟩, steps⟩
  · exact readSteps_uninterrupted want steps
  · rfl

/-- **Reads are the same without interruptions**, and take the same time. -/
theorem reads_uninterrupted (feed : Feed) (wants : List Nat) :
    feed.uninterrupted.reads wants = feed.reads wants := by
  induction wants generalizing feed with
  | nil => rfl
  | cons want wants ih => rw [reads, reads, read_uninterrupted, ih]

end Feed

/-! ### Tries -/

/-- What a feed answers to a single try, where an interruption and a read that would block are
    faults like others. -/
structure Try where
  result : Except Fault Bytes
  elapsed : Duration
  feed : Feed

def Reading.ofTry? : Except Fault Bytes → Option Reading
  | .ok given => some (.ofBytes given)
  | .error .interrupted => none
  | .error .wouldBlock => some .notReady
  | .error fault => some (.failed fault)

namespace Feed

variable {want : Nat} {wants : List Nat}

def trySteps (want : Nat) : List FeedStep → Try
  | [] => ⟨.ok [], 0, ⟨[], []⟩⟩
  | .bytes bytes :: steps => ⟨.ok (bytes.take want), 0, ⟨bytes.drop want, steps⟩⟩
  | .passTime span :: steps =>
    let t := trySteps want steps
    { t with elapsed := span + t.elapsed }
  | .interrupted :: steps => ⟨.error .interrupted, 0, ⟨[], steps⟩⟩
  | .wouldBlock :: steps => ⟨.error .wouldBlock, 0, ⟨[], steps⟩⟩
  | .fail fault :: steps => ⟨.error fault, 0, ⟨[], steps⟩⟩

/-- **Try once** to read at most `want` bytes. -/
def tryRead (feed : Feed) (want : Nat) : Try :=
  match feed.ready with
  | [] => trySteps want feed.steps
  | ready => ⟨.ok (ready.take want), 0, { feed with ready := ready.drop want }⟩

/-- Trying until a try is an answer ends with this result. -/
inductive Retries (want : Nat) : Feed → ReadResult Feed → Prop where
  | answered {feed : Feed} {reading : Reading}
      (h : Reading.ofTry? (feed.tryRead want).result = some reading) :
      Retries want feed ⟨reading, (feed.tryRead want).elapsed, (feed.tryRead want).feed⟩
  | again {feed : Feed} {r : ReadResult Feed} (h : Reading.ofTry? (feed.tryRead want).result = none)
      (hrest : Retries want (feed.tryRead want).feed r) :
      Retries want feed { r with elapsed := (feed.tryRead want).elapsed + r.elapsed }

/-- The faults of a feed are neither interruptions nor reads that would block, which have steps of
    their own. -/
def Faithful (feed : Feed) : Prop :=
  ∀ fault, .fail fault ∈ feed.steps → fault ≠ .interrupted ∧ fault ≠ .wouldBlock

theorem Retries.unique {feed : Feed} {r r' : ReadResult Feed} (h : Retries want feed r)
    (h' : Retries want feed r') :
    r = r' := by
  induction h generalizing r' with
  | answered h =>
    cases h' with
    | answered h' =>
      rw [h] at h'
      cases h'
      rfl
    | again h' _ =>
      rw [h] at h'
      cases h'
  | again h _ ih =>
    cases h' with
    | answered h' =>
      rw [h] at h'
      cases h'
    | again _ hrest => rw [ih hrest]

theorem Retries.passTime {steps : List FeedStep} {r : ReadResult Feed}
    (h : Retries want ⟨[], steps⟩ r) (span : Duration) :
    Retries want ⟨[], .passTime span :: steps⟩ { r with elapsed := span + r.elapsed } := by
  cases h with
  | answered h => exact @Retries.answered want ⟨[], .passTime span :: steps⟩ _ h
  | @again _ r h hrest =>
    have hlater := @Retries.again want ⟨[], .passTime span :: steps⟩ r h hrest
    have hspan : (tryRead ⟨[], .passTime span :: steps⟩ want).elapsed = span +
        (tryRead ⟨[], steps⟩ want).elapsed := rfl
    rw [hspan, Nat.add_assoc] at hlater
    exact hlater

theorem retries_readSteps {steps : List FeedStep} (h : Faithful ⟨[], steps⟩) (want : Nat) :
    Retries want ⟨[], steps⟩ (readSteps want steps) := by
  induction steps with
  | nil => exact @Retries.answered want ⟨[], []⟩ .endOfInput rfl
  | cons step steps ih =>
    have hrest := ih fun fault hmem => h fault (List.mem_cons_of_mem _ hmem)
    cases step with
    | bytes bytes =>
      exact @Retries.answered want ⟨[], .bytes bytes :: steps⟩ (.ofBytes (bytes.take want)) rfl
    | passTime span => exact hrest.passTime span
    | interrupted =>
      have hagain := @Retries.again want ⟨[], .interrupted :: steps⟩ _ rfl hrest
      have hspan : (tryRead ⟨[], .interrupted :: steps⟩ want).elapsed = 0 := rfl
      rw [hspan, Nat.zero_add] at hagain
      exact hagain
    | wouldBlock => exact @Retries.answered want ⟨[], .wouldBlock :: steps⟩ .notReady rfl
    | fail fault =>
      obtain ⟨hplain, hnever⟩ := h fault List.mem_cons_self
      have hanswer : Reading.ofTry? (.error fault) = some (.failed fault) := by
        cases fault with
        | interrupted => exact absurd rfl hplain
        | wouldBlock => exact absurd rfl hnever
        | _ => rfl
      exact @Retries.answered want ⟨[], .fail fault :: steps⟩ _ hanswer

/-- **A read is what comes of trying until a try is an answer.** -/
theorem retries_iff {feed : Feed} (h : feed.Faithful) {r : ReadResult Feed} :
    Retries want feed r ↔ r = feed.read want := by
  have hread : Retries want feed (feed.read want) := by
    rcases feed with ⟨_ | ⟨b, rest⟩, steps⟩
    · exact retries_readSteps h want
    · exact @Retries.answered want ⟨b :: rest, steps⟩ (.ofBytes ((b :: rest).take want)) rfl
  exact ⟨fun hr => hr.unique hread, fun heq => heq ▸ hread⟩

theorem steps_after (feed : Feed) (hwants : ∀ want ∈ wants, 0 < want) :
    (feed.after wants).steps <:+ feed.steps := by
  induction wants generalizing feed with
  | nil => exact List.suffix_rfl
  | cons want wants ih =>
    rw [List.forall_mem_cons] at hwants
    exact (ih _ hwants.2).trans (feed.read_continues hwants.1).1.steps

/-! ### All reads -/

/-- **Reads lose nothing, show nothing twice, and leave out interruptions only.** For any feed and
    any reads that ask for some bytes: without its interruptions the reads and the times that they
    take are the same. What was shown and what is left make up what was in store, byte for byte,
    with each read that would block, each fault and each end of the input in its place, up to ends
    of the input if nothing is left; and as many reads as there are tokens leave nothing. No read
    brings more than it asks for. The bytes brought before the first end of the input are the first
    that the feed delivers, and all of them if that end was reached. Where the faults laid down are
    neither interruptions nor reads that would block, an interruption is never shown, and any read
    is what comes of trying until a try is not interrupted. -/
theorem reads_lossless (feed : Feed) (hwants : ∀ want ∈ wants, 0 < want) :
    feed.uninterrupted.reads wants = feed.reads wants ∧
      Accounts feed.tokens (shown (feed.reads wants)) (feed.after wants).tokens ∧
      (feed.tokens.length ≤ wants.length → (feed.after wants).tokens = []) ∧
      List.Forall₂ (fun want answer => answer.1.Bounded want) wants (feed.reads wants) ∧
      brought (feed.reads wants) <+: feed.delivered ∧
      ((∃ answer ∈ feed.reads wants, answer.1 = .endOfInput) →
        brought (feed.reads wants) = feed.delivered) ∧
      (feed.Faithful →
        (∀ answer ∈ feed.reads wants, answer.1 ≠ .failed .interrupted) ∧
          ∀ want r, Retries want (feed.after wants) r ↔ r = (feed.after wants).read want) := by
  have haccounts := feed.reads_accounts hwants
  obtain ⟨hpart, hall⟩ := feed.reads_brought hwants
  refine ⟨feed.reads_uninterrupted wants, haccounts, ?_, feed.reads_bounded wants, hpart, hall, ?_⟩
  · intro hmany
    exact haccounts.nil_of_length_le (Nat.le_trans hmany (feed.length_le_length_shown wants))
  · intro hfaithful
    constructor
    · intro answer hmem hanswer
      exact (hfaithful _ (feed.mem_steps_of_failed hwants hmem hanswer)).1 rfl
    · intro want r
      apply retries_iff
      intro fault hmem
      exact hfaithful fault ((feed.steps_after hwants).subset hmem)

/-- Bytes, interruptions, time, a read that would block, a fault, an end of the input and a byte
    behind it, read in eight parts. -/
theorem reads_lossless_around_interruptions :
    let feed : Feed :=
  ⟨[1], [.interrupted, .bytes [2, 3, 4], .passTime 5, .interrupted, .wouldBlock, .fail .brokenPipe,
      .bytes [], .bytes [6]]⟩
    let wants := [9, 2, 2, 1, 1, 1, 1, 1]
    Feed.reads ⟨[1], [.bytes [2, 3, 4], .passTime 5, .wouldBlock, .fail .brokenPipe, .bytes [],
      .bytes [6]]⟩ wants =
        feed.reads wants ∧
      brought (feed.reads wants) = [1, 2, 3, 4] ∧ (feed.after wants).tokens = [] ∧
      ∀ answer ∈ feed.reads wants, answer.1 ≠ .failed .interrupted := by
  intro feed wants
  have hfaithful : feed.Faithful := by
    intro fault hmem
    simp only [feed, List.mem_cons, reduceCtorEq, false_or, or_false, FeedStep.fail.injEq,
      List.not_mem_nil] at hmem
    subst hmem
    decide
  have hended : ∃ answer ∈ feed.reads wants, answer.1 = .endOfInput :=
    ⟨(.endOfInput, 0), by decide, rfl⟩
  obtain ⟨hsame, -, hdone, -, -, hall, hvisible⟩ := @reads_lossless wants feed (by decide)
  exact ⟨hsame, hall hended, hdone (by decide), (hvisible hfaithful).1⟩

end Feed

end StreamRelay
