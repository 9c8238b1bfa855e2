/-
  StreamRelay/Proofs/Source/Supply.lean
  =====================================
  **What a run may count on from its source.**

  A feed and a regular file differ in how they are read, but what a run needs to know of them is
  the same: they bring their bytes in order up to the end of the input, every attempt takes them on,
  and the time for that is laid down. A `Supply` states this of all sources of a kind, on the disks
  that leave them as they are. A feed with the sources that it may become is one
  (`Supply.ofFeed`), and so is a file that is read on (`Supply.ofFile`).
-/
import StreamRelay.Proofs.Source.Regular

namespace StreamRelay

/-- What is known of the sources of a kind: which they are and which disks leave them alone, the
    bytes that they bring before the end of the input, how many are left in all, the time laid down
    for reading them, and the time that any one read may take beyond it. -/
structure Outlook where
  covers : Source → Prop
  sees : Disk → Prop
  rest : Source → Bytes
  left : Source → Nat
  span : Source → Duration
  perRead : Duration

structure Outlook.Yields (F : Outlook) (source : Source) (answer : ReadResult Source) :
    Prop where
  covers : F.covers answer.source
  next : answer.reading ≠ .endOfInput →
    answer.reading.given ++ F.rest answer.source = F.rest source
  last : answer.reading = .endOfInput → F.rest source = []
  elapsed : answer.elapsed + F.span answer.source ≤ F.perRead + F.span source
  left : answer.reading.given.length + F.left answer.source = F.left source
  answers : answer.source.answers ≤ source.answers
  gets : answer.reading = .endOfInput ∨ answer.reading.given ≠ [] ∨
    answer.source.answers < source.answers

/-- **Sources that every attempt takes on.** -/
structure Supply extends Outlook where
  extent {source : Source} {disk : Disk} : covers source → sees disk →
    source.extent disk = left source
  attempt {source : Source} {disk : Disk} {want : Nat} {answer : ReadResult Source} :
    covers source → sees disk → 0 < want → source.Attempt disk want answer →
    toOutlook.Yields source answer

/-- **No wait for these sources fails, and no attempt to read them.** -/
structure Supply.Faultless (F : Supply) : Prop where
  waits : ∀ source fault, F.covers source → source.wait.1 ≠ .error fault
  reads : ∀ source disk want answer fault, F.covers source → F.sees disk → 0 < want →
    source.Attempt disk want answer → answer.reading ≠ .failed fault

/-! ### Feeds -/

def FeedStep.fails : FeedStep → Bool
  | .fail _ => true
  | _ => false

def WaitStep.fails : WaitStep → Bool
  | .fail _ => true
  | _ => false

/-- **Neither a read nor a wait fails.** -/
structure Feed.Faultless (feed : Feed) (waits : List WaitStep) : Prop where
  steps : ∀ step ∈ feed.steps, step.fails = false
  waits : ∀ step ∈ waits, step.fails = false

def Outlook.ofFeed (feed : Feed) (waits : List WaitStep) : Outlook where
  covers source := ∃ feed' waits', source = .feed feed' waits' ∧ feed'.steps <:+ feed.steps ∧
    waits' <:+ waits
  sees _ := True
  rest
    | .feed feed _ => feed.delivered
    | _ => []
  left
    | .feed feed _ => feed.payload.length
    | _ => 0
  span := Source.duration
  perRead := 0

/-- **A feed brings what it delivers**, and its time is in its steps. -/
def Supply.ofFeed (feed : Feed) (waits : List WaitStep) : Supply where
  toOutlook := .ofFeed feed waits
  extent := by
    rintro _ _ ⟨_, _, rfl, _, _⟩ _
    rfl
  attempt := by
    rintro _ _ _ answer ⟨feed', waits', rfl, hsteps, hwaits⟩ _ hwant hattempt
    obtain ⟨feed'', waits'', hsource, hwaits', hcontinues, hfewer⟩ := hattempt.continues hwant
    obtain ⟨reading, elapsed, _⟩ := answer
    subst hsource
    have hfewer' := hcontinues.steps.length_le
    have hshorter := hwaits'.length_le
    refine ⟨⟨feed'', waits'', rfl, hcontinues.steps.trans hsteps, hwaits'.trans hwaits⟩,
      hcontinues.delivered, hcontinues.endOfInput, ?_, ?_, Nat.add_le_add hfewer' hshorter, ?_⟩
    · exact Nat.le_of_eq (hcontinues.duration.trans (Nat.zero_add _).symm)
    · exact List.length_append.symm.trans (congrArg List.length hcontinues.payload)
    · by_cases hend : reading = .endOfInput
      · exact Or.inl hend
      · by_cases hnone : reading.given = []
        · exact Or.inr (Or.inr (hfewer hend hnone))
        · exact Or.inr (Or.inl hnone)

theorem Supply.covers_ofFeed (feed : Feed) (waits : List WaitStep) :
    (Supply.ofFeed feed waits).covers (.feed feed waits) :=
  ⟨feed, waits, rfl, List.suffix_rfl, List.suffix_rfl⟩

theorem Feed.Faultless.supply {feed : Feed} {waits : List WaitStep} (h : feed.Faultless waits) :
    (Supply.ofFeed feed waits).Faultless := by
  constructor
  · rintro _ fault ⟨feed', waits', rfl, _, hwaits⟩ hwait
    rcases waits' with _ | ⟨isReady | fault', waits'⟩
    · cases hwait
    · cases hwait
    · cases h.waits _ (hwaits.subset List.mem_cons_self)
  · rintro _ disk want answer fault ⟨feed', waits', rfl, hsteps, _⟩ _ hwant hattempt hreading
    obtain ⟨_, _, _, _, hcontinues, _⟩ := hattempt.continues hwant
    cases h.steps _ (hsteps.subset (hcontinues.failed fault hreading))

/-! ### Regular files -/

/-- The sources that read a regular file on, as long as it is as it was at the start. -/
def Outlook.ofFile (start : Disk) (name : String) : Outlook where
  covers source := source.file? = some name
  sees disk := disk.find? name = start.find? name
  rest := Source.remaining start
  left source := (source.remaining start).length
  span := Source.readSpan
  perRead := readTime

/-- **A regular file brings what remains of it**, each read in the time laid down for it. -/
def Supply.ofFile (start : Disk) (name : String) : Supply where
  toOutlook := .ofFile start name
  extent := by
    intro source disk hfile hsame
    rw [Source.extent_eq_length hfile, Source.remaining_congr hfile hsame]
    rfl
  attempt := by
    intro source disk want answer hfile hsame hwant hattempt
    have hnext := (hattempt.regular hfile).1
    have hfile' := hnext.file.trans hfile
    have hparts := hnext.parts
    rw [Source.remaining_congr hfile' hsame, Source.remaining_congr hfile hsame] at hparts
    refine ⟨hfile', fun _ => hparts, fun hend => ?_, hnext.elapsed, ?_, ?_, ?_⟩
    · have hnone := hattempt.regular_end hfile hwant hend
      rwa [Source.remaining_congr hfile hsame] at hnone
    · exact List.length_append.symm.trans (congrArg List.length hparts)
    · rw [Source.answers_eq_zero hfile']
      exact Nat.zero_le _
    · rw [hnext.reading]
      cases answer.reading.given with
      | nil => exact Or.inl rfl
      | cons b rest => exact Or.inr (Or.inl (by simp))

end StreamRelay
