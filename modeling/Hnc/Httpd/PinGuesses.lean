import Hnc.Httpd.PinEffects

/-!
# Guessing the PIN in parallel

`CheckPinVerify` and `RegisterPinFail` are two separate critical sections, so
many requests of one IP can pass the check before the first failure is counted.
When no more of them are between the two than there are failures left, at most
five wrong PINs of the IP are compared in one counting window.
-/

namespace Httpd

open Posix
open KeyMap

namespace Pairing

/-- What holds of an entry at any time past the first minute. -/
structure Sane (now : Int) (entry : RlEntry) : Prop where
  closed : entry.pinWindowStart = 0 → entry.pinAttempts = 0
  opened : entry.pinWindowStart ≠ 0 →
    1 ≤ entry.pinAttempts ∧ entry.pinWindowStart ≤ now
  few : entry.pinAttempts ≤ rlPinAttemptsMax
  locked : entry.pinAttempts = rlPinAttemptsMax →
    entry.pinWindowStart + rlPinLockDuration ≤ entry.pinLockTS

structure Limited (ip : Text) (pairing : Pairing) : Prop where
  late : rlPinWindow < pairing.now
  sane : ∀ entry, pairing.entry ip = some entry → Sane pairing.now entry
  slots : pairing.attempts ip + pairing.guesses ip ≤ rlPinAttemptsMax ∨
    pairing.guesses ip ≤ 1 ∧
      (pairing.guesses ip = 1 → ∀ entry, pairing.entry ip = some entry →
        entry.pinWindowStart + rlPinWindow < pairing.now)

variable {now : Int}

theorem Sane.touched {old new : Option RlEntry} (touched : Touched old new)
    (sane : ∀ entry, old = some entry → Sane now entry) :
    ∀ entry, new = some entry → Sane now entry := by
  cases touched with
  | gone => intro entry absurdity; cases absurdity
  | kept same =>
      rintro entry ⟨⟩
      obtain ⟨closed, opened, few, locked⟩ := sane _ rfl
      constructor
      case closed =>
        rw [same.window, same.attempts]
        exact closed
      case opened =>
        rw [same.window, same.attempts]
        exact opened
      case few =>
        rw [same.attempts]
        exact few
      case locked =>
        rw [same.window, same.attempts, same.lock]
        exact locked
  | created attempts window =>
      rintro entry ⟨⟩
      constructor
      case closed => exact fun _ => attempts
      case opened => exact fun isOpen => absurd window isOpen
      case few =>
        rw [attempts]
        exact Nat.zero_le _
      case locked =>
        intro full
        rw [attempts] at full
        cases full

variable {entry : RlEntry}

/-- A counted failure leaves a sane entry: it opens a window, or it is at most
the fifth of its window. -/
theorem Sane.countFail (late : rlPinWindow < now) (sane : Sane now entry)
    (room : entry.pinWindowStart + rlPinWindow < now ∨ entry.pinAttempts < rlPinAttemptsMax) :
    Sane now (RateLimiter.countFail entry now) := by
  by_cases expired : now - entry.pinWindowStart > rlPinWindow
  · have result : RateLimiter.countFail entry now =
        { entry with pinWindowStart := now, pinAttempts := 1 } := by
      simp [RateLimiter.countFail, expired, rlPinAttemptsMax]
    rw [result]
    simp only [rlPinWindow] at late
    constructor
    case closed => intro isZero; dsimp only at isZero; omega
    case opened => exact fun _ => ⟨Nat.le_refl 1, Int.le_refl now⟩
    case few =>
      dsimp only
      decide
    case locked => intro full; cases full
  · have few : entry.pinAttempts < rlPinAttemptsMax := by
      rcases room with old | few
      · omega
      · exact few
    have notZero : entry.pinWindowStart ≠ 0 := by
      intro isZero
      omega
    obtain ⟨_, past⟩ := sane.opened notZero
    obtain ⟨attempts, start, _, locks⟩ :=
      @RateLimiter.countFail_in_window entry now (by omega)
    constructor
    case closed =>
      intro isZero
      rw [start] at isZero
      exact absurd isZero notZero
    case opened =>
      intro _
      rw [start]
      exact ⟨by omega, past⟩
    case few =>
      omega
    case locked =>
      intro full
      omega

variable {pairing : Pairing} {ip : Text}

theorem attempts_of_entry {found : RlEntry}
    (present : pairing.entry ip = some found) :
    pairing.attempts ip = found.pinAttempts := by
  simp [attempts, present]

theorem attempts_of_absent (absent : pairing.entry ip = none) :
    pairing.attempts ip = 0 := by
  simp [attempts, absent]

variable {before after : Pairing}

/-- A touched entry has the same count or none, and its window, if it still
counts, is the same. -/
theorem touched_attempts (touched : Touched (before.entry ip) (after.entry ip)) :
    after.attempts ip = 0 ∨ after.attempts ip = before.attempts ip ∧
      after.window ip = before.window ip := by
  unfold attempts window
  generalize before.entry ip = old at touched ⊢
  generalize after.entry ip = new at touched ⊢
  cases touched with
  | gone => exact .inl rfl
  | kept same => exact .inr ⟨same.attempts, congrArg some same.window⟩
  | created attempts window => exact .inl attempts

theorem Limited.attempts_le (limited : Limited ip pairing) :
    pairing.attempts ip ≤ rlPinAttemptsMax := by
  cases present : pairing.entry ip with
  | none =>
      rw [attempts_of_absent present]
      exact Nat.zero_le _
  | some found =>
      rw [attempts_of_entry present]
      exact (limited.sane found present).few

theorem Limited.guesses_le (limited : Limited ip pairing) :
    pairing.guesses ip ≤ rlPinAttemptsMax := by
  rcases limited.slots with few | ⟨one, _⟩
  · omega
  · simp only [rlPinAttemptsMax]
    omega

theorem Sane.later {later : Int} (sane : Sane now entry) (after : now ≤ later) :
    Sane later entry := by
  obtain ⟨closed, opened, few, locked⟩ := sane
  refine ⟨closed, ?_, few, locked⟩
  intro isOpen
  obtain ⟨one, past⟩ := opened isOpen
  exact ⟨one, Int.le_trans past after⟩

theorem newEntry_sane (now : Int) : Sane now (RateLimiter.newEntry now) := by
  constructor
  case closed => exact fun _ => rfl
  case opened => exact fun isOpen => absurd rfl isOpen
  case few => exact Nat.zero_le _
  case locked => intro full; cases full

theorem seenAt_sane (sane : Sane now entry) : Sane now (entry.seenAt now) :=
  ⟨sane.closed, sane.opened, sane.few, sane.locked⟩

/-- The count after a failure: one more, or one in a new window. -/
theorem countFail_attempts (entry : RlEntry) (now : Int) :
    (entry.pinWindowStart + rlPinWindow < now ∧
      (RateLimiter.countFail entry now).pinAttempts = 1 ∧
      (RateLimiter.countFail entry now).pinWindowStart = now) ∨
    (now ≤ entry.pinWindowStart + rlPinWindow ∧
      (RateLimiter.countFail entry now).pinAttempts =
        entry.pinAttempts + 1 ∧
      (RateLimiter.countFail entry now).pinWindowStart =
        entry.pinWindowStart) := by
  by_cases expired : now - entry.pinWindowStart > rlPinWindow
  · left
    refine ⟨by omega, ?_⟩
    simp [RateLimiter.countFail, expired, rlPinAttemptsMax]
  · right
    obtain ⟨attempts, start, _, _⟩ :=
      @RateLimiter.countFail_in_window entry now (by omega)
    exact ⟨by omega, attempts, start⟩

theorem limited_of_touch (limited : Limited ip before)
    (touched : Touched (before.entry ip) (after.entry ip))
    (fewer : after.guesses ip ≤ before.guesses ip)
    (later : before.now ≤ after.now) : Limited ip after := by
  constructor
  case late => exact Int.lt_of_lt_of_le limited.late later
  case sane =>
    intro found present
    exact (Sane.touched touched limited.sane found present).later later
  case slots =>
    have total := limited.guesses_le
    rcases touched_attempts touched with zero | ⟨same, sameWindow⟩
    · left
      omega
    · rcases limited.slots with few | ⟨one, expired⟩
      · left
        omega
      · right
        refine ⟨by omega, ?_⟩
        intro isOne found present
        cases old : before.entry ip with
        | none => simp [window, present, old] at sameWindow
        | some entry =>
            have known := expired (by omega) entry old
            simp only [window, present, old, Option.map_some,
              Option.some.injEq] at sameWindow
            omega

theorem Effect.limited (effect : Effect ip before after)
    (limited : Limited ip before) : Limited ip after := by
  cases effect with
  | touch entry undecided missed wrong later =>
      refine limited_of_touch limited entry ?_ later
      unfold guesses
      omega
  | pass entry found present unlocked slot undecided missed wrong now =>
      have sane : ∀ known, after.entry ip = some known →
          Sane after.now known := by
        rw [now]
        exact Sane.touched entry limited.sane
      have oneMore : after.guesses ip = before.guesses ip + 1 := by
        unfold guesses
        omega
      refine ⟨now ▸ limited.late, sane, ?_⟩
      have count : after.attempts ip = 0 ∨
          after.attempts ip = before.attempts ip := by
        rcases touched_attempts entry with zero | ⟨same, _⟩
        · exact .inl zero
        · exact .inr same
      have total := limited.attempts_le
      rcases slot with alone | left
      · by_cases full : after.attempts ip = rlPinAttemptsMax
        · right
          refine ⟨by omega, ?_⟩
          intro _ known isKnown
          rw [present] at isKnown
          cases isKnown
          rw [attempts_of_entry present] at full
          have lock := (sane found present).locked full
          simp only [rlPinLockDuration, rlPinWindow] at lock ⊢
          omega
        · left
          omega
      · left
        omega
  | miss entry undecided missed wrong now =>
      refine limited_of_touch limited ?_ ?_ (Int.le_of_eq now.symm)
      · rw [entry]
        exact .refl _
      · unfold guesses
        omega
  | count entry decided wrong now =>
      have oneLess : after.guesses ip + 1 = before.guesses ip := by
        unfold guesses
        omega
      rcases entry with ⟨noneBefore, noneAfter⟩ | ⟨found, stored, origin⟩
      · refine limited_of_touch limited ?_ (by omega)
          (Int.le_of_eq now.symm)
        rw [noneAfter]
        exact .gone _
      · -- The counted entry, as it was found.
        have sane : Sane before.now found := by
          rcases origin with ⟨_, fresh⟩ | ⟨old, present, touched⟩
          · rw [fresh]
            exact newEntry_sane before.now
          · rw [touched]
            exact seenAt_sane (limited.sane old present)
        have sameCount : found.pinAttempts = before.attempts ip := by
          rcases origin with ⟨absent, fresh⟩ | ⟨old, present, touched⟩
          · rw [fresh, attempts_of_absent absent]
            rfl
          · rw [touched, attempts_of_entry present]
            rfl
        have room : found.pinWindowStart + rlPinWindow < before.now ∨
            before.attempts ip + before.guesses ip ≤ rlPinAttemptsMax := by
          rcases limited.slots with few | ⟨one, expired⟩
          · exact .inr few
          · rcases origin with ⟨absent, _⟩ | ⟨old, present, touched⟩
            · right
              rw [attempts_of_absent absent]
              simp only [rlPinAttemptsMax]
              omega
            · left
              rw [touched]
              exact expired (by omega) old present
        have count := attempts_of_entry stored
        have total := limited.guesses_le
        constructor
        case late => rw [now]; exact limited.late
        case sane =>
          intro known isKnown
          rw [stored] at isKnown
          cases isKnown
          rw [now]
          apply Sane.countFail limited.late sane
          rcases room with expired | few
          · exact .inl expired
          · right
            omega
        case slots =>
          left
          rcases countFail_attempts found before.now with
            ⟨_, one, _⟩ | ⟨inside, more, _⟩
          · omega
          · rcases room with expired | few
            · omega
            · omega
  | reset entry undecided missed wrong now =>
      have sameGuesses : after.guesses ip = before.guesses ip := by
        unfold guesses
        omega
      have total := limited.guesses_le
      have zero : after.attempts ip = 0 := by
        cases present : after.entry ip with
        | none => exact attempts_of_absent present
        | some found =>
            rw [attempts_of_entry present]
            exact (entry found present).2.1
      constructor
      case late => rw [now]; exact limited.late
      case sane =>
        intro found present
        obtain ⟨_, attempts, window⟩ := entry found present
        constructor
        case closed => exact fun _ => attempts
        case opened => exact fun isOpen => absurd window isOpen
        case few =>
          rw [attempts]
          exact Nat.zero_le _
        case locked =>
          intro full
          rw [attempts] at full
          cases full
      case slots =>
        left
        omega

/-- The wrong guesses since `first` are paid for: without an entry by the
requests that had passed the check, in a window by counted failures and by those
that wait to be counted. -/
def PaidFor (ip : Text) (first pairing : Pairing) : Prop :=
  match first.window ip with
  | none => pairing.wrongGuesses ip + pairing.undecided ip ≤
      first.wrongGuesses ip + first.undecided ip
  | some _ =>
      pairing.wrongGuesses ip + first.attempts ip + first.missed ip ≤
        first.wrongGuesses ip + pairing.attempts ip + pairing.missed ip

theorem attempts_of_same_window
    (touched : Touched (before.entry ip) (after.entry ip)) {start : Int}
    (here : before.window ip = some start) (there : after.window ip = some start) :
    after.attempts ip = before.attempts ip := by
  unfold window at here there
  unfold attempts
  generalize before.entry ip = old at touched here ⊢
  generalize after.entry ip = new at touched there ⊢
  cases touched with
  | gone => cases there
  | kept same => exact same.attempts
  | created attempts window => cases here

/-- A failure counted in the same window is one more. -/
theorem count_of_same_window
    (entry : (before.entry ip = none ∧ after.entry ip = none) ∨ ∃ found, after.entry ip = some (RateLimiter.countFail found before.now) ∧ (before.entry ip = none ∧ found = RateLimiter.newEntry before.now ∨ ∃ old, before.entry ip = some old ∧ found = old.seenAt before.now))
    {start : Int} (here : before.window ip = some start)
    (there : after.window ip = some start) :
    after.attempts ip = before.attempts ip + 1 := by
  rcases entry with ⟨absent, _⟩ | ⟨found, stored, ⟨absent, _⟩ |
    ⟨old, present, touched⟩⟩
  · simp [window, absent] at here
  · simp [window, absent] at here
  · simp only [window, present, stored, Option.map_some,
      Option.some.injEq] at here there
    have oldStart : found.pinWindowStart = old.pinWindowStart := by
      rw [touched]
      rfl
    have oldCount : found.pinAttempts = old.pinAttempts := by
      rw [touched]
      rfl
    rw [attempts_of_entry stored, attempts_of_entry present, ← oldCount]
    rcases countFail_attempts found before.now with
      ⟨expired, _, restarted⟩ | ⟨_, more, _⟩
    · simp only [rlPinWindow] at expired
      omega
    · exact more

theorem Effect.paidFor (effect : Effect ip before after)
    (limited : Limited ip before) (same : after.window ip = before.window ip) :
    PaidFor ip before after := by
  unfold PaidFor
  cases here : before.window ip with
  | none =>
      rw [here] at same
      have gone : after.entry ip = none := by
        simpa [window] using same
      cases effect with
      | touch entry undecided missed wrong later => dsimp only; omega
      | pass entry found present unlocked slot undecided missed wrong now =>
          rw [gone] at present
          cases present
      | miss entry undecided missed wrong now => dsimp only; omega
      | count entry decided wrong now => dsimp only; omega
      | reset entry undecided missed wrong now => dsimp only; omega
  | some start =>
      rw [here] at same
      cases effect with
      | touch entry undecided missed wrong later =>
          have count := attempts_of_same_window entry here same
          omega
      | pass entry found present unlocked slot undecided missed wrong now =>
          have count := attempts_of_same_window entry here same
          omega
      | miss entry undecided missed wrong now =>
          have count : after.attempts ip = before.attempts ip := by
            unfold attempts
            rw [entry]
          omega
      | count entry decided wrong now =>
          have count := count_of_same_window entry here same
          omega
      | reset entry undecided missed wrong now =>
          have zero : before.attempts ip = 0 := by
            cases known : before.entry ip with
            | none => exact attempts_of_absent known
            | some old =>
                rw [attempts_of_entry known]
                apply (limited.sane old known).closed
                simp only [window, known, Option.map_some,
                  Option.some.injEq] at here
                rw [here]
                cases present : after.entry ip with
                | none => simp [window, present] at same
                | some found =>
                    simp only [window, present, Option.map_some,
                      Option.some.injEq] at same
                    rw [← same]
                    exact (entry found present).2.2
          omega

theorem PaidFor.trans {first middle last : Pairing}
    (same : middle.window ip = first.window ip) (begun : PaidFor ip first middle)
    (goes : PaidFor ip middle last) : PaidFor ip first last := by
  unfold PaidFor at begun goes ⊢
  rw [same] at goes
  cases here : first.window ip with
  | none =>
      rw [here] at begun goes
      omega
  | some start =>
      rw [here] at begun goes
      omega

theorem PaidFor.refl (ip : Text) (pairing : Pairing) :
    PaidFor ip pairing pairing := by
  unfold PaidFor
  split <;> exact Nat.le_refl _

theorem PaidFor.bound {first last : Pairing} (paid : PaidFor ip first last)
    (limitedFirst : Limited ip first) (limitedLast : Limited ip last)
    (same : last.window ip = first.window ip) :
    last.wrongGuesses ip ≤ first.wrongGuesses ip + rlPinAttemptsMax := by
  unfold PaidFor at paid
  cases present : first.entry ip with
  | none =>
      have noWindow : first.window ip = none := by simp [window, present]
      rw [noWindow] at paid
      have few := limitedFirst.guesses_le
      unfold guesses at few
      omega
  | some found =>
      have isWindow : first.window ip = some found.pinWindowStart := by
        simp [window, present]
      rw [isWindow] at paid same
      have sane := limitedFirst.sane found present
      have count := attempts_of_entry present
      have most := limitedLast.attempts_le
      rcases limitedLast.slots with few | ⟨one, _⟩
      · unfold guesses at few
        omega
      · unfold guesses at one
        by_cases closed : found.pinWindowStart = 0
        · cases there : last.entry ip with
          | none => simp [window, there] at same
          | some known =>
              simp only [window, there, Option.map_some,
                Option.some.injEq] at same
              have zero := (limitedLast.sane known there).closed
                (same.trans closed)
              rw [attempts_of_entry there] at paid most
              simp only [rlPinAttemptsMax]
              omega
        · have atLeastOne := (sane.opened closed).1
          omega

theorem start_limited (ip : Text) (now : Nat) (tokensFile : Option File) :
    Limited ip (start now tokensFile) := by
  have absent : (start now tokensFile).entry ip = none := rfl
  constructor
  case late =>
    simp only [start]
    omega
  case sane =>
    intro found present
    cases present
  case slots =>
    left
    exact Nat.zero_le _

/-- Between two instants with the same counting window at most five wrong PINs
of an IP are compared, in every order of steps in which the requests of the IP
past the check leave a slot for each other. -/
theorem wrong_guesses_bounded (now : Nat) (tokensFile : Option File)
    (before segment : List PairStep) (ip : Text)
    (slots : Runs.Guarded step (SlotLeft ip) (start now tokensFile)
      (before ++ segment)) (window : Option Int)
    (same : ∀ state ∈ Runs.visited step
      ((start now tokensFile).run before) segment,
      state.window ip = window) :
    ∀ state ∈ Runs.visited step ((start now tokensFile).run before) segment,
      state.wrongGuesses ip ≤
        ((start now tokensFile).run before).wrongGuesses ip +
          rlPinAttemptsMax := by
  obtain ⟨slotsBefore, slotsSegment⟩ := Runs.guarded_append.mp slots
  have limited : Limited ip ((start now tokensFile).run before) :=
    slotsBefore.final_induction (Limited ip)
      (fun state next holds slot =>
        (step_effect state next ip slot).limited holds)
      (start_limited ip now tokensFile)
  have first := same _ (Runs.mem_visited_start _ _)
  have paid := slotsSegment.induction_while
    (fun state => Limited ip state ∧ state.window ip = window ∧
      PaidFor ip ((start now tokensFile).run before) state)
    (fun state => state.window ip = window)
    (by
      intro state next ⟨holds, here, sofar⟩ slot there
      have effect := step_effect state next ip slot
      refine ⟨effect.limited holds, there, ?_⟩
      exact sofar.trans (here.trans first.symm)
        (effect.paidFor holds (there.trans here.symm)))
    ⟨limited, first, .refl ip _⟩ same
  intro state member
  obtain ⟨holds, here, sofar⟩ := paid state member
  exact sofar.bound limited holds (here.trans first.symm)

def wrongPin : Option Text := some "000000".toList

/-- One wrong guess, counted, which opens a window. -/
def firstGuess : List PairStep :=
  [.generate 123456 ["sessionid000".toList], .arrive phone wrongPin] ++
    goOn 0 6 firstRandom

/-- Six more requests, all checked and compared before one is counted. -/
def sixAtOnce : List PairStep :=
  List.replicate 6 (.arrive phone wrongPin) ++
    (List.range 6).flatMap fun index => goOn (index + 1) 5 firstRandom

def isLocked (pairing : Pairing) (ip : Text) : Bool :=
  (pairing.entry ip).any fun entry => decide (entry.pinLockTS > pairing.now)

/-- Six wrong PINs are compared in one window, before and after which the IP is
not locked. -/
theorem six_guesses_at_once :
    (∀ state ∈ Runs.visited step ((start 0 none).run firstGuess) sixAtOnce,
      state.window phone = some 61 ∧ state.isLocked phone = false) ∧
    ((start 0 none).run (firstGuess ++ sixAtOnce)).wrongGuesses phone =
      ((start 0 none).run firstGuess).wrongGuesses phone + 6 := by
  decide +kernel

/-- Two requests at once. -/
def twoAtOnce : List PairStep :=
  List.replicate 2 (.arrive phone wrongPin) ++ goOn 1 5 firstRandom ++
    goOn 2 5 firstRandom

instance (ip : Text) (pairing : Pairing) (next : PairStep) :
    Decidable (pairing.SlotLeft ip next) :=
  match next with
  | .advance index _ =>
      decidable_of_iff (∀ request ∈ pairing.requests[index]?,
        request.ip = ip → request.phase = .arrived →
          (pairing.limiter.checkPinVerify ip pairing.now).2.1 = true →
          pairing.guesses ip = 0 ∨
            pairing.guesses ip + pairing.attempts ip < rlPinAttemptsMax)
        (by cases found : pairing.requests[index]? <;> simp [SlotLeft, found])
  | .arrive .. | .generate .. | .cancel | .checkUnauth _ | .gc | .tick _ =>
      isTrue trivial

theorem two_guesses_at_once :
    ((start 0 none).run (firstGuess ++ twoAtOnce)).wrongGuesses phone ≤
      ((start 0 none).run firstGuess).wrongGuesses phone + 5 := by
  have same : ∀ state ∈ Runs.visited step ((start 0 none).run firstGuess)
      twoAtOnce, state.window phone = some 61 := by
    decide +kernel
  have bounded := wrong_guesses_bounded 0 none firstGuess twoAtOnce phone
    (by decide +kernel) (some 61) same
  rw [run, List.foldl_append]
  exact bounded _ (Runs.mem_visited_final _ _)

end Pairing

end Httpd
