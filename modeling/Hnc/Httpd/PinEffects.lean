import Hnc.Httpd.PairingOnce
import Hnc.Httpd.RateLimitLock

/-!
# What a step does to the guesses of an IP

A request of an IP passes the check, is compared and is counted in three
different steps.  `Effect` says what any step of the pairing can do to the entry
of the IP, to its requests between the check and the count, and to its wrong
guesses so far.
-/

namespace Httpd

open Posix
open KeyMap

/-- What the calls of other IPs, the unauthenticated requests, the checks and
the collector may do to an entry. -/
inductive Touched : Option RlEntry → Option RlEntry → Prop where
  | gone (old : Option RlEntry) : Touched old none
  | kept {old new : RlEntry} (same : SamePin old new) :
      Touched (some old) (some new)
  | created {new : RlEntry} (attempts : new.pinAttempts = 0)
      (window : new.pinWindowStart = 0) : Touched none (some new)

theorem Touched.refl (entry : Option RlEntry) : Touched entry entry := by
  cases entry with
  | none => exact .gone none
  | some entry => exact .kept (.refl entry)

variable {ip : Text}

namespace RateLimiter

theorem getOrCreate_touched {rl rl' : RateLimiter} {user : Text} {now : Int}
    {entry : RlEntry} (got : rl.getOrCreate user now = some (rl', entry))
    (ip : Text) : Touched (rl.entries.lookup ip) (rl'.entries.lookup ip) := by
  by_cases own : ip = user
  · subst own
    obtain ⟨stored, ⟨absent, fresh⟩ | ⟨old, found, touched⟩⟩ :=
      getOrCreate_own got
    · rw [absent, stored, fresh]
      exact .created rfl rfl
    · rw [found, stored, touched]
      exact .kept ⟨rfl, rfl, rfl⟩
  · rcases getOrCreate_other got own with same | ⟨gone, _⟩
    · rw [same]
      exact .refl _
    · rw [gone]
      exact .gone _

theorem checkPinVerify_touched (rl : RateLimiter) (user : Text) (now : Int)
    (ip : Text) : Touched (rl.entries.lookup ip)
      ((rl.checkPinVerify user now).1.entries.lookup ip) := by
  rw [checkPinVerify_fst]
  cases got : rl.getOrCreate user now with
  | none => exact .refl _
  | some result => exact getOrCreate_touched got ip

/-- The store of a changed entry of `user` after `getOrCreate`. -/
theorem setEntry_touched {rl rl' : RateLimiter} {user : Text} {now : Int}
    {entry changed : RlEntry} (got : rl.getOrCreate user now = some (rl', entry))
    (same : ip = user → SamePin entry changed) :
    Touched (rl.entries.lookup ip)
      ((rl'.setEntry user changed).entries.lookup ip) := by
  have touched := getOrCreate_touched got ip
  rw [lookup_setEntry]
  by_cases own : ip = user
  · rw [if_pos own]
    have pin := same own
    subst own
    rw [(getOrCreate_own got).1] at touched
    generalize rl.entries.lookup ip = old at touched ⊢
    cases touched with
    | kept before =>
        exact .kept ⟨pin.attempts.trans before.attempts,
          pin.window.trans before.window, pin.lock.trans before.lock⟩
    | created attempts window =>
        exact .created (pin.attempts.trans attempts)
          (pin.window.trans window)
  · rw [if_neg own]
    exact touched

theorem checkUnauth_touched (rl : RateLimiter) (user : Text) (now : Int)
    (ip : Text) : Touched (rl.entries.lookup ip)
      ((rl.checkUnauth user now).1.entries.lookup ip) := by
  unfold checkUnauth
  cases got : rl.getOrCreate user now with
  | none =>
      dsimp only
      split <;> exact .refl _
  | some result =>
      dsimp only
      split <;> exact setEntry_touched got fun _ => ⟨rfl, rfl, rfl⟩

theorem registerPinFail_touched (rl : RateLimiter) (user : Text) (now : Int)
    (other : ip ≠ user) : Touched (rl.entries.lookup ip)
      ((rl.registerPinFail user now).1.entries.lookup ip) := by
  unfold registerPinFail
  cases got : rl.getOrCreate user now with
  | none => exact .refl _
  | some result =>
      exact setEntry_touched got fun own => absurd own other

theorem resetPin_touched (rl : RateLimiter) (user : Text) (other : ip ≠ user) :
    Touched (rl.entries.lookup ip)
      ((rl.resetPin user).entries.lookup ip) := by
  unfold resetPin
  cases rl.entries.lookup user with
  | none => exact .refl _
  | some entry =>
      rw [lookup_setEntry, if_neg other]
      exact .refl _

theorem gc_touched (rl : RateLimiter) (now : Int) (ip : Text) :
    Touched (rl.entries.lookup ip) ((rl.gc now).entries.lookup ip) := by
  rw [lookup_gc]
  split
  · exact .gone _
  · exact .refl _

theorem registerPinFail_cases (rl : RateLimiter) (ip : Text) (now : Int) :
    (rl.entries.lookup ip = none ∧
      (rl.registerPinFail ip now).1.entries.lookup ip = none) ∨
    ∃ entry, (rl.registerPinFail ip now).1.entries.lookup ip =
        some (countFail entry now) ∧
      (rl.entries.lookup ip = none ∧ entry = newEntry now ∨
        ∃ old, rl.entries.lookup ip = some old ∧ entry = old.seenAt now) := by
  unfold registerPinFail
  cases got : rl.getOrCreate ip now with
  | none =>
      left
      cases found : rl.entries.lookup ip with
      | none => exact ⟨rfl, rfl⟩
      | some old =>
          rw [getOrCreate_of_found found] at got
          cases got
  | some result =>
      right
      refine ⟨result.2, by simp, ?_⟩
      exact (getOrCreate_own got).2

end RateLimiter

/-- The request has passed the check and its PIN has not been compared. -/
def Phase.isUndecided : Phase → Bool
  | .checked | .badFormat | .wellFormed | .read _ | .fresh _ _ => true
  | _ => false

/-- The PIN was compared and is wrong, and the failure is not counted yet. -/
def Phase.isMissed : Phase → Bool
  | .wrong => true
  | _ => false

namespace Pairing

def entry (pairing : Pairing) (ip : Text) : Option RlEntry :=
  pairing.limiter.entries.lookup ip

/-- The counting window of an IP. -/
def window (pairing : Pairing) (ip : Text) : Option Int :=
  (pairing.entry ip).map RlEntry.pinWindowStart

def attempts (pairing : Pairing) (ip : Text) : Nat :=
  (pairing.entry ip).elim 0 RlEntry.pinAttempts

/-- The requests of `ip` in a phase that satisfies `test`. -/
def inPhase (pairing : Pairing) (ip : Text) (test : Phase → Bool) : Nat :=
  pairing.requests.countP fun request =>
    request.ip == ip && test request.phase

def undecided (pairing : Pairing) (ip : Text) : Nat :=
  pairing.inPhase ip Phase.isUndecided

def missed (pairing : Pairing) (ip : Text) : Nat :=
  pairing.inPhase ip Phase.isMissed

/-- The requests of `ip` between the check and the count. -/
def guesses (pairing : Pairing) (ip : Text) : Nat :=
  pairing.undecided ip + pairing.missed ip

def wrongGuesses (pairing : Pairing) (ip : Text) : Nat :=
  pairing.compared.count ip

/-- A request of `ip` passes the check only when it is the only one between the
check and the count, or when the others are fewer than the failures left. -/
def SlotLeft (ip : Text) (pairing : Pairing) : PairStep → Prop
  | .advance index _ =>
      match pairing.requests[index]? with
      | some request =>
          request.ip = ip → request.phase = .arrived →
            (pairing.limiter.checkPinVerify ip pairing.now).2.1 = true →
            pairing.guesses ip = 0 ∨
              pairing.guesses ip + pairing.attempts ip < rlPinAttemptsMax
      | none => True
  | _ => True

/-- What a step does as far as the guesses of `ip` are concerned. -/
inductive Effect (ip : Text) (before after : Pairing) : Prop where
  | touch (entry : Touched (before.entry ip) (after.entry ip))
      (undecided : after.undecided ip ≤ before.undecided ip)
      (missed : after.missed ip = before.missed ip)
      (wrong : after.wrongGuesses ip = before.wrongGuesses ip)
      (later : before.now ≤ after.now)
  | pass (entry : Touched (before.entry ip) (after.entry ip))
      (found : RlEntry) (present : after.entry ip = some found)
      (unlocked : found.pinLockTS ≤ before.now)
      (slot : before.guesses ip = 0 ∨
        before.guesses ip + before.attempts ip < rlPinAttemptsMax)
      (undecided : after.undecided ip = before.undecided ip + 1)
      (missed : after.missed ip = before.missed ip)
      (wrong : after.wrongGuesses ip = before.wrongGuesses ip)
      (now : after.now = before.now)
  | miss (entry : after.entry ip = before.entry ip)
      (undecided : after.undecided ip + 1 = before.undecided ip)
      (missed : after.missed ip = before.missed ip + 1)
      (wrong : after.wrongGuesses ip = before.wrongGuesses ip + 1)
      (now : after.now = before.now)
  | count (entry : (before.entry ip = none ∧ after.entry ip = none) ∨
        ∃ found, after.entry ip =
            some (RateLimiter.countFail found before.now) ∧
          (before.entry ip = none ∧
              found = RateLimiter.newEntry before.now ∨
            ∃ old, before.entry ip = some old ∧
              found = old.seenAt before.now))
      (decided : (after.undecided ip + 1 = before.undecided ip ∧
          after.missed ip = before.missed ip) ∨
        (after.undecided ip = before.undecided ip ∧
          after.missed ip + 1 = before.missed ip))
      (wrong : after.wrongGuesses ip = before.wrongGuesses ip)
      (now : after.now = before.now)
  | reset (entry : ∀ found, after.entry ip = some found →
        before.entry ip ≠ none ∧ found.pinAttempts = 0 ∧
          found.pinWindowStart = 0)
      (undecided : after.undecided ip = before.undecided ip)
      (missed : after.missed ip = before.missed ip)
      (wrong : after.wrongGuesses ip = before.wrongGuesses ip)
      (now : after.now = before.now)

section Requests

variable {pairing next : Pairing} {index : Nat} {request : Request}
  {phase : Phase}

section

variable (found : pairing.requests[index]? = some request)
  (requests : next.requests = pairing.requests.set index { request with phase := phase })
include found requests

theorem inPhase_enter (ip : Text) (test : Phase → Bool) :
    next.inPhase ip test +
        (if request.ip == ip && test request.phase then 1 else 0) =
      pairing.inPhase ip test +
        if request.ip == ip && test phase then 1 else 0 := by
  have counts := countP_set_of_getElem found { request with phase := phase }
    fun request => request.ip == ip && test request.phase
  unfold inPhase
  rw [requests]
  exact counts

theorem inPhase_other (other : request.ip ≠ ip) (test : Phase → Bool) :
    next.inPhase ip test = pairing.inPhase ip test := by
  have counts := inPhase_enter found requests ip test
  have different : (request.ip == ip) = false := by simpa using other
  simpa [different] using counts

theorem inPhase_own (test : Phase → Bool) :
    next.inPhase request.ip test +
        (if test request.phase then 1 else 0) =
      pairing.inPhase request.ip test + if test phase then 1 else 0 := by
  simpa using inPhase_enter found requests request.ip test

/-- A step of a request of another IP. -/
theorem effect_of_other (other : request.ip ≠ ip)
    (touched : Touched (pairing.entry ip) (next.entry ip))
    (compared : next.compared = pairing.compared ∨ next.compared = request.ip :: pairing.compared)
    (now : next.now = pairing.now) : Effect ip pairing next := by
  apply Effect.touch touched
  · exact Nat.le_of_eq (inPhase_other found requests other _)
  · exact inPhase_other found requests other _
  · unfold wrongGuesses
    rcases compared with same | one
    · rw [same]
    · rw [one, List.count_cons_of_ne other]
  · exact Int.le_of_eq now.symm

/-- A step of a request of the IP that decides nothing about a guess. -/
theorem effect_of_quiet
    (touched : Touched (pairing.entry request.ip) (next.entry request.ip))
    (compared : next.compared = pairing.compared) (now : next.now = pairing.now)
    (undecided : phase.isUndecided = true → request.phase.isUndecided = true)
    (missed : phase.isMissed = request.phase.isMissed) :
    Effect request.ip pairing next := by
  have undecidedCount := inPhase_own found requests Phase.isUndecided
  have missedCount := inPhase_own found requests Phase.isMissed
  apply Effect.touch touched
  · unfold Pairing.undecided
    cases isUndecided : phase.isUndecided with
    | false => simp [isUndecided] at undecidedCount; omega
    | true =>
        simp [isUndecided, undecided isUndecided] at undecidedCount
        omega
  · unfold Pairing.missed
    rw [missed] at missedCount
    omega
  · unfold wrongGuesses
    rw [compared]
  · exact Int.le_of_eq now.symm

end

section

variable (found : pairing.requests[index]? = some request)
include found

theorem effect_of_count (next : Bool → Nat → Phase)
    (guess : request.phase.isUndecided = true ∨ request.phase.isMissed = true)
    (decided : ∀ locked remaining,
      (next locked remaining).isUndecided = false ∧
        (next locked remaining).isMissed = false) :
    Effect request.ip pairing
      (pairing.registerFail index request next) := by
  simp only [registerFail]
  generalize result : pairing.limiter.registerPinFail request.ip pairing.now =
    outcome
  obtain ⟨limiter, locked, remaining⟩ := outcome
  have cases_entry := pairing.limiter.registerPinFail_cases request.ip
    pairing.now
  rw [result] at cases_entry
  have undecidedCount := @inPhase_own pairing
    ({ pairing with limiter := limiter }.enter index request
      (next locked remaining)) index request (next locked remaining) found rfl
    Phase.isUndecided
  have missedCount := @inPhase_own pairing
    ({ pairing with limiter := limiter }.enter index request
      (next locked remaining)) index request (next locked remaining) found rfl
    Phase.isMissed
  rw [(decided locked remaining).1] at undecidedCount
  rw [(decided locked remaining).2] at missedCount
  refine .count cases_entry ?_ rfl rfl
  unfold Pairing.undecided Pairing.missed
  cases phase : request.phase <;>
    simp_all [Phase.isUndecided, Phase.isMissed]

theorem effect_of_pass (arrived : request.phase = .arrived)
    (slot : (pairing.limiter.checkPinVerify request.ip pairing.now).2.1 =
        true →
      pairing.guesses request.ip = 0 ∨
        pairing.guesses request.ip + pairing.attempts request.ip <
          rlPinAttemptsMax) (random : Randomness) :
    Effect request.ip pairing (pairing.advance index request random) := by
  have touched := pairing.limiter.checkPinVerify_touched request.ip
    pairing.now request.ip
  simp only [advance, arrived]
  cases allowed : (pairing.limiter.checkPinVerify request.ip
      pairing.now).2.1 with
  | false =>
      exact effect_of_quiet found rfl touched rfl rfl
        (fun absurdity => by cases absurdity) (by rw [arrived]; rfl)
  | true =>
      have undecidedCount := @inPhase_own pairing
        ({ pairing with limiter := (pairing.limiter.checkPinVerify request.ip
          pairing.now).1 }.enter index request .checked) index request
        .checked found rfl Phase.isUndecided
      have missedCount := @inPhase_own pairing
        ({ pairing with limiter := (pairing.limiter.checkPinVerify request.ip
          pairing.now).1 }.enter index request .checked) index request
        .checked found rfl Phase.isMissed
      simp only [arrived] at undecidedCount missedCount
      unfold RateLimiter.checkPinVerify at allowed
      cases got : pairing.limiter.getOrCreate request.ip pairing.now with
      | none => simp [got] at allowed
      | some result =>
          have unlocked : result.2.pinLockTS ≤ pairing.now := by
            simp only [got] at allowed
            split at allowed
            · cases allowed
            · omega
          have stored : (pairing.limiter.checkPinVerify request.ip
              pairing.now).1.entries.lookup request.ip = some result.2 := by
            rw [RateLimiter.checkPinVerify_fst, got]
            exact (RateLimiter.getOrCreate_own got).1
          refine .pass touched result.2 stored unlocked (slot ?_) ?_ ?_ rfl rfl
          · unfold RateLimiter.checkPinVerify
            simp only [got]
            rw [if_neg (by omega)]
          · exact undecidedCount
          · exact missedCount

theorem effect_of_own
    (slot : request.phase = .arrived →
      (pairing.limiter.checkPinVerify request.ip pairing.now).2.1 = true →
      pairing.guesses request.ip = 0 ∨
        pairing.guesses request.ip + pairing.attempts request.ip <
          rlPinAttemptsMax) (random : Randomness) :
    Effect request.ip pairing (pairing.advance index request random) := by
  cases phase : request.phase with
  | arrived => exact effect_of_pass found phase (slot phase) random
  | checked =>
      simp only [advance, phase]
      refine effect_of_quiet found rfl (.refl _) rfl rfl ?_ ?_
      · intro _
        rw [phase]
        rfl
      · rw [phase]
        unfold checkForm
        split
        · rfl
        · split
          · rfl
          · split <;> rfl
  | badFormat =>
      simp only [advance, phase]
      exact effect_of_count found _ (.inl (by rw [phase]; rfl))
        fun _ _ => ⟨rfl, rfl⟩
  | wellFormed =>
      simp only [advance, phase]
      split
      all_goals
        exact effect_of_quiet found rfl (.refl _) rfl rfl
          (fun _ => by rw [phase]; rfl) (by rw [phase]; rfl)
  | read file =>
      simp only [advance, phase]
      split
      · exact effect_of_quiet found rfl (.refl _) rfl rfl
          (fun _ => by rw [phase]; rfl) (by rw [phase]; rfl)
      · split
        all_goals
          exact effect_of_quiet found rfl (.refl _) rfl rfl
            (fun _ => by rw [phase]; rfl) (by rw [phase]; rfl)
  | fresh number pending =>
      simp only [advance, phase]
      split
      · exact effect_of_quiet found rfl (.refl _) rfl rfl
          (fun _ => by rw [phase]; rfl) (by rw [phase]; rfl)
      · have undecidedCount := @inPhase_own pairing
          ({ pairing with compared := request.ip :: pairing.compared }.enter
            index request .wrong) index request .wrong found rfl
          Phase.isUndecided
        have missedCount := @inPhase_own pairing
          ({ pairing with compared := request.ip :: pairing.compared }.enter
            index request .wrong) index request .wrong found rfl
          Phase.isMissed
        simp only [phase] at undecidedCount missedCount
        refine .miss rfl ?_ ?_ ?_ rfl
        · exact undecidedCount
        · exact missedCount
        · simp [wrongGuesses, enter]
  | wrong =>
      simp only [advance, phase]
      refine effect_of_count found _ (.inr (by rw [phase]; rfl)) ?_
      intro locked remaining
      cases locked <;> exact ⟨rfl, rfl⟩
  | lockedOut =>
      simp only [advance, phase]
      exact effect_of_quiet found rfl
        (pairing.limiter.checkPinVerify_touched request.ip pairing.now
          request.ip) rfl rfl
        (fun absurdity => by cases absurdity) (by rw [phase]; rfl)
  | matched number pending =>
      simp only [advance, phase]
      split
      all_goals
        exact effect_of_quiet found rfl (.refl _) rfl rfl
          (fun absurdity => by cases absurdity) (by rw [phase]; rfl)
  | issued number pending tokenID =>
      simp only [advance, phase]
      exact effect_of_quiet found rfl (.refl _) rfl rfl
        (fun absurdity => by cases absurdity) (by rw [phase]; rfl)
  | marked number tokenID =>
      simp only [advance, phase]
      exact effect_of_quiet found rfl (.refl _) rfl rfl
        (fun absurdity => by cases absurdity) (by rw [phase]; rfl)
  | deleted tokenID =>
      simp only [advance, phase]
      have undecidedCount := @inPhase_own pairing
        ({ pairing with
          limiter := pairing.limiter.resetPin request.ip }.enter index request
          (.done (.paired tokenID))) index request _ found rfl
        Phase.isUndecided
      have missedCount := @inPhase_own pairing
        ({ pairing with
          limiter := pairing.limiter.resetPin request.ip }.enter index request
          (.done (.paired tokenID))) index request _ found rfl
        Phase.isMissed
      simp only [phase] at undecidedCount missedCount
      refine .reset ?_ undecidedCount missedCount rfl rfl
      intro after stored
      simp only [entry, enter, RateLimiter.resetPin] at stored ⊢
      cases known : pairing.limiter.entries.lookup request.ip with
      | none => simp [known] at stored
      | some old =>
          simp only [known, RateLimiter.lookup_setEntry, if_true,
            Option.some.injEq] at stored
          rw [← stored]
          exact ⟨by simp, rfl, rfl⟩
  | done response =>
      simp only [advance, phase]
      exact .touch (.refl _) (Nat.le_refl _) rfl rfl (Int.le_refl _)

/-- What a step of a request does to the entry of another IP. -/
theorem advance_other (other : request.ip ≠ ip) (random : Randomness) :
    Effect ip pairing (pairing.advance index request random) := by
  have otherwise : ip ≠ request.ip := Ne.symm other
  cases phase : request.phase with
  | arrived | lockedOut =>
      simp only [advance, phase]
      exact effect_of_other found rfl other
        (pairing.limiter.checkPinVerify_touched request.ip pairing.now ip)
        (.inl rfl) rfl
  | badFormat | wrong =>
      simp only [advance, phase]
      exact effect_of_other found rfl other
        (pairing.limiter.registerPinFail_touched request.ip pairing.now
          otherwise) (.inl rfl) rfl
  | checked | issued _ _ _ | marked _ _ =>
      simp only [advance, phase]
      exact effect_of_other found rfl other (.refl _) (.inl rfl) rfl
  | wellFormed =>
      simp only [advance, phase]
      split <;> exact effect_of_other found rfl other (.refl _) (.inl rfl) rfl
  | read file =>
      simp only [advance, phase]
      split
      · exact effect_of_other found rfl other (.refl _) (.inl rfl) rfl
      · split
        all_goals
          exact effect_of_other found rfl other (.refl _) (.inl rfl) rfl
  | fresh number pending =>
      simp only [advance, phase]
      split
      · exact effect_of_other found rfl other (.refl _) (.inl rfl) rfl
      · exact effect_of_other found rfl other (.refl _) (.inr rfl) rfl
  | matched number pending =>
      simp only [advance, phase]
      split <;> exact effect_of_other found rfl other (.refl _) (.inl rfl) rfl
  | deleted tokenID =>
      simp only [advance, phase]
      exact effect_of_other found rfl other
        (pairing.limiter.resetPin_touched request.ip otherwise) (.inl rfl) rfl
  | done response =>
      simp only [advance, phase]
      exact .touch (.refl _) (Nat.le_refl _) rfl rfl (Int.le_refl _)

end

end Requests

theorem step_effect (pairing : Pairing) (next : PairStep) (ip : Text)
    (slot : pairing.SlotLeft ip next) :
    Effect ip pairing (pairing.step next) := by
  cases next with
  | arrive user form =>
      have counts : ∀ test : Phase → Bool, test .arrived = false →
          (pairing.step (.arrive user form)).inPhase ip test =
            pairing.inPhase ip test := by
        intro test notArrived
        simp [inPhase, step, notArrived]
      exact .touch (.refl _) (Nat.le_of_eq (counts _ rfl)) (counts _ rfl) rfl
        (Int.le_refl _)
  | advance index random =>
      simp only [step]
      cases found : pairing.requests[index]? with
      | none => exact .touch (.refl _) (Nat.le_refl _) rfl rfl (Int.le_refl _)
      | some request =>
          by_cases own : request.ip = ip
          · subst own
            simp only [SlotLeft, found] at slot
            exact effect_of_own found (slot trivial) random
          · exact advance_other found own random
  | generate num candidates =>
      simp only [step]
      split <;>
        exact .touch (.refl _) (Nat.le_refl _) rfl rfl (Int.le_refl _)
  | cancel => exact .touch (.refl _) (Nat.le_refl _) rfl rfl (Int.le_refl _)
  | checkUnauth user =>
      exact .touch (pairing.limiter.checkUnauth_touched user pairing.now ip)
        (Nat.le_refl _) rfl rfl (Int.le_refl _)
  | gc =>
      exact .touch (pairing.limiter.gc_touched pairing.now ip)
        (Nat.le_refl _) rfl rfl (Int.le_refl _)
  | tick seconds =>
      refine .touch (.refl _) (Nat.le_refl _) rfl rfl ?_
      simp only [step]
      omega

end Pairing

end Httpd
