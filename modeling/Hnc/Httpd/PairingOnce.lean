import Hnc.Httpd.Pairing

/-!
# One token for each PIN

A request that holds the right PIN issues a token and deletes `pair_pending`
afterwards.  Until then another request can still read the file.  When no
request with the right PIN reads the file while another one is on its way
between reading and deleting it, each file pays for at most one token.
-/

namespace Httpd

open Posix

namespace Request

/-- The request has read the file `number` and its PIN is the right one. -/
def isHeir (number : Nat) (request : Request) : Bool :=
  match request.phase with
  | .read file =>
      file.number == number &&
        match parsePairPending file.text with
        | .ok pending => request.form == some pending.pin
        | .error _ => false
  | .fresh held pending => held == number && request.form == some pending.pin
  | .matched held _ => held == number
  | _ => false

/-- The request has issued a token for the file `number` and not yet deleted
`pair_pending`. -/
def isFinishing (number : Nat) (request : Request) : Bool :=
  match request.phase with
  | .issued held _ _ | .marked held _ => held == number
  | _ => false

/-- The file that a request refers to. -/
def file? (request : Request) : Option Nat :=
  match request.phase with
  | .read file => some file.number
  | .fresh number _ | .matched number _ | .issued number _ _
  | .marked number _ => some number
  | _ => none

end Request

/-- The request would have the right PIN if it read `file` now. -/
def holdsPin (file : PendingFile) (request : Request) : Bool :=
  ({ request with phase := .read file } : Request).isHeir file.number

namespace Pairing

/-- A request with the right PIN does not read the file while another one is
between its own read of it and the deletion. -/
def ReadsAlone (pairing : Pairing) : PairStep → Prop
  | .advance index _ =>
      match pairing.requests[index]?, pairing.pending with
      | some request, some file =>
          request.phase = .wellFormed → holdsPin file request = true →
            ∀ other ∈ pairing.requests, other.isHeir file.number = false ∧
              other.isFinishing file.number = false
      | _, _ => True
  | _ => True

instance (pairing : Pairing) (next : PairStep) :
    Decidable (pairing.ReadsAlone next) := by
  cases next with
  | advance index _ =>
      cases found : pairing.requests[index]? with
      | none => exact isTrue (by simp [ReadsAlone, found])
      | some request =>
          cases present : pairing.pending with
          | none => exact isTrue (by simp [ReadsAlone, found, present])
          | some file =>
              exact decidable_of_iff
                (request.phase = .wellFormed → holdsPin file request = true →
                  ∀ other ∈ pairing.requests,
                    other.isHeir file.number = false ∧
                      other.isFinishing file.number = false)
                (by simp [ReadsAlone, found, present])
  | _ => exact isTrue trivial

structure Once (pairing : Pairing) : Prop where
  once : ∀ number, pairing.issued.count number +
    pairing.requests.countP (Request.isHeir number) ≤ 1
  finishing : ∀ file, pairing.pending = some file →
    file.number ∈ pairing.issued →
    ∃ request ∈ pairing.requests, request.isFinishing file.number = true
  pendingOld : ∀ file, pairing.pending = some file →
    file.number < pairing.written
  issuedOld : ∀ number ∈ pairing.issued, number < pairing.written
  requestsOld : ∀ request ∈ pairing.requests, ∀ number,
    request.file? = some number → number < pairing.written

theorem start_once (now : Nat) (tokensFile : Option File) :
    (start now tokensFile).Once := by
  constructor
  case once => simp [start]
  case finishing => intro file present; cases present
  case pendingOld => intro file present; cases present
  case issuedOld => intro number member; cases member
  case requestsOld => intro request member; cases member

variable {index : Nat}

theorem countP_set_of_getElem {Entry : Type} {entries : List Entry} {old : Entry}
    (found : entries[index]? = some old) (new : Entry) (test : Entry → Bool) :
    (entries.set index new).countP test + (if test old then 1 else 0) =
      entries.countP test + if test new then 1 else 0 := by
  induction entries generalizing index with
  | nil => simp at found
  | cons first rest induction =>
      cases index with
      | zero =>
          simp only [List.getElem?_cons_zero, Option.some.injEq] at found
          subst found
          simp only [List.set_cons_zero, List.countP_cons]
          omega
      | succ index =>
          have tail := @induction index (by simpa using found)
          simp only [List.set_cons_succ, List.countP_cons]
          omega

theorem isHeir_file {number : Nat} {request : Request}
    (heir : request.isHeir number = true) : request.file? = some number := by
  unfold Request.isHeir at heir
  unfold Request.file?
  split at heir
  · rename_i file isRead
    simp only [Bool.and_eq_true, beq_iff_eq] at heir
    simp [isRead, heir.1]
  · rename_i held pending isFresh
    simp only [Bool.and_eq_true, beq_iff_eq] at heir
    simp [isFresh, heir.1]
  · rename_i held pending isMatched
    simp only [beq_iff_eq] at heir
    simp [isMatched, heir]
  · cases heir

/-- One request goes on without taking a PIN from the file. -/
theorem Once.move {pairing next : Pairing} (once : pairing.Once)
    {index : Nat} {old new : Request}
    (found : pairing.requests[index]? = some old)
    (requests : next.requests = pairing.requests.set index new)
    (written : next.written = pairing.written)
    (pays : ∀ number, next.issued.count number +
        (if new.isHeir number then 1 else 0) ≤
      pairing.issued.count number + if old.isHeir number then 1 else 0)
    (keeps : ∀ file, next.pending = some file →
      pairing.pending = some file ∧
        (old.isFinishing file.number = true →
          new.isFinishing file.number = true) ∧
        (file.number ∈ next.issued → file.number ∈ pairing.issued ∨
          new.isFinishing file.number = true))
    (oldIssued : ∀ number ∈ next.issued, number < pairing.written)
    (oldFile : ∀ number, new.file? = some number →
      number < pairing.written) :
    next.Once := by
  have bound : index < pairing.requests.length :=
    (List.getElem?_eq_some_iff.mp found).1
  constructor
  case once =>
    intro number
    have before := once.once number
    have counts := countP_set_of_getElem found new (Request.isHeir number)
    have paid := pays number
    rw [requests]
    omega
  case finishing =>
    intro file present issued
    obtain ⟨wasPending, still, origin⟩ := keeps file present
    have newMember : new ∈ next.requests := by
      rw [requests]
      exact List.mem_set bound new
    rcases origin issued with before | fresh
    · obtain ⟨request, member, isFinishing⟩ :=
        once.finishing file wasPending before
      obtain ⟨at_, located⟩ := List.mem_iff_getElem?.mp member
      by_cases same : at_ = index
      · subst same
        rw [found] at located
        cases located
        exact ⟨new, newMember, still isFinishing⟩
      · refine ⟨request, ?_, isFinishing⟩
        rw [requests, List.mem_iff_getElem?]
        exact ⟨at_, by rw [List.getElem?_set_ne (Ne.symm same)]; exact located⟩
    · exact ⟨new, newMember, fresh⟩
  case pendingOld =>
    intro file present
    rw [written]
    exact once.pendingOld file (keeps file present).1
  case issuedOld =>
    rw [written]
    exact oldIssued
  case requestsOld =>
    intro request member number isFile
    rw [written]
    rw [requests] at member
    rcases List.mem_or_eq_of_mem_set member with before | rfl
    · exact once.requestsOld request before number isFile
    · exact oldFile number isFile

variable {old : Request} {pairing next : Pairing}

theorem Once.goesOn (once : pairing.Once) {phase : Phase}
    (found : pairing.requests[index]? = some old)
    (requests : next.requests = pairing.requests.set index { old with phase := phase })
    (written : next.written = pairing.written)
    (issued : next.issued = pairing.issued)
    (pending : next.pending = pairing.pending ∨ next.pending = none)
    (heir : ∀ number, ({ old with phase := phase } : Request).isHeir number = true → old.isHeir number = true)
    (finishing : ∀ number, next.pending ≠ none → old.isFinishing number = true → ({ old with phase := phase } : Request).isFinishing number = true)
    (file : ∀ number, ({ old with phase := phase } : Request).file? = some number → old.file? = some number) :
    next.Once := by
  have member := List.mem_of_getElem? found
  apply once.move found requests written
  · intro number
    rw [issued]
    by_cases isHeir : ({ old with phase := phase } : Request).isHeir number =
        true
    · rw [if_pos isHeir, if_pos (heir number isHeir)]
    · rw [if_neg isHeir]
      omega
  · intro present isPending
    have notNone : next.pending ≠ none := by
      rw [isPending]
      simp
    refine ⟨?_, finishing present.number notNone, ?_⟩
    · rcases pending with same | none
      · rw [← same]
        exact isPending
      · exact absurd none notNone
    · rw [issued]
      exact .inl
  · rw [issued]
    exact once.issuedOld
  · intro number isFile
    exact once.requestsOld old member number (file number isFile)

/-- A request that has finished, failed or not yet read the file. -/
def Phase.isOutside : Phase → Bool
  | .read _ | .fresh _ _ | .matched _ _ | .issued _ _ _ | .marked _ _ => false
  | _ => true

section

variable {request : Request} (outside : Phase.isOutside request.phase = true)
include outside

theorem outside_isHeir (number : Nat) :
    request.isHeir number = false := by
  unfold Request.isHeir
  cases phase : request.phase <;> simp_all [Phase.isOutside]

theorem outside_isFinishing (number : Nat) :
    request.isFinishing number = false := by
  unfold Request.isFinishing
  cases phase : request.phase <;> simp_all [Phase.isOutside]

theorem outside_file :
    request.file? = none := by
  unfold Request.file?
  cases phase : request.phase <;> simp_all [Phase.isOutside]

end

/-- A request ends, or goes on outside the file. -/
theorem Once.leaves (once : pairing.Once) {phase : Phase}
    (found : pairing.requests[index]? = some old)
    (requests : next.requests = pairing.requests.set index { old with phase := phase })
    (written : next.written = pairing.written)
    (issued : next.issued = pairing.issued)
    (pending : next.pending = pairing.pending ∨ next.pending = none)
    (finishing : next.pending ≠ none → ∀ number, old.isFinishing number = false)
    (outside : Phase.isOutside phase = true) : next.Once := by
  apply once.goesOn found requests written issued pending
  · intro number heir
    rw [outside_isHeir outside] at heir
    cases heir
  · intro number notNone isFinishing
    rw [finishing notNone number] at isFinishing
    cases isFinishing
  · intro number isFile
    rw [outside_file outside] at isFile
    cases isFile

theorem Once.reads (once : pairing.Once) {file : PendingFile}
    (found : pairing.requests[index]? = some old)
    (wellFormed : old.phase = .wellFormed) (present : pairing.pending = some file)
    (alone : holdsPin file old = true → ∀ other ∈ pairing.requests, other.isHeir file.number = false ∧ other.isFinishing file.number = false) :
    (pairing.enter index old (.read file)).Once := by
  have outside : Phase.isOutside old.phase = true := by
    rw [wellFormed]
    rfl
  have isFile : ({ old with phase := .read file } : Request).file? =
      some file.number := rfl
  have notHeirOfOther : ∀ number, number ≠ file.number →
      ({ old with phase := .read file } : Request).isHeir number = false := by
    intro number different
    rw [Bool.eq_false_iff]
    intro heir
    have same := isFile.symm.trans (isHeir_file heir)
    exact different (Option.some.inj same).symm
  cases right : holdsPin file old with
  | false =>
      refine @Once.move pairing (pairing.enter index old (.read file)) once
        index old { old with phase := .read file } found rfl rfl ?_ ?_ ?_ ?_
      · intro number
        have notHeir : ({ old with phase := .read file } : Request).isHeir
            number = false := by
          by_cases same : number = file.number
          · rw [same]
            exact right
          · exact notHeirOfOther number same
        rw [notHeir]
        simp [enter]
      · intro pending isPending
        refine ⟨isPending, ?_, .inl⟩
        intro isFinishing
        rw [outside_isFinishing outside] at isFinishing
        cases isFinishing
      · exact once.issuedOld
      · intro number sameFile
        cases sameFile
        exact once.pendingOld file present
  | true =>
      have others := alone right
      have noHeir : pairing.requests.countP (Request.isHeir file.number) =
          0 := by
        rw [List.countP_eq_zero]
        intro other member isHeir
        rw [(others other member).1] at isHeir
        cases isHeir
      have notIssued : file.number ∉ pairing.issued := by
        intro issued
        obtain ⟨request, member, isFinishing⟩ :=
          once.finishing file present issued
        rw [(others request member).2] at isFinishing
        cases isFinishing
      constructor
      case once =>
        intro number
        have counts := countP_set_of_getElem found
          { old with phase := .read file } (Request.isHeir number)
        by_cases same : number = file.number
        · subst same
          have isRight : ({ old with phase := .read file } : Request).isHeir
              file.number = true := right
          rw [isRight] at counts
          simp only [if_true] at counts
          simp only [enter, List.count_eq_zero_of_not_mem notIssued]
          omega
        · rw [notHeirOfOther number same] at counts
          have before := once.once number
          simp only [enter]
          simp only [Bool.false_eq_true, if_false] at counts
          omega
      case finishing =>
        intro pending isPending issued
        have isPending : pairing.pending = some pending := isPending
        rw [present] at isPending
        cases isPending
        exact absurd issued notIssued
      case pendingOld => exact once.pendingOld
      case issuedOld => exact once.issuedOld
      case requestsOld =>
        intro request member number sameFile
        rcases List.mem_or_eq_of_mem_set member with before | rfl
        · exact once.requestsOld request before number sameFile
        · cases sameFile
          exact once.pendingOld file present

/-- The holder of the right PIN turns it into a token. -/
theorem Once.issues (once : pairing.Once) {number : Nat} {held : PairPending}
    {tokenID : Text} (found : pairing.requests[index]? = some old)
    (matched : old.phase = .matched number held)
    (requests : next.requests = pairing.requests.set index { old with phase := .issued number held tokenID })
    (written : next.written = pairing.written)
    (issued : next.issued = number :: pairing.issued)
    (pending : next.pending = pairing.pending) : next.Once := by
  have member := List.mem_of_getElem? found
  have wasHeir : ∀ other, old.isHeir other = (number == other) := by
    intro other
    simp [Request.isHeir, matched]
  have old_file : old.file? = some number := by
    simp [Request.file?, matched]
  apply once.move found requests written
  · intro other
    have notHeir : ({ old with
        phase := .issued number held tokenID } : Request).isHeir other =
        false := rfl
    rw [notHeir, wasHeir, issued, List.count_cons]
    by_cases same : number = other
    · simp
    · have different : (number == other) = false := by simpa using same
      simp [different]
  · intro file isPending
    rw [pending] at isPending
    refine ⟨isPending, ?_, ?_⟩
    · intro isFinishing
      simp [Request.isFinishing, matched] at isFinishing
    · rw [issued]
      intro isIssued
      rcases List.mem_cons.mp isIssued with same | before
      · right
        simp [Request.isFinishing, same]
      · exact .inl before
  · rw [issued]
    intro other isIssued
    rcases List.mem_cons.mp isIssued with rfl | before
    · exact once.requestsOld old member other old_file
    · exact once.issuedOld other before
  · intro other isFile
    exact once.requestsOld old member other (old_file.trans isFile)

theorem advance_once (once : pairing.Once) {request : Request}
    (found : pairing.requests[index]? = some request) (random : Randomness)
    (alone : pairing.ReadsAlone (.advance index random)) :
    (pairing.advance index request random).Once := by
  have quiet : ∀ {phase : Phase}, request.phase = phase →
      (∀ number, ({ request with phase := phase } : Request).isFinishing
        number = false) → ∀ number, request.isFinishing number = false := by
    intro phase same none number
    have unchanged : ({ request with phase := phase } : Request) =
        request := by
      rw [← same]
    rw [← unchanged]
    exact none number
  cases phase : request.phase with
  | arrived =>
      simp only [advance, phase]
      refine once.leaves found rfl rfl rfl (.inl rfl)
        (fun _ => quiet phase fun _ => rfl) ?_
      split <;> rfl
  | checked =>
      simp only [advance, phase]
      refine once.leaves found rfl rfl rfl (.inl rfl)
        (fun _ => quiet phase fun _ => rfl) ?_
      unfold checkForm
      split
      · rfl
      · split
        · rfl
        · split <;> rfl
  | badFormat =>
      simp only [advance, phase]
      exact once.leaves found rfl rfl rfl (.inl rfl)
        (fun _ => quiet phase fun _ => rfl) rfl
  | wellFormed =>
      cases present : pairing.pending with
      | none =>
          simp only [advance, phase, present]
          exact once.leaves found rfl rfl rfl (.inl rfl)
            (fun _ => quiet phase fun _ => rfl) rfl
      | some file =>
          simp only [advance, phase, present]
          simp only [ReadsAlone, found, present] at alone
          exact once.reads found phase present (alone phase)
  | read file =>
      cases parsed : parsePairPending file.text with
      | error error =>
          simp only [advance, phase, parsed]
          exact once.leaves found rfl rfl rfl (.inl rfl)
            (fun _ => quiet phase fun _ => rfl) rfl
      | ok pending =>
          simp only [advance, phase, parsed]
          split
          · exact once.leaves found rfl rfl rfl (.inr rfl)
              (fun _ => quiet phase fun _ => rfl) rfl
          · refine once.goesOn found rfl rfl rfl (.inl rfl) ?_ ?_ ?_
            · intro number heir
              simpa [Request.isHeir, phase, parsed] using heir
            · intro number _ isFinishing
              rw [quiet phase fun _ => rfl] at isFinishing
              cases isFinishing
            · intro number isFile
              simpa [Request.file?, phase] using isFile
  | fresh number pending =>
      simp only [advance, phase]
      split
      · rename_i same
        refine once.goesOn found rfl rfl rfl (.inl rfl) ?_ ?_ ?_
        · intro other heir
          simpa [Request.isHeir, phase, same] using heir
        · intro other _ isFinishing
          rw [quiet phase fun _ => rfl] at isFinishing
          cases isFinishing
        · intro other isFile
          simpa [Request.file?, phase] using isFile
      · exact once.leaves found rfl rfl rfl (.inl rfl)
          (fun _ => quiet phase fun _ => rfl) rfl
  | wrong =>
      simp only [advance, phase, registerFail]
      refine once.leaves found rfl rfl rfl (.inl rfl)
        (fun _ => quiet phase fun _ => rfl) ?_
      split <;> rfl
  | lockedOut =>
      simp only [advance, phase]
      exact once.leaves found rfl rfl rfl (.inl rfl)
        (fun _ => quiet phase fun _ => rfl) rfl
  | matched number pending =>
      simp only [advance, phase]
      split
      · exact once.leaves found rfl rfl rfl (.inl rfl)
          (fun _ => quiet phase fun _ => rfl) rfl
      · exact once.issues found phase rfl rfl rfl rfl
  | issued number pending tokenID =>
      simp only [advance, phase]
      refine once.goesOn found rfl rfl rfl (.inl rfl) ?_ ?_ ?_
      · intro other heir
        cases heir
      · intro other _ isFinishing
        simpa [Request.isFinishing, phase] using isFinishing
      · intro other isFile
        simpa [Request.file?, phase] using isFile
  | marked number tokenID =>
      simp only [advance, phase]
      exact once.leaves found rfl rfl rfl (.inr rfl)
        (fun notNone => absurd rfl notNone) rfl
  | deleted tokenID =>
      simp only [advance, phase]
      exact once.leaves found rfl rfl rfl (.inl rfl)
        (fun _ => quiet phase fun _ => rfl) rfl
  | done response =>
      simp only [advance, phase]
      exact once

theorem step_once (pairing : Pairing) (next : PairStep) (once : pairing.Once)
    (alone : pairing.ReadsAlone next) : (pairing.step next).Once := by
  cases next with
  | arrive ip form =>
      constructor
      case once =>
        intro number
        have arrived : ({ ip := ip, form := form, phase := .arrived } :
            Request).isHeir number = false := rfl
        simpa [step, arrived] using once.once number
      case finishing =>
        intro file present issued
        obtain ⟨request, member, isFinishing⟩ :=
          once.finishing file present issued
        exact ⟨request, List.mem_append_left _ member, isFinishing⟩
      case pendingOld => exact once.pendingOld
      case issuedOld => exact once.issuedOld
      case requestsOld =>
        intro request member number isFile
        rcases List.mem_append.mp member with before | new
        · exact once.requestsOld request before number isFile
        · rw [List.mem_singleton.mp new] at isFile
          cases isFile
  | advance index random =>
      simp only [step]
      cases found : pairing.requests[index]? with
      | none => exact once
      | some request => exact advance_once once found random alone
  | generate num candidates =>
      simp only [step]
      cases pairGen num candidates pairing.now with
      | none => exact once
      | some text =>
          constructor
          case once => exact once.once
          case finishing =>
            intro file present issued
            cases present
            exact absurd (once.issuedOld _ issued) (Nat.lt_irrefl _)
          case pendingOld =>
            intro file present
            cases present
            exact Nat.lt_succ_self _
          case issuedOld =>
            intro number issued
            exact Nat.lt_succ_of_lt (once.issuedOld number issued)
          case requestsOld =>
            intro request member number isFile
            have before := once.requestsOld request member number isFile
            exact Nat.lt_succ_of_lt before
  | cancel =>
      constructor
      case once => exact once.once
      case finishing => intro file present; cases present
      case pendingOld => intro file present; cases present
      case issuedOld => exact once.issuedOld
      case requestsOld => exact once.requestsOld
  | checkUnauth _ | gc | tick _ =>
      exact ⟨once.once, once.finishing, once.pendingOld, once.issuedOld,
        once.requestsOld⟩

/-- Each file of `pair_gen.sh` pays for at most one token, in every order of
steps in which no request with the right PIN reads the file while another one is
between its read and its deletion. -/
theorem pin_pays_once (now : Nat) (tokensFile : Option File)
    (steps : List PairStep)
    (alone : Runs.Guarded step ReadsAlone (start now tokensFile) steps) :
    ∀ state ∈ Runs.visited step (start now tokensFile) steps,
      ∀ number, state.issued.count number ≤ 1 := by
  intro state member number
  have once := alone.induction Once
    (fun state next holds ok => step_once state next holds ok)
    (start_once now tokensFile) state member
  have count := once.once number
  omega

def phone : Text := "192.168.43.21".toList
def laptop : Text := "192.168.43.22".toList

def guessed : Option Text := some "123456".toList

def firstRandom : Randomness :=
  { hash := "h1".toList, ids := ["id1".toList], label := [], stat := ⟨1, 200⟩ }

def secondRandom : Randomness :=
  { hash := "h2".toList, ids := ["id2".toList], label := [], stat := ⟨2, 300⟩ }

/-- The owner asks for a PIN, and two devices send it. -/
def twoArrive : List PairStep :=
  [.generate 123456 ["sessionid000".toList], .arrive phone guessed,
    .arrive laptop guessed]

def goOn (index times : Nat) (random : Randomness) : List PairStep :=
  List.replicate times (.advance index random)

/-- Both read the file before either deletes it. -/
def bothRead : List PairStep :=
  twoArrive ++ goOn 0 3 firstRandom ++ goOn 1 3 secondRandom ++
    goOn 0 5 firstRandom ++ goOn 1 5 secondRandom

/-- Two tokens for one PIN. -/
theorem both_are_paired :
    ((start 0 none).run bothRead).issued.count 0 = 2 ∧
      ((start 0 none).run bothRead).written = 1 := by
  decide +kernel

/-- The second device reads the file after the first has deleted it. -/
def oneAfterTheOther : List PairStep :=
  twoArrive ++ goOn 0 9 firstRandom ++ goOn 1 9 secondRandom

theorem oneAfterTheOther_pays_once :
    ((start 0 none).run oneAfterTheOther).issued.count 0 ≤ 1 := by
  have alone : Runs.Guarded step ReadsAlone (start 0 none)
      oneAfterTheOther := by
    decide +kernel
  exact pin_pays_once 0 none oneAfterTheOther alone _
    (Runs.mem_visited_final _ _) 0

end Pairing

end Httpd
